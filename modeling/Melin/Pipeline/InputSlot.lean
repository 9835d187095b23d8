import Melin.Journal.Event

/-! The input ring's slots, and how the journal numbers them. -/

namespace Melin

structure InputSlot (E : Type) where
  /-- The client connection that submitted the event; zero for the node's own events. -/
  connectionId : Nat
  requestId : Nat
  keyHash : UInt64
  /-- The primary's sequence on a replica; zero where the journal stage assigns it. -/
  sequence : Nat
  timestampNs : UInt64
  event : JournalEvent E
  deriving DecidableEq, Repr

def InputSlot.shutdownSentinel {E : Type} : InputSlot E :=
  { connectionId := 0, requestId := 0, keyHash := 0, sequence := 0, timestampNs := 0
    event := .shutdown }

section

variable {E : Type} [AppEvent E]

def JournalEvent.takesWireSeq (event : JournalEvent E) : Bool := !event.isQuery && !event.isShutdown

def wireSeqsTaken (slots : List (InputSlot E)) : Nat := slots.countP (·.event.takesWireSeq)

def InputSlot.entry (slot : InputSlot E) (sequence : Nat) : JournalEntry E :=
  { sequence, timestampNs := slot.timestampNs, keyHash := slot.keyHash, event := slot.event }

def journaled (first : Nat) : List (InputSlot E) → List (JournalEntry E)
  | [] => []
  | slot :: slots =>
    if slot.event.takesWireSeq then slot.entry first :: journaled (first + 1) slots
    else journaled first slots

@[simp] theorem wireSeqsTaken_nil : wireSeqsTaken ([] : List (InputSlot E)) = 0 := rfl

@[simp] theorem wireSeqsTaken_append (front back : List (InputSlot E)) :
    wireSeqsTaken (front ++ back) = wireSeqsTaken front + wireSeqsTaken back :=
  List.countP_append

theorem wireSeqsTaken_cons (slot : InputSlot E) (slots : List (InputSlot E)) :
    wireSeqsTaken (slot :: slots)
      = (if slot.event.takesWireSeq then 1 else 0) + wireSeqsTaken slots := by
  simp [wireSeqsTaken, List.countP_cons, Nat.add_comm]

theorem wireSeqsTaken_le (slots : List (InputSlot E)) : wireSeqsTaken slots ≤ slots.length :=
  List.countP_le_length

theorem journaled_append (first : Nat) (front back : List (InputSlot E)) :
    journaled first (front ++ back)
      = journaled first front ++ journaled (first + wireSeqsTaken front) back := by
  induction front generalizing first with
  | nil => rfl
  | cons slot front ih =>
    by_cases takes : slot.event.takesWireSeq
    · simp only [List.cons_append, journaled, if_pos takes, ih, wireSeqsTaken_cons, Nat.add_assoc]
    · simp only [List.cons_append, journaled, if_neg takes, ih, wireSeqsTaken_cons, Nat.zero_add]

def SentinelLast (slots : List (InputSlot E)) : Prop :=
  ∀ front slot back, slots = front ++ slot :: back → slot.event.isShutdown = true → back = []

omit [AppEvent E] in
theorem sentinelLast_of_dropLast {slots : List (InputSlot E)}
    (none : ∀ slot ∈ slots.dropLast, slot.event.isShutdown = false) : SentinelLast slots := by
  intro front slot back split isSentinel
  by_contra behind
  have before : slot ∈ slots.dropLast := by
    rw [split, List.dropLast_append_cons, List.dropLast_cons_of_ne_nil behind]
    simp
  exact absurd isSentinel (by simp [none slot before])

end

structure AdoptedRotation where
  /-- Last sequence of the outgoing segment. -/
  boundarySeq : Nat
  /-- The primary's chain value there. -/
  tailHash : Digest
  deriving DecidableEq

/-- What the primary announced for an exact position of the stream. -/
inductive StreamMark where
  | rotate (rotation : AdoptedRotation)
  | chainCheck (sequence : Nat) (chainHash : Digest)
  deriving DecidableEq

def StreamMark.sequence : StreamMark → Nat
  | .rotate rotation => rotation.boundarySeq
  | .chainCheck sequence _ => sequence

def StreamMark.isRotate : StreamMark → Bool
  | .rotate _ => true
  | .chainCheck _ _ => false

end Melin
