import Melin.Gate.AckSafety

/-! The order of ack-policy changes: a gate applies journaled changes in order, each once durable. -/

namespace Melin

structure JournaledChange where
  wireSeq : Nat
  change : AckPolicyChange
  deriving DecidableEq, Repr

/-- The ack-policy changes of a journal; sequences start at one and grow from entry to entry. -/
structure ChangeJournal where
  changes : List JournaledChange
  increasing : changes.Pairwise (·.wireSeq < ·.wireSeq)
  positive : ∀ journaled ∈ changes, 1 ≤ journaled.wireSeq

namespace ChangeJournal

def known (journal : ChangeJournal) : List (Nat × AckPolicy) :=
  journal.changes.filterMap fun journaled =>
    (AckPolicy.fromByte journaled.change.policy).map (journaled.wireSeq, ·)

/-- Output slots carry journaled changes; the forced cell carries the unwitnessed ones. -/
def source (journal : ChangeJournal) : ChangeSource where
  forced wireSeq byte := ⟨wireSeq, ⟨byte, true⟩⟩ ∈ journal.changes
  ordered wireSeq change := ⟨wireSeq, change⟩ ∈ journal.changes

def Holds (journal : ChangeJournal) (pending : PendingChange) : Prop :=
  ∃ byte, ⟨pending.wireSeq, ⟨byte, pending.unwitnessed⟩⟩ ∈ journal.changes ∧
    AckPolicy.fromByte byte = some pending.policy

theorem known_increasing (journal : ChangeJournal) : journal.known.Pairwise (·.1 < ·.1) := by
  refine List.Pairwise.filterMap _ ?_ journal.increasing
  intro earlier later less first isFirst second isSecond
  obtain ⟨-, -, rfl⟩ := Option.map_eq_some_iff.mp isFirst
  obtain ⟨-, -, rfl⟩ := Option.map_eq_some_iff.mp isSecond
  exact less

theorem mem_known {journal : ChangeJournal} {wireSeq : Nat} {change : AckPolicyChange}
    {policy : AckPolicy} (member : ⟨wireSeq, change⟩ ∈ journal.changes)
    (named : AckPolicy.fromByte change.policy = some policy) :
    (wireSeq, policy) ∈ journal.known :=
  List.mem_filterMap.mpr ⟨_, member, by rw [named]; rfl⟩

end ChangeJournal

def appliedChanges (trace : List GateEvent) : List (Nat × AckPolicy) :=
  trace.filterMap fun event =>
    match event with
    | .applied wireSeq policy _ => some (wireSeq, policy)
    | .journal _ | .evaluated _ _ | .released _ _ _ => none

/--
A change is applied only once durable: certified under the policy in force before it, or unwitnessed
and on this node's disk.
-/
def ChangeDurable (journal : ChangeJournal) (before : List GateEvent) : GateEvent → Prop
  | .applied wireSeq policy previous =>
    Certified before previous wireSeq ∨
      ∃ byte, ⟨wireSeq, ⟨byte, true⟩⟩ ∈ journal.changes ∧
        AckPolicy.fromByte byte = some policy ∧ OnDisk before wireSeq
  | .journal _ | .evaluated _ _ | .released _ _ _ => True

theorem key_le_last {changes : List (Nat × AckPolicy)} {last : Nat × AckPolicy}
    (increasing : changes.Pairwise (·.1 < ·.1)) (isLast : changes.getLast? = some last) :
    ∀ change ∈ changes, change.1 ≤ last.1 := by
  obtain ⟨front, rfl⟩ := List.getLast?_eq_some_iff.mp isLast
  intro change member
  rcases List.mem_append.mp member with earlier | final
  · exact le_of_lt ((List.pairwise_append.mp increasing).2.2 change earlier last
      (List.mem_singleton_self _))
  · rw [List.mem_singleton.mp final]

namespace GateCore

structure Ordered (journal : ChangeJournal) (core : GateCore) : Prop where
  pending : ∀ change ∈ core.pending, journal.Holds change
  through : core.appliedThrough = (appliedChanges core.trace).getLast?.map (·.1)
  increasing : (appliedChanges core.trace).Pairwise (·.1 < ·.1)
  journaled : ∀ change ∈ appliedChanges core.trace, change ∈ journal.known
  durable : Lib.EachAfter (ChangeDurable journal) core.trace

variable {journal : ChangeJournal}

theorem Ordered.record {core : GateCore} (ordered : Ordered journal core) {event : GateEvent}
    (other : appliedChanges [event] = []) (durable : ChangeDurable journal core.trace event) :
    Ordered journal (core.record event) := by
  have same : appliedChanges (core.trace ++ [event]) = appliedChanges core.trace := by
    rw [appliedChanges, List.filterMap_append]
    exact (congrArg _ other).trans (List.append_nil _)
  refine ⟨ordered.pending, ?_, ?_, ?_, ordered.durable.snoc durable⟩
  · exact ordered.through.trans (by rw [GateCore.record, same])
  · exact (congrArg (List.Pairwise _) same).mpr ordered.increasing
  · intro change member
    exact ordered.journaled change (same ▸ member)

theorem Ordered.apply {core : GateCore} (ordered : Ordered journal core) {wireSeq : Nat}
    {policy : AckPolicy} (member : (wireSeq, policy) ∈ journal.known)
    (durable : ChangeDurable journal core.trace (.applied wireSeq policy core.inForce)) :
    Ordered journal (core.apply wireSeq policy) := by
  unfold GateCore.apply
  split
  · exact ordered
  · rename_i fresh
    have grown : appliedChanges (core.trace ++ [.applied wireSeq policy core.inForce])
        = appliedChanges core.trace ++ [(wireSeq, policy)] := by
      simp [appliedChanges, List.filterMap_append]
    refine ⟨ordered.pending, ?_, ?_, ?_, ordered.durable.snoc durable⟩
    · simp [grown]
    · -- A change past the watermark is past everything applied so far.
      show (appliedChanges (core.trace ++ [.applied wireSeq policy core.inForce])).Pairwise _
      rw [grown, List.pairwise_append]
      refine ⟨ordered.increasing, List.pairwise_singleton _ _, ?_⟩
      intro earlier isEarlier later isLater
      rw [List.mem_singleton.mp isLater]
      cases isLast : (appliedChanges core.trace).getLast? with
      | none =>
        rw [List.getLast?_eq_none_iff] at isLast
        rw [isLast] at isEarlier
        exact absurd isEarlier List.not_mem_nil
      | some last =>
        have below := key_le_last ordered.increasing isLast earlier isEarlier
        rw [ordered.through, isLast] at fresh
        have past : ¬ wireSeq ≤ last.1 := by simpa using fresh
        show earlier.1 < wireSeq
        omega
    · intro change isChange
      rw [grown] at isChange
      rcases List.mem_append.mp isChange with old | new
      · exact ordered.journaled change old
      · rw [List.mem_singleton.mp new]
        exact member

theorem Ordered.step {started : AckPolicy} {before after : GateCore}
    (step : Step journal.source before after) (sound : Sound started before)
    (ordered : Ordered journal before) : Ordered journal after := by
  -- A confirmed position of a journaled change is certified under the policy in force.
  have certified : ∀ {wireSeq : Nat} {change : AckPolicyChange},
      ⟨wireSeq, change⟩ ∈ journal.changes → wireSeq ≤ before.cached →
      Certified before.trace before.inForce wireSeq := fun member covered =>
    sound.cached _ (journal.positive _ member) covered
  cases step with
  | journal position => exact ordered.record rfl trivial
  | evaluate nodes =>
    have cachedElsewhere : Ordered journal { before with
        cached := (before.inForce.toPolicy.evaluateWithStatus nodes).durablePos } :=
      ⟨ordered.pending, ordered.through, ordered.increasing, ordered.journaled, ordered.durable⟩
    exact cachedElsewhere.record rfl trivial
  | settle front rest isFront durable =>
    have dequeued : Ordered journal { before with pending := rest } :=
      ⟨fun change member => ordered.pending change (isFront ▸ List.mem_cons_of_mem _ member),
        ordered.through, ordered.increasing, ordered.journaled, ordered.durable⟩
    obtain ⟨byte, member, named⟩ := ordered.pending front (isFront ▸ List.mem_cons_self)
    refine dequeued.apply (ChangeJournal.mem_known member named) ?_
    rcases durable with covered | ⟨unwitnessed, onDisk⟩
    · exact .inl (certified member covered)
    · exact .inr ⟨byte, unwitnessed ▸ member, named, onDisk⟩
  | force wireSeq byte policy sent named onDisk =>
    exact ordered.apply (ChangeJournal.mem_known sent named) (.inr ⟨byte, sent, named, onDisk⟩)
  | order wireSeq change policy sent named covered =>
    exact ordered.apply (ChangeJournal.mem_known sent named) (.inl (certified sent covered))
  | defer wireSeq change policy sent named =>
    refine ⟨?_, ordered.through, ordered.increasing, ordered.journaled, ordered.durable⟩
    intro pending member
    rcases List.mem_append.mp member with old | new
    · exact ordered.pending pending old
    · rw [List.mem_singleton.mp new]
      exact ⟨change.policy, sent, named⟩
  | release wireSeq backing confirmed => exact ordered.record rfl trivial

theorem Ordered.steps {started : AckPolicy} {before after : GateCore}
    (steps : Steps journal.source before after) (sound : Sound started before)
    (ordered : Ordered journal before) : Ordered journal after := by
  induction steps with
  | refl => exact ordered
  | tail earlier step ih => exact ih.step step (sound.steps earlier)

theorem ordered_start {start : GateStart}
    (startHeld : ∀ pending ∈ start.pending, journal.Holds pending) :
    Ordered journal (.start start) := by
  refine ⟨fun change member => startHeld change (Option.mem_toList.mp member), rfl, .nil, ?_,
    .nil _⟩
  intro change member
  cases member

end GateCore

namespace DurabilityGate

@[simp] theorem pending_applyChange (gate : DurabilityGate) (wireSeq : Nat)
    (byte : AckPolicyByte) : (gate.applyChange wireSeq byte).pending = gate.pending := by
  show (gate.applyChange wireSeq byte).core.pending = gate.core.pending
  rw [core_applyChange]
  split
  · rfl
  · unfold GateCore.apply
    split <;> rfl

theorem pending_applyFrontPending {gate : DurabilityGate} {front : PendingChange}
    {rest : List PendingChange} (isFront : gate.pending = front :: rest) :
    gate.applyFrontPending.pending = rest := by
  simp only [applyFrontPending, isFront, pending_applyChange]

theorem pending_settlePendingLoop (journalPos fuel : Nat) (gate : DurabilityGate) :
    (settlePendingLoop journalPos fuel gate).pending <:+ gate.pending := by
  induction fuel generalizing gate with
  | zero => exact List.suffix_rfl
  | succ fuel ih =>
    unfold settlePendingLoop
    split
    · exact List.suffix_rfl
    · rename_i front rest isFront
      split
      · exact List.suffix_rfl
      · have settled := ih gate.applyFrontPending
        rw [pending_applyFrontPending isFront] at settled
        exact settled.trans (isFront ▸ List.suffix_cons front rest)

theorem pending_observeForced (gate : DurabilityGate) (look : Look) :
    (gate.observeForced look).pending <:+ gate.pending := by
  have settled := pending_settlePendingLoop look.journalPos gate.pending.length gate
  unfold observeForced
  cases look.forced with
  | none => exact settled
  | some forced =>
    simp only
    split
    · rw [pending_applyChange]
      exact settled
    · exact settled

theorem pending_waitDurable (needed : Nat) (looks : List Look) (gate : DurabilityGate) :
    (waitDurable needed looks gate).1.pending <:+ gate.pending := by
  induction looks generalizing gate with
  | nil => exact List.suffix_rfl
  | cons look looks ih =>
    unfold waitDurable
    split
    · exact List.suffix_rfl
    · have turn : (((gate.record (.journal look.journalPos)).observeForced look).evaluate
          look).pending <:+ gate.pending :=
        pending_observeForced (gate.record (.journal look.journalPos)) look
      simp only
      generalize ((gate.record (.journal look.journalPos)).observeForced look).evaluate look
        = turned at turn ⊢
      split
      · generalize (evaluateGate _ needed look.journalPos look.replicas).2 = blocker
        have counted := congrArg GateCore.pending (core_countBlocker turned blocker)
        exact (show (turned.countBlocker blocker).pending = turned.pending from counted) ▸ turn
      · split
        · have halted := congrArg GateCore.pending (core_degradedReleaseOpen turned look)
          split
          · rename_i after released
            rw [released] at halted
            exact (show after.pending = turned.pending from halted) ▸ turn
          · rename_i after released
            rw [released] at halted
            exact (ih after).trans ((show after.pending = turned.pending from halted) ▸ turn)
        · exact (ih turned).trans turn

/-- Once the pending changes are admitted in full, none is left: every turn took one off. -/
theorem pending_admitPendingLoop {fuel : Nat} {looks left : List Look}
    {gate after : DurabilityGate} (enough : gate.pending.length ≤ fuel)
    (opened : admitPendingLoop fuel looks gate = (after, some (.opened .policy), left)) :
    after.pending = [] := by
  induction fuel generalizing gate looks with
  | zero =>
    simp only [admitPendingLoop, Prod.mk.injEq] at opened
    rw [← opened.1]
    exact List.length_eq_zero_iff.mp (Nat.le_zero.mp enough)
  | succ fuel ih =>
    unfold admitPendingLoop at opened
    split at opened
    · rename_i none
      simp only [Prod.mk.injEq] at opened
      rw [← opened.1]
      exact none
    · rename_i front rest isFront
      have shorter : rest.length ≤ fuel := by
        rw [isFront] at enough
        exact Nat.le_of_succ_le_succ enough
      split at opened
      · have taken := pending_waitDurable front.wireSeq looks gate
        generalize waitDurable front.wireSeq looks gate = outcome at taken opened
        split at opened
        · rename_i waited looksLeft
          rw [isFront] at taken
          split at opened
          · -- The front has gone, so what is left is a suffix of the rest.
            rename_i gone
            refine ih ?_ opened
            rcases List.suffix_cons_iff.mp taken with whole | part
            · exact absurd (by rw [show waited.pending = _ from whole]; rfl) gone
            · exact part.length_le.trans shorter
          · rename_i stillFront
            obtain ⟨others, isAfterFront⟩ := List.head?_eq_some_iff.mp (not_not.mp stillFront)
            refine ih ?_ opened
            rw [pending_applyFrontPending isAfterFront]
            have bound := taken.length_le
            simp only [isAfterFront, List.length_cons] at bound
            omega
        · rename_i notOpened
          subst opened
          exact absurd rfl (notOpened after left)
      · refine ih ?_ opened
        rw [pending_applyFrontPending isFront]
        exact shorter

theorem unknown_unchanged (gate : DurabilityGate) (wireSeq : Nat) {change : AckPolicyChange}
    (unknown : AckPolicy.fromByte change.policy = none) :
    (gate.applyChange wireSeq change.policy).core = gate.core ∧
      (gate.deferChange wireSeq change).core = gate.core := by
  refine ⟨by rw [core_applyChange, unknown], ?_⟩
  unfold deferChange
  split
  · rfl
  · rw [unknown]
    exact core_refuseUnknown gate wireSeq

section

variable {R Q : Type}

/--
A run applies a subsequence of the journal's changes, in strictly increasing order, each one certified
under the policy in force before it or, if unwitnessed, at least on this node's disk.
-/
theorem run_applies_in_order (journal : ChangeJournal) {start : GateStart}
    (startHeld : ∀ pending ∈ start.pending, journal.Holds pending) (degradedGrace : Option Nat)
    (first : Look) {ops : List (GateOp R Q)} (sent : ∀ op ∈ ops, OpFrom journal.source op) :
    let trace := (run (new start degradedGrace first) ops).trace
    (appliedChanges trace).Sublist journal.known ∧
      (appliedChanges trace).Pairwise (·.1 < ·.1) ∧
      (∀ before wireSeq policy previous after,
        trace = before ++ .applied wireSeq policy previous :: after →
          previous = policyAfter start.inForce before ∧
            (Certified before previous wireSeq ∨
              ∃ byte, ⟨wireSeq, ⟨byte, true⟩⟩ ∈ journal.changes ∧
                AckPolicy.fromByte byte = some policy ∧ OnDisk before wireSeq)) ∧
      ∀ (gate : DurabilityGate) (wireSeq : Nat) (change : AckPolicyChange),
        AckPolicy.fromByte change.policy = none →
          (gate.applyChange wireSeq change.policy).core = gate.core ∧
            (gate.deferChange wireSeq change).core = gate.core := by
  intro trace
  have steps := (steps_new journal.source start degradedGrace first).trans (steps_run ops _ sent)
  have ordered := (GateCore.ordered_start startHeld).steps steps (GateCore.sound_start start)
  have sound := (GateCore.sound_start start).steps steps
  refine ⟨?_, ordered.increasing, ?_, fun gate wireSeq change => unknown_unchanged gate wireSeq⟩
  · exact Lib.sublist_of_increasing (·.1) ordered.increasing journal.known_increasing
      ordered.journaled
  · intro before wireSeq policy previous after split
    exact ⟨sound.named before _ after split, ordered.durable before _ after split⟩

end

def forcedTwoDisks : ChangeJournal where
  changes := [⟨1, ⟨AckPolicy.twoDisks.toByte, true⟩⟩]
  increasing := List.pairwise_singleton _ _
  positive := by decide

def forcedSlot (looks : List Look) : GateOp Unit Unit :=
  .admitOutput ⟨0, 1, .ackPolicyChange ⟨AckPolicy.twoDisks.toByte, true⟩⟩ looks

/-- What a gate sees while a replica has persisted an entry that the primary's disk lacks. -/
def replicaAhead : Look :=
  { aloneLook 0 with replicas := some (⟨true, 1, 1⟩, ⟨false, 0, 0⟩) }

theorem forcedSlot_sent (looks : List Look) (quiet : ∀ look ∈ looks, look.forced = none) :
    ∀ op ∈ [forcedSlot looks], OpFrom forcedTwoDisks.source op := by
  intro op member
  rw [List.mem_singleton.mp member]
  refine ⟨fun change isChange => ?_, fun look seen forced isForced => ?_⟩
  · obtain rfl : _ = change := OutputPayload.ackPolicyChange.inj isChange
    exact List.mem_singleton_self _
  · rw [quiet look seen] at isForced
    cases isForced

/-- The forced change is applied, and in order, once the primary's journal holds it. -/
theorem run_applies_in_order_forced :
    (appliedChanges (run (new ⟨.disk, none⟩ none (aloneLook 1)) [forcedSlot []]).trace
        = [(1, .twoDisks)]) ∧
      (appliedChanges (run (new ⟨.disk, none⟩ none (aloneLook 1)) [forcedSlot []]).trace).Sublist
        forcedTwoDisks.known :=
  ⟨by decide, (run_applies_in_order forcedTwoDisks (by simp) none (aloneLook 1)
    (forcedSlot_sent [] (by simp))).1⟩

/--
A forced change is applied before the primary's own disk holds it: in its place among the slots it
only waits for the policy in force, and under `disk` any one node's disk will do.
-/
theorem forced_applied_off_disk :
    (∀ op ∈ [forcedSlot [replicaAhead]], OpFrom forcedTwoDisks.source op) ∧
      ∃ before, (run (new ⟨.disk, none⟩ none (aloneLook 0)) [forcedSlot [replicaAhead]]).trace
          = before ++ .applied 1 .twoDisks .disk :: [] ∧ ¬ OnDisk before 1 := by
  refine ⟨forcedSlot_sent _ (by simp [replicaAhead, aloneLook]),
    [.journal 0, .evaluated .disk [⟨u64Max, 0⟩], .journal 0,
    .evaluated .disk [⟨u64Max, 0⟩, ⟨1, 1⟩], .released 1 .policy .disk, .released 1 .policy .disk],
    by decide, ?_⟩
  rintro ⟨position, read, reached⟩
  have zero : position = 0 := by simpa using read
  omega

end DurabilityGate

end Melin
