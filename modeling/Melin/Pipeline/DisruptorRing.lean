import Mathlib
import Melin.Lib.Runs

/-! The disruptor ring: one producer, and consumers that follow it or one another. -/

namespace Melin.Disruptor

open Lib

/-- Which consumer follows which; one that follows none follows the producer. -/
structure Graph where
  dependencies : List (Option Nat)
  earlier : ∀ (index on : Nat), dependencies[index]? = some (some on) → on < index

def Graph.add (graph : Graph) (dependency : Option Nat)
    (added : ∀ on ∈ dependency, on < graph.dependencies.length) : Graph where
  dependencies := graph.dependencies ++ [dependency]
  earlier index on isOn := by
    have inside := (List.getElem?_eq_some_iff.mp isOn).1
    rw [List.length_append, List.length_singleton] at inside
    rcases Nat.lt_succ_iff_lt_or_eq.mp inside with older | rfl
    · exact graph.earlier index on (by rwa [List.getElem?_append_left older] at isOn)
    · exact added on (by simpa using isOn)

def Graph.addConsumer (graph : Graph) : Graph := graph.add none (by simp)

def Graph.addConsumerAfter (graph : Graph) (dependencyIndex : Nat)
    (added : dependencyIndex < graph.dependencies.length) : Graph :=
  graph.add (some dependencyIndex) (by simpa using added)

/-- The consumers that no other follows: the producer waits for them. -/
def Graph.collectGates (graph : Graph) : List Nat :=
  let dependedOn := graph.dependencies.filterMap id
  (List.range graph.dependencies.length).filter fun index => !dependedOn.contains index

structure Producer (T : Type) where
  cachedGateMin : Nat
  /-- The entries written behind the cursor: those of a batch, or the one of a publish. -/
  batch : List T
  /-- While it reads the gates again: the least progress so far, and the gates left. -/
  refresh : Option (Nat × List Nat)

/-- A consumer's published progress and its own state. -/
structure Consumer (T : Type) where
  processed : Nat
  nextRead : Nat
  cachedDep : Nat
  /-- A record of what it passed, entry by entry: its value, or none where it skipped it. -/
  passed : List (Option T)

structure Ring (T : Type) where
  graph : Graph
  capacity : Nat
  slots : Nat → T
  cursor : Nat
  producer : Producer T
  consumers : Nat → Consumer T
  /-- A record of what was published, which nothing reads. -/
  published : List T

/-- One access of the producer to what it shares; a call that publishes is a run of them. -/
inductive ProducerAccess (T : Type) where
  /-- By the progress it knows of there is no room, and it starts to read the gates. -/
  | check
  /-- It reads the next gate. -/
  | gate
  /-- It has read them all; without room even so, it answers that the ring is full. -/
  | checked
  /-- It fills the next slot, which it has room for. -/
  | fill (value : T)
  /-- It stores the cursor behind what it filled. -/
  | commit
  /-- It drops its batch. -/
  | rollback

inductive ConsumerAccess where
  /-- It reads the progress of what it follows. -/
  | load
  /-- It reads the next entry. -/
  | read
  /-- It stores a progress that it has read up to. -/
  | store (progress : Nat)
  /-- It stores the progress it has loaded, and goes on from there. -/
  | skip

inductive Access (T : Type) where
  | producer (access : ProducerAccess T)
  | consumer (index : Nat) (access : ConsumerAccess)

namespace Ring

variable {T : Type}

def start [Inhabited T] (graph : Graph) (capacity : Nat) : Ring T where
  graph := graph
  capacity := capacity
  slots _ := default
  cursor := 0
  producer := { cachedGateMin := 0, batch := [], refresh := none }
  consumers _ := { processed := 0, nextRead := 0, cachedDep := 0, passed := [] }
  published := []

/-- The sequence of the next entry. -/
def next (ring : Ring T) : Nat := ring.cursor + ring.producer.batch.length

/-- How far a consumer may read. -/
def limit (ring : Ring T) (index : Nat) : Nat :=
  match ring.graph.dependencies[index]? with
  | some (some on) => (ring.consumers on).processed
  | some none | none => ring.cursor

def setConsumer (ring : Ring T) (index : Nat) (consumer : Consumer T) : Ring T :=
  { ring with consumers := Function.update ring.consumers index consumer }

def produce (ring : Ring T) : ProducerAccess T → Option (Ring T)
  | .check =>
    if ring.producer.refresh = none ∧ ring.capacity ≤ ring.next - ring.producer.cachedGateMin then
      some { ring with producer :=
        { ring.producer with refresh := some (2 ^ 64 - 1, ring.graph.collectGates) } }
    else none
  | .gate =>
    match ring.producer.refresh with
    | some (least, index :: left) =>
      let progress := (ring.consumers index).processed
      let least := if progress < least then progress else least
      some { ring with producer := { ring.producer with refresh := some (least, left) } }
    | some (_, []) | none => none
  | .checked =>
    match ring.producer.refresh with
    | some (least, []) =>
      some { ring with producer :=
        { ring.producer with cachedGateMin := least, refresh := none } }
    | some (_, _ :: _) | none => none
  | .fill value =>
    if ring.producer.refresh = none ∧ ring.next - ring.producer.cachedGateMin < ring.capacity then
      some { ring with
        slots := Function.update ring.slots (ring.next % ring.capacity) value
        producer := { ring.producer with batch := ring.producer.batch ++ [value] } }
    else none
  | .commit =>
    if ring.producer.refresh = none then
      some { ring with
        cursor := ring.next
        producer := { ring.producer with batch := [] }
        published := ring.published ++ ring.producer.batch }
    else none
  | .rollback =>
    if ring.producer.refresh = none then
      some { ring with producer := { ring.producer with batch := [] } }
    else none

def consume (ring : Ring T) (index : Nat) : ConsumerAccess → Option (Consumer T)
  | .load => some { ring.consumers index with cachedDep := ring.limit index }
  | .read =>
    let consumer := ring.consumers index
    if consumer.nextRead < consumer.cachedDep then
      some { consumer with
        nextRead := consumer.nextRead + 1
        passed := consumer.passed ++ [some (ring.slots (consumer.nextRead % ring.capacity))] }
    else none
  | .store progress =>
    let consumer := ring.consumers index
    if consumer.processed ≤ progress ∧ progress ≤ consumer.nextRead then
      some { consumer with processed := progress }
    else none
  | .skip =>
    let consumer := ring.consumers index
    some { consumer with
      nextRead := consumer.cachedDep
      processed := consumer.cachedDep
      passed := consumer.passed ++ List.replicate (consumer.cachedDep - consumer.nextRead) none }

def step (access : Access T) (ring : Ring T) : Option (Ring T) :=
  match access with
  | .producer access => ring.produce access
  | .consumer index access =>
    if index < ring.graph.dependencies.length then
      (ring.consume index access).map (ring.setConsumer index)
    else none

/-- A consumer that has passed what was published, entry by entry, and knows how far it may read. -/
structure Follows (published : List T) (limit : Nat) (consumer : Consumer T) : Prop where
  stored : consumer.processed ≤ consumer.nextRead
  read : consumer.nextRead ≤ consumer.cachedDep
  known : consumer.cachedDep ≤ limit
  length : consumer.passed.length = consumer.nextRead
  own : ∀ (position : Nat) (value : T), consumer.passed[position]? = some (some value) →
    published[position]? = some value

/-- What holds of a ring between any two accesses. -/
structure Sound (ring : Ring T) : Prop where
  cursor : ring.published.length = ring.cursor
  follows : ∀ index < ring.graph.dependencies.length,
    Follows ring.published (ring.limit index) (ring.consumers index)
  /-- The producer knows of no more progress than there is. -/
  gates : ∀ index ∈ ring.graph.collectGates,
    ring.producer.cachedGateMin ≤ (ring.consumers index).processed
  refreshed : ∀ least left, ring.producer.refresh = some (least, left) →
    ∀ index ∈ ring.graph.collectGates, index ∈ left ∨ least ≤ (ring.consumers index).processed
  /-- An entry that some consumer has not finished is in its slot. -/
  slots : ∀ index < ring.graph.dependencies.length, ∀ position < ring.next,
    (ring.consumers index).processed ≤ position →
    (ring.published ++ ring.producer.batch)[position]?
      = some (ring.slots (position % ring.capacity))

variable {ring : Ring T}

theorem Sound.limit_le_cursor (sound : Sound ring) (index : Nat) :
    ring.limit index ≤ ring.cursor := by
  -- A consumer follows an earlier one, so the induction is on its index.
  induction index using Nat.strong_induction_on with
  | _ index ih =>
    unfold limit
    split
    · next on isOn =>
      have earlier := ring.graph.earlier index on isOn
      have inside := (List.getElem?_eq_some_iff.mp isOn).1
      have follows := sound.follows on (earlier.trans inside)
      exact follows.stored.trans (follows.read.trans (follows.known.trans (ih on earlier)))
    · exact le_rfl
    · exact le_rfl

/-- The producer waits for every consumer: some gate is as far behind as any of them. -/
theorem Sound.cachedGateMin_le (sound : Sound ring) {index : Nat}
    (added : index < ring.graph.dependencies.length) :
    ring.producer.cachedGateMin ≤ (ring.consumers index).processed := by
  -- Whoever follows a consumer is behind it, and was added later.
  induction left : ring.graph.dependencies.length - index using Nat.strong_induction_on
    generalizing index with
  | _ left ih =>
    by_cases followed : some index ∈ ring.graph.dependencies
    · obtain ⟨later, inside, isOn⟩ := List.getElem_of_mem followed
      rw [List.getElem_eq_iff] at isOn
      have earlier := ring.graph.earlier later index isOn
      have follows := sound.follows later inside
      have known := follows.known
      simp only [limit, isOn] at known
      exact (ih _ (by omega) inside rfl).trans (follows.stored.trans (follows.read.trans known))
    · refine sound.gates index ?_
      simpa [Graph.collectGates, added] using followed

theorem Sound.unfinished (sound : Sound ring) {index position : Nat}
    (added : index < ring.graph.dependencies.length) (inside : position < ring.cursor)
    (behind : (ring.consumers index).processed ≤ position) :
    ring.published[position]? = some (ring.slots (position % ring.capacity)) := by
  have held := sound.slots index added position (by unfold next; omega) behind
  rwa [List.getElem?_append_left (by rw [sound.cursor]; exact inside)] at held

/-- A consumer may go on, as long as its progress does not go back. -/
theorem Sound.setConsumer (sound : Sound ring) {index : Nat} {consumer : Consumer T}
    (grows : (ring.consumers index).processed ≤ consumer.processed)
    (follows : Follows ring.published (ring.limit index) consumer) :
    Sound (ring.setConsumer index consumer) := by
  have kept : ∀ other, (ring.consumers other).processed
      ≤ (Function.update ring.consumers index consumer other).processed := by
    intro other
    rcases eq_or_ne other index with rfl | apart
    · simpa using grows
    · simp [apart]
  have limited : ∀ other, ring.limit other ≤ (ring.setConsumer index consumer).limit other := by
    intro other
    simp only [limit, Ring.setConsumer]
    split
    · exact kept _
    · exact le_rfl
    · exact le_rfl
  refine ⟨sound.cursor, fun other added => ?_,
    fun other isGate => (sound.gates other isGate).trans (kept other),
    fun least left isLeft other isGate => ?_, fun other added position inside behind =>
      sound.slots other added position inside ((kept other).trans behind)⟩
  · have wider := limited other
    rcases eq_or_ne other index with rfl | apart
    · simp only [Ring.setConsumer, Function.update_self] at wider ⊢
      exact { follows with known := follows.known.trans wider }
    · simp only [Ring.setConsumer, Function.update_of_ne apart] at wider ⊢
      have older := sound.follows other added
      exact { older with known := older.known.trans wider }
  · exact (sound.refreshed least left isLeft other isGate).imp_right fun known =>
      known.trans (kept other)

theorem Sound.consume (sound : Sound ring) {index : Nat} {access : ConsumerAccess}
    {consumer : Consumer T} (added : index < ring.graph.dependencies.length)
    (consumed : ring.consume index access = some consumer) :
    Sound (ring.setConsumer index consumer) := by
  have follows := sound.follows index added
  obtain ⟨stored, read, known, length, own⟩ := follows
  cases access with
  | load =>
    obtain rfl := Option.some.inj consumed
    exact sound.setConsumer le_rfl ⟨stored, read.trans known, le_rfl, length, own⟩
  | read =>
    simp only [Ring.consume, Option.ite_none_right_eq_some, Option.some.injEq] at consumed
    obtain ⟨available, rfl⟩ := consumed
    -- The entry is read from its slot, which the producer has left alone.
    have within := sound.limit_le_cursor index
    have held := sound.unfinished added (by omega) stored
    refine sound.setConsumer le_rfl ⟨by dsimp only; omega, available, known, by simp [length],
      fun position value passed => ?_⟩
    rw [List.getElem?_append] at passed
    split at passed
    · exact own position value passed
    · simp only [List.getElem?_singleton, Option.ite_none_right_eq_some, Option.some.injEq]
        at passed
      obtain ⟨last, rfl⟩ := passed
      rwa [show position = (ring.consumers index).nextRead by omega]
  | store progress =>
    simp only [Ring.consume, Option.ite_none_right_eq_some, Option.some.injEq] at consumed
    obtain ⟨⟨grows, reached⟩, rfl⟩ := consumed
    exact sound.setConsumer grows ⟨reached, read, known, length, own⟩
  | skip =>
    obtain rfl := Option.some.inj consumed
    refine sound.setConsumer (stored.trans read) ⟨le_rfl, le_rfl, known, by simp [length, read],
      fun position value passed => own position value ?_⟩
    rw [List.getElem?_append] at passed
    split at passed
    · exact passed
    · simp [List.getElem?_replicate] at passed

theorem mod_ne_mod {position next capacity : Nat} (before : position < next)
    (near : next < position + capacity) : position % capacity ≠ next % capacity := by
  intro same
  have whole := Nat.sub_mod_eq_zero_of_mod_eq same.symm
  rw [Nat.mod_eq_of_lt (by omega)] at whole
  omega

theorem Sound.fill (sound : Sound ring) {value : T}
    (hasRoom : ring.next - ring.producer.cachedGateMin < ring.capacity) :
    Sound { ring with
      slots := Function.update ring.slots (ring.next % ring.capacity) value
      producer := { ring.producer with batch := ring.producer.batch ++ [value] } } := by
  refine { sound with slots := fun index added position inside behind => ?_ }
  have known := sound.cachedGateMin_le added
  have width : (ring.published ++ ring.producer.batch).length = ring.next := by
    rw [List.length_append, sound.cursor, next]
  have before : position < ring.next + 1 := by simpa [next, Nat.add_assoc] using inside
  dsimp only at behind ⊢
  rw [← List.append_assoc]
  rcases Nat.lt_succ_iff_lt_or_eq.mp before with older | rfl
  · -- The slot that is written is another one, as the consumer is less than a capacity behind.
    rw [List.getElem?_append_left (by omega), Function.update_of_ne (mod_ne_mod older (by omega))]
    exact sound.slots index added position older behind
  · rw [Function.update_self, List.getElem?_append_right (by omega), width]
    simp

theorem Sound.produce (sound : Sound ring) {access : ProducerAccess T} {after : Ring T}
    (produced : ring.produce access = some after) : Sound after := by
  cases access with
  | check =>
    simp only [Ring.produce, Option.ite_none_right_eq_some, Option.some.injEq] at produced
    obtain ⟨-, rfl⟩ := produced
    refine { sound with refreshed := fun least left isLeft index isGate => .inl ?_ }
    cases isLeft
    exact isGate
  | gate =>
    simp only [Ring.produce] at produced
    split at produced
    · next least index left reading =>
      obtain rfl := Option.some.inj produced
      refine { sound with refreshed := fun now rest isLeft other isGate => ?_ }
      cases isLeft
      dsimp only
      -- The gate just read is off the list, and no lower than the least.
      rcases sound.refreshed least _ reading other isGate with unread | known
      · rcases List.mem_cons.mp unread with rfl | later
        · exact .inr (by split <;> omega)
        · exact .inl later
      · exact .inr (by split <;> omega)
    all_goals cases produced
  | checked =>
    simp only [Ring.produce] at produced
    split at produced
    · next least reading =>
      obtain rfl := Option.some.inj produced
      refine { sound with gates := fun index isGate => ?_, refreshed := by simp }
      simpa using sound.refreshed least [] reading index isGate
    all_goals cases produced
  | fill value =>
    simp only [Ring.produce, Option.ite_none_right_eq_some, Option.some.injEq] at produced
    obtain ⟨⟨-, hasRoom⟩, rfl⟩ := produced
    exact sound.fill hasRoom
  | commit =>
    simp only [Ring.produce, Option.ite_none_right_eq_some, Option.some.injEq] at produced
    obtain ⟨-, rfl⟩ := produced
    refine ⟨by rw [List.length_append, sound.cursor, next], fun index added => ?_, sound.gates,
      sound.refreshed, by simpa [next] using sound.slots⟩
    refine { sound.follows index added with
      known := (sound.follows index added).known.trans ?_, own := fun position value passed => ?_ }
    · simp only [limit, next]
      split <;> omega
    · have held := (sound.follows index added).own position value passed
      rwa [List.getElem?_append_left (List.getElem?_eq_some_iff.mp held).1]
  | rollback =>
    simp only [Ring.produce, Option.ite_none_right_eq_some, Option.some.injEq] at produced
    obtain ⟨-, rfl⟩ := produced
    refine { sound with slots := fun index added position inside behind => ?_ }
    rw [List.append_nil]
    exact sound.unfinished added inside behind

theorem Sound.step (access : Access T) (before after : Ring T)
    (stepped : step access before = some after) (sound : Sound before) : Sound after := by
  cases access with
  | producer access => exact sound.produce stepped
  | consumer index access =>
    obtain ⟨added, stepped⟩ := Option.ite_none_right_eq_some.mp stepped
    obtain ⟨consumer, consumed, rfl⟩ := Option.map_eq_some_iff.mp stepped
    exact sound.consume added consumed

/--
Every consumer passes what was published in order and each entry once, whatever the threads do.

An entry it has not finished stays in its slot. It reads no further than what it follows has gone,
and that is no further than the producer has committed; and the producer knows of no more progress
than there is, so that no distance to a gate is negative.
-/
theorem ring_delivers [Inhabited T] {graph : Graph} {capacity : Nat} {accesses : List (Access T)}
    {ring : Ring T} (ran : runActs step accesses (start graph capacity) = some ring) {index : Nat}
    (added : index < ring.graph.dependencies.length) :
    Follows ring.published (ring.limit index) (ring.consumers index) ∧
    (∀ position < ring.cursor, (ring.consumers index).processed ≤ position →
      ring.published[position]? = some (ring.slots (position % ring.capacity))) ∧
    ring.limit index ≤ ring.cursor ∧ ring.cursor = ring.published.length ∧
    ring.producer.cachedGateMin ≤ (ring.consumers index).processed := by
  have started : Sound (start graph capacity : Ring T) := by
    constructor <;> simp [start, next]
    exact fun index added => by constructor <;> simp
  have sound : Sound ring := runActs_keeps step (fun access _ => Sound.step access) ran started
  exact ⟨sound.follows index added, fun position => sound.unfinished added,
    sound.limit_le_cursor index, sound.cursor.symm, sound.cachedGateMin_le added⟩

def sampleGraph : Graph := (Graph.mk [] (by simp)).addConsumer.addConsumerAfter 0 Nat.one_pos

/-- The ring of two slots is full when the third entry comes, until the second consumer goes on. -/
def sampleAccesses : List (Access Nat) :=
  [.producer (.fill 5), .producer (.fill 6), .producer .commit, .consumer 0 .load,
    .consumer 0 .read, .consumer 0 .read, .consumer 0 (.store 2), .consumer 1 .load,
    .consumer 1 .read, .consumer 1 (.store 1), .producer .check, .producer .gate,
    .producer .checked, .producer (.fill 7), .producer .rollback, .producer (.fill 8),
    .producer .commit, .consumer 0 .load, .consumer 0 .read]

theorem ring_delivers_sample :
    ∃ ring, runActs step sampleAccesses (start sampleGraph 2) = some ring ∧
      (ring.consumers 0).passed = [some 5, some 6, some 8] ∧
      Follows ring.published (ring.limit 0) (ring.consumers 0) :=
  have ran : runActs step sampleAccesses (start sampleGraph 2) = some _ := rfl
  ⟨_, ran, rfl, (ring_delivers ran Nat.two_pos).1⟩

end Ring

end Melin.Disruptor
