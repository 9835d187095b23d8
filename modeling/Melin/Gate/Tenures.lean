import Melin.Gate.ChangeQueue
import Melin.Gate.DegradedRelease
import Melin.Transport.Lineage

/-! Ack-policy changes over several tenures: what a new primary's gate starts under, and why. -/

namespace Melin

inductive Replication where
  | enabled
  | disabled
  deriving DecidableEq, Repr

def GateStart.settled (policy : AckPolicy) : GateStart := { inForce := policy, pending := none }

def knownLineagePolicy (byte : AckPolicyByte) : Except String AckPolicy :=
  match AckPolicy.fromByte byte with
  | some policy => .ok policy
  | none =>
    let raw := byte.byte.toNat
    .error (s!"the journal's ack policy (byte {raw}) is unknown to this build; "
      ++ "refusing to serve under it")

def initialGatePolicy (lineage : Option LineagePolicy) (requested : AckPolicy)
    (replication : Replication) : Except String GateStart :=
  match lineage with
  | none => .ok (.settled requested)
  | some lineage => do
    let newest ← knownLineagePolicy lineage.change.policy
    match replication with
    | .disabled => return .settled requested
    | .enabled =>
      match lineage.previous with
      | none => return .settled newest
      | some previous =>
        return { inForce := ← knownLineagePolicy previous
                 pending := some { wireSeq := lineage.wireSeq, policy := newest
                                   unwitnessed := lineage.change.unwitnessed } }

def lineagePolicyOf (changes : List JournaledChange) : Option LineagePolicy :=
  changes.foldl (fun current journaled =>
    some (.after current journaled.wireSeq journaled.change)) none

def policyBefore (changes : List JournaledChange) (wireSeq : Nat) : Option AckPolicyByte :=
  (lineagePolicyOf (changes.takeWhile (·.wireSeq < wireSeq))).map (·.change.policy)

theorem lineagePolicyOf_snoc (changes : List JournaledChange) (last : JournaledChange) :
    lineagePolicyOf (changes ++ [last])
      = some (.after (lineagePolicyOf changes) last.wireSeq last.change) := by
  simp [lineagePolicyOf]

theorem policy_lineagePolicyOf_snoc (changes : List JournaledChange) (last : JournaledChange) :
    (lineagePolicyOf (changes ++ [last])).map (·.change.policy) = some last.change.policy := by
  rw [lineagePolicyOf_snoc]
  cases lineagePolicyOf changes with
  | none => rfl
  | some current =>
    simp only [LineagePolicy.after, Option.map_some]
    split <;> rfl

theorem lineagePolicyOf_eq_none {changes : List JournaledChange} :
    lineagePolicyOf changes = none ↔ changes = [] := by
  cases changes using List.reverseRecOn with
  | nil => simp [lineagePolicyOf]
  | append_singleton front last => simp [lineagePolicyOf_snoc]

theorem exists_transition {changes : List JournaledChange} {newest : LineagePolicy}
    (folded : lineagePolicyOf changes = some newest) :
    ∃ front transition back, changes = front ++ transition :: back ∧
      transition.wireSeq = newest.wireSeq ∧ transition.change.policy = newest.change.policy ∧
      (lineagePolicyOf front).map (·.change.policy) = newest.previous := by
  induction changes using List.reverseRecOn generalizing newest with
  | nil => simp [lineagePolicyOf] at folded
  | append_singleton front last ih =>
    rw [lineagePolicyOf_snoc, Option.some.injEq] at folded
    cases before : lineagePolicyOf front with
    | none =>
      rw [before, LineagePolicy.after] at folded
      refine ⟨front, last, [], rfl, by rw [← folded], by rw [← folded], ?_⟩
      rw [before, ← folded]
      rfl
    | some current =>
      simp only [before, LineagePolicy.after] at folded
      split at folded
      · -- The last change repeats the policy in force, and the transition is an earlier one.
        rename_i same
        obtain ⟨early, transition, back, rfl, wireEq, policyEq, previousEq⟩ := ih before
        refine ⟨early, transition, back ++ [last], by simp, ?_, ?_, ?_⟩
        · rw [wireEq, ← folded]
        · rw [policyEq, same, ← folded]
        · rw [previousEq, ← folded]
      · refine ⟨front, last, [], rfl, by rw [← folded], by rw [← folded], ?_⟩
        rw [before, ← folded]
        rfl

theorem takeWhile_before {front back : List JournaledChange} {change : JournaledChange}
    (increasing : (front ++ change :: back).Pairwise (·.wireSeq < ·.wireSeq)) :
    (front ++ change :: back).takeWhile (·.wireSeq < change.wireSeq) = front := by
  have early := (List.pairwise_append.mp increasing).2.2
  rw [List.takeWhile_append_of_pos fun other member => by
    simpa using early other member change List.mem_cons_self]
  simp

theorem AckPolicy.toByte_of_fromByte {byte : AckPolicyByte} {policy : AckPolicy}
    (known : AckPolicy.fromByte byte = some policy) : policy.toByte = byte := by
  obtain ⟨raw⟩ := byte
  unfold AckPolicy.fromByte at known
  split_ifs at known <;> simp_all [AckPolicy.toByte]
  all_goals subst known; rfl

/--
One tenure of a primary: the changes its journal held when its gate started, the witnessed ones it
journaled itself, and the run of its gate over their slots.
-/
structure Tenure (R Q : Type) where
  inherited : List JournaledChange
  journaled : List JournaledChange
  requested : AckPolicy
  start : GateStart
  degradedGrace : Option Nat
  first : Look
  ops : List (DurabilityGate.GateOp R Q)
  increasing : (inherited ++ journaled).Pairwise (·.wireSeq < ·.wireSeq)
  positive : ∀ change ∈ inherited ++ journaled, 1 ≤ change.wireSeq
  witnessed : ∀ change ∈ inherited ++ journaled, change.change.unwitnessed = false
  started : initialGatePolicy (lineagePolicyOf inherited) requested .enabled = .ok start
  delivered : DurabilityGate.changeSlots ops <+: journaled
  /-- The forced cell only ever holds unwitnessed changes. -/
  quiet : ∀ op ∈ ops, DurabilityGate.Quiet op

namespace Tenure

variable {R Q : Type}

def changes (tenure : Tenure R Q) : List JournaledChange := tenure.inherited ++ tenure.journaled

def trace (tenure : Tenure R Q) : List GateEvent :=
  (DurabilityGate.run (.new tenure.start tenure.degradedGrace tenure.first) tenure.ops).trace

def startedUnder (tenure : Tenure R Q) : Option Nat := do
  let newest ← lineagePolicyOf tenure.inherited
  match newest.previous with
  | none => some newest.wireSeq
  | some _ =>
    (lineagePolicyOf (tenure.inherited.takeWhile (·.wireSeq < newest.wireSeq))).map (·.wireSeq)

def inForceChange (tenure : Tenure R Q) (before : List GateEvent) : Option Nat :=
  match (appliedChanges before).getLast? with
  | some applied => some applied.1
  | none => tenure.startedUnder

def Known (tenure : Tenure R Q) : Prop :=
  ∀ change ∈ tenure.changes, (AckPolicy.fromByte change.change.policy).isSome

def journal (tenure : Tenure R Q) : ChangeJournal :=
  ⟨tenure.changes, tenure.increasing, tenure.positive⟩

inductive Starts (inherited : List JournaledChange) : GateStart → Prop where
  | fresh (start : GateStart) (none : inherited = []) (idle : start.pending = .none) :
    Starts inherited start
  /-- No move of the policy yet: every change names the first one's. -/
  | settled (newest : LineagePolicy) (policy : AckPolicy)
    (folded : lineagePolicyOf inherited = some newest) (only : newest.previous = none)
    (named : AckPolicy.fromByte newest.change.policy = some policy) :
    Starts inherited (.settled policy)
  | moving (newest : LineagePolicy) (previous : AckPolicyByte) (policy before : AckPolicy)
    (folded : lineagePolicyOf inherited = some newest) (moved : newest.previous = some previous)
    (named : AckPolicy.fromByte newest.change.policy = some policy)
    (namedBefore : AckPolicy.fromByte previous = some before) :
    Starts inherited ⟨before, some ⟨newest.wireSeq, policy, newest.change.unwitnessed⟩⟩

variable {policy : AckPolicy} {pending : PendingChange} {wireSeq : Nat}
  {before after : List GateEvent}

theorem knownLineagePolicy_eq_ok {byte : AckPolicyByte} :
    knownLineagePolicy byte = .ok policy ↔ AckPolicy.fromByte byte = some policy := by
  unfold knownLineagePolicy
  cases AckPolicy.fromByte byte <;> simp

theorem starts (tenure : Tenure R Q) : Starts tenure.inherited tenure.start := by
  have started := tenure.started
  unfold initialGatePolicy at started
  cases folded : lineagePolicyOf tenure.inherited with
  | none =>
    rw [folded] at started
    rw [← Except.ok.inj started]
    exact .fresh _ (lineagePolicyOf_eq_none.mp folded) rfl
  | some newest =>
    simp only [folded] at started
    cases named : knownLineagePolicy newest.change.policy with
    | error => simp [named, bind, Except.bind] at started
    | ok policy =>
      have known := knownLineagePolicy_eq_ok.mp named
      simp only [named] at started
      cases moved : newest.previous with
      | none =>
        simp only [moved] at started
        rw [← Except.ok.inj started]
        exact .settled newest policy folded moved known
      | some previous =>
        simp only [moved] at started
        cases namedBefore : knownLineagePolicy previous with
        | error => simp [namedBefore, bind, Except.bind] at started
        | ok before =>
          simp only [namedBefore] at started
          rw [← Except.ok.inj started]
          exact .moving newest previous policy before folded moved known
            (knownLineagePolicy_eq_ok.mp namedBefore)

/-- What a tenure's gate has to work off: the move it starts with, then what the tenure journals. -/
def queue (tenure : Tenure R Q) : List PendingChange :=
  tenure.start.pending.toList ++ tenure.journaled.filterMap JournaledChange.asPending

theorem asPending_wireSeq {change : JournaledChange} (held : change.asPending = some pending) :
    pending.wireSeq = change.wireSeq ∧
      AckPolicy.fromByte change.change.policy = some pending.policy ∧
      pending.unwitnessed = change.change.unwitnessed := by
  obtain ⟨policy, named, rfl⟩ := Option.map_eq_some_iff.mp held
  exact ⟨rfl, named, rfl⟩

theorem mem_inherited_of_pending (tenure : Tenure R Q)
    (starting : tenure.start.pending = some pending) :
    ∃ change ∈ tenure.inherited, change.wireSeq = pending.wireSeq := by
  cases startEq : tenure.start with
  | mk inForce waiting =>
  cases startEq ▸ tenure.starts with
  | fresh _ _ idle => simp_all
  | settled => simp_all
  | moving newest previous policy before folded =>
    obtain ⟨front, transition, back, split, wireEq, -, -⟩ := exists_transition folded
    refine ⟨transition, by simp [split], ?_⟩
    rw [startEq] at starting
    rw [wireEq, ← Option.some.inj starting]

theorem queue_increasing (tenure : Tenure R Q) :
    (tenure.queue.map PendingChange.key).Pairwise (·.1 < ·.1) := by
  obtain ⟨-, increasing, across⟩ := List.pairwise_append.mp tenure.increasing
  rw [queue, List.map_append, List.pairwise_append]
  refine ⟨?_, ?_, ?_⟩
  · cases tenure.start.pending <;> simp
  · rw [List.pairwise_map]
    refine List.Pairwise.filterMap _ (fun earlier later less first isFirst second isSecond => ?_)
      increasing
    show first.wireSeq < second.wireSeq
    rw [(asPending_wireSeq isFirst).1, (asPending_wireSeq isSecond).1]
    exact less
  · intro first isFirst second isSecond
    obtain ⟨starting, isStarting, rfl⟩ := List.mem_map.mp isFirst
    obtain ⟨later, isLater, rfl⟩ := List.mem_map.mp isSecond
    obtain ⟨change, member, held⟩ := List.mem_filterMap.mp isLater
    obtain ⟨early, isEarly, sameSeq⟩ :=
      tenure.mem_inherited_of_pending (Option.mem_toList.mp isStarting)
    show starting.wireSeq < later.wireSeq
    rw [← sameSeq, (asPending_wireSeq held).1]
    exact across early isEarly change member

theorem applied_queue (tenure : Tenure R Q) :
    appliedChanges tenure.trace <+: tenure.queue.map PendingChange.key := by
  have increasing := tenure.queue_increasing
  have inOrder : ((tenure.start.pending.toList ++ (DurabilityGate.changeSlots tenure.ops).filterMap
      JournaledChange.asPending).map PendingChange.key).Pairwise (·.1 < ·.1) := by
    obtain ⟨undelivered, split⟩ := tenure.delivered
    rw [queue, ← split, List.filterMap_append, ← List.append_assoc, List.map_append] at increasing
    exact (List.pairwise_append.mp increasing).1
  have idle : GateCore.Queues tenure.start.pending.toList (.start tenure.start) := ⟨rfl, rfl⟩
  have begun : GateCore.Queues tenure.start.pending.toList
      (DurabilityGate.new tenure.start tenure.degradedGrace tenure.first).core := by
    have steps := DurabilityGate.steps_new noSource tenure.start tenure.degradedGrace tenure.first
    rw [List.map_append] at inOrder
    exact idle.steps (List.pairwise_append.mp inOrder).1 steps
  obtain ⟨delivered, taken, ran⟩ := DurabilityGate.queues_run tenure.ops inOrder tenure.quiet begun
  obtain ⟨left, split⟩ := taken.trans tenure.delivered
  have front : appliedChanges tenure.trace <+: (tenure.start.pending.toList
      ++ delivered.filterMap JournaledChange.asPending).map PendingChange.key := ⟨_, ran.fifo⟩
  refine front.trans (List.IsPrefix.map _ ?_)
  rw [queue, ← split, List.filterMap_append, ← List.append_assoc]
  exact List.prefix_append _ _

theorem policyAfter_eq (started : AckPolicy) (trace : List GateEvent) :
    policyAfter started trace = ((appliedChanges trace).getLast?.map (·.2)).getD started := by
  induction trace using List.reverseRecOn with
  | nil => rfl
  | append_singleton front event ih =>
    rw [GateCore.policyAfter_snoc, appliedChanges_append]
    cases event with
    | applied => simp [appliedChanges]
    | journal | evaluated | released => simpa [appliedChanges] using ih

theorem exists_split {list : List JournaledChange} {front : List (Nat × AckPolicy)}
    (known : ∀ change ∈ list, (AckPolicy.fromByte change.change.policy).isSome)
    (worked : front ++ [(wireSeq, policy)]
      <+: (list.filterMap JournaledChange.asPending).map PendingChange.key) :
    ∃ early change late, list = early ++ change :: late ∧ change.wireSeq = wireSeq ∧
      AckPolicy.fromByte change.change.policy = some policy ∧
      (early.filterMap JournaledChange.asPending).map PendingChange.key = front := by
  induction list generalizing front with
  | nil => simp at worked
  | cons first list ih =>
    obtain ⟨named, isNamed⟩ := Option.isSome_iff_exists.mp (known first List.mem_cons_self)
    have held : first.asPending = some ⟨first.wireSeq, named, first.change.unwitnessed⟩ := by
      rw [JournaledChange.asPending, isNamed]
      rfl
    rw [List.filterMap_cons_some held, List.map_cons] at worked
    cases front with
    | nil =>
      have same : (wireSeq, policy) = (first.wireSeq, named) :=
        (List.cons_prefix_cons.mp worked).1
      obtain ⟨rfl, rfl⟩ := Prod.mk.inj same
      exact ⟨[], first, list, rfl, rfl, isNamed, rfl⟩
    | cons key front =>
      obtain ⟨rfl, rest⟩ := List.cons_prefix_cons.mp worked
      obtain ⟨early, change, late, rfl, sameSeq, isPolicy, worked⟩ :=
        ih (fun change member => known change (List.mem_cons_of_mem _ member)) rest
      refine ⟨first :: early, change, late, rfl, sameSeq, isPolicy, ?_⟩
      rw [List.filterMap_cons_some held, List.map_cons, worked]

theorem policy_worked_off (tenure : Tenure R Q) {early late : List JournaledChange}
    (known : tenure.Known) (split : tenure.journaled = early ++ late) :
    (lineagePolicyOf (tenure.inherited ++ early)).map (·.change.policy) = none ∨
      (lineagePolicyOf (tenure.inherited ++ early)).map (·.change.policy)
        = some ((((tenure.start.pending.toList ++ early.filterMap
          JournaledChange.asPending).map PendingChange.key).getLast?.map (·.2)).getD
            tenure.start.inForce).toByte := by
  cases early using List.reverseRecOn with
  | nil =>
    rw [List.append_nil, List.filterMap_nil, List.append_nil]
    cases startEq : tenure.start with
    | mk inForce waiting =>
    cases startEq ▸ tenure.starts with
    | fresh _ none => exact .inl (by rw [none]; rfl)
    | settled newest policy folded _ named =>
      refine .inr ?_
      rw [folded]
      exact congrArg some (AckPolicy.toByte_of_fromByte named).symm
    | moving newest previous policy before folded _ named =>
      refine .inr ?_
      rw [folded]
      exact congrArg some (AckPolicy.toByte_of_fromByte named).symm
  | append_singleton front last =>
    have member : last ∈ tenure.changes := by simp [changes, split]
    obtain ⟨named, isNamed⟩ := Option.isSome_iff_exists.mp (known last member)
    have held : last.asPending = some ⟨last.wireSeq, named, last.change.unwitnessed⟩ := by
      rw [JournaledChange.asPending, isNamed]
      rfl
    refine .inr ?_
    rw [← List.append_assoc, policy_lineagePolicyOf_snoc]
    simp [held, PendingChange.key, AckPolicy.toByte_of_fromByte isNamed]

theorem previous_of_pending (tenure : Tenure R Q) (starting : tenure.start.pending = some pending) :
    (∃ change ∈ tenure.changes, change.wireSeq = pending.wireSeq ∧
      AckPolicy.fromByte change.change.policy = some pending.policy) ∧
    policyBefore tenure.changes pending.wireSeq = some tenure.start.inForce.toByte := by
  cases startEq : tenure.start with
  | mk inForce waiting =>
  rw [startEq] at starting
  cases startEq ▸ tenure.starts with
  | fresh _ _ idle => simp_all
  | settled => simp_all
  | moving newest previous policy before folded moved named namedBefore =>
    obtain ⟨front, transition, back, split, wireEq, policyEq, previousEq⟩ :=
      exists_transition folded
    obtain rfl := Option.some.inj starting
    refine ⟨⟨transition, by simp [changes, split], wireEq, by rw [policyEq, named]⟩, ?_⟩
    have increasing := tenure.increasing
    rw [split, List.append_assoc, List.cons_append] at increasing
    rw [policyBefore, changes, split, List.append_assoc, List.cons_append, ← wireEq,
      takeWhile_before increasing, previousEq, moved, AckPolicy.toByte_of_fromByte namedBefore]

theorem previous_of_journaled (tenure : Tenure R Q) (known : tenure.Known)
    {front : List (Nat × AckPolicy)}
    (worked : front ++ [(wireSeq, policy)]
      <+: (tenure.journaled.filterMap JournaledChange.asPending).map PendingChange.key) :
    (∃ change ∈ tenure.changes, change.wireSeq = wireSeq ∧
      AckPolicy.fromByte change.change.policy = some policy) ∧
    (policyBefore tenure.changes wireSeq = none ∨
      policyBefore tenure.changes wireSeq = some
        (((tenure.start.pending.toList.map PendingChange.key ++ front).getLast?.map (·.2)).getD
          tenure.start.inForce).toByte) := by
  obtain ⟨early, change, late, split, rfl, named, rfl⟩ :=
    exists_split (fun change member => known change (List.mem_append_right _ member)) worked
  have increasing := tenure.increasing
  rw [split, ← List.append_assoc] at increasing
  refine ⟨⟨change, by simp [changes, split], rfl, named⟩, ?_⟩
  rw [policyBefore, changes, split, ← List.append_assoc, takeWhile_before increasing,
    ← List.map_append]
  exact tenure.policy_worked_off known split

theorem previous_eq (tenure : Tenure R Q) (known : tenure.Known) {previous : AckPolicy}
    (applied : tenure.trace = before ++ .applied wireSeq policy previous :: after) :
    (∃ change ∈ tenure.changes, change.wireSeq = wireSeq ∧
      AckPolicy.fromByte change.change.policy = some policy) ∧
    (policyBefore tenure.changes wireSeq = none ∨
      policyBefore tenure.changes wireSeq = some previous.toByte) := by
  have sound := DurabilityGate.sound_run tenure.start tenure.degradedGrace tenure.first tenure.ops
  have isPrevious : previous = policyAfter tenure.start.inForce before :=
    sound.named before _ after applied
  have worked : appliedChanges before ++ [(wireSeq, policy)]
      <+: tenure.queue.map PendingChange.key := by
    refine List.IsPrefix.trans ?_ tenure.applied_queue
    rw [applied, appliedChanges_append]
    exact (List.prefix_append_right_inj _).mpr ⟨appliedChanges after, rfl⟩
  rw [policyAfter_eq] at isPrevious
  rw [isPrevious]
  rw [queue, List.map_append] at worked
  -- The change is the one the gate started with, or one of those the tenure journaled.
  cases starting : tenure.start.pending with
  | none =>
    rw [starting] at worked
    have journaled := tenure.previous_of_journaled known worked
    rw [starting] at journaled
    exact journaled
  | some pending =>
    rw [starting] at worked
    cases frontEq : appliedChanges before with
    | nil =>
      rw [frontEq] at worked
      obtain ⟨rfl, rfl⟩ := Prod.mk.inj (List.cons_prefix_cons.mp worked).1
      obtain ⟨member, isBefore⟩ := tenure.previous_of_pending starting
      exact ⟨member, .inr isBefore⟩
    | cons key front =>
      rw [frontEq] at worked
      obtain ⟨rfl, rest⟩ := List.cons_prefix_cons.mp worked
      have journaled := tenure.previous_of_journaled known rest
      rw [starting] at journaled
      exact journaled

theorem lineagePolicyOf_witnessed {changes : List JournaledChange} {newest : LineagePolicy}
    (witnessed : ∀ change ∈ changes, change.change.unwitnessed = false)
    (folded : lineagePolicyOf changes = some newest) : newest.change.unwitnessed = false := by
  induction changes using List.reverseRecOn generalizing newest with
  | nil => cases folded
  | append_singleton front last ih =>
    have isWitnessed := witnessed last (by simp)
    rw [lineagePolicyOf_snoc, Option.some.injEq] at folded
    cases before : lineagePolicyOf front with
    | none =>
      rw [← folded, before]
      exact isWitnessed
    | some current =>
      have earlier := ih (fun change member => witnessed change (by simp [member])) before
      rw [← folded, before]
      simp only [LineagePolicy.after]
      split
      · simp [earlier, isWitnessed]
      · exact isWitnessed

theorem holds_pending (tenure : Tenure R Q) (starting : tenure.start.pending = some pending) :
    tenure.journal.Holds pending := by
  obtain ⟨⟨change, member, sameSeq, named⟩, -⟩ := tenure.previous_of_pending starting
  have witnessed : pending.unwitnessed = change.change.unwitnessed := by
    rw [tenure.witnessed change member]
    cases startEq : tenure.start with
    | mk inForce waiting =>
    rw [startEq] at starting
    cases startEq ▸ tenure.starts with
    | fresh _ _ idle => simp_all
    | settled => simp_all
    | moving newest previous policy before folded =>
      obtain rfl := Option.some.inj starting
      exact lineagePolicyOf_witnessed
        (fun other inherited => tenure.witnessed other (List.mem_append_left _ inherited)) folded
  refine ⟨change.change.policy, ?_, named⟩
  rw [← sameSeq, witnessed]
  exact member

theorem ops_from (tenure : Tenure R Q) :
    ∀ op ∈ tenure.ops, DurabilityGate.OpFrom tenure.journal.source op := by
  intro op member
  cases op with
  | idleRecheck | afterBatch => trivial
  | admitOutput slot looks =>
    refine ⟨fun change isChange => ?_, fun look seen forced isForced => ?_⟩
    · have carried : (⟨slot.wireSeq, change⟩ : JournaledChange)
          ∈ DurabilityGate.changeSlots tenure.ops := by
        refine List.mem_flatMap.mpr ⟨_, member, ?_⟩
        simp [DurabilityGate.slotChange, isChange]
      exact List.mem_append_right _ (tenure.delivered.subset carried)
    · rw [tenure.quiet _ member look seen] at isForced
      cases isForced

theorem certified_applied (tenure : Tenure R Q) {previous : AckPolicy}
    (applied : tenure.trace = before ++ .applied wireSeq policy previous :: after) :
    Certified before previous wireSeq := by
  have held : ∀ pending ∈ tenure.start.pending, tenure.journal.Holds pending :=
    fun pending starting => tenure.holds_pending starting
  have steps := (DurabilityGate.steps_new tenure.journal.source tenure.start tenure.degradedGrace
    tenure.first).trans (DurabilityGate.steps_run tenure.ops _ tenure.ops_from)
  have ordered := (GateCore.ordered_start held).steps steps (GateCore.sound_start tenure.start)
  rcases ordered.durable before _ after applied with certified | ⟨byte, member, -⟩
  · exact certified
  · exact absurd (tenure.witnessed _ member) (by simp)

theorem exists_startedUnder (tenure : Tenure R Q) (under : tenure.startedUnder = some wireSeq) :
    ∃ front change back, tenure.inherited = front ++ change :: back ∧ change.wireSeq = wireSeq ∧
      AckPolicy.fromByte change.change.policy = some tenure.start.inForce := by
  cases startEq : tenure.start with
  | mk inForce waiting =>
  cases startEq ▸ tenure.starts with
  | fresh _ none =>
    rw [startedUnder, none] at under
    cases under
  | settled newest policy folded only named =>
    obtain ⟨front, transition, back, split, wireEq, policyEq, -⟩ := exists_transition folded
    simp only [startedUnder, folded, Option.bind_eq_bind, Option.bind_some, only,
      Option.some.injEq] at under
    exact ⟨front, transition, back, split, wireEq.trans under, by rw [policyEq, named]⟩
  | moving newest previous policy before folded moved named namedBefore =>
    obtain ⟨front, transition, back, split, wireEq, -, previousEq⟩ := exists_transition folded
    have increasing := (List.pairwise_append.mp tenure.increasing).1
    rw [split] at increasing
    simp only [startedUnder, folded, Option.bind_eq_bind, Option.bind_some, moved] at under
    rw [split, ← wireEq, takeWhile_before increasing] at under
    obtain ⟨earlier, foldedEarlier, rfl⟩ := Option.map_eq_some_iff.mp under
    obtain ⟨early, change, rest, rfl, earlierSeq, earlierPolicy, -⟩ :=
      exists_transition foldedEarlier
    refine ⟨early, change, rest ++ transition :: back, by simp [split], earlierSeq, ?_⟩
    rw [foldedEarlier, moved] at previousEq
    have same : earlier.change.policy = previous := Option.some.inj previousEq
    rw [earlierPolicy, same, namedBefore]

/--
An earlier tenure's gate had applied the change whose policy the gate starts under, on the same
journal up to that change; the lineage's first policy is exempt.
-/
def StartsApplied (earlier : List (Tenure R Q)) (tenure : Tenure R Q) : Prop :=
  ∀ wireSeq ∈ tenure.startedUnder, policyBefore tenure.changes wireSeq ≠ none →
    ∃ before ∈ earlier, wireSeq ∈ (appliedChanges before.trace).map (·.1) ∧
      tenure.inherited.takeWhile (·.wireSeq ≤ wireSeq) <+: before.changes

def DurableUnder (byte : AckPolicyByte) (wireSeq : Nat) (event : GateEvent) : Prop :=
  ∃ policy nodes, event = .evaluated policy nodes ∧ policy.toByte = byte ∧
    wireSeq ≤ (policy.toPolicy.evaluateWithStatus nodes).durablePos

theorem exists_applied {trace : List GateEvent} (applied : (wireSeq, policy) ∈ appliedChanges trace) :
    
    ∃ before previous after, trace = before ++ .applied wireSeq policy previous :: after := by
  obtain ⟨event, recorded, isApplied⟩ := List.mem_filterMap.mp applied
  cases event with
  | journal | evaluated | released => cases isApplied
  | applied wireSeq next previous =>
    obtain ⟨rfl, rfl⟩ := Prod.mk.inj (Option.some.inj isApplied)
    obtain ⟨before, after, split⟩ := List.append_of_mem recorded
    exact ⟨before, previous, after, split⟩

theorem durableUnder_applied (tenure : Tenure R Q) (known : tenure.Known)
    (seen : tenure.trace = before ++ after) (applied : wireSeq ∈ (appliedChanges before).map (·.1))
    {previous : AckPolicyByte} (isPrevious : policyBefore tenure.changes wireSeq = some previous) :
    ∃ event ∈ before, DurableUnder previous wireSeq event := by
  obtain ⟨⟨_, policy⟩, member, rfl⟩ := List.mem_map.mp applied
  obtain ⟨front, replaced, back, rfl⟩ := exists_applied member
  rw [List.append_assoc, List.cons_append] at seen
  obtain ⟨evaluated, nodes, since, rfl, reached, -⟩ := tenure.certified_applied seen
  have same : previous = replaced.toByte := by
    rcases (tenure.previous_eq known seen).2 with none | some
    · rw [none] at isPrevious
      cases isPrevious
    · exact Option.some.inj (isPrevious.symm.trans some)
  exact ⟨.evaluated replaced nodes, by simp, replaced, nodes, rfl, same.symm, reached⟩

theorem policyBefore_congr {tenure before : Tenure R Q} {front back : List JournaledChange}
    {change : JournaledChange} (split : tenure.inherited = front ++ change :: back)
    (shared : tenure.inherited.takeWhile (·.wireSeq ≤ change.wireSeq) <+: before.changes) :
    policyBefore tenure.changes change.wireSeq = policyBefore before.changes change.wireSeq := by
  have increasing := tenure.increasing
  rw [split, List.append_assoc, List.cons_append] at increasing
  have early := (List.pairwise_append.mp increasing).2.2
  have late := (List.pairwise_cons.mp (List.pairwise_append.mp increasing).2.1).1
  have upTo : tenure.inherited.takeWhile (·.wireSeq ≤ change.wireSeq) = front ++ [change] := by
    rw [split, List.takeWhile_append_of_pos fun other member => by
      simpa using le_of_lt (early other member change List.mem_cons_self)]
    cases back with
    | nil => simp
    | cons next back => simpa using late next (by simp)
  rw [upTo] at shared
  obtain ⟨rest, wholeEq⟩ := shared
  rw [List.append_assoc, List.singleton_append] at wholeEq
  have alike := before.increasing
  rw [show before.inherited ++ before.journaled = _ from wholeEq.symm] at alike
  rw [policyBefore, policyBefore, changes, split, List.append_assoc, List.cons_append,
    takeWhile_before increasing, ← wholeEq, takeWhile_before alike]

end Tenure

/-- The tenures of one cluster: each starts on a front of the journal of the one before it. -/
structure History (R Q : Type) where
  tenures : List (Tenure R Q)
  begins : ∀ first ∈ tenures.head?, first.inherited = []
  continues : tenures.IsChain fun before after => after.inherited <+: before.changes

/--
Whatever change a gate has in force, it is the change's policy that is in force, and the change was
found durable, by this gate before or by an earlier tenure's, under the policy the lineage had right
before it.
-/
theorem History.inForce_witnessed {R Q : Type} (history : History R Q)
    {earlier later : List (Tenure R Q)} {tenure : Tenure R Q}
    (split : history.tenures = earlier ++ tenure :: later)
    (known : ∀ each ∈ history.tenures, each.Known) (applied : tenure.StartsApplied earlier)
    {before after : List GateEvent} (seen : tenure.trace = before ++ after) {wireSeq : Nat}
    (inForce : tenure.inForceChange before = some wireSeq) :
    (∃ change ∈ tenure.changes, change.wireSeq = wireSeq ∧
      change.change.policy = (policyAfter tenure.start.inForce before).toByte) ∧
    ∀ previous, policyBefore tenure.changes wireSeq = some previous →
      ∃ event ∈ (earlier.flatMap Tenure.trace) ++ before,
        Tenure.DurableUnder previous wireSeq event := by
  unfold Tenure.inForceChange at inForce
  cases isLast : (appliedChanges before).getLast? with
  | some last =>
    -- This gate applied it.
    obtain ⟨lastSeq, policy⟩ := last
    rw [isLast] at inForce
    obtain rfl : lastSeq = wireSeq := Option.some.inj inForce
    have member := List.mem_of_getLast? isLast
    obtain ⟨front, replaced, back, beforeEq⟩ := Tenure.exists_applied member
    have isApplied := seen
    rw [beforeEq, List.append_assoc, List.cons_append] at isApplied
    have knownHere := known tenure (by simp [split])
    obtain ⟨⟨change, onJournal, sameSeq, named⟩, -⟩ := tenure.previous_eq knownHere isApplied
    refine ⟨⟨change, onJournal, sameSeq, ?_⟩, fun previous isPrevious => ?_⟩
    · rw [Tenure.policyAfter_eq, isLast]
      exact (AckPolicy.toByte_of_fromByte named).symm
    · obtain ⟨event, recorded, durable⟩ := tenure.durableUnder_applied knownHere seen
        (List.mem_map_of_mem member) isPrevious
      exact ⟨event, List.mem_append_right _ recorded, durable⟩
  | none =>
    -- The gate started under it.
    rw [isLast] at inForce
    obtain ⟨front, change, back, inheritedEq, rfl, named⟩ := tenure.exists_startedUnder inForce
    refine ⟨⟨change, by simp [Tenure.changes, inheritedEq], rfl, ?_⟩, fun previous isPrevious => ?_⟩
    · rw [Tenure.policyAfter_eq, isLast]
      exact (AckPolicy.toByte_of_fromByte named).symm
    · obtain ⟨witness, isEarlier, wasApplied, shared⟩ :=
        applied change.wireSeq inForce (by simp [isPrevious])
      rw [Tenure.policyBefore_congr inheritedEq shared] at isPrevious
      obtain ⟨event, recorded, durable⟩ := witness.durableUnder_applied
        (known witness (by simp [split, isEarlier])) (List.append_nil _).symm wasApplied isPrevious
      exact ⟨event, List.mem_append_left _ (List.mem_flatMap.mpr ⟨witness, isEarlier, recorded⟩),
        durable⟩

open DurabilityGate (aloneLook haltedLook)

def witnessedChange (wireSeq : Nat) (policy : AckPolicy) : JournaledChange :=
  ⟨wireSeq, ⟨policy.toByte, false⟩⟩

def changeSlot (journaled : JournaledChange) (looks : List Look) :
    DurabilityGate.GateOp Unit Unit :=
  .admitOutput ⟨0, journaled.wireSeq, .ackPolicyChange journaled.change⟩ looks

def appliedTenure : Tenure Unit Unit where
  inherited := []
  journaled := [witnessedChange 1 .disk, witnessedChange 2 .diskAndRam, witnessedChange 3 .twoDisks]
  requested := .disk
  start := .settled .disk
  degradedGrace := none
  first := aloneLook 3
  ops := [changeSlot (witnessedChange 1 .disk) [], changeSlot (witnessedChange 2 .diskAndRam) [],
    changeSlot (witnessedChange 3 .twoDisks) []]
  increasing := by decide
  positive := by decide
  witnessed := by decide
  started := rfl
  delivered := List.prefix_rfl
  quiet := by simp [changeSlot, DurabilityGate.Quiet]

def followingTenure : Tenure Unit Unit where
  inherited := appliedTenure.changes
  journaled := []
  requested := .disk
  start := ⟨.diskAndRam, some ⟨3, .twoDisks, false⟩⟩
  degradedGrace := none
  first := aloneLook 3
  ops := []
  increasing := by decide
  positive := by decide
  witnessed := by decide
  started := rfl
  delivered := List.prefix_rfl
  quiet := by simp

def appliedHistory : History Unit Unit where
  tenures := [appliedTenure, followingTenure]
  begins := by simp [appliedTenure]
  continues := by simp [followingTenure, Tenure.changes]

/-- The second tenure starts under a change that the first tenure's gate found durable. -/
theorem History.inForce_witnessed_applied :
    followingTenure.inForceChange [] = some 2 ∧
      ∃ event ∈ appliedTenure.trace, Tenure.DurableUnder AckPolicy.disk.toByte 2 event := by
  have known : ∀ each ∈ appliedHistory.tenures, each.Known := by
    intro each member
    simp only [appliedHistory, List.mem_cons, List.not_mem_nil, or_false] at member
    rcases member with rfl | rfl <;> (unfold Tenure.Known; decide)
  have applied : followingTenure.StartsApplied [appliedTenure] := by
    intro wireSeq under _
    obtain rfl : 2 = wireSeq := Option.some.inj under
    exact ⟨appliedTenure, List.mem_singleton_self _, by decide, by decide⟩
  have split : appliedHistory.tenures = [appliedTenure] ++ followingTenure :: [] := rfl
  have inForce : followingTenure.inForceChange [] = some 2 := rfl
  have witnessed := (History.inForce_witnessed appliedHistory split known applied
    (List.nil_append _).symm inForce).2 AckPolicy.disk.toByte (by decide)
  exact ⟨inForce, by simpa using witnessed⟩

def waitingTenure : Tenure Unit Unit where
  inherited := []
  journaled := [witnessedChange 1 .diskAndRam, witnessedChange 2 .disk, witnessedChange 3 .twoDisks]
  requested := .diskAndRam
  start := .settled .diskAndRam
  degradedGrace := some 5
  first := haltedLook 3
  ops := [changeSlot (witnessedChange 1 .diskAndRam) [haltedLook 3],
    changeSlot (witnessedChange 2 .disk) [haltedLook 3, haltedLook 3],
    changeSlot (witnessedChange 3 .twoDisks) [haltedLook 3, haltedLook 3]]
  increasing := by decide
  positive := by decide
  witnessed := by decide
  started := rfl
  delivered := List.prefix_rfl
  quiet := by simp [changeSlot, DurabilityGate.Quiet, haltedLook, aloneLook]

/-- The tenure that follows: the fold kept the last move only, and its gate starts under `disk`. -/
def overtakingTenure : Tenure Unit Unit where
  inherited := waitingTenure.changes
  journaled := []
  requested := .diskAndRam
  start := ⟨.disk, some ⟨3, .twoDisks, false⟩⟩
  degradedGrace := some 5
  first := haltedLook 3
  ops := []
  increasing := by decide
  positive := by decide
  witnessed := by decide
  started := rfl
  delivered := List.prefix_rfl
  quiet := by simp

/-- Two tenures, the second of which starts under a change the first one left waiting. -/
def overtakingHistory : History Unit Unit where
  tenures := [waitingTenure, overtakingTenure]
  begins := by simp [waitingTenure]
  continues := by simp [overtakingTenure, Tenure.changes]

/--
Two changes wait under `disk+ram` when the first tenure ends, and the second tenure's gate has the
first of them in force, though no gate ever found it durable under `disk+ram`.
-/
theorem History.inForce_unwitnessed :
    (DurabilityGate.run (.new waitingTenure.start waitingTenure.degradedGrace waitingTenure.first)
        waitingTenure.ops).pending.map PendingChange.key
      = [(1, .diskAndRam), (2, .disk), (3, .twoDisks)] ∧
    (∀ each ∈ overtakingHistory.tenures, each.Known) ∧
    overtakingTenure.inForceChange [] = some 2 ∧
    policyBefore overtakingTenure.changes 2 = some AckPolicy.diskAndRam.toByte ∧
    ¬ ∃ event ∈ overtakingHistory.tenures.flatMap Tenure.trace,
      Tenure.DurableUnder AckPolicy.diskAndRam.toByte 2 event := by
  refine ⟨by decide, ?_, rfl, by decide, ?_⟩
  · intro each member
    simp only [overtakingHistory, List.mem_cons, List.not_mem_nil, or_false] at member
    rcases member with rfl | rfl <;> (unfold Tenure.Known; decide)
  · rintro ⟨event, recorded, policy, nodes, rfl, named, reached⟩
    obtain rfl : policy = .diskAndRam := by
      cases policy <;> first | rfl | (cases named)
    -- Every evaluation of `disk+ram` saw the primary alone.
    have checked : (overtakingHistory.tenures.flatMap Tenure.trace).all (fun event =>
        event.casesOn (fun _ => true) (fun policy nodes => policy != .diskAndRam ||
          (policy.toPolicy.evaluateWithStatus nodes).durablePos < 2)
        (fun _ _ _ => true) fun _ _ _ => true) = true := by decide
    have below := List.all_eq_true.mp checked _ recorded
    simp only [bne_self_eq_false, Bool.false_or, decide_eq_true_eq] at below
    omega

end Melin
