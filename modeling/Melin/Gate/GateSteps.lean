import Melin.Gate.DurabilityGate
import Melin.Gate.AckPolicyLaws

/-! The gate as a transition system: what it can do in one step, and that its code does only that. -/

namespace Melin

/-- The part of the gate that decides what is released and which policy is in force. -/
structure GateCore where
  inForce : AckPolicy
  cached : Nat
  pending : List PendingChange
  appliedThrough : Option Nat
  trace : List GateEvent

/-- Where a gate's changes may come from besides its start. -/
structure ChangeSource where
  /-- Changes the forced cell may hold. -/
  forced : Nat → AckPolicyByte → Prop
  /-- Changes an output slot may carry. -/
  ordered : Nat → AckPolicyChange → Prop

def OnDisk (trace : List GateEvent) (wireSeq : Nat) : Prop :=
  ∃ position, .journal position ∈ trace ∧ wireSeq ≤ position

namespace GateCore

def record (core : GateCore) (event : GateEvent) : GateCore :=
  { core with trace := core.trace ++ [event] }

def apply (core : GateCore) (wireSeq : Nat) (policy : AckPolicy) : GateCore :=
  if core.appliedThrough.any (wireSeq ≤ ·) then core
  else
    { core with
      appliedThrough := some wireSeq
      trace := core.trace ++ [.applied wireSeq policy core.inForce]
      inForce := policy
      cached := if policy = core.inForce then core.cached else 0 }

inductive Step (source : ChangeSource) : GateCore → GateCore → Prop where
  /-- Read the local journal's cursor. -/
  | journal (core : GateCore) (position : Nat) : Step source core (core.record (.journal position))
  /-- Evaluate the policy in force and cache the position it confirms. -/
  | evaluate (core : GateCore) (nodes : List NodeCursors) :
    Step source core ({ core with
      cached := (core.inForce.toPolicy.evaluateWithStatus nodes).durablePos }.record
        (.evaluated core.inForce nodes))
  /-- Apply the front pending change: confirmed, or unwitnessed and on this node's disk. -/
  | settle (core : GateCore) (front : PendingChange) (rest : List PendingChange)
    (isFront : core.pending = front :: rest)
    (durable : front.wireSeq ≤ core.cached ∨
      (front.unwitnessed = true ∧ OnDisk core.trace front.wireSeq)) :
    Step source core ({ core with pending := rest }.apply front.wireSeq front.policy)
  /-- Apply a forced change that is on this node's disk. -/
  | force (core : GateCore) (wireSeq : Nat) (byte : AckPolicyByte) (policy : AckPolicy)
    (sent : source.forced wireSeq byte) (known : AckPolicy.fromByte byte = some policy)
    (durable : OnDisk core.trace wireSeq) : Step source core (core.apply wireSeq policy)
  /-- Apply a change in its place among the output slots, once confirmed. -/
  | order (core : GateCore) (wireSeq : Nat) (change : AckPolicyChange) (policy : AckPolicy)
    (sent : source.ordered wireSeq change) (known : AckPolicy.fromByte change.policy = some policy)
    (confirmed : wireSeq ≤ core.cached) : Step source core (core.apply wireSeq policy)
  /-- Let a change that was released on the primary's disk alone join the pending ones. -/
  | defer (core : GateCore) (wireSeq : Nat) (change : AckPolicyChange) (policy : AckPolicy)
    (sent : source.ordered wireSeq change)
    (known : AckPolicy.fromByte change.policy = some policy) :
    Step source core
      { core with pending := core.pending ++ [⟨wireSeq, policy, change.unwitnessed⟩] }
  /-- Let a slot through; a full release is one the cached position covers. -/
  | release (core : GateCore) (wireSeq : Nat) (backing : Backing)
    (confirmed : backing = .policy → wireSeq ≤ core.cached) :
    Step source core (core.record (.released wireSeq backing core.inForce))

abbrev Steps (source : ChangeSource) : GateCore → GateCore → Prop :=
  Relation.ReflTransGen (Step source)

theorem mem_trace_apply {core : GateCore} {event : GateEvent} (wireSeq : Nat)
    (policy : AckPolicy) (recorded : event ∈ core.trace) :
    event ∈ (core.apply wireSeq policy).trace := by
  unfold apply
  split
  · exact recorded
  · exact List.mem_append_left _ recorded

def start (start : GateStart) : GateCore :=
  { inForce := start.inForce, cached := 0, pending := start.pending.toList
    appliedThrough := none, trace := [] }

theorem Steps.mem_trace {source : ChangeSource} {before after : GateCore}
    (steps : Steps source before after) {event : GateEvent}
    (recorded : event ∈ before.trace) : event ∈ after.trace := by
  induction steps with
  | refl => exact recorded
  | tail _ step ih =>
    cases step with
    | journal | evaluate | release => exact List.mem_append_left _ ih
    | settle | force | order => exact mem_trace_apply _ _ ih
    | defer => exact ih

end GateCore

namespace DurabilityGate

def core (gate : DurabilityGate) : GateCore :=
  { inForce := gate.activePolicy, cached := gate.cachedDurablePos, pending := gate.pending,
    appliedThrough := gate.appliedThrough, trace := gate.trace }

@[simp] theorem core_record (gate : DurabilityGate) (event : GateEvent) :
    (gate.record event).core = gate.core.record event := rfl

@[simp] theorem core_countBlocker (gate : DurabilityGate) (blocker : Option Blocker) :
    (gate.countBlocker blocker).core = gate.core := by
  match blocker with
  | some .journal | some .replication | none => rfl

@[simp] theorem core_refuseUnknown (gate : DurabilityGate) (wireSeq : Nat) :
    (gate.refuseUnknown wireSeq).core = gate.core := by
  unfold refuseUnknown
  split <;> rfl

@[simp] theorem core_degradedReleaseOpen (gate : DurabilityGate) (look : Look) :
    (gate.degradedReleaseOpen look).2.core = gate.core := by
  unfold degradedReleaseOpen
  split
  · rfl
  · split <;> rfl

/-- An applied change takes effect in the deciding part, and an unknown one changes nothing there. -/
theorem core_applyChange (gate : DurabilityGate) (wireSeq : Nat) (byte : AckPolicyByte) :
    (gate.applyChange wireSeq byte).core =
      match AckPolicy.fromByte byte with
      | none => gate.core
      | some policy => gate.core.apply wireSeq policy := by
  unfold applyChange GateCore.apply isStale
  by_cases stale : gate.appliedThrough.any (wireSeq ≤ ·) = true
  · have coreStale : gate.core.appliedThrough.any (wireSeq ≤ ·) = true := stale
    rw [if_pos stale]
    split
    · rfl
    · rw [if_pos coreStale]
  · have coreStale : ¬ gate.core.appliedThrough.any (wireSeq ≤ ·) = true := stale
    rw [if_neg stale]
    cases AckPolicy.fromByte byte with
    | none => exact core_refuseUnknown gate wireSeq
    | some policy =>
      simp only [if_neg coreStale, switchTo, record]
      -- A change that names the policy in force is recorded, and resets nothing.
      by_cases same : policy = gate.activePolicy
      · simp [core, same]
      · simp [core, same]

theorem step_evaluate (source : ChangeSource) (gate : DurabilityGate) (look : Look) :
    GateCore.Step source gate.core (gate.evaluate look).core := by
  have step : GateCore.Step source gate.core _ :=
    .evaluate gate.core (cursorView look.journalPos look.replicas)
  simpa [evaluate, core, gate.policyEq, record, GateCore.record] using step

theorem core_applyFrontPending {gate : DurabilityGate} {front : PendingChange}
    {rest : List PendingChange} (isFront : gate.pending = front :: rest) :
    gate.applyFrontPending.core
      = { gate.core with pending := rest }.apply front.wireSeq front.policy := by
  simp only [applyFrontPending, isFront, core_applyChange, AckPolicy.fromByte_toByte]
  rfl

theorem steps_settlePendingLoop (source : ChangeSource) {journalPos : Nat} (fuel : Nat)
    (gate : DurabilityGate) (seen : .journal journalPos ∈ gate.trace) :
    GateCore.Steps source gate.core (settlePendingLoop journalPos fuel gate).core := by
  induction fuel generalizing gate with
  | zero => exact .refl
  | succ fuel ih =>
    unfold settlePendingLoop
    split
    · exact .refl
    · rename_i front rest isFront
      split
      · exact .refl
      · rename_i durable
        have step : GateCore.Step source gate.core gate.applyFrontPending.core := by
          rw [core_applyFrontPending isFront]
          refine .settle gate.core front rest isFront ?_
          -- The loop went on, so the change is confirmed, or unwitnessed and on disk.
          by_cases confirmed : front.wireSeq ≤ gate.cachedDurablePos
          · exact .inl confirmed
          · have onDisk := not_not.mp (not_and.mp durable (by omega))
            exact .inr ⟨onDisk.1, journalPos, seen, onDisk.2⟩
        exact .head step (ih _ (GateCore.Steps.mem_trace (.single step) seen))

theorem step_release (source : ChangeSource) (gate : DurabilityGate) (wireSeq : Nat)
    (backing : Backing) (confirmed : backing = .policy → wireSeq ≤ gate.cachedDurablePos) :
    GateCore.Step source gate.core
      (gate.record (.released wireSeq backing gate.activePolicy)).core :=
  .release gate.core wireSeq backing confirmed

theorem steps_observeForced {source : ChangeSource} {gate : DurabilityGate} {look : Look}
    (sent : ∀ forced ∈ look.forced, source.forced forced.wireSeq forced.policy)
    (seen : .journal look.journalPos ∈ gate.trace) :
    GateCore.Steps source gate.core (gate.observeForced look).core := by
  have settled := steps_settlePendingLoop source gate.pending.length gate seen
  have stillSeen := settled.mem_trace seen
  unfold observeForced
  cases found : look.forced with
  | none => exact settled
  | some forced =>
    simp only
    split
    · rename_i onDisk
      refine settled.trans ?_
      rw [core_applyChange]
      -- A forced change that names an unknown policy is no step at all.
      cases known : AckPolicy.fromByte forced.policy with
      | none => exact .refl
      | some policy =>
        exact .single (.force _ _ _ policy (sent forced (by rw [found]; rfl)) known
          ⟨look.journalPos, stillSeen, onDisk⟩)
    · exact settled

theorem steps_turn {source : ChangeSource} (gate : DurabilityGate) {look : Look}
    (sent : ∀ forced ∈ look.forced, source.forced forced.wireSeq forced.policy) :
    GateCore.Steps source gate.core
      (((gate.record (.journal look.journalPos)).observeForced look).evaluate look).core := by
  have read : GateCore.Step source gate.core (gate.record (.journal look.journalPos)).core :=
    .journal gate.core look.journalPos
  have seen : .journal look.journalPos ∈ (gate.record (.journal look.journalPos)).trace := by
    simp [record]
  exact (Relation.ReflTransGen.head read (steps_observeForced sent seen)).tail
    (step_evaluate source _ look)

def LooksFrom (source : ChangeSource) (looks : List Look) : Prop :=
  ∀ look ∈ looks, ∀ forced ∈ look.forced, source.forced forced.wireSeq forced.policy

/--
A wait only takes steps, and opens in full only where the cached position covers what it waited for.

The induction is on the looks; each turn reads, settles, observes and evaluates.
-/
theorem steps_waitDurable {source : ChangeSource} (needed : Nat) (looks : List Look)
    (gate : DurabilityGate) (sent : LooksFrom source looks) :
    GateCore.Steps source gate.core (waitDurable needed looks gate).1.core ∧
      ((waitDurable needed looks gate).2.1 = some (.opened .policy) →
        needed ≤ (waitDurable needed looks gate).1.cachedDurablePos) ∧
      LooksFrom source (waitDurable needed looks gate).2.2 := by
  induction looks generalizing gate with
  | nil => exact ⟨.refl, by simp [waitDurable], by simp [waitDurable, LooksFrom]⟩
  | cons look looks ih =>
    have later : LooksFrom source looks := fun other member =>
      sent other (List.mem_cons_of_mem _ member)
    unfold waitDurable
    split
    · exact ⟨.refl, by simp, later⟩
    · have turn := steps_turn gate (sent look List.mem_cons_self)
      simp only
      generalize ((gate.record (.journal look.journalPos)).observeForced look).evaluate look
        = turned at turn ⊢
      split
      · -- The policy confirmed it.
        rename_i covered
        generalize blockerEq : (evaluateGate _ needed look.journalPos look.replicas).2 = blocker
        have counted := core_countBlocker turned blocker
        refine ⟨turn.tail ?_, fun _ => ?_, later⟩
        · simp only [core_record, counted]
          exact step_release source turned needed .policy (fun _ => covered)
        · show needed ≤ (turned.countBlocker blocker).core.cached
          rw [counted]
          exact covered
      · split
        · have halted := core_degradedReleaseOpen turned look
          split
          · rename_i after released
            rw [released] at halted
            refine ⟨turn.tail ?_, by simp, later⟩
            rw [← halted]
            exact step_release source after needed .primaryOnly (by simp)
          · rename_i after released
            rw [released] at halted
            obtain ⟨steps, covers, left⟩ := ih after later
            exact ⟨turn.trans (halted ▸ steps), covers, left⟩
        · obtain ⟨steps, covers, left⟩ := ih turned later
          exact ⟨turn.trans steps, covers, left⟩

theorem steps_admitPendingLoop {source : ChangeSource} (fuel : Nat) (looks : List Look)
    (gate : DurabilityGate) (sent : LooksFrom source looks) :
    GateCore.Steps source gate.core (admitPendingLoop fuel looks gate).1.core ∧
      LooksFrom source (admitPendingLoop fuel looks gate).2.2 := by
  induction fuel generalizing gate looks with
  | zero => exact ⟨.refl, sent⟩
  | succ fuel ih =>
    unfold admitPendingLoop
    split
    · exact ⟨.refl, sent⟩
    · rename_i front rest isFront
      split
      · -- The front change has to be waited for.
        obtain ⟨waited, covers, left⟩ := steps_waitDurable front.wireSeq looks gate sent
        generalize waitDurable front.wireSeq looks gate = outcome at waited covers left ⊢
        split
        · rename_i after looksLeft
          split
          · obtain ⟨steps, still⟩ := ih looksLeft after left
            exact ⟨waited.trans steps, still⟩
          · rename_i stillFront
            have sameFront : after.pending.head? = some front := not_not.mp stillFront
            obtain ⟨others, isAfterFront⟩ := List.head?_eq_some_iff.mp sameFront
            have step : GateCore.Step source after.core after.applyFrontPending.core := by
              rw [core_applyFrontPending isAfterFront]
              exact .settle after.core front others isAfterFront (.inl (covers rfl))
            obtain ⟨steps, still⟩ := ih looksLeft after.applyFrontPending left
            exact ⟨(waited.tail step).trans steps, still⟩
        · exact ⟨waited, left⟩
      · -- The cached position covers it already.
        rename_i covered
        have step : GateCore.Step source gate.core gate.applyFrontPending.core := by
          rw [core_applyFrontPending isFront]
          exact .settle gate.core front rest isFront (.inl (by simpa [core] using covered))
        obtain ⟨steps, still⟩ := ih looks gate.applyFrontPending sent
        exact ⟨.head step steps, still⟩

section

variable {R Q : Type}

def SlotFrom (source : ChangeSource) (slot : OutputSlot R Q) : Prop :=
  ∀ change, slot.payload = .ackPolicyChange change → source.ordered slot.wireSeq change

theorem steps_finishSlot {source : ChangeSource} {gate : DurabilityGate} {slot : OutputSlot R Q}
    {backing : Backing} (sent : SlotFrom source slot)
    (confirmed : backing = .policy → slot.wireSeq ≤ gate.cachedDurablePos) :
    GateCore.Steps source gate.core (gate.finishSlot slot backing).1.core := by
  have released : GateCore.Steps source gate.core
      (gate.record (.released slot.wireSeq backing gate.activePolicy)).core :=
    .single (step_release source gate slot.wireSeq backing confirmed)
  unfold finishSlot
  cases payload : slot.payload with
  | report | queryResponse | batchEnd => exact released
  | ackPolicyChange change =>
    refine released.trans ?_
    cases backing with
    | policy =>
      simp only [core_applyChange]
      cases known : AckPolicy.fromByte change.policy with
      | none => exact .refl
      | some policy =>
        exact .single (.order _ _ change policy (sent change payload) known (confirmed rfl))
    | primaryOnly =>
      simp only [deferChange]
      split
      · exact .refl
      · cases known : AckPolicy.fromByte change.policy with
        | none => simp only [core_refuseUnknown]; exact .refl
        | some policy => exact .single (.defer _ _ change policy (sent change payload) known)

theorem steps_admitSlot {source : ChangeSource} {gate : DurabilityGate} {slot : OutputSlot R Q}
    {backing : Backing} {looks : List Look} (slotSent : SlotFrom source slot)
    (looksSent : LooksFrom source looks) :
    GateCore.Steps source gate.core (gate.admitSlot slot backing looks).1.core := by
  unfold admitSlot
  split
  · obtain ⟨waited, covers, -⟩ := steps_waitDurable slot.wireSeq looks gate looksSent
    generalize waitDurable slot.wireSeq looks gate = outcome at waited covers ⊢
    split
    · exact waited
    · exact waited
    · rename_i after opened left
      refine waited.trans (steps_finishSlot slotSent fun full => covers ?_)
      -- The weaker of the two backings is full only if the wait's is.
      cases backing <;> cases opened <;> simp_all [Backing.min]
  · rename_i covered
    refine steps_finishSlot slotSent fun _ => ?_
    simpa [slotNeedsGate] using covered

theorem steps_admitOutput {source : ChangeSource} (gate : DurabilityGate) {slot : OutputSlot R Q}
    {looks : List Look} (slotSent : SlotFrom source slot) (looksSent : LooksFrom source looks) :
    GateCore.Steps source gate.core (gate.admitOutput slot looks).1.core := by
  obtain ⟨pended, left⟩ := steps_admitPendingLoop gate.pending.length looks gate looksSent
  unfold admitOutput admitPending
  generalize admitPendingLoop gate.pending.length looks gate = outcome at pended left ⊢
  split
  · exact pended
  · exact pended
  · exact pended.trans (steps_admitSlot slotSent left)

theorem steps_recheck (source : ChangeSource) (gate : DurabilityGate) (look : Look) :
    GateCore.Steps source gate.core
      (((gate.record (.journal look.journalPos)).evaluate look).settlePendingIfDurable
        look.journalPos).core := by
  have read : GateCore.Step source gate.core (gate.record (.journal look.journalPos)).core :=
    .journal gate.core look.journalPos
  have evaluated := step_evaluate source (gate.record (.journal look.journalPos)) look
  have seen : .journal look.journalPos
      ∈ ((gate.record (.journal look.journalPos)).evaluate look).trace := by
    simp [record, evaluate]
  exact .head read (.head evaluated (steps_settlePendingLoop source _ _ seen))

theorem steps_idleRecheck (source : ChangeSource) (gate : DurabilityGate) (look : Look) :
    GateCore.Steps source gate.core (gate.idleRecheck look).core := by
  unfold idleRecheck
  split
  · exact .refl
  · rw [core_degradedReleaseOpen]
    exact steps_recheck source { gate with lastPolicyCheck := look.now } look

theorem steps_new (source : ChangeSource) (start : GateStart) (degradedGrace : Option Nat)
    (look : Look) : GateCore.Steps source (.start start) (new start degradedGrace look).core :=
  steps_recheck source (unevaluated start degradedGrace look.now) look

def OpFrom (source : ChangeSource) : GateOp R Q → Prop
  | .admitOutput slot looks => SlotFrom source slot ∧ LooksFrom source looks
  | .idleRecheck _ | .afterBatch _ => True

theorem steps_run {source : ChangeSource} (ops : List (GateOp R Q)) (gate : DurabilityGate)
    (sent : ∀ op ∈ ops, OpFrom source op) : GateCore.Steps source gate.core (run gate ops).core := by
  induction ops generalizing gate with
  | nil => exact .refl
  | cons op ops ih =>
    have later : ∀ other ∈ ops, OpFrom source other := fun other member =>
      sent other (List.mem_cons_of_mem _ member)
    cases op with
    | admitOutput slot looks =>
      have from_ := sent _ List.mem_cons_self
      have admitted := steps_admitOutput gate from_.1 from_.2
      unfold run
      generalize gate.admitOutput slot looks = outcome at admitted ⊢
      split
      · exact admitted.trans (ih _ later)
      · exact admitted.trans (ih _ later)
      · exact admitted
      · exact admitted
    | idleRecheck look => exact (steps_idleRecheck source gate look).trans (ih _ later)
    | afterBatch now => exact ih (gate.afterBatch now) later

end

end DurabilityGate

end Melin
