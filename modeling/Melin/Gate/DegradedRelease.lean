import Melin.Gate.ChangeOrder

/-! The degraded release: what has to hold for a reply to go out on the primary's disk alone. -/

namespace Melin

/-- The replica presence as far as the halt goes: how many stream, and when the last one left. -/
structure ReplicaPresence where
  connected : Nat
  lastLost : Option Nat
  deriving DecidableEq, Repr

namespace ReplicaPresence

def new (now : Nat) : ReplicaPresence := { connected := 0, lastLost := some now }

def lift (presence : ReplicaPresence) : ReplicaPresence :=
  { connected := presence.connected + 1, lastLost := none }

def lower (presence : ReplicaPresence) (now : Nat) : ReplicaPresence :=
  { connected := presence.connected - 1, lastLost := some now }

/-- When the halt began. The count is read first and the stamp after it, maybe a lift later. -/
def lastLoss (counted stamped : ReplicaPresence) : Option LastLoss :=
  if counted.connected ≠ 0 then none
  else
    match stamped.lastLost with
    | none => some .unknown
    | some instant => some (.at instant)

end ReplicaPresence

/-- Some look has shown the halt to begin at an instant: as stamped, or seen then without a stamp. -/
def Sighting (looks : List Look) (instant : Nat) : Prop :=
  ∃ look ∈ looks, look.lastLoss = some (.at instant) ∨
    look.lastLoss = some .unknown ∧ look.now = instant

def lastEvaluated (trace : List GateEvent) : Nat :=
  trace.foldl (fun position event =>
    match event with
    | .evaluated policy nodes => (policy.toPolicy.evaluateWithStatus nodes).durablePos
    | .journal _ | .applied _ _ _ | .released _ _ _ => position) 0

namespace GateCore

theorem lastEvaluated_snoc (trace : List GateEvent) (event : GateEvent) :
    lastEvaluated (trace ++ [event]) =
      match event with
      | .evaluated policy nodes => (policy.toPolicy.evaluateWithStatus nodes).durablePos
      | .journal _ | .applied _ _ _ | .released _ _ _ => lastEvaluated trace := by
  simp only [lastEvaluated, List.foldl_append, List.foldl_cons, List.foldl_nil]

theorem cached_apply (core : GateCore) (wireSeq : Nat) (policy : AckPolicy)
    (below : core.cached ≤ lastEvaluated core.trace) :
    (core.apply wireSeq policy).cached ≤ lastEvaluated (core.apply wireSeq policy).trace := by
  unfold apply
  split
  · exact below
  · simp only [lastEvaluated_snoc]
    split
    · exact below
    · exact Nat.zero_le _

variable {source : ChangeSource} {before after : GateCore}

theorem cached_step (step : Step source before after)
    (below : before.cached ≤ lastEvaluated before.trace) :
    after.cached ≤ lastEvaluated after.trace := by
  cases step with
  | journal | release => simpa only [record, lastEvaluated_snoc] using below
  | evaluate => simp only [record, lastEvaluated_snoc, le_refl]
  | settle front rest => exact cached_apply { before with pending := rest } _ _ below
  | force | order => exact cached_apply before _ _ below
  | defer => exact below

theorem cached_steps (steps : Steps source before after)
    (below : before.cached ≤ lastEvaluated before.trace) :
    after.cached ≤ lastEvaluated after.trace := by
  induction steps with
  | refl => exact below
  | tail _ step ih => exact cached_step step ih

theorem trace_apply (core : GateCore) (wireSeq : Nat) (policy : AckPolicy) :
    core.trace <+: (core.apply wireSeq policy).trace := by
  unfold apply
  split
  · exact List.prefix_rfl
  · exact List.prefix_append _ _

theorem trace_prefix (steps : Steps source before after) : before.trace <+: after.trace := by
  induction steps with
  | refl => exact List.prefix_rfl
  | @tail core _ _ step ih =>
    refine ih.trans ?_
    cases step with
    | journal | evaluate | release => exact List.prefix_append _ _
    | settle front rest => exact trace_apply { core with pending := rest } _ _
    | force | order => exact trace_apply core _ _
    | defer => exact List.prefix_rfl

end GateCore

namespace DurabilityGate

/-- What the degraded release looks at besides the policy: its grace, and the halt's start. -/
def halt (gate : DurabilityGate) : Option Nat × Option Nat := (gate.degradedGrace, gate.haltStarted)

@[simp] theorem halt_switchTo (gate : DurabilityGate) (next : AckPolicy) :
    (gate.switchTo next).halt = gate.halt := by
  unfold switchTo
  split <;> rfl

@[simp] theorem halt_refuseUnknown (gate : DurabilityGate) (wireSeq : Nat) :
    (gate.refuseUnknown wireSeq).halt = gate.halt := by
  unfold refuseUnknown
  split <;> rfl

@[simp] theorem halt_applyChange (gate : DurabilityGate) (wireSeq : Nat) (byte : AckPolicyByte) :
    (gate.applyChange wireSeq byte).halt = gate.halt := by
  unfold applyChange
  split
  · rfl
  · split
    · simp
    · rw [halt_switchTo]
      rfl

@[simp] theorem halt_applyFrontPending (gate : DurabilityGate) :
    gate.applyFrontPending.halt = gate.halt := by
  unfold applyFrontPending
  split
  · rfl
  · rw [halt_applyChange]
    rfl

@[simp] theorem halt_settlePendingLoop (journalPos fuel : Nat) (gate : DurabilityGate) :
    (settlePendingLoop journalPos fuel gate).halt = gate.halt := by
  induction fuel generalizing gate with
  | zero => rfl
  | succ fuel ih =>
    unfold settlePendingLoop
    split
    · rfl
    · split
      · rfl
      · rw [ih, halt_applyFrontPending]

@[simp] theorem halt_observeForced (gate : DurabilityGate) (look : Look) :
    (gate.observeForced look).halt = gate.halt := by
  unfold observeForced
  cases look.forced with
  | none => exact halt_settlePendingLoop _ _ _
  | some forced =>
    simp only
    split
    · rw [halt_applyChange]
      exact halt_settlePendingLoop _ _ _
    · exact halt_settlePendingLoop _ _ _

@[simp] theorem halt_countBlocker (gate : DurabilityGate) (blocker : Option Blocker) :
    (gate.countBlocker blocker).halt = gate.halt := by
  match blocker with
  | some .journal | some .replication | none => rfl

theorem halt_turn (gate : DurabilityGate) (look : Look) :
    (((gate.record (.journal look.journalPos)).observeForced look).evaluate look).halt
      = gate.halt :=
  halt_observeForced (gate.record (.journal look.journalPos)) look

def HaltSighted (looks : List Look) (gate : DurabilityGate) : Prop :=
  ∀ instant, gate.haltStarted = some instant → Sighting looks instant

variable {looks : List Look} {gate : DurabilityGate}

theorem HaltSighted.congr {after : DurabilityGate} (sighted : HaltSighted looks gate)
    (same : after.halt = gate.halt) :
    HaltSighted looks after := by
  intro instant isStart
  exact sighted instant ((congrArg Prod.snd same).symm.trans isStart)

/--
No replica streams at a look, the policy in force needs one, and the halt has lasted the grace
period: since the latest loss, or since the gate saw it if the loss has no stamp.
-/
structure HaltedLong (looks : List Look) (gate : DurabilityGate) (look : Look) : Prop where
  needsReplica : gate.activePolicy.needsReplica = true
  halted : ∃ grace loss started, gate.degradedGrace = some grace ∧ look.lastLoss = some loss ∧
    grace ≤ look.now - started ∧ (loss = .at started ∨ loss = .unknown ∧ Sighting looks started)

theorem degradedReleaseOpen_spec {look : Look} (seen : look ∈ looks)
    (sighted : HaltSighted looks gate) :
    HaltSighted looks (gate.degradedReleaseOpen look).2 ∧
      ((gate.degradedReleaseOpen look).1 = true → HaltedLong looks gate look) := by
  unfold degradedReleaseOpen
  cases graceEq : gate.degradedGrace with
  | none => exact ⟨sighted, by simp⟩
  | some grace =>
    cases lossEq : look.lastLoss with
    | none => exact ⟨fun instant isStart => by simp at isStart, by simp⟩
    | some loss =>
      -- Without a stamp the gate's own record of the halt counts, or this very look.
      have start : loss = .at (haltStart loss gate.haltStarted look.now) ∨
          loss = .unknown ∧ Sighting looks (haltStart loss gate.haltStarted look.now) := by
        cases loss with
        | «at» instant => exact .inl rfl
        | unknown =>
          refine .inr ⟨rfl, ?_⟩
          cases recorded : gate.haltStarted with
          | none => exact ⟨look, seen, .inr ⟨lossEq, rfl⟩⟩
          | some instant => exact sighted instant recorded
      refine ⟨fun instant isStart => ?_, fun isOpen => ?_⟩
      · obtain rfl : haltStart loss gate.haltStarted look.now = instant :=
          Option.some.inj isStart
        rcases start with stamped | ⟨-, sighting⟩
        · exact ⟨look, seen, .inl (by rw [lossEq]; exact congrArg some stamped)⟩
        · exact sighting
      · simp only [Bool.and_eq_true, decide_eq_true_eq] at isOpen
        rw [gate.needsReplicaEq] at isOpen
        exact ⟨isOpen.1, grace, loss, _, graceEq, lossEq, isOpen.2, start⟩

/--
Behind `gate`, a wait was let through degraded: at a look that shows the local journal to hold what
it waited for, with the policy just evaluated and not confirming it, in a long halt. Nothing but the
release on record has changed since that evaluation.
-/
structure ReleasedAlone (looks : List Look) (gate : DurabilityGate) (needed : Nat) (look : Look)
    (decided after : DurabilityGate) : Prop where
  later : gate.trace <+: decided.trace
  onDisk : needed ≤ look.journalPos
  evaluated : decided.cachedDurablePos = (decided.activePolicy.toPolicy.evaluateWithStatus
    (cursorView look.journalPos look.replicas)).durablePos
  unconfirmed : decided.cachedDurablePos < needed
  long : HaltedLong looks decided look
  unchanged : after.core
    = decided.core.record (.released needed .primaryOnly decided.activePolicy)

theorem ReleasedAlone.since {earlier decided after : DurabilityGate} {needed : Nat} {look : Look}
    (alone : ReleasedAlone looks gate needed look decided after)
    (before : earlier.trace <+: gate.trace) :
    ReleasedAlone looks earlier needed look decided after :=
  { alone with later := before.trans alone.later }

/-- A wait keeps the halt's start sighted, and what it lets through degraded is released alone. -/
theorem waitDurable_alone {seen : List Look} (needed : Nat) (looks : List Look)
    (gate : DurabilityGate) (within : looks ⊆ seen) (sighted : HaltSighted seen gate) :
    HaltSighted seen (waitDurable needed looks gate).1 ∧
      (waitDurable needed looks gate).2.2 ⊆ looks ∧
      ((waitDurable needed looks gate).2.1 = some (.opened .primaryOnly) →
        ∃ look ∈ looks, ∃ decided,
          ReleasedAlone seen gate needed look decided (waitDurable needed looks gate).1) := by
  induction looks generalizing gate with
  | nil => exact ⟨sighted, by simp [waitDurable], by simp [waitDurable]⟩
  | cons look looks ih =>
    have here : look ∈ seen := within List.mem_cons_self
    have later : looks ⊆ seen := fun other member => within (List.mem_cons_of_mem _ member)
    -- What a later look decides is decided within this wait.
    have widen : ∀ {next after : DurabilityGate}, gate.trace <+: next.trace →
        (∃ other ∈ looks, ∃ decided, ReleasedAlone seen next needed other decided after) →
        ∃ other ∈ look :: looks, ∃ decided, ReleasedAlone seen gate needed other decided after := by
      rintro next after since ⟨other, member, decided, alone⟩
      exact ⟨other, List.mem_cons_of_mem _ member, decided, alone.since since⟩
    unfold waitDurable
    split
    · exact ⟨sighted, List.subset_cons_self _ _, by simp⟩
    · have turn := sighted.congr (halt_turn gate look)
      have recorded := GateCore.trace_prefix
        (@steps_turn anySource gate look fun _ _ => trivial)
      have cached : (((gate.record (.journal look.journalPos)).observeForced look).evaluate
          look).cachedDurablePos = ((((gate.record (.journal look.journalPos)).observeForced
            look).evaluate look).activePolicy.toPolicy.evaluateWithStatus
              (cursorView look.journalPos look.replicas)).durablePos := by
        simp [evaluate, record, policyEq]
      simp only
      generalize ((gate.record (.journal look.journalPos)).observeForced look).evaluate look
        = turned at turn recorded cached ⊢
      split
      · refine ⟨turn.congr ?_, List.subset_cons_self _ _, by simp⟩
        exact halt_countBlocker turned _
      · rename_i unconfirmed
        split
        · rename_i onDisk
          obtain ⟨still, long⟩ := degradedReleaseOpen_spec here turn
          have same := core_degradedReleaseOpen turned look
          split
          · rename_i after released
            rw [released] at still long same
            refine ⟨still, List.subset_cons_self _ _, fun _ =>
              ⟨look, List.mem_cons_self, turned, recorded, onDisk, cached, by omega, long rfl, ?_⟩⟩
            have inForce := congrArg GateCore.inForce same
            rw [core_record, same]
            exact congrArg (fun policy => turned.core.record (.released needed .primaryOnly policy))
              inForce
          · rename_i after released
            rw [released] at still same
            obtain ⟨kept, left, alone⟩ := ih after later still
            have sameTrace : after.trace = turned.trace := congrArg GateCore.trace same
            have since : gate.trace <+: after.trace := by
              rw [sameTrace]
              exact recorded
            exact ⟨kept, fun other member => List.mem_cons_of_mem _ (left member),
              fun opened => widen since (alone opened)⟩
        · obtain ⟨kept, left, alone⟩ := ih turned later turn
          exact ⟨kept, fun other member => List.mem_cons_of_mem _ (left member),
            fun opened => widen recorded (alone opened)⟩

theorem applyFrontPending_keeps (gate : DurabilityGate) :
    gate.applyFrontPending.pending ⊆ gate.pending ∧
      gate.trace <+: gate.applyFrontPending.trace := by
  cases isPending : gate.pending with
  | nil => simp [applyFrontPending, isPending]
  | cons front rest =>
    refine ⟨?_, ?_⟩
    · rw [pending_applyFrontPending isPending]
      exact List.subset_cons_self _ _
    · show gate.trace <+: gate.applyFrontPending.core.trace
      rw [core_applyFrontPending isPending]
      exact GateCore.trace_apply { gate.core with pending := rest } _ _

theorem admitPendingLoop_alone {seen : List Look} (fuel : Nat) (looks : List Look)
    (gate : DurabilityGate) (within : looks ⊆ seen) (sighted : HaltSighted seen gate) :
    HaltSighted seen (admitPendingLoop fuel looks gate).1 ∧
      (admitPendingLoop fuel looks gate).2.2 ⊆ looks ∧
      ((admitPendingLoop fuel looks gate).2.1 = some (.opened .primaryOnly) →
        ∃ change ∈ gate.pending, ∃ look ∈ looks, ∃ decided,
          ReleasedAlone seen gate change.wireSeq look decided
            (admitPendingLoop fuel looks gate).1) := by
  induction fuel generalizing gate looks with
  | zero => exact ⟨sighted, List.Subset.refl _, by simp [admitPendingLoop]⟩
  | succ fuel ih =>
    -- Whatever the loop goes on with holds no more changes and no more looks, and a longer record.
    have goOn : ∀ {next : DurabilityGate} {left : List Look}, next.pending ⊆ gate.pending →
        gate.trace <+: next.trace → left ⊆ looks → HaltSighted seen next →
        HaltSighted seen (admitPendingLoop fuel left next).1 ∧
          (admitPendingLoop fuel left next).2.2 ⊆ looks ∧
          ((admitPendingLoop fuel left next).2.1 = some (.opened .primaryOnly) →
            ∃ change ∈ gate.pending, ∃ look ∈ looks, ∃ decided,
              ReleasedAlone seen gate change.wireSeq look decided
                (admitPendingLoop fuel left next).1) := by
      intro next left fewer since taken kept
      obtain ⟨still, rest, released⟩ := ih left next (List.Subset.trans taken within) kept
      refine ⟨still, List.Subset.trans rest taken, fun opened => ?_⟩
      obtain ⟨change, waiting, look, member, decided, decision⟩ := released opened
      exact ⟨change, fewer waiting, look, taken member, decided, decision.since since⟩
    unfold admitPendingLoop
    split
    · exact ⟨sighted, List.Subset.refl _, by simp⟩
    · rename_i front rest isFront
      split
      · obtain ⟨kept, left, alone⟩ := waitDurable_alone front.wireSeq looks gate within sighted
        have taken := (pending_waitDurable front.wireSeq looks gate).subset
        have recorded := GateCore.trace_prefix
          (@steps_waitDurable anySource front.wireSeq looks gate fun _ _ _ _ => trivial).1
        generalize waitDurable front.wireSeq looks gate = outcome at kept left alone taken recorded ⊢
        split
        · rename_i after looksLeft
          split
          · exact goOn taken recorded left kept
          · obtain ⟨fewer, since⟩ := applyFrontPending_keeps after
            exact goOn (List.Subset.trans fewer taken) (recorded.trans since) left
              (kept.congr (halt_applyFrontPending after))
        · refine ⟨kept, left, fun opened => ?_⟩
          obtain ⟨look, member, decided, decision⟩ := alone opened
          exact ⟨front, by simp [isFront], look, member, decided, decision⟩
      · obtain ⟨fewer, since⟩ := applyFrontPending_keeps gate
        exact goOn fewer since (List.Subset.refl _) (sighted.congr (halt_applyFrontPending gate))

section

variable {R Q : Type}

@[simp] theorem halt_finishSlot (gate : DurabilityGate) (slot : OutputSlot R Q)
    (backing : Backing) : (gate.finishSlot slot backing).1.halt = gate.halt := by
  unfold finishSlot
  cases slot.payload with
  | report | queryResponse | batchEnd => rfl
  | ackPolicyChange change =>
    cases backing with
    | policy =>
      simp only [halt_applyChange]
      rfl
    | primaryOnly =>
      simp only [deferChange]
      split
      · rfl
      · split
        · simp only [halt_refuseUnknown]
          rfl
        · rfl

theorem finishSlot_alone (gate : DurabilityGate) (slot : OutputSlot R Q) :
    (gate.finishSlot slot .primaryOnly).1.cachedDurablePos = gate.cachedDurablePos ∧
      (gate.finishSlot slot .primaryOnly).1.activePolicy = gate.activePolicy ∧
      (gate.finishSlot slot .primaryOnly).1.trace
        = gate.trace ++ [.released slot.wireSeq .primaryOnly gate.activePolicy] := by
  unfold finishSlot
  cases slot.payload with
  | report | queryResponse | batchEnd => exact ⟨rfl, rfl, rfl⟩
  | ackPolicyChange change =>
    simp only [deferChange, refuseUnknown]
    split
    · exact ⟨rfl, rfl, rfl⟩
    · split
      · split <;> exact ⟨rfl, rfl, rfl⟩
      · exact ⟨rfl, rfl, rfl⟩

variable {gate after : DurabilityGate} {slot : OutputSlot R Q} {backing : Backing}
  {connectionId : Nat} {looks : List Look}

theorem finishSlot_backing {reached : Backing}
    (answered : (gate.finishSlot slot reached).2 = .reply connectionId backing) :
    reached = backing := by
  unfold finishSlot at answered
  cases payload : slot.payload with
  | ackPolicyChange change => cases reached <;> simp [payload] at answered
  | report | queryResponse | batchEnd =>
    simp only [payload, Admission.reply.injEq] at answered
    exact answered.2

def AloneBetween (seen looks : List Look) (gate after : DurabilityGate) (needed : Nat) : Prop :=
  ∃ look ∈ looks, ∃ decided released,
    ReleasedAlone seen gate needed look decided released ∧ released.trace <+: after.trace

/-- A slot marked degraded was released alone itself, or confirmed behind a degraded backing. -/
theorem admitSlot_alone {seen looks left : List Look} {gate after : DurabilityGate}
    {slot : OutputSlot R Q} {backing : Backing} {admission : Option Admission}
    (within : looks ⊆ seen) (sighted : HaltSighted seen gate)
    (ended : gate.admitSlot slot backing looks = (after, admission, left)) :
    HaltSighted seen after ∧ ∀ connectionId, admission = some (.reply connectionId .primaryOnly) →
      AloneBetween seen looks gate after slot.wireSeq ∨
        backing = .primaryOnly ∧ slot.wireSeq ≤ after.cachedDurablePos := by
  unfold admitSlot at ended
  split at ended
  · obtain ⟨kept, -, alone⟩ := waitDurable_alone slot.wireSeq looks gate within sighted
    have covers := (@steps_waitDurable anySource slot.wireSeq looks gate
      fun _ _ _ _ => trivial).2.1
    generalize waitDurable slot.wireSeq looks gate = outcome at kept alone covers ended
    split at ended
    · obtain ⟨rfl, rfl, -⟩ : _ = after ∧ none = admission ∧ _ := by simpa using ended
      exact ⟨kept, by simp⟩
    · obtain ⟨rfl, rfl, -⟩ : _ = after ∧ some .shutdown = admission ∧ _ := by simpa using ended
      exact ⟨kept, by simp⟩
    · rename_i waited opened rest
      simp only [Prod.mk.injEq] at ended
      obtain ⟨rfl, rfl, -⟩ := ended
      refine ⟨kept.congr (halt_finishSlot waited slot _), fun connectionId answered => ?_⟩
      have reached := finishSlot_backing (Option.some.inj answered)
      rw [reached]
      obtain ⟨sameCached, -, recorded⟩ := finishSlot_alone waited slot
      cases opened with
      | primaryOnly =>
        obtain ⟨look, member, decided, decision⟩ := alone rfl
        exact .inl ⟨look, member, decided, waited, decision, recorded ▸ List.prefix_append _ _⟩
      | policy =>
        refine .inr ⟨?_, sameCached ▸ covers rfl⟩
        cases backing <;> simp_all [Backing.min]
  · rename_i covered
    simp only [Prod.mk.injEq] at ended
    obtain ⟨rfl, rfl, -⟩ := ended
    refine ⟨sighted.congr (halt_finishSlot gate slot _), fun connectionId answered => ?_⟩
    have reached := finishSlot_backing (Option.some.inj answered)
    refine .inr ⟨reached, ?_⟩
    rw [reached, (finishSlot_alone gate slot).1]
    simpa [slotNeedsGate] using covered

/--
A reply marked degraded was released alone itself, or confirmed by the policy in force behind a
pending change that was.
-/
theorem admitOutput_alone {seen : List Look} {started : AckPolicy} {admission : Option Admission}
    (within : looks ⊆ seen) (sighted : HaltSighted seen gate)
    (sound : GateCore.Sound started gate.core)
    (ended : gate.admitOutput slot looks = (after, admission)) :
    HaltSighted seen after ∧ ∀ connectionId, admission = some (.reply connectionId .primaryOnly) →
      AloneBetween seen looks gate after slot.wireSeq ∨
        (∃ change ∈ gate.pending, AloneBetween seen looks gate after change.wireSeq) ∧
          (1 ≤ slot.wireSeq → Certified after.trace after.activePolicy slot.wireSeq) := by
  have steps := @steps_admitOutput R Q anySource gate slot looks (fun _ _ => trivial)
    fun _ _ _ _ => trivial
  obtain ⟨pended, -⟩ := @steps_admitPendingLoop anySource gate.pending.length looks gate
    fun _ _ _ _ => trivial
  obtain ⟨kept, left, alone⟩ :=
    admitPendingLoop_alone gate.pending.length looks gate within sighted
  rw [ended] at steps
  have certified : slot.wireSeq ≤ after.cachedDurablePos → 1 ≤ slot.wireSeq →
      Certified after.trace after.activePolicy slot.wireSeq :=
    fun covered positive => (sound.steps steps).cached slot.wireSeq positive covered
  unfold admitOutput admitPending at ended
  generalize admitPendingLoop gate.pending.length looks gate = outcome at pended kept left alone ended
  obtain ⟨waited, opened, looksLeft⟩ := outcome
  match opened with
  | none =>
    obtain ⟨rfl, rfl⟩ : waited = after ∧ none = admission := by simpa using ended
    exact ⟨kept, by simp⟩
  | some .shutdown =>
    obtain ⟨rfl, rfl⟩ : waited = after ∧ some .shutdown = admission := by simpa using ended
    exact ⟨kept, by simp⟩
  | some (.opened backing) =>
    obtain ⟨rfl, rfl⟩ := Prod.mk.inj ended
    have since : gate.trace <+: waited.trace := GateCore.trace_prefix pended
    have finished : waited.trace <+: (waited.admitSlot slot backing looksLeft).1.trace :=
      GateCore.trace_prefix (@steps_admitSlot R Q anySource waited slot backing looksLeft
        (fun _ _ => trivial) fun _ _ _ _ => trivial)
    obtain ⟨still, answered⟩ := @admitSlot_alone R Q seen looksLeft _ waited _ slot backing _
      (List.Subset.trans left within) kept rfl
    refine ⟨still, fun connectionId isReply => ?_⟩
    rcases answered connectionId isReply with
      ⟨look, member, decided, released, decision, recorded⟩ | ⟨degraded, covered⟩
    · exact .inl ⟨look, left member, decided, released, decision.since since, recorded⟩
    · rw [degraded] at alone
      obtain ⟨change, waiting, look, member, decided, decision⟩ := alone rfl
      exact .inr ⟨⟨change, waiting, look, member, decided, waited, decision, finished⟩,
        certified covered⟩

def looksOf : GateOp R Q → List Look
  | .admitOutput _ looks => looks
  | .idleRecheck look => [look]
  | .afterBatch _ => []

theorem haltSighted_run {seen : List Look} {started : AckPolicy} (ops : List (GateOp R Q))
    (gate : DurabilityGate) (within : ops.flatMap looksOf ⊆ seen) (sighted : HaltSighted seen gate)
    (sound : GateCore.Sound started gate.core) : HaltSighted seen (run gate ops) := by
  induction ops generalizing gate with
  | nil => exact sighted
  | cons op ops ih =>
    rw [List.flatMap_cons, List.append_subset] at within
    obtain ⟨here, later⟩ := within
    cases op with
    | admitOutput slot looks =>
      have steps := @steps_admitOutput R Q anySource gate slot looks (fun _ _ => trivial)
        fun _ _ _ _ => trivial
      unfold run
      cases ended : gate.admitOutput slot looks with
      | mk after admission =>
        have kept := (admitOutput_alone here sighted sound ended).1
        rw [ended] at steps
        have still := sound.steps steps
        cases admission with
        | none => exact kept
        | some verdict =>
          cases verdict with
          | shutdown => exact kept
          | reply | gateOnly => exact ih after later kept still
    | idleRecheck look =>
      refine ih _ later ?_ (sound.steps (steps_idleRecheck anySource gate look))
      unfold idleRecheck
      split
      · exact sighted
      · refine (degradedReleaseOpen_spec (here List.mem_cons_self) (sighted.congr ?_)).1
        exact halt_settlePendingLoop _ _ _
    | afterBatch now => exact ih (gate.afterBatch now) later sighted sound

theorem pending_finishSlot {reached : Backing}
    (answered : (gate.finishSlot slot reached).2 = .reply connectionId backing) :
    (gate.finishSlot slot reached).1.pending = gate.pending := by
  unfold finishSlot at answered ⊢
  cases payload : slot.payload with
  | ackPolicyChange change => cases reached <;> simp [payload] at answered
  | report | queryResponse | batchEnd => rfl

theorem pending_admitSlot {left : List Look}
    (answered : gate.admitSlot slot backing looks
      = (after, some (.reply connectionId .policy), left)) :
    backing = .policy ∧ after.pending <:+ gate.pending := by
  unfold admitSlot at answered
  split at answered
  · have taken := pending_waitDurable slot.wireSeq looks gate
    generalize waitDurable slot.wireSeq looks gate = own at answered taken
    split at answered
    · simp at answered
    · simp at answered
    · rename_i opened _
      simp only [Prod.mk.injEq, Option.some.injEq] at answered
      obtain ⟨rfl, isReply, -⟩ := answered
      refine ⟨?_, pending_finishSlot isReply ▸ taken⟩
      have full := finishSlot_backing isReply
      cases backing <;> cases opened <;> simp_all [Backing.min]
  · simp only [Prod.mk.injEq, Option.some.injEq] at answered
    obtain ⟨rfl, isReply, -⟩ := answered
    exact ⟨finishSlot_backing isReply, pending_finishSlot isReply ▸ List.suffix_rfl⟩

theorem pending_admitOutput
    (answered : gate.admitOutput slot looks = (after, some (.reply connectionId .policy))) :
    after.pending = [] := by
  unfold admitOutput admitPending at answered
  cases outcomeEq : admitPendingLoop gate.pending.length looks gate with
  | mk waited rest =>
    obtain ⟨outcome, left⟩ := rest
    rw [outcomeEq] at answered
    match outcome with
    | none | some .shutdown => simp at answered
    | some (.opened backing) =>
      simp only [Prod.mk.injEq] at answered
      obtain ⟨rfl, isReply⟩ := answered
      obtain ⟨rfl, taken⟩ := pending_admitSlot (Prod.ext rfl (Prod.ext isReply rfl))
      rw [pending_admitPendingLoop le_rfl outcomeEq] at taken
      exact List.suffix_nil.mp taken

end

def haltedLook (journalPos : Nat) : Look :=
  { aloneLook journalPos with lastLoss := some (.at 0), now := 10 }

/-- What a gate sees once a replica is back and has persisted an entry that the primary lacks. -/
def replicaBack : Look :=
  { aloneLook 1 with replicas := some (⟨true, 2, 2⟩, ⟨false, 0, 0⟩) }

def lostAgain : ReplicaPresence := ((ReplicaPresence.new 0).lift).lower 6

/-- A look at one, in the first halt, and one at seven that misses the second loss's stamp. -/
def missedStamp : List Look :=
  [{ aloneLook 1 with
     lastLoss := ReplicaPresence.lastLoss (.new 0) (.new 0), now := 1 },
   { aloneLook 1 with
     lastLoss := ReplicaPresence.lastLoss lostAgain lostAgain.lift, now := 7 }]

end DurabilityGate

end Melin
