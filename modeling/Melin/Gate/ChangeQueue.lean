import Melin.Gate.ChangeOrder

/-! The gate as a queue: without forced changes it works its changes off one after the other. -/

namespace Melin

def PendingChange.key (pending : PendingChange) : Nat × AckPolicy := (pending.wireSeq, pending.policy)

def JournaledChange.asPending (journaled : JournaledChange) : Option PendingChange :=
  (AckPolicy.fromByte journaled.change.policy).map
    fun policy => ⟨journaled.wireSeq, policy, journaled.change.unwitnessed⟩

def noSource : ChangeSource := ⟨fun _ _ => False, fun _ _ => False⟩

@[simp] theorem appliedChanges_append (front back : List GateEvent) :
    appliedChanges (front ++ back) = appliedChanges front ++ appliedChanges back :=
  List.filterMap_append

namespace GateCore

structure Queues (queue : List PendingChange) (core : GateCore) : Prop where
  fifo : appliedChanges core.trace ++ core.pending.map PendingChange.key
    = queue.map PendingChange.key
  through : core.appliedThrough = (appliedChanges core.trace).getLast?.map (·.1)

variable {queue : List PendingChange} {core : GateCore}

theorem Queues.fresh (queues : Queues queue core) {wireSeq : Nat}
    (later : ∀ earlier ∈ appliedChanges core.trace, earlier.1 < wireSeq) :
    ¬ core.appliedThrough.any (wireSeq ≤ ·) = true := by
  rw [queues.through]
  cases isLast : (appliedChanges core.trace).getLast? with
  | none => simp
  | some last => simpa using later last (List.mem_of_getLast? isLast)

theorem Queues.settle {front : PendingChange} {rest : List PendingChange}
    (increasing : (queue.map PendingChange.key).Pairwise (·.1 < ·.1))
    (isFront : core.pending = front :: rest) (queues : Queues queue core) :
    Queues queue ({ core with pending := rest }.apply front.wireSeq front.policy) := by
  have fifo := queues.fifo
  rw [isFront, List.map_cons] at fifo
  have fresh : ¬ core.appliedThrough.any (front.wireSeq ≤ ·) = true :=
    queues.fresh fun earlier applied =>
      (List.pairwise_append.mp (fifo ▸ increasing)).2.2 earlier applied _ List.mem_cons_self
  simp only [GateCore.apply, if_neg fresh]
  refine ⟨?_, by simp [appliedChanges]⟩
  rw [← fifo]
  simp [appliedChanges, PendingChange.key]

theorem Queues.order {change : PendingChange}
    (increasing : ((queue ++ [change]).map PendingChange.key).Pairwise (·.1 < ·.1))
    (drained : core.pending = []) (queues : Queues queue core) :
    Queues (queue ++ [change]) (core.apply change.wireSeq change.policy) := by
  have fifo := queues.fifo
  rw [drained, List.map_nil, List.append_nil] at fifo
  rw [List.map_append, ← fifo] at increasing
  have fresh : ¬ core.appliedThrough.any (change.wireSeq ≤ ·) = true :=
    queues.fresh fun earlier applied =>
      (List.pairwise_append.mp increasing).2.2 earlier applied _ List.mem_cons_self
  simp only [GateCore.apply, if_neg fresh]
  refine ⟨?_, by simp [appliedChanges]⟩
  rw [List.map_append, ← fifo]
  simp [appliedChanges, PendingChange.key, drained]

theorem Queues.defer (change : PendingChange) (queues : Queues queue core) :
    Queues (queue ++ [change]) { core with pending := core.pending ++ [change] } := by
  refine ⟨?_, queues.through⟩
  rw [List.map_append, List.map_append, ← queues.fifo, List.append_assoc]

theorem Queues.step {before after : GateCore}
    (increasing : (queue.map PendingChange.key).Pairwise (·.1 < ·.1))
    (step : Step noSource before after) (queues : Queues queue before) : Queues queue after := by
  cases step with
  | journal | evaluate | release =>
    refine ⟨?_, ?_⟩
    · simpa [GateCore.record, appliedChanges] using queues.fifo
    · simpa [GateCore.record, appliedChanges] using queues.through
  | settle front rest isFront => exact queues.settle increasing isFront
  | force _ _ _ sent => exact sent.elim
  | order _ _ _ sent => exact sent.elim
  | defer _ _ _ sent => exact sent.elim

theorem Queues.steps {before after : GateCore}
    (increasing : (queue.map PendingChange.key).Pairwise (·.1 < ·.1))
    (steps : Steps noSource before after) (queues : Queues queue before) : Queues queue after := by
  induction steps with
  | refl => exact queues
  | tail _ step ih => exact ih.step increasing step

end GateCore

namespace DurabilityGate

section

variable {R Q : Type}

def slotChange (slot : OutputSlot R Q) : List JournaledChange :=
  match slot.payload with
  | .ackPolicyChange change => [⟨slot.wireSeq, change⟩]
  | .report _ | .queryResponse _ | .batchEnd => []

def changeSlots (ops : List (GateOp R Q)) : List JournaledChange :=
  ops.flatMap fun op =>
    match op with
    | .admitOutput slot _ => slotChange slot
    | .idleRecheck _ | .afterBatch _ => []

def Quiet : GateOp R Q → Prop
  | .admitOutput _ looks => ∀ look ∈ looks, look.forced = none
  | .idleRecheck _ | .afterBatch _ => True

variable {looks : List Look} {queue : List PendingChange} {gate after : DurabilityGate}
  {slot : OutputSlot R Q}

theorem looksFrom_quiet (quiet : ∀ look ∈ looks, look.forced = none) :
    LooksFrom noSource looks := by
  intro look member forced isForced
  rw [quiet look member] at isForced
  cases isForced

theorem queues_finishSlot {backing : Backing}
    (increasing : ((queue ++ (slotChange slot).filterMap JournaledChange.asPending).map
      PendingChange.key).Pairwise (·.1 < ·.1))
    (drained : backing = .policy → gate.pending = []) (queues : GateCore.Queues queue gate.core) :
    GateCore.Queues (queue ++ (slotChange slot).filterMap JournaledChange.asPending)
      (gate.finishSlot slot backing).1.core := by
  have released : GateCore.Queues queue
      (gate.record (.released slot.wireSeq backing gate.activePolicy)).core := by
    refine ⟨?_, ?_⟩
    · simpa [GateCore.record, appliedChanges] using queues.fifo
    · simpa [GateCore.record, appliedChanges] using queues.through
  generalize recorded : gate.record (.released slot.wireSeq backing gate.activePolicy) = after
    at released
  have pending : after.pending = gate.pending := by rw [← recorded]; rfl
  unfold finishSlot slotChange at *
  rw [recorded]
  cases payload : slot.payload with
  | report | queryResponse | batchEnd => simpa using released
  | ackPolicyChange change =>
    simp only [payload] at increasing
    cases known : AckPolicy.fromByte change.policy with
    | none =>
      have same := unknown_unchanged after slot.wireSeq known
      cases backing <;> simpa [JournaledChange.asPending, known, same] using released
    | some policy =>
      have joined : [(⟨slot.wireSeq, change⟩ : JournaledChange)].filterMap
          JournaledChange.asPending = [⟨slot.wireSeq, policy, change.unwitnessed⟩] := by
        simp [JournaledChange.asPending, known]
      simp only [joined] at increasing ⊢
      cases backing with
      | policy =>
        simp only [core_applyChange, known]
        exact released.order increasing (pending.trans (drained rfl))
      | primaryOnly =>
        have fresh : ¬ after.isStale slot.wireSeq = true :=
          released.fresh fun earlier applied => by
            rw [List.map_append, ← released.fifo] at increasing
            exact (List.pairwise_append.mp increasing).2.2 earlier
              (List.mem_append_left _ applied) _ List.mem_cons_self
        simp only [deferChange, if_neg fresh, known]
        exact released.defer _

theorem queues_steps {more : List PendingChange}
    (increasing : ((queue ++ more).map PendingChange.key).Pairwise (·.1 < ·.1))
    (steps : GateCore.Steps noSource gate.core after.core)
    (queues : GateCore.Queues queue gate.core) : GateCore.Queues queue after.core := by
  rw [List.map_append] at increasing
  exact queues.steps (List.pairwise_append.mp increasing).1 steps

theorem queues_admitSlot {backing : Backing} {left : List Look} {admission : Option Admission}
    (increasing : ((queue ++ (slotChange slot).filterMap JournaledChange.asPending).map
      PendingChange.key).Pairwise (·.1 < ·.1))
    (drained : backing = .policy → gate.pending = []) (quiet : LooksFrom noSource looks)
    (queues : GateCore.Queues queue gate.core)
    (ended : gate.admitSlot slot backing looks = (after, admission, left)) :
    ((admission = none ∨ admission = some .shutdown) ∧ GateCore.Queues queue after.core) ∨
      GateCore.Queues (queue ++ (slotChange slot).filterMap JournaledChange.asPending)
        after.core := by
  unfold admitSlot at ended
  split at ended
  · obtain ⟨waited, -, -⟩ := steps_waitDurable slot.wireSeq looks gate quiet
    have taken := pending_waitDurable slot.wireSeq looks gate
    generalize waitDurable slot.wireSeq looks gate = outcome at waited taken ended
    have kept := queues_steps increasing waited queues
    split at ended
    · obtain ⟨rfl, rfl, -⟩ : _ = after ∧ none = admission ∧ _ := by simpa using ended
      exact .inl ⟨.inl rfl, kept⟩
    · obtain ⟨rfl, rfl, -⟩ : _ = after ∧ some .shutdown = admission ∧ _ := by simpa using ended
      exact .inl ⟨.inr rfl, kept⟩
    · rename_i opened released rest
      simp only [Prod.mk.injEq] at ended
      rw [← ended.1]
      -- A full answer takes a full wait for what is pending, behind which nothing is.
      refine .inr (queues_finishSlot increasing (fun full => ?_) kept)
      have whole : backing = .policy := by cases backing <;> cases released <;> simp_all [Backing.min]
      exact List.suffix_nil.mp (drained whole ▸ taken)
  · simp only [Prod.mk.injEq] at ended
    rw [← ended.1]
    exact .inr (queues_finishSlot increasing drained queues)

theorem queues_admitOutput {admission : Option Admission}
    (increasing : ((queue ++ (slotChange slot).filterMap JournaledChange.asPending).map
      PendingChange.key).Pairwise (·.1 < ·.1))
    (quiet : LooksFrom noSource looks) (queues : GateCore.Queues queue gate.core)
    (ended : gate.admitOutput slot looks = (after, admission)) :
    ((admission = none ∨ admission = some .shutdown) ∧ GateCore.Queues queue after.core) ∨
      GateCore.Queues (queue ++ (slotChange slot).filterMap JournaledChange.asPending)
        after.core := by
  obtain ⟨pended, left⟩ := steps_admitPendingLoop gate.pending.length looks gate quiet
  unfold admitOutput admitPending at ended
  cases outcomeEq : admitPendingLoop gate.pending.length looks gate with
  | mk waited rest =>
    obtain ⟨outcome, looksLeft⟩ := rest
    rw [outcomeEq] at pended left ended
    have kept := queues_steps increasing pended queues
    match outcome with
    | none =>
      obtain ⟨rfl, rfl⟩ : waited = after ∧ none = admission := by simpa using ended
      exact .inl ⟨.inl rfl, kept⟩
    | some .shutdown =>
      obtain ⟨rfl, rfl⟩ : waited = after ∧ some .shutdown = admission := by simpa using ended
      exact .inl ⟨.inr rfl, kept⟩
    | some (.opened backing) =>
      obtain ⟨rfl, rfl⟩ := Prod.mk.inj ended
      refine queues_admitSlot increasing (fun full => ?_) left kept rfl
      rw [full] at outcomeEq
      exact pending_admitPendingLoop le_rfl outcomeEq

theorem queues_run (ops : List (GateOp R Q))
    (increasing : ((queue ++ (changeSlots ops).filterMap JournaledChange.asPending).map
      PendingChange.key).Pairwise (·.1 < ·.1))
    (quiet : ∀ op ∈ ops, Quiet op) (queues : GateCore.Queues queue gate.core) :
    ∃ delivered, delivered <+: changeSlots ops ∧
      GateCore.Queues (queue ++ delivered.filterMap JournaledChange.asPending)
        (run gate ops).core := by
  induction ops generalizing queue gate with
  | nil => exact ⟨[], List.nil_prefix, by simpa [run] using queues⟩
  | cons op ops ih =>
    have later : ∀ other ∈ ops, Quiet other := fun other member =>
      quiet other (List.mem_cons_of_mem _ member)
    cases op with
    | admitOutput slot looks =>
      have split : changeSlots (.admitOutput slot looks :: ops) = slotChange slot ++ changeSlots ops :=
        rfl
      rw [split, List.filterMap_append, ← List.append_assoc] at increasing
      have here := increasing
      rw [List.map_append] at here
      unfold run
      cases ended : gate.admitOutput slot looks with
      | mk after admission =>
        have outcome := queues_admitOutput (List.pairwise_append.mp here).1
          (looksFrom_quiet (quiet _ List.mem_cons_self)) queues ended
        -- Whether the run goes on or ends here, what it has taken in is a front of the slots.
        have stopped : (admission = none ∨ admission = some .shutdown) →
            ∃ delivered, delivered <+: changeSlots (.admitOutput slot looks :: ops) ∧
              GateCore.Queues (queue ++ delivered.filterMap JournaledChange.asPending)
                after.core := by
          intro _
          rcases outcome with ⟨-, kept⟩ | grown
          · exact ⟨[], List.nil_prefix, by simpa using kept⟩
          · exact ⟨slotChange slot, split ▸ List.prefix_append _ _, grown⟩
        have passed : ¬ (admission = none ∨ admission = some .shutdown) →
            ∃ delivered, delivered <+: changeSlots (.admitOutput slot looks :: ops) ∧
              GateCore.Queues (queue ++ delivered.filterMap JournaledChange.asPending)
                (run after ops).core := by
          intro open_
          rcases outcome with ⟨shut, -⟩ | grown
          · exact absurd shut open_
          · obtain ⟨delivered, taken, ran⟩ := ih increasing later grown
            refine ⟨slotChange slot ++ delivered, ?_, ?_⟩
            · rw [split]
              exact List.prefix_append_right_inj _ |>.mpr taken
            · rw [List.filterMap_append, ← List.append_assoc]
              exact ran
        match admission with
        | none | some .shutdown => exact stopped (by simp)
        | some (.reply ..) | some .gateOnly => exact passed (by simp)
    | idleRecheck look =>
      exact ih increasing later
        (queues_steps increasing (steps_idleRecheck noSource gate look) queues)
    | afterBatch now =>
      have kept : GateCore.Queues queue (gate.afterBatch now).core := queues
      exact ih increasing later kept

end

end DurabilityGate

end Melin
