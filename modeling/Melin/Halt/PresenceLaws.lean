import Melin.Halt.Presence
import Melin.Lib.Runs

/-! The override is bound to its observation, whatever the threads do in between. -/

namespace Melin

structure DatedAt (firstAcks : List Nat) (now generation moment : Nat) : Prop where
  past : moment < now
  counts : generation = firstAcks.countP (· < moment)

namespace DatedAt

variable {firstAcks : List Nat} {now generation moment : Nat}

theorem later (dated : DatedAt firstAcks now generation moment) :
    DatedAt firstAcks (now + 1) generation moment :=
  ⟨Nat.lt_succ_of_lt dated.past, dated.counts⟩

theorem acked (dated : DatedAt firstAcks now generation moment) :
    DatedAt (firstAcks ++ [now]) (now + 1) generation moment := by
  have past := dated.past
  refine ⟨Nat.lt_succ_of_lt past, ?_⟩
  have none : ¬ now < moment := by omega
  simp [dated.counts, none]

theorem follows (dated : DatedAt firstAcks now generation moment)
    (all : generation = firstAcks.length) :
    ∀ ack ∈ firstAcks, ack < moment := by
  have every := dated.counts.symm.trans all
  rw [List.countP_eq_length] at every
  intro ack counted
  simpa using every ack counted

theorem generation_le (dated : DatedAt firstAcks now generation moment) :
    generation ≤ firstAcks.length := by
  rw [dated.counts]
  exact List.countP_le_length

end DatedAt

namespace HaltState

structure Consistent (state : HaltState) : Prop where
  counted : state.presence.acked = state.firstAcks.length
  acksPast : ∀ ack ∈ state.firstAcks, ack < state.now
  clearsPast : ∀ clear ∈ state.clears, clear < state.now
  observing : ∀ generation moment, state.observing = some (generation, moment) →
    DatedAt state.firstAcks state.now generation moment
  held : ∀ seen ∈ state.held, DatedAt state.firstAcks state.now seen.generation seen.moment
  latches : ∀ latch ∈ state.latches,
    DatedAt state.firstAcks state.now latch.2.generation latch.2.moment
  override : state.presence.overrideAt ≠ 0 → ∃ latch ∈ state.latches,
    state.presence.overrideAt = latch.2.generation + 1 ∧ ∀ clear ∈ state.clears, clear < latch.1
  reads : ∀ call latched inForce, state.calls call = .sawLatch latched inForce →
    latched ≤ state.presence.acked + 1 ∧
      (latched ≠ 0 → latched = state.presence.acked + 1 → inForce = true)
  answers : ∀ call sawReplica inForce, state.calls call = .answered false sawReplica inForce →
    sawReplica = true ∨ inForce = true

theorem consistent_new (now : Nat) : (HaltState.new now).Consistent := by
  constructor <;> simp [HaltState.new, SharedPresence.new]

namespace Consistent

variable {state : HaltState} (holds : state.Consistent)

include holds

theorem overrideAt_le : state.presence.overrideAt ≤ state.presence.acked + 1 := by
  by_cases latched : state.presence.overrideAt = 0
  · omega
  obtain ⟨latch, made, stored, -⟩ := holds.override latched
  have counts := (holds.latches latch made).generation_le
  have counted := holds.counted
  omega

theorem in_force (inForce : state.presence.overridden = true) :
    ∃ latch ∈ state.latches, (∀ ack ∈ state.firstAcks, ack < latch.2.moment) ∧
      ∀ clear ∈ state.clears, clear < latch.1 := by
  simp only [SharedPresence.overridden, Bool.and_eq_true, bne_iff_ne, ne_eq, beq_iff_eq] at inForce
  obtain ⟨latch, made, stored, uncleared⟩ := holds.override inForce.1
  have counted := holds.counted
  exact ⟨latch, made, (holds.latches latch made).follows (by omega), uncleared⟩

theorem frame (connected : Nat) (lastLost : Option Nat) (senders : Nat → Sender) :
    { state with
      presence.connected := connected, presence.lastLost := lastLost
      senders, now := state.now + 1 }.Consistent :=
  ⟨holds.counted, fun ack made => Nat.lt_succ_of_lt (holds.acksPast ack made),
    fun clear made => Nat.lt_succ_of_lt (holds.clearsPast clear made),
    fun generation moment read => (holds.observing generation moment read).later,
    fun seen kept => (holds.held seen kept).later,
    fun latch made => (holds.latches latch made).later, holds.override, holds.reads, holds.answers⟩

theorem acked (senders : Nat → Sender) :
    { state with
      presence.acked := state.presence.acked + 1
      firstAcks := state.firstAcks ++ [state.now], senders, now := state.now + 1 }.Consistent := by
  refine ⟨?_, ?_, fun clear made => Nat.lt_succ_of_lt (holds.clearsPast clear made),
    fun generation moment read => (holds.observing generation moment read).acked,
    fun seen kept => (holds.held seen kept).acked,
    fun latch made => (holds.latches latch made).acked, holds.override, ?_, holds.answers⟩
  · simp [holds.counted]
  · intro ack made
    rcases List.mem_append.mp made with earlier | new
    · exact Nat.lt_succ_of_lt (holds.acksPast ack earlier)
    · rw [List.mem_singleton.mp new]
      exact Nat.lt_succ_self _
  · intro call latched inForce read
    obtain ⟨bounded, -⟩ := holds.reads call latched inForce read
    dsimp only
    exact ⟨by omega, fun _ same => by omega⟩

theorem call (index : Nat) (next : HaltedCall)
    (reads : ∀ latched inForce, next = .sawLatch latched inForce →
      latched ≤ state.presence.acked + 1 ∧
        (latched ≠ 0 → latched = state.presence.acked + 1 → inForce = true))
    (answers : ∀ sawReplica inForce, next = .answered false sawReplica inForce →
      sawReplica = true ∨ inForce = true) :
    { state.setCall index next with now := state.now + 1 }.Consistent := by
  have rest := holds.frame state.presence.connected state.presence.lastLost state.senders
  refine ⟨rest.counted, rest.acksPast, rest.clearsPast, rest.observing, rest.held, rest.latches,
    rest.override, ?_, ?_⟩
  · intro call latched inForce read
    by_cases same : call = index
    · subst same
      exact reads latched inForce (by simpa [setCall] using read)
    · exact holds.reads call latched inForce (by simpa [setCall, same] using read)
  · intro call sawReplica inForce answered
    by_cases same : call = index
    · subst same
      exact answers sawReplica inForce (by simpa [setCall] using answered)
    · exact holds.answers call sawReplica inForce (by simpa [setCall, same] using answered)

theorem latched {index : Nat} {seen : Observed} (found : state.held[index]? = some seen) :
    { state with
      presence.overrideAt := seen.generation + 1, held := state.held.eraseIdx index
      latches := state.latches ++ [(state.now, seen)], now := state.now + 1 }.Consistent := by
  have rest := holds.frame state.presence.connected state.presence.lastLost state.senders
  have kept := List.mem_of_getElem? found
  refine ⟨rest.counted, rest.acksPast, rest.clearsPast, rest.observing,
    fun seen held => rest.held seen (List.mem_of_mem_eraseIdx held), ?_, ?_, rest.reads,
    rest.answers⟩
  · intro latch made
    rcases List.mem_append.mp made with earlier | new
    · exact rest.latches latch earlier
    · rw [List.mem_singleton.mp new]
      exact rest.held seen kept
  · intro _
    exact ⟨(state.now, seen), by simp, rfl, holds.clearsPast⟩

theorem cleared (index : Nat) :
    { state with
      presence.overrideAt := 0, held := state.held.eraseIdx index
      clears := state.clears ++ [state.now], now := state.now + 1 }.Consistent := by
  have rest := holds.frame state.presence.connected state.presence.lastLost state.senders
  refine ⟨rest.counted, rest.acksPast, ?_, rest.observing,
    fun seen held => rest.held seen (List.mem_of_mem_eraseIdx held), rest.latches,
    fun latched => absurd rfl latched, rest.reads, rest.answers⟩
  intro clear made
  rcases List.mem_append.mp made with earlier | new
  · exact rest.clearsPast clear earlier
  · rw [List.mem_singleton.mp new]
    exact Nat.lt_succ_self _

end Consistent

theorem Consistent.step {act : HaltAct} {state after : HaltState} (holds : state.Consistent)
    (stepped : state.step act = some after) : after.Consistent := by
  obtain ⟨reached, accessed, rfl⟩ := Option.map_eq_some_iff.mp stepped
  clear stepped
  have frame := fun connected lastLost senders => holds.frame connected lastLost senders
  cases act with
  | lift sender =>
    simp only [access] at accessed
    split at accessed <;> cases accessed
    exact frame _ _ _
  | forgetLoss sender =>
    simp only [access] at accessed
    split at accessed <;> cases accessed
    exact frame _ _ _
  | acked sender =>
    simp only [access] at accessed
    split at accessed <;> cases accessed
    · exact holds.acked _
    · exact frame _ _ _
  | stampLoss sender instant =>
    simp only [access] at accessed
    split at accessed <;> cases accessed
    exact frame _ _ _
  | lower sender =>
    simp only [access] at accessed
    split at accessed <;> cases accessed
    exact frame _ _ _
  | lowerReadsLatch sender =>
    simp only [access] at accessed
    split at accessed <;> cases accessed
    exact frame _ _ _
  | lowerReadsAcked sender =>
    simp only [access] at accessed
    split at accessed <;> cases accessed
    exact frame _ _ _
  | observeGeneration =>
    simp only [access] at accessed
    split at accessed <;> cases accessed
    have rest := frame state.presence.connected state.presence.lastLost state.senders
    refine ⟨rest.counted, rest.acksPast, rest.clearsPast, ?_, rest.held, rest.latches,
      rest.override, rest.reads, rest.answers⟩
    rintro generation moment read
    cases read
    refine ⟨Nat.lt_succ_self _, holds.counted.trans ?_⟩
    rw [eq_comm, List.countP_eq_length]
    exact fun ack made => by simpa using holds.acksPast ack made
  | observeCount =>
    simp only [access] at accessed
    split at accessed
    · next generation moment read =>
      cases accessed
      have rest := frame state.presence.connected state.presence.lastLost state.senders
      refine ⟨rest.counted, rest.acksPast, rest.clearsPast, (fun _ _ none => nomatch none), ?_,
        rest.latches, rest.override, rest.reads, rest.answers⟩
      intro seen kept
      rcases List.mem_append.mp kept with earlier | new
      · exact rest.held seen earlier
      · rw [List.mem_singleton.mp new]
        exact rest.observing generation moment read
    · cases accessed
  | latchOverride index =>
    simp only [access] at accessed
    split at accessed
    · next seen found =>
      split at accessed <;> cases accessed
      exact holds.latched found
    · cases accessed
  | clearOverride index =>
    simp only [access] at accessed
    split at accessed <;> cases accessed
    exact holds.cleared index
  | haltedReadsCount call =>
    simp only [access] at accessed
    split at accessed <;> cases accessed
    all_goals
      refine holds.call call _ (fun _ _ read => ?_) (fun _ _ answered => ?_)
      · split at read <;> cases read
      · split at answered <;> cases answered
        exact .inl rfl
  | haltedReadsLatch call =>
    simp only [access] at accessed
    split at accessed <;> cases accessed
    refine holds.call call _ (fun latched inForce read => ?_) (fun _ _ answered => nomatch answered)
    cases read
    exact ⟨holds.overrideAt_le, fun _ same => by simp [SharedPresence.overridden, same]⟩
  | haltedReadsAcked call =>
    simp only [access] at accessed
    split at accessed
    · next latched inForce read =>
      cases accessed
      refine holds.call call _ (fun _ _ read => nomatch read) (fun sawReplica answered' answered => ?_)
      simp only [HaltedCall.answered.injEq, Bool.not_eq_eq_eq_not, Bool.not_false, Bool.and_eq_true,
        bne_iff_ne, ne_eq, beq_iff_eq] at answered
      obtain ⟨⟨latchedSome, same⟩, -, rfl⟩ := answered
      exact .inr ((holds.reads call latched inForce read).2 latchedSome same)
    · cases accessed

/-- Accesses that neither bump the generation nor store the latch. -/
def leavesOverride : HaltAct → Bool
  | .acked _ | .latchOverride _ | .clearOverride _ => false
  | .lift _ | .forgetLoss _ | .stampLoss .. | .lower _ | .lowerReadsLatch _ | .lowerReadsAcked _
  | .observeGeneration | .observeCount | .haltedReadsCount _ | .haltedReadsLatch _
  | .haltedReadsAcked _ => true

theorem overridden_step {act : HaltAct} {state after : HaltState} (leaves : leavesOverride act = true)
    (stepped : state.step act = some after) :
    after.presence.overridden = state.presence.overridden := by
  obtain ⟨reached, accessed, rfl⟩ := Option.map_eq_some_iff.mp stepped
  clear stepped
  cases act
  case acked | latchOverride | clearOverride => cases leaves
  all_goals
    simp only [access] at accessed
    split at accessed <;> cases accessed
    all_goals rfl

/--
A node without a counted replica halts, unless it was latched on an observation that follows every
first ack and not cleared since. A call of `halted` that answers no has seen a replica counted or
read the latch of an override in force, an override is void after any first ack its observation
precedes, and a replica that comes and goes without acking leaves it alone.
-/
theorem halted_without_consent (start : Nat) (acts : List HaltAct) (state : HaltState)
    (ran : Lib.runActs HaltState.step acts (.new start) = some state) :
    (state.presence.connected = 0 →
      (∀ latch ∈ state.latches, (∀ ack ∈ state.firstAcks, ack < latch.2.moment) →
        ∃ clear ∈ state.clears, latch.1 < clear) →
      state.presence.halted = true) ∧
    (∀ call sawReplica inForce, state.calls call = .answered false sawReplica inForce →
      sawReplica = true ∨ inForce = true) ∧
    (∀ latch ∈ state.latches, (∃ ack ∈ state.firstAcks, latch.2.moment ≤ ack) →
      ¬ (state.presence.overridden = true ∧
        state.presence.overrideAt = latch.2.generation + 1)) ∧
    ∀ more after, Lib.runActs HaltState.step more state = some after →
      (∀ act ∈ more, leavesOverride act = true) →
      after.presence.overridden = state.presence.overridden := by
  have holds : state.Consistent :=
    Lib.runActs_keeps _ (fun _ _ _ _ stepped held => held.step stepped) ran (consistent_new start)
  refine ⟨fun alone unconsented => ?_, holds.answers, fun latch made precedes inForce => ?_,
    fun more after ran leaves => ?_⟩
  · cases inForce : state.presence.overridden with
    | false => simp [SharedPresence.halted, alone, inForce]
    | true =>
      obtain ⟨latch, made, follows, uncleared⟩ := holds.in_force inForce
      obtain ⟨clear, cleared, later⟩ := unconsented latch made follows
      have earlier := uncleared clear cleared
      omega
  · obtain ⟨ack, acked, behind⟩ := precedes
    have counted := holds.counted
    have current := inForce.1
    simp only [SharedPresence.overridden, Bool.and_eq_true, bne_iff_ne, ne_eq, beq_iff_eq]
      at current
    have ahead := (holds.latches latch made).follows (by omega) ack acked
    omega
  · refine Lib.runActs_keeps (P := fun reached =>
      reached.presence.overridden = state.presence.overridden) _ ?_ ran rfl
    intro act member before next stepped same
    rw [overridden_step (leaves act member) stepped, same]

def overtakenConsent : List HaltAct :=
  [.observeGeneration, .observeCount, .lift 0, .forgetLoss 0, .acked 0, .latchOverride 0,
    .stampLoss 0 9, .lower 0, .haltedReadsCount 0, .haltedReadsLatch 0, .haltedReadsAcked 0]

/-- A consent that a first ack overtakes is void: the node halts once the replica is gone. -/
theorem halted_without_consent_overtaken :
    ∃ state, Lib.runActs HaltState.step overtakenConsent (.new 0) = some state ∧
      state.presence.halted = true ∧ state.calls 0 = .answered true false false := by
  have ran : (Lib.runActs HaltState.step overtakenConsent (.new 0)).isSome = true := by decide
  obtain ⟨state, ran⟩ := Option.isSome_iff_exists.mp ran
  have seen : (Lib.runActs HaltState.step overtakenConsent (.new 0)).map
      (fun state => (state.presence.connected, state.latches, state.firstAcks, state.calls 0))
      = some (0, [(5, ⟨0, false, 0⟩)], [4], .answered true false false) := by decide
  rw [ran, Option.map_some, Option.some.injEq, Prod.mk.injEq, Prod.mk.injEq, Prod.mk.injEq] at seen
  obtain ⟨alone, latches, acks, call⟩ := seen
  refine ⟨state, ran, (halted_without_consent 0 overtakenConsent state ran).1 alone ?_, call⟩
  intro latch made follows
  rw [latches, List.mem_singleton] at made
  rw [acks, made] at follows
  exact absurd (follows 4 (by simp)) (by decide)

end HaltState

end Melin
