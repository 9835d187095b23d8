import Melin.Replication.ReceiverLaws

/-! Which acks a replica owes, and what it takes for none of them to be lost. -/

namespace Melin

open Lib

namespace PendingAckQueue

theorem cap_pos (queue : PendingAckQueue) : 0 < queue.cap := by
  obtain ⟨exponent, power⟩ := queue.power
  rw [power]
  positivity

theorem push_pending {queue : PendingAckQueue} {journalTarget ackedSequence : Nat}
    (grows : ∀ ack ∈ queue.pending,
      ack.journalTarget ≤ journalTarget ∧ ack.ackedSequence ≤ ackedSequence) :
    ∃ kept, kept.Sublist queue.pending ∧
      (queue.push journalTarget ackedSequence).pending
        = kept ++ [⟨journalTarget, ackedSequence⟩] := by
  unfold push
  split
  · next full =>
    cases last : queue.pending.getLast? with
    | none =>
      rw [List.getLast?_eq_none_iff] at last
      have room := queue.cap_pos
      rw [last, List.length_nil] at full
      omega
    | some newest =>
      obtain ⟨target, acked⟩ := grows newest (List.mem_of_getLast? last)
      refine ⟨queue.pending.dropLast, List.dropLast_sublist _, ?_⟩
      simp only [Nat.max_eq_right target, Nat.max_eq_right acked]
  · exact ⟨queue.pending, List.Sublist.refl _, rfl⟩

theorem popReady_split (queue : PendingAckQueue) (cursor : Nat) :
    ∃ ready, queue.pending = ready ++ (queue.popReady cursor).2.pending ∧
      (queue.popReady cursor).1 = ready.getLast?.map (·.ackedSequence) ∧
      ∀ ack ∈ ready, ack.journalTarget ≤ cursor := by
  refine ⟨queue.pending.takeWhile (·.journalTarget ≤ cursor),
    (List.takeWhile_append_dropWhile ..).symm, rfl, fun ack popped => ?_⟩
  have reached := List.mem_takeWhile_imp popped
  simpa using reached

theorem popReady_all {queue : PendingAckQueue} {cursor : Nat}
    (reached : ∀ ack ∈ queue.pending, ack.journalTarget ≤ cursor) :
    (queue.popReady cursor).1 = queue.pending.getLast?.map (·.ackedSequence) ∧
      (queue.popReady cursor).2.pending = [] := by
  have all : queue.pending.takeWhile (·.journalTarget ≤ cursor) = queue.pending :=
    List.takeWhile_eq_self_iff.mpr fun ack queued => by simpa using reached ack queued
  have none : queue.pending.dropWhile (·.journalTarget ≤ cursor) = [] :=
    List.dropWhile_eq_nil_iff.mpr fun ack queued => by simpa using reached ack queued
  exact ⟨by simp only [popReady, all], by simp only [popReady, none]⟩

end PendingAckQueue

section

variable {E : Type}

/-- The queue's entries name positions of the ring, ascending, and sequences yet to be
acknowledged. -/
structure Owes (intake : Intake E) (sent : Nat) (acks : PendingAckQueue) : Prop where
  slots : ∀ ack ∈ acks.pending, 0 < ack.journalTarget ∧
    (intake.ring[ack.journalTarget - 1]?).map (·.sequence) = some ack.ackedSequence
  ascending : acks.pending.Pairwise fun older newer =>
    older.journalTarget < newer.journalTarget ∧ older.ackedSequence < newer.ackedSequence
  above : ∀ ack ∈ acks.pending, sent < ack.ackedSequence
  below : ∀ ack ∈ acks.pending, ack.ackedSequence ≤ intake.accum
  sent : sent ≤ intake.accum

/-- No progress is missing: the newest entry, or else what was sent, is the last slot accepted. -/
def NothingLost (intake : Intake E) (sent : Nat) (acks : PendingAckQueue) : Prop :=
  (acks.pending.getLast?.map (·.ackedSequence)).getD sent = intake.accum

variable {intake before after : Intake E} {sent : Nat} {acks left : PendingAckQueue}
  {taken : List (InputSlot E)} {ready : List PendingAck}

theorem Owes.target_le (owes : Owes intake sent acks) {ack : PendingAck}
    (queued : ack ∈ acks.pending) :
    ack.journalTarget ≤ intake.ring.length := by
  obtain ⟨positive, found⟩ := owes.slots ack queued
  by_contra beyond
  rw [List.getElem?_eq_none (by omega)] at found
  cases found

theorem Takes.last_sequence (took : Takes before after taken) (some : taken ≠ []) :
    (after.ring[after.ring.length - 1]?).map (·.sequence) = .some after.accum := by
  have count : 0 < taken.length := List.length_pos_iff.mpr some
  have place : after.ring.length - 1 = before.ring.length + (taken.length - 1) := by
    rw [took.ring, List.length_append]
    omega
  rw [place, took.ring, List.getElem?_append_right (by omega), Nat.add_sub_cancel_left,
    ← List.getElem?_map, took.dense, List.getElem?_range' (by omega), took.accum]
  congr 1
  omega

theorem Owes.afterFrame (took : Takes before after taken) (owes : Owes before sent acks) :
    Owes after sent (acks.afterFrame before after) := by
  have older : ∀ ack ∈ acks.pending, 0 < ack.journalTarget ∧
      (after.ring[ack.journalTarget - 1]?).map (·.sequence) = some ack.ackedSequence := by
    intro ack queued
    obtain ⟨positive, found⟩ := owes.slots ack queued
    refine ⟨positive, ?_⟩
    have inside := owes.target_le queued
    rw [took.ring, List.getElem?_append_left (by omega)]
    exact found
  by_cases nothing : taken = []
  · subst nothing
    have same : after.ring = before.ring := by rw [took.ring, List.append_nil]
    have stands : after.accum = before.accum := by rw [took.accum, List.length_nil, Nat.add_zero]
    have unpushed : acks.afterFrame before after = acks := by
      simp only [PendingAckQueue.afterFrame, same, Nat.lt_irrefl, if_false]
    rw [unpushed]
    exact ⟨older, owes.ascending, owes.above, by rw [stands]; exact owes.below,
      by rw [stands]; exact owes.sent⟩
  have count : 0 < taken.length := List.length_pos_iff.mpr nothing
  have longer : before.ring.length < after.ring.length := by
    rw [took.ring, List.length_append]
    omega
  have further := took.accum
  have grows : ∀ ack ∈ acks.pending,
      ack.journalTarget < after.ring.length ∧ ack.ackedSequence < after.accum := by
    intro ack queued
    have inside := owes.target_le queued
    have below := owes.below ack queued
    omega
  obtain ⟨kept, sub, pushed⟩ := PendingAckQueue.push_pending fun ack queued =>
    ⟨(grows ack queued).1.le, (grows ack queued).2.le⟩
  have queue : (acks.afterFrame before after).pending
      = kept ++ [{ journalTarget := after.ring.length, ackedSequence := after.accum }] := by
    rw [PendingAckQueue.afterFrame, if_pos longer, pushed]
  -- Every entry is an older one, or the frame's own.
  have entries : ∀ ack ∈ (acks.afterFrame before after).pending, ack ∈ acks.pending ∨
      ack = { journalTarget := after.ring.length, ackedSequence := after.accum } := by
    intro ack queued
    rw [queue, List.mem_append, List.mem_singleton] at queued
    exact queued.imp_left (sub.subset ·)
  have sentLe := owes.sent
  constructor
  · intro ack queued
    rcases entries ack queued with old | rfl
    · exact older ack old
    · exact ⟨by dsimp only; omega, took.last_sequence nothing⟩
  · rw [queue, List.pairwise_append]
    refine ⟨owes.ascending.sublist sub, List.pairwise_singleton _ _, ?_⟩
    intro ack queued newest isNewest
    rw [List.mem_singleton.mp isNewest]
    exact grows ack (sub.subset queued)
  · intro ack queued
    rcases entries ack queued with old | rfl
    · exact owes.above ack old
    · dsimp only
      omega
  · intro ack queued
    rcases entries ack queued with old | rfl
    · exact Nat.le_of_lt (grows ack old).2
    · exact Nat.le_refl _
  · omega

theorem NothingLost.afterFrame (took : Takes before after taken) (owes : Owes before sent acks)
    (whole : NothingLost before sent acks) :
    NothingLost after sent (acks.afterFrame before after) := by
  by_cases longer : before.ring.length < after.ring.length
  · have count : before.accum < after.accum := by
      have grown := congrArg List.length took.ring
      have further := took.accum
      rw [List.length_append] at grown
      omega
    have grows : ∀ ack ∈ acks.pending,
        ack.journalTarget < after.ring.length ∧ ack.ackedSequence < after.accum := by
      intro ack queued
      have inside := owes.target_le queued
      have below := owes.below ack queued
      omega
    obtain ⟨kept, -, pushed⟩ := PendingAckQueue.push_pending fun ack queued =>
      ⟨(grows ack queued).1.le, (grows ack queued).2.le⟩
    rw [NothingLost, PendingAckQueue.afterFrame, if_pos longer, pushed, List.getLast?_concat]
    rfl
  · have stands : after.accum = before.accum := by
      have grown := congrArg List.length took.ring
      have further := took.accum
      rw [List.length_append] at grown
      omega
    rw [NothingLost, PendingAckQueue.afterFrame, if_neg longer, stands]
    exact whole

theorem Owes.popped (owes : Owes intake sent acks) (split : acks.pending = ready ++ left.pending) :
    Owes intake sent left := by
  have sub : left.pending.Sublist acks.pending := by
    rw [split]
    exact List.sublist_append_right ..
  exact ⟨fun ack queued => owes.slots ack (sub.subset queued), owes.ascending.sublist sub,
    fun ack queued => owes.above ack (sub.subset queued),
    fun ack queued => owes.below ack (sub.subset queued), owes.sent⟩

theorem Owes.accepted (owes : Owes intake sent acks) (split : acks.pending = ready ++ left.pending) :
    
    Owes intake ((ready.getLast?.map (·.ackedSequence)).getD sent) left := by
  have rest := owes.popped split
  cases last : ready.getLast? with
  | none => exact rest
  | some newest =>
    have popped : newest ∈ ready := List.mem_of_getLast? last
    have order := owes.ascending
    rw [split, List.pairwise_append] at order
    exact ⟨rest.slots, rest.ascending, fun ack queued => (order.2.2 newest popped ack queued).2,
      rest.below, owes.below newest (by rw [split]; exact List.mem_append_left _ popped)⟩

theorem NothingLost.accepted (whole : NothingLost intake sent acks)
    (split : acks.pending = ready ++ left.pending) :
    NothingLost intake ((ready.getLast?.map (·.ackedSequence)).getD sent) left := by
  unfold NothingLost at whole ⊢
  rw [split, List.getLast?_append] at whole
  cases last : left.pending.getLast? with
  | none =>
    rw [last] at whole
    simpa using whole
  | some newest =>
    rw [last] at whole
    simpa using whole

/-- The sequence a flush acknowledges: the last one popped, or else what was sent before. -/
def ackedBy (ready : List PendingAck) (sent : Nat) : Nat :=
  (ready.getLast?.map (·.ackedSequence)).getD sent

def Session.afterSend (turn : Turn) (ack : Ack) (left : PendingAckQueue) (session : Session E) :
    Session E :=
  let session := { session with pendingAcks := left, acks := session.acks ++ [(ack, turn.sendAck)] }
  if turn.sendAck = .ok true then
    { session with lastSentAcked := ack.ackedSequence, lastSentInMemory := ack.inMemorySequence }
  else session

inductive Flushes (turn : Turn) (session : Session E) : Session E × Bool → Prop where
  /-- An accepted ack is still on its way. -/
  | inFlight (busy : turn.ackInFlight = true) : Flushes turn session (session, true)
  /-- Neither track has moved. -/
  | nothing (ready : List PendingAck) (left : PendingAckQueue) (idle : turn.ackInFlight = false)
      (split : session.pendingAcks.pending = ready ++ left.pending)
      (popped : left = (session.pendingAcks.popReady turn.cursor).2)
      (reached : ∀ ack ∈ ready, ack.journalTarget ≤ turn.cursor)
      (acked : ackedBy ready session.lastSentAcked ≤ session.lastSentAcked)
      (inMemory : session.intake.accum ≤ session.lastSentInMemory) :
      Flushes turn session ({ session with pendingAcks := left }, true)
  | sends (ready : List PendingAck) (left : PendingAckQueue) (up : Bool)
      (idle : turn.ackInFlight = false)
      (split : session.pendingAcks.pending = ready ++ left.pending)
      (popped : left = (session.pendingAcks.popReady turn.cursor).2)
      (reached : ∀ ack ∈ ready, ack.journalTarget ≤ turn.cursor)
      (moved : session.lastSentAcked < ackedBy ready session.lastSentAcked ∨
        session.lastSentInMemory < session.intake.accum)
      (answered : up = false ↔ ∃ err, turn.sendAck = .error err) :
      Flushes turn session
        (session.afterSend turn ⟨ackedBy ready session.lastSentAcked, session.intake.accum⟩ left, up)

theorem flushAcks_flushes (turn : Turn) (session : Session E) :
    Flushes turn session (flushAcks turn session) := by
  unfold flushAcks
  by_cases busy : turn.ackInFlight = true
  · rw [if_pos busy]
    exact .inFlight busy
  rw [if_neg busy]
  have idle : turn.ackInFlight = false := by simpa using busy
  obtain ⟨ready, split, acked, reached⟩ :=
    PendingAckQueue.popReady_split session.pendingAcks turn.cursor
  unfold tryFlushDualTrack
  simp only [acked]
  by_cases moved : session.lastSentAcked < ackedBy ready session.lastSentAcked ∨
      session.lastSentInMemory < session.intake.accum
  · simp only [ackedBy] at moved
    simp only [if_pos moved]
    have sends := fun up answered =>
      Flushes.sends ready _ up idle split rfl reached (by simpa only [ackedBy] using moved) answered
    cases answer : turn.sendAck with
    | error err =>
      have sent := sends false ⟨fun _ => ⟨err, answer⟩, fun _ => rfl⟩
      simpa only [Session.afterSend, answer, reduceCtorEq, if_false, ackedBy] using sent
    | ok accepted =>
      have sent := sends true (by simp [answer])
      cases accepted with
      | true => simpa only [Session.afterSend, answer, if_true, ackedBy] using sent
      | false =>
        simpa only [Session.afterSend, answer, Except.ok.injEq, Bool.false_eq_true, if_false,
          ackedBy] using sent
  · have still := moved
    simp only [ackedBy] at moved
    simp only [if_neg moved]
    rw [not_or, Nat.not_lt, Nat.not_lt] at still
    exact .nothing ready _ idle split rfl reached still.1 still.2

end

end Melin
