import Melin.Examples.CounterEvent
import Melin.Replication.AckLaws

/-! Whether a refused ack is sent again: progress survives a refusal only while it is queued. -/

namespace Melin

open Lib

section

variable {E : Type}

def wasAccepted (sent : Ack × Except Unit Bool) : Bool :=
  match sent.2 with
  | .ok accepted => accepted
  | .error _ => false

def Session.lastAccepted (session : Session E) (initialSequence : Nat) : Ack :=
  (((session.acks.filter wasAccepted).getLast?).map (·.1)).getD ⟨initialSequence, initialSequence⟩

/-- What holds between the passes of every session. -/
structure Session.InOrder (initialSequence : Nat) (session : Session E) : Prop where
  owes : Owes session.intake session.lastSentAcked session.pendingAcks
  inMemory : session.lastSentInMemory ≤ session.intake.accum
  sent : session.lastAccepted initialSequence
    = ⟨session.lastSentAcked, session.lastSentInMemory⟩

def Session.NothingLost (session : Session E) : Prop :=
  Melin.NothingLost session.intake session.lastSentAcked session.pendingAcks

def Turn.Spares (turn : Turn) (session : Session E) : Prop :=
  turn.ackInFlight = false → turn.sendAck = .ok false →
    ∀ oldest ∈ session.pendingAcks.pending.head?, turn.cursor < oldest.journalTarget

theorem acks_afterSend (turn : Turn) (ack : Ack) (left : PendingAckQueue) (session : Session E) :
    (session.afterSend turn ack left).acks = session.acks ++ [(ack, turn.sendAck)] := by
  unfold Session.afterSend
  split <;> rfl

theorem lastAccepted_afterSend (turn : Turn) (ack : Ack) (left : PendingAckQueue)
    (session : Session E) (initialSequence : Nat) :
    (session.afterSend turn ack left).lastAccepted initialSequence
      = if turn.sendAck = .ok true then ack else session.lastAccepted initialSequence := by
  unfold Session.lastAccepted
  rw [acks_afterSend, List.filter_append]
  by_cases accepted : turn.sendAck = .ok true
  · simp [accepted, wasAccepted]
  · have refused : wasAccepted (ack, turn.sendAck) = false := by
      cases answer : turn.sendAck with
      | error err => rfl
      | ok answered =>
        cases answered with
        | true => exact absurd answer accepted
        | false => rfl
    simp [accepted, refused]

variable {session : Session E} {initialSequence : Nat}

theorem Session.InOrder.flush {turn : Turn} {after : Session E} {up : Bool}
    (order : session.InOrder initialSequence) (flushed : Flushes turn session (after, up)) :
    after.InOrder initialSequence := by
  cases flushed with
  | inFlight busy => exact order
  | nothing ready left idle split popped reached acked inMemory =>
    exact ⟨order.owes.popped split, order.inMemory, order.sent⟩
  | sends ready left up idle split popped reached moved answered =>
    have logged := lastAccepted_afterSend turn
      ⟨ackedBy ready session.lastSentAcked, session.intake.accum⟩ left session initialSequence
    by_cases accepted : turn.sendAck = .ok true
    · rw [if_pos accepted] at logged
      simp only [Session.afterSend, if_pos accepted] at logged ⊢
      exact ⟨order.owes.accepted split, Nat.le_refl _, logged⟩
    · rw [if_neg accepted, order.sent] at logged
      simp only [Session.afterSend, if_neg accepted] at logged ⊢
      exact ⟨order.owes.popped split, order.inMemory, logged⟩

/-- A flush loses nothing where the transport refuses no ack of durable entries. -/
theorem Session.NothingLost.flush {turn : Turn} {after : Session E}
    (order : session.InOrder initialSequence) (spares : turn.Spares session)
    (whole : session.NothingLost) (flushed : Flushes turn session (after, true)) :
    after.NothingLost := by
  cases flushed with
  | inFlight busy => exact whole
  | nothing ready left idle split popped reached acked inMemory =>
    -- A popped entry would be above what was sent.
    have kept := Melin.NothingLost.accepted whole split
    cases last : ready.getLast? with
    | none =>
      rw [last] at kept
      exact kept
    | some newest =>
      have above := order.owes.above newest (by
        rw [split]
        exact List.mem_append_left _ (List.mem_of_getLast? last))
      simp only [ackedBy, last, Option.map_some, Option.getD_some] at acked
      omega
  | sends ready left _ idle split popped reached moved answered =>
    have kept := Melin.NothingLost.accepted whole split
    by_cases accepted : turn.sendAck = .ok true
    · simp only [Session.afterSend, if_pos accepted]
      exact kept
    · have refused : turn.sendAck = .ok false := by
        cases answer : turn.sendAck with
        | error err => exact absurd (answered.mpr ⟨err, answer⟩) (by simp)
        | ok answer' =>
          cases answer' with
          | true => exact absurd answer accepted
          | false => rfl
      simp only [Session.afterSend, if_neg accepted]
      cases ready with
      | nil => exact kept
      | cons oldest ready =>
        have waits := spares idle refused oldest (by simp [split])
        have durable := reached oldest List.mem_cons_self
        omega

theorem Session.InOrder.start (intake : Intake E) (initialSequence pipelineDepth : Nat)
    (power : pipelineDepth.isPowerOfTwo) (recvBuf : Bytes) (journalTip : Nat) :
    (Session.start intake initialSequence pipelineDepth power recvBuf journalTip).InOrder
        initialSequence ∧
      (Session.start intake initialSequence pipelineDepth power recvBuf journalTip).NothingLost := by
  refine ⟨⟨⟨?_, ?_, ?_, ?_, Nat.le_refl _⟩, Nat.le_refl _, rfl⟩, rfl⟩
  all_goals simp [Session.start, PendingAckQueue.new]

variable [AppEvent E] [Hashing]

theorem streamingTurn_goesOn {turn : Turn} {after : Session E}
    (went : streamingTurn turn session = (after, .goesOn)) :
    ∃ flushed received, Flushes turn session (flushed, true) ∧
      parseFrames turn { flushed with recvBuf := flushed.recvBuf ++ received }
        = (after, .goesOn) := by
  have drains : ∀ exit (ended : Session E), exitDrained turn exit ended ≠ (after, .goesOn) := by
    intro exit ended drained
    unfold exitDrained at drained
    split at drained <;> simp at drained
  have flushes := flushAcks_flushes turn session
  unfold streamingTurn at went
  split at went
  · exact absurd went (drains _ _)
  split at went
  · simp at went
  split at went
  · dsimp only at went
    split at went
    · simp at went
    · exact absurd went (drains _ _)
  split at went
  · simp at went
  · next flushed answer =>
    rw [answer] at flushes
    unfold receive at went
    split at went
    · simp at went
    · next received _ =>
      dsimp only at went
      split at went
      · exact absurd went (drains _ _)
      · exact ⟨flushed, received, flushes, went⟩

theorem Session.InOrder.parse (order : session.InOrder initialSequence) (turn : Turn) :
    (parseFrames turn session).1.InOrder initialSequence ∧
      (session.NothingLost → (parseFrames turn session).1.NothingLost) := by
  let outcome := processStreamingFrames turn.watch (session.recvBuf.drop session.recvOffset)
    session.intake session.pendingAcks
  have kept : Owes outcome.intake session.lastSentAcked outcome.pendingAcks ∧
      session.lastSentInMemory ≤ outcome.intake.accum ∧
      (session.NothingLost →
        Melin.NothingLost outcome.intake session.lastSentAcked outcome.pendingAcks) := by
    refine processFrames_keeps (P := fun intake acks => Owes intake session.lastSentAcked acks ∧
      session.lastSentInMemory ≤ intake.accum ∧
      (session.NothingLost → Melin.NothingLost intake session.lastSentAcked acks))
      ?_ ?_ _ ⟨order.owes, order.inMemory, id⟩
    · intro before after taken acks took held
      have further := took.accum
      have behind := held.2.1
      exact ⟨held.1.afterFrame took, by omega, fun whole => .afterFrame took held.1 (held.2.2 whole)⟩
    · intro intake acks queued held
      exact ⟨⟨held.1.slots, held.1.ascending, held.1.above, held.1.below, held.1.sent⟩, held.2⟩
  have parsed : ∃ recvBuf recvOffset journalTip heardFromPrimary,
      (parseFrames turn session).1 =
        { session with
          intake := outcome.intake, pendingAcks := outcome.pendingAcks
          recvBuf, recvOffset, journalTip, heardFromPrimary } := by
    unfold parseFrames
    dsimp only
    split <;> exact ⟨_, _, _, _, rfl⟩
  obtain ⟨recvBuf, recvOffset, journalTip, heardFromPrimary, parsed⟩ := parsed
  rw [parsed]
  exact ⟨⟨kept.1, kept.2.1, order.sent⟩, kept.2.2⟩

def EachTurn (holds : Turn → Session E → Prop) : List Turn → Session E → Prop
  | [], _ => True
  | turn :: turns, session =>
    holds turn session ∧ EachTurn holds turns (streamingTurn turn session).1

instance (holds : Turn → Session E → Prop) [∀ turn session, Decidable (holds turn session)] :
    ∀ turns session, Decidable (EachTurn holds turns session)
  | [], _ => isTrue trivial
  | turn :: turns, session =>
    have := instDecidableEachTurn holds turns (streamingTurn turn session).1
    inferInstanceAs (Decidable (_ ∧ _))

def Session.after (session : Session E) (turns : List Turn) : Session E :=
  turns.foldl (fun session turn => (streamingTurn turn session).1) session

theorem eachTurn_append (holds : Turn → Session E → Prop) (front back : List Turn)
    (session : Session E) :
    EachTurn holds (front ++ back) session
      ↔ EachTurn holds front session ∧ EachTurn holds back (session.after front) := by
  induction front generalizing session with
  | nil => simp [EachTurn, Session.after]
  | cons turn front ih =>
    simp only [List.cons_append, EachTurn, ih, Session.after, List.foldl_cons, and_assoc]

def Turn.GoesOn (turn : Turn) (session : Session E) : Prop :=
  (streamingTurn turn session).2.isGoesOn = true

def Turn.Quiet (turn : Turn) (session : Session E) : Prop :=
  session.intake.ring.length ≤ turn.cursor ∧
    (streamingTurn turn session).1.intake.ring.length = session.intake.ring.length

/-- The pass acknowledges all that is published as durable, unless the transport has accepted
that already or is busy with an accepted ack. -/
def Turn.ReportsAll (initialSequence : Nat) (turn : Turn) (session : Session E) : Prop :=
  let ack : Ack := ⟨session.intake.accum, session.intake.accum⟩
  (streamingTurn turn session).1.acks = session.acks ++ [(ack, turn.sendAck)] ∨
    (streamingTurn turn session).1.acks = session.acks ∧
      (turn.ackInFlight = true ∨ session.lastAccepted initialSequence = ack)

instance (turn : Turn) (session : Session E) : Decidable (turn.GoesOn session) :=
  inferInstanceAs (Decidable (_ = true))

instance (turn : Turn) (session : Session E) : Decidable (turn.Quiet session) :=
  inferInstanceAs (Decidable (_ ∧ _))

instance (initialSequence : Nat) (turn : Turn) (session : Session E) :
    Decidable (turn.ReportsAll initialSequence session) :=
  inferInstanceAs (Decidable (_ ∨ _))

instance (turn : Turn) (session : Session E) : Decidable (turn.Spares session) :=
  inferInstanceAs (Decidable (_ → _ → _))

theorem Turn.GoesOn.parts {turn : Turn} (goes : turn.GoesOn session) :
    ∃ flushed received, Flushes turn session (flushed, true) ∧
      (streamingTurn turn session).1
        = (parseFrames turn { flushed with recvBuf := flushed.recvBuf ++ received }).1 := by
  unfold Turn.GoesOn at goes
  cases ended : streamingTurn turn session with
  | mk after how =>
    rw [ended] at goes
    cases how with
    | goesOn =>
      obtain ⟨flushed, received, flushes, parsed⟩ := streamingTurn_goesOn ended
      exact ⟨flushed, received, flushes, by rw [parsed]⟩
    | exits exit => cases goes
    | waits => cases goes

theorem Session.InOrder.turn {turn : Turn} (order : session.InOrder initialSequence)
    (goes : turn.GoesOn session) :
    (streamingTurn turn session).1.InOrder initialSequence ∧
      (turn.Spares session → session.NothingLost → (streamingTurn turn session).1.NothingLost) := by
  obtain ⟨flushed, received, flushes, parsed⟩ := goes.parts
  rw [parsed]
  have behind : { flushed with recvBuf := flushed.recvBuf ++ received }.InOrder initialSequence :=
    have flush := order.flush flushes
    ⟨flush.owes, flush.inMemory, flush.sent⟩
  obtain ⟨kept, whole⟩ := behind.parse turn
  refine ⟨kept, fun spares held => whole ?_⟩
  have flushedWhole : flushed.NothingLost := .flush order spares held flushes
  exact flushedWhole

theorem parseFrames_acks (turn : Turn) (session : Session E) :
    (parseFrames turn session).1.acks = session.acks := by
  unfold parseFrames
  dsimp only
  split <;> rfl

theorem Session.InOrder.reports {turn : Turn} (order : session.InOrder initialSequence)
    (whole : session.NothingLost) (goes : turn.GoesOn session)
    (durable : session.intake.ring.length ≤ turn.cursor) :
    turn.ReportsAll initialSequence session := by
  obtain ⟨flushed, received, flushes, parsed⟩ := goes.parts
  have logged : (streamingTurn turn session).1.acks = flushed.acks := by
    rw [parsed, parseFrames_acks]
  -- Every target is reached, so the flush pops the queue to its end.
  have reached : ∀ ack ∈ session.pendingAcks.pending, ack.journalTarget ≤ turn.cursor :=
    fun ack queued => (order.owes.target_le queued).trans durable
  have empties := (PendingAckQueue.popReady_all reached).2
  have acks : ∀ ready left, session.pendingAcks.pending = ready ++ left.pending →
      left = (session.pendingAcks.popReady turn.cursor).2 →
      ackedBy ready session.lastSentAcked = session.intake.accum := by
    intro ready left split popped
    rw [popped, empties, List.append_nil] at split
    rw [← split]
    exact whole
  unfold Turn.ReportsAll
  dsimp only
  rw [logged]
  cases flushes with
  | inFlight busy => exact .inr ⟨rfl, .inl busy⟩
  | nothing ready left idle split popped reached acked inMemory =>
    have accum := acks ready left split popped
    have below := order.owes.sent
    have ahead := order.inMemory
    refine .inr ⟨rfl, .inr ?_⟩
    rw [order.sent, Ack.mk.injEq]
    omega
  | sends ready left _ idle split popped reached moved answered =>
    rw [acks_afterSend, acks ready left split popped]
    exact .inl rfl

theorem Session.InOrder.run {turns : List Turn} (order : session.InOrder initialSequence)
    (goes : EachTurn Turn.GoesOn turns session) (spares : EachTurn Turn.Spares turns session)
    (whole : session.NothingLost) :
    (session.after turns).InOrder initialSequence ∧ (session.after turns).NothingLost := by
  induction turns generalizing session with
  | nil => exact ⟨order, whole⟩
  | cons turn turns ih =>
    obtain ⟨kept, loses⟩ := order.turn goes.1
    exact ih kept goes.2 spares.2 (loses spares.1 whole)

/--
Refusals lose no progress as long as none meets a durable entry: from any point on, while every
published entry is durable and no further one arrives, each pass acknowledges all of it as durable
until the transport accepts that.
-/
theorem refused_ack_sent_again (intake : Intake E) (initialSequence pipelineDepth : Nat)
    (power : pipelineDepth.isPowerOfTwo) (recvBuf : Bytes) (journalTip : Nat)
    (before quiet : List Turn)
    (goes : EachTurn Turn.GoesOn (before ++ quiet)
      (Session.start intake initialSequence pipelineDepth power recvBuf journalTip))
    (spares : EachTurn Turn.Spares (before ++ quiet)
      (Session.start intake initialSequence pipelineDepth power recvBuf journalTip))
    (quietly : EachTurn Turn.Quiet quiet
      ((Session.start intake initialSequence pipelineDepth power recvBuf journalTip).after before)) :
    EachTurn (Turn.ReportsAll initialSequence) quiet
      ((Session.start intake initialSequence pipelineDepth power recvBuf journalTip).after before) := by
  rw [eachTurn_append] at goes spares
  obtain ⟨order, whole⟩ :=
    Session.InOrder.start intake initialSequence pipelineDepth power recvBuf journalTip
  obtain ⟨order, whole⟩ := order.run goes.1 spares.1 whole
  replace goes := goes.2
  replace spares := spares.2
  revert order whole goes spares quietly
  generalize (Session.start intake initialSequence pipelineDepth power recvBuf journalTip).after
    before = session
  -- Each quiet pass reports, and leaves a session that is still in order.
  induction quiet generalizing session with
  | nil => exact fun _ _ _ _ _ => trivial
  | cons turn quiet ih =>
    intro quietly order whole goes spares
    obtain ⟨kept, loses⟩ := order.turn goes.1
    exact ⟨order.reports whole goes.1 quietly.1.1,
      ih _ quietly.2 kept (loses spares.1 whole) goes.2 spares.2⟩

end

def idleTurn : Turn :=
  { shutdown := false, journalFailed := false, promote := none, ackInFlight := false, cursor := 0
    sendAck := .ok true, pollRecv := .ok [], isConnected := true, watch := .healthy
    exitPolls := [], exitSend := .ok true }

def sixthFrame : Bytes :=
  match encode (E := CounterEvent) 6 100 7 (.app (.increment 1)) maxEntrySize with
  | .ok entry => finalizeInputBatch (initInputBatch ++ entry.drop 2) 1
  | .error _ => []

def resumedAtFive : Session CounterEvent :=
  .start { ring := [], accum := 0, marks := [], lineagePolicy := none } 5 4 ⟨2, rfl⟩ [] 0

/-- An in-memory ack is refused before its entry is durable, and all is reported afterwards. -/
theorem refused_ack_sent_again_sixth :
    let before := [{ idleTurn with pollRecv := .ok sixthFrame },
      { idleTurn with sendAck := .ok false }]
    let quiet := [{ idleTurn with cursor := 1 }, { idleTurn with cursor := 1 }]
    (resumedAtFive.after before).acks = [(⟨5, 6⟩, .ok false)] ∧
      EachTurn (Turn.ReportsAll 5) quiet (resumedAtFive.after before) := by
  intro before quiet
  exact ⟨by decide +kernel, refused_ack_sent_again _ 5 4 ⟨2, rfl⟩ [] 0 before quiet
    (by decide +kernel) (by decide +kernel) (by decide +kernel)⟩

/-- An ack of a durable entry that is refused once is never made again. -/
theorem refused_ack_lost :
    let before := [{ idleTurn with pollRecv := .ok sixthFrame }]
    let quiet := [{ idleTurn with cursor := 1, sendAck := .ok false },
      { idleTurn with cursor := 1 }, { idleTurn with cursor := 1 }]
    EachTurn Turn.GoesOn (before ++ quiet) resumedAtFive ∧
      EachTurn Turn.Quiet quiet (resumedAtFive.after before) ∧
      ¬ EachTurn (Turn.ReportsAll 5) quiet (resumedAtFive.after before) ∧
      (resumedAtFive.after (before ++ quiet)).acks
        = [(⟨6, 6⟩, .ok false), (⟨5, 6⟩, .ok true)] := by
  decide +kernel

end Melin
