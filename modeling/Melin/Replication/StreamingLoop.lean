import Melin.Replication.Receiver

/-! The streaming loop of a replica, pass by pass. -/

namespace Melin

open Lib

structure DrainPoll where
  received : Bytes
  gotMore : Bool
  watch : JournalWatch

/-- What one pass of the loop finds, in the order it looks. -/
structure Turn where
  shutdown : Bool
  journalFailed : Bool
  /-- Promotion was requested: what the transport still delivers. -/
  promote : Option (List DrainPoll)
  ackInFlight : Bool
  /-- The journal cursor as the ack flush reads it. -/
  cursor : Nat
  sendAck : Except Unit Bool
  pollRecv : Except Unit Bytes
  isConnected : Bool
  watch : JournalWatch
  /-- What the last wait for durability sees, should the session end. -/
  exitPolls : List PendingAckQueue.Poll
  /-- What `send_ack` answers to the last ack. -/
  exitSend : Except Unit Bool

inductive SessionExit where
  | shutdown
  | promote
  | disconnected
  | streamGap (reason : String)
  | corrupted (err : InputBatchError)
  | refused (err : InputBatchError)
  | fatal (reason : String)

inductive TurnEnd where
  | goesOn
  | exits (exit : SessionExit)
  /-- Still waiting for what is pending to become durable. -/
  | waits

def TurnEnd.isGoesOn : TurnEnd → Bool
  | .goesOn => true
  | .exits _ | .waits => false

/-- The loop's state, and the acks it handed to the transport with each answer. -/
structure Session (E : Type) where
  intake : Intake E
  pendingAcks : PendingAckQueue
  recvBuf : Bytes
  recvOffset : Nat
  lastSentAcked : Nat
  lastSentInMemory : Nat
  /-- The sequence half of the tip the node advertises. -/
  journalTip : Nat
  heardFromPrimary : Bool
  acks : List (Ack × Except Unit Bool)

def recvCompactThreshold : Nat := 64 * 1024

section

variable {E : Type} [AppEvent E] [Hashing]

def Session.start (intake : Intake E) (initialSequence : Nat) (pipelineDepth : Nat)
    (power : pipelineDepth.isPowerOfTwo) (recvBuf : Bytes) (journalTip : Nat) : Session E :=
  { intake := { intake with accum := initialSequence }
    pendingAcks := .new pipelineDepth power
    recvBuf, recvOffset := 0
    lastSentAcked := initialSequence
    lastSentInMemory := initialSequence
    journalTip := max journalTip initialSequence
    heardFromPrimary := false
    acks := [] }

def drainPendingAcks (turn : Turn) (session : Session E) : Option (Session E) :=
  match session.pendingAcks.popAllBlocking none (turn.exitPolls.length + 1) turn.exitPolls with
  | none => none
  | some (none, pendingAcks) => some { session with pendingAcks }
  | some (some acked, pendingAcks) =>
    let ack := { ackedSequence := acked, inMemorySequence := session.intake.accum }
    some { session with pendingAcks, acks := session.acks ++ [(ack, turn.exitSend)] }

def exitDrained (turn : Turn) (exit : SessionExit) (session : Session E) :
    Session E × TurnEnd :=
  match drainPendingAcks turn session with
  | some session => (session, .exits exit)
  | none => (session, .waits)

/-- Publish what the transport still delivers before a promotion. -/
def drainTransport : List DrainPoll → Session E → Option (Session E)
  | [], _ => none
  | poll :: polls, session =>
    let recvBuf := session.recvBuf ++ poll.received
    let (intake, consumed) := processDrainFrames poll.watch recvBuf session.intake
    let session :=
      { session with
        intake
        recvBuf := recvBuf.drop consumed
        journalTip := max session.journalTip intake.accum
        pendingAcks :=
          if session.intake.ring.length < intake.ring.length then
            session.pendingAcks.push intake.ring.length intake.accum
          else session.pendingAcks }
    if poll.gotMore then drainTransport polls session else some session

def flushAcks (turn : Turn) (session : Session E) : Session E × Bool :=
  if turn.ackInFlight then (session, true)
  else
    match tryFlushDualTrack session.pendingAcks turn.cursor session.intake.accum
      session.lastSentAcked session.lastSentInMemory with
    | (none, pendingAcks) => ({ session with pendingAcks }, true)
    | (some ack, pendingAcks) =>
      let session :=
        { session with pendingAcks, acks := session.acks ++ [(ack, turn.sendAck)] }
      match turn.sendAck with
      | .ok true =>
        ({ session with
            lastSentAcked := ack.ackedSequence
            lastSentInMemory := ack.inMemorySequence }, true)
      -- Not accepted: the next pass tries again.
      | .ok false => (session, true)
      | .error _ => (session, false)

def compactRecv (recvBuf : Bytes) (recvOffset : Nat) : Bytes × Nat :=
  if recvOffset = recvBuf.length then ([], 0)
  else if recvCompactThreshold ≤ recvOffset then (recvBuf.drop recvOffset, 0)
  else (recvBuf, recvOffset)

def parseFrames (turn : Turn) (session : Session E) : Session E × TurnEnd :=
  let outcome := processStreamingFrames turn.watch (session.recvBuf.drop session.recvOffset)
    session.intake session.pendingAcks
  let (recvBuf, recvOffset) := compactRecv session.recvBuf (session.recvOffset + outcome.consumed)
  let session :=
    { session with
      intake := outcome.intake
      pendingAcks := outcome.pendingAcks
      recvBuf, recvOffset
      journalTip := max session.journalTip outcome.intake.accum
      heardFromPrimary := session.heardFromPrimary || outcome.heardFromPrimary }
  match outcome.frameErr with
  | some (.sequenceGap reason) => (session, .exits (.streamGap reason))
  | some (.corrupted err) => (session, .exits (.corrupted err))
  | some (.refused err) => (session, .exits (.refused err))
  | some (.fatal reason) => (session, .exits (.fatal reason))
  | none => (session, .goesOn)

def receive (turn : Turn) (session : Session E) : Session E × TurnEnd :=
  match turn.pollRecv with
  | .error _ => (session, .exits .disconnected)
  | .ok received =>
    let session := { session with recvBuf := session.recvBuf ++ received }
    if !turn.isConnected && session.recvOffset == session.recvBuf.length then
      exitDrained turn .disconnected session
    else parseFrames turn session

def streamingTurn (turn : Turn) (session : Session E) : Session E × TurnEnd :=
  if turn.shutdown then exitDrained turn .shutdown session
  else if turn.journalFailed then
    (session, .exits
      (.fatal "replica journal stage failed — tearing down for reconnect/resync"))
  else
    match turn.promote with
    | some polls =>
      let session :=
        { session with recvBuf := session.recvBuf.drop session.recvOffset, recvOffset := 0 }
      match drainTransport polls session with
      | none => (session, .waits)
      | some session => exitDrained turn .promote session
    | none =>
      match flushAcks turn session with
      | (session, false) => (session, .exits .disconnected)
      | (session, true) => receive turn session

def streamingLoop : List Turn → Session E → Session E × TurnEnd
  | [], session => (session, .goesOn)
  | turn :: turns, session =>
    match streamingTurn turn session with
    | (session, .goesOn) => streamingLoop turns session
    | ended => ended

end

end Melin
