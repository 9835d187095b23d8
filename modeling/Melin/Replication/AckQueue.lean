import Melin.Replication.Protocol

/-! The acks a replica has yet to send, and when the next one is due. -/

namespace Melin

/-- An ack waiting for its entries to become durable. -/
structure PendingAck where
  /-- The journal cursor from which on the ack is safe to send. -/
  journalTarget : Nat
  ackedSequence : Nat
  deriving DecidableEq, Repr

structure PendingAckQueue where
  cap : Nat
  pending : List PendingAck
  /-- Pushes the newest entry absorbed because the queue was full. -/
  merged : Nat
  power : cap.isPowerOfTwo
  deriving DecidableEq

namespace PendingAckQueue

def new (cap : Nat) (power : cap.isPowerOfTwo) : PendingAckQueue :=
  { cap, pending := [], merged := 0, power }

def push (queue : PendingAckQueue) (journalTarget ackedSequence : Nat) : PendingAckQueue :=
  if queue.cap ≤ queue.pending.length then
    match queue.pending.getLast? with
    | some newest =>
      { queue with
        pending := queue.pending.dropLast ++
          [{ journalTarget := max newest.journalTarget journalTarget
             ackedSequence := max newest.ackedSequence ackedSequence }]
        merged := queue.merged + 1 }
    | none => queue
  else { queue with pending := queue.pending ++ [{ journalTarget, ackedSequence }] }

def popReady (queue : PendingAckQueue) (cursor : Nat) : Option Nat × PendingAckQueue :=
  let ready := queue.pending.takeWhile (·.journalTarget ≤ cursor)
  (ready.getLast?.map (·.ackedSequence),
    { queue with pending := queue.pending.dropWhile (·.journalTarget ≤ cursor) })

structure Poll where
  cursor : Nat
  abort : Bool
  deriving DecidableEq, Repr

def waitForJournalCursor (target : Nat) : List Poll → Option (Bool × List Poll)
  | [] => none
  | poll :: polls =>
    if target ≤ poll.cursor then some (true, polls)
    else if poll.abort then some (false, polls)
    else waitForJournalCursor target polls

def popAllBlocking (queue : PendingAckQueue) (last : Option Nat) :
    Nat → List Poll → Option (Option Nat × PendingAckQueue)
  | 0, _ => none
  | fuel + 1, polls =>
    match queue.pending with
    | [] => some (last, queue)
    | oldest :: _ =>
      match waitForJournalCursor oldest.journalTarget polls with
      | none => none
      | some (false, _) => some (last, queue)
      | some (true, []) => none
      | some (true, poll :: polls) =>
        let (acked, queue) := queue.popReady poll.cursor
        popAllBlocking queue acked fuel polls

end PendingAckQueue

/-- The next ack to send: one of the two tracks has moved past what was sent last. -/
def tryFlushDualTrack (pendingAcks : PendingAckQueue) (journalCursor accumEndSequence : Nat)
    (lastSentAcked lastSentInMemory : Nat) : Option Ack × PendingAckQueue :=
  let (popped, pendingAcks) := pendingAcks.popReady journalCursor
  let ackedNow := popped.getD lastSentAcked
  if lastSentAcked < ackedNow ∨ lastSentInMemory < accumEndSequence then
    (some { ackedSequence := ackedNow, inMemorySequence := accumEndSequence }, pendingAcks)
  else (none, pendingAcks)

end Melin
