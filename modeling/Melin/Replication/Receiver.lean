import Melin.Replication.AckQueue
import Melin.Replication.InputBatch
import Melin.Transport.Lineage

/-! A replica's receive path: frames of the stream, their slots, and the order they must keep. -/

namespace Melin

open Lib

/-- One frame at the front of the receive buffer. -/
inductive FrameResult where
  | complete (payload : Bytes)
  | incomplete
  /-- Longer than the limit, or empty: every message carries a tag. -/
  | oversized
  deriving DecidableEq

def tryExtractFrame (buf : Bytes) (maxSize : Nat) : FrameResult :=
  match splitFrameLimited buf maxSize with
  | .ok (some []) => .oversized
  | .ok (some payload) => .complete payload
  | .ok none => .incomplete
  | .error _ => .oversized

/-- Why the receiver stopped consuming frames. -/
inductive FrameError where
  /-- The stream skipped past the contiguous front. -/
  | sequenceGap (reason : String)
  | corrupted (err : InputBatchError)
  | refused (err : InputBatchError)
  | fatal (reason : String)

def maxSlotsPerCycle : Nat := 512

/-- What the receiver finds of the journal stage's failure latch, whenever it looks. -/
structure JournalWatch where
  /-- Before the frame at this offset of the buffer. -/
  failedAt : Nat → Bool
  /-- While a push of this ring position waits for room. -/
  abortsAt : Nat → Bool

def JournalWatch.healthy : JournalWatch := { failedAt := fun _ => false, abortsAt := fun _ => false }

structure Intake (E : Type) where
  ring : List (InputSlot E)
  /-- The last sequence accepted: the resume point before the first slot. -/
  accum : Nat
  /-- The marks pushed to the journal stage's queue. -/
  marks : List StreamMark
  /-- The lineage's ack policy as the accepted changes put it. -/
  lineagePolicy : Option LineagePolicy

section

variable {E : Type} [AppEvent E]

def JournalEvent.changesAckPolicy : JournalEvent E → Option AckPolicyChange
  | .ackPolicyChange change => some change
  | .tick _ | .epochBump _ | .shutdown | .app _ => none

def queueStreamMark (intake : Intake E) (kind : String) (mark : StreamMark) :
    Except String (Intake E) :=
  if mark.sequence = intake.accum then .ok { intake with marks := intake.marks ++ [mark] }
  else if mark.sequence < intake.accum then .ok intake
  else
    .error (kind ++ " at " ++ toString mark.sequence ++ " ahead of stream position " ++
      toString intake.accum ++ " — sequence gap")

def acceptSlot (watch : JournalWatch) (slot : InputSlot E) (intake : Intake E) :
    Option (Intake E) :=
  if watch.abortsAt intake.ring.length then none
  else
    some { intake with
      ring := intake.ring ++ [slot]
      accum := slot.sequence
      lineagePolicy :=
        match slot.event.changesAckPolicy with
        | some change => some (.after intake.lineagePolicy slot.sequence change)
        | none => intake.lineagePolicy }

/-- Why a frame's slots were not taken to their end. -/
inductive SlotStop where
  | gap (expected got : Nat)
  | ringFull
  deriving DecidableEq, Repr

def acceptSlots (watch : JournalWatch) :
    List (InputSlot E) → Intake E → Intake E × Option SlotStop
  | [], intake => (intake, none)
  | slot :: slots, intake =>
    if slot.sequence ≤ intake.accum then acceptSlots watch slots intake
    else if slot.sequence ≠ intake.accum + 1 then
      (intake, some (.gap (intake.accum + 1) slot.sequence))
    else
      match acceptSlot watch slot intake with
      | none => (intake, some .ringFull)
      | some intake => acceptSlots watch slots intake

def SlotStop.frameError : SlotStop → FrameError
  | .gap expected got =>
    .sequenceGap ("sequence gap in replication stream: expected " ++ toString expected ++
      ", got " ++ toString got)
  | .ringFull => .fatal "replica journal stage failed (ring full mid-publish)"

def controlMessage (payload : Bytes) (intake : Intake E) :
    Except FrameError (Intake E × Bool) :=
  match decodePrimaryMessage payload with
  | .ok (.heartbeat _) => .ok (intake, true)
  | .ok (.rotate boundarySeq tailHash) =>
    match queueStreamMark intake "Rotate" (.rotate { boundarySeq, tailHash }) with
    | .ok intake => .ok (intake, false)
    | .error reason => .error (.sequenceGap reason)
  | .ok (.chainCheck sequence chainHash) =>
    match queueStreamMark intake "ChainCheck" (.chainCheck sequence chainHash) with
    | .ok intake => .ok (intake, false)
    | .error reason => .error (.sequenceGap reason)
  | .ok .needSnapshot =>
    .error (.fatal "primary says we need a snapshot transfer mid-stream")
  | .ok .hashMismatch => .error (.fatal "chain hash mismatch from primary")
  | .ok (.streamStart ..) | .ok (.snapshotBegin ..) | .ok (.snapshotChunk _)
  | .ok (.snapshotEnd _) | .ok (.segmentSeedBegin _) => .ok (intake, false)
  | .error reason => .error (.fatal ("failed to decode primary message: " ++ reason))

variable [Hashing]

/-- A receive cycle in progress: what was handed on, and what the call will report. -/
structure Cycle (E : Type) where
  intake : Intake E
  pendingAcks : PendingAckQueue
  consumed : Nat
  anyPublished : Bool
  publishedThisCycle : Nat
  heardFromPrimary : Bool
  frameErr : Option FrameError

def takeFrame (watch : JournalWatch) (slots : List (InputSlot E)) (cycle : Cycle E) : Cycle E :=
  if slots = [] then cycle
  else
    let (intake, stop) := acceptSlots watch slots cycle.intake
    let published := intake.ring.length - cycle.intake.ring.length
    { cycle with
      intake
      heardFromPrimary := true
      anyPublished := cycle.anyPublished || decide (0 < published)
      publishedThisCycle := cycle.publishedThisCycle + published
      -- The cursor is next-to-consume, so the last slot's target is the position behind it.
      pendingAcks :=
        if 0 < published then cycle.pendingAcks.push intake.ring.length intake.accum
        else cycle.pendingAcks
      frameErr := stop.map SlotStop.frameError }

def processFrame (watch : JournalWatch) (payload : Bytes) (cycle : Cycle E) : Cycle E :=
  match tryDecodeInputBatch payload with
  | .ok slots => takeFrame watch slots cycle
  | .error (.notInputBatch _) =>
    match controlMessage payload cycle.intake with
    | .ok (intake, heard) =>
      { cycle with intake, heardFromPrimary := cycle.heardFromPrimary || heard }
    | .error err => { cycle with frameErr := some err }
  | .error err =>
    { cycle with frameErr := some (if err.isTransitDamage then .corrupted err else .refused err) }

/-- Process complete frames until one stops the cycle, the buffer runs out or enough slots are
published. -/
def processFrames (watch : JournalWatch) (recvBuf : Bytes) : Nat → Cycle E → Cycle E
  | 0, cycle => cycle
  | fuel + 1, cycle =>
    if watch.failedAt cycle.consumed then
      { cycle with frameErr := some (.fatal "replica journal stage failed") }
    else
      match tryExtractFrame (recvBuf.drop cycle.consumed) maxDataFrame with
      | .incomplete => cycle
      | .oversized =>
        { cycle with frameErr := some (.fatal "oversized frame from primary during streaming") }
      | .complete payload =>
        let cycle := processFrame watch payload cycle
        if cycle.frameErr.isSome then cycle
        else
          let cycle := { cycle with consumed := cycle.consumed + (frame payload).length }
          if maxSlotsPerCycle ≤ cycle.publishedThisCycle then cycle
          else processFrames watch recvBuf fuel cycle

/-- One receive cycle's frames: each takes at least a prefix and a tag, so the buffer's length
bounds them. -/
def processStreamingFrames (watch : JournalWatch) (recvBuf : Bytes) (intake : Intake E)
    (pendingAcks : PendingAckQueue) : Cycle E :=
  processFrames watch recvBuf (recvBuf.length + 1)
    { intake, pendingAcks, consumed := 0, anyPublished := false, publishedThisCycle := 0
      heardFromPrimary := false, frameErr := none }

/-- The promotion drain's frames: batches until one fails or leaves a gap, all else skipped. -/
def drainFrames (watch : JournalWatch) (recvBuf : Bytes) : Nat → Intake E × Nat → Intake E × Nat
  | 0, drained => drained
  | fuel + 1, (intake, consumed) =>
    match tryExtractFrame (recvBuf.drop consumed) maxDataFrame with
    | .incomplete | .oversized => (intake, consumed)
    | .complete payload =>
      match tryDecodeInputBatch payload with
      | .error (.notInputBatch _) =>
        drainFrames watch recvBuf fuel (intake, consumed + (frame payload).length)
      | .error _ => (intake, consumed)
      | .ok slots =>
        match acceptSlots watch slots intake with
        | (intake, some _) => (intake, consumed)
        | (intake, none) =>
          drainFrames watch recvBuf fuel (intake, consumed + (frame payload).length)

def processDrainFrames (watch : JournalWatch) (recvBuf : Bytes) (intake : Intake E) :
    Intake E × Nat :=
  drainFrames watch recvBuf (recvBuf.length + 1) (intake, 0)

end

end Melin
