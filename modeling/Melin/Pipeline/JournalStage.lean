import Melin.Journal.BufferedWriter
import Melin.Journal.Preparer
import Melin.Lib.FailingDevice
import Melin.Lib.Interleaving
import Melin.Pipeline.InputSlot
import Melin.Pipeline.JournalDisk
import Melin.Replication.Ring

/-!
The journal stage: the sequencing thread's state, and what every other thread does to it.

Whatever the others do happens between two accesses of the sequencing thread to what they share.
-/

namespace Melin

open Lib

/-- How a stage is set up; durations are in nanoseconds. -/
structure StageConfig where
  groupCommitDelay : Nat
  maxBatch : Nat
  /-- Size at which the live segment is rotated; zero for never. -/
  maxJournalBytes : Nat
  chainHashObserved : Bool
  ringCapacity : Nat
  ringPositive : 0 < ringCapacity

structure SequencerCore where
  /-- The read cursor in the input ring. -/
  nextRead : Nat
  encoder : JournalEncoder
  /-- Whether a hand-off slot is claimed. -/
  claim : Bool
  segmentBytes : Nat
  rotationBackoffUntil : Option Nat
  pendingMark : Option StreamMark
  inputBatchBuf : Bytes
  inputBatchCount : Nat
  batchesSinceChainCheck : Nat

inductive DiskEvent where
  /-- It published a batch's cursors, with these files written so far, on this file system. -/
  | published (info : JournalWriteMeta) (files : List Nat) (fs : Fs NodeFile)
  | failed (err : JournalError)

structure DiskState where
  fs : Fs NodeFile
  segment : SegmentFile
  cursors : DurabilityCursors
  sealedFiles : List Nat
  history : List DiskEvent

inductive Act (E : Type) where
  | publish (slot : InputSlot E)
  | mark (mark : StreamMark)
  | shutdown
  | requestRotation
  | clock (now : Nat)
  /-- The disk thread drains the oldest batches. -/
  | drain (count : Nat) (retryDir : Bool) (faults : List Fault)
  /-- The disk thread performs the rotation it was asked for. -/
  | rotate (faults : List Fault)
  | prepare (serial bytes window : Nat) (mode : StagingMode) (faults : List Fault)
  /-- A replication sender uses its ring. -/
  | sender (index : Nat) (act : SenderAct)

structure JournalStage (E : Type) where
  config : StageConfig
  core : SequencerCore
  ring : List (InputSlot E)
  /-- Marks queued by the receiver; a primary has no queue. -/
  streamMarks : Option (List StreamMark)
  producers : List ReplicationRing
  batches : List HandedBatch
  rotation : RotateSlot
  preparer : Option (Option PreparedSegment)
  /-- Set for good when a write or a sync fails. -/
  poisoned : Bool
  error : Option JournalError
  disk : DiskState
  /-- The operator's flag, if the stage has one. -/
  rotateRequested : Option Bool
  shutdown : Bool
  now : Nat
  /-- What the other threads will do, before each access in turn. -/
  beats : List (List (Act E))

def Act.published {E : Type} : Act E → List (InputSlot E)
  | .publish slot => [slot]
  | .mark _ | .shutdown | .requestRotation | .clock _ | .drain _ _ _ | .rotate _
  | .prepare _ _ _ _ _ | .sender _ _ => []

def arrivals {E : Type} (beats : List (List (Act E))) : List (InputSlot E) :=
  beats.flatten.flatMap Act.published

namespace JournalStage

variable {E : Type}

def drain (stage : JournalStage E) (count : Nat) (retryDir : Bool) (faults : List Fault) :
    JournalStage E :=
  let staged := stage.batches.take count
  match staged.getLast? with
  | none => stage
  | some last =>
    match (drainAndSync stage.disk.segment (staged.map (·.bytes)) retryDir).runFailing faults
        stage.disk.fs with
    | (fs, .ok segment) =>
      { stage with
        batches := stage.batches.drop count
        disk := { stage.disk with
          fs, segment
          cursors := stage.disk.cursors.publish last.info
          history := stage.disk.history
            ++ [.published last.info (stage.disk.sealedFiles ++ [segment.file]) fs] } }
    | (fs, .error err) =>
      { stage with
        poisoned := true, error := some err
        disk := { stage.disk with fs, history := stage.disk.history ++ [.failed err] } }

/-- The disk thread rotates, if it was asked to; a failure is reported, and is not poison. -/
def rotate [Hashing] (stage : JournalStage E) (faults : List Fault) : JournalStage E :=
  match stage.rotation with
  | .idle | .done _ => stage
  | .requested request =>
    match (stage.disk.segment.rotate request.prepared request.startingSequence
        request.anchorHash).runFailing faults stage.disk.fs with
    | (fs, .ok segment) =>
      { stage with
        rotation := .done (.ok ())
        disk := { stage.disk with
          fs, segment, sealedFiles := stage.disk.sealedFiles ++ [stage.disk.segment.file] } }
    | (fs, .error err) =>
      { stage with rotation := .done (.error err), disk := { stage.disk with fs } }

def prepare (stage : JournalStage E) (serial bytes window : Nat) (mode : StagingMode)
    (faults : List Fault) : JournalStage E :=
  match (prepareOne serial bytes window mode).runFailing faults stage.disk.fs with
  | (fs, .ok prepared) =>
    { stage with preparer := some (some prepared), disk := { stage.disk with fs } }
  | (fs, .error _) => { stage with disk := { stage.disk with fs } }

def rotationRequested (stage : JournalStage E) : Bool :=
  match stage.rotation with
  | .requested _ => true
  | .idle | .done _ => false

def preparerFree (stage : JournalStage E) : Bool :=
  match stage.preparer with
  | some none => true
  | some (some _) | none => false

def act [Hashing] (stage : JournalStage E) : Act E → JournalStage E
  | .publish slot => { stage with ring := stage.ring ++ [slot] }
  | .mark mark => { stage with streamMarks := stage.streamMarks.map (· ++ [mark]) }
  | .shutdown => { stage with shutdown := true }
  | .requestRotation => { stage with rotateRequested := stage.rotateRequested.map fun _ => true }
  | .clock now => { stage with now }
  -- A disk thread that failed has returned.
  | .drain count retryDir faults =>
    if stage.poisoned then stage else stage.drain count retryDir faults
  -- It rotates only where it finds nothing to drain.
  | .rotate faults =>
    if stage.poisoned || !stage.batches.isEmpty then stage else stage.rotate faults
  -- Staging and rotating touch different files, so a segment that becomes ready during a rotation
  -- is staged behind it.
  | .prepare serial bytes window mode faults =>
    if stage.preparerFree && !stage.rotationRequested then
      stage.prepare serial bytes window mode faults
    else stage
  | .sender index act => { stage with producers := stage.producers.modify index (·.act act) }

end JournalStage

instance {E : Type} [Hashing] : Interleaved (JournalStage E) (Act E) where
  turns := JournalStage.beats
  withTurns stage beats := { stage with beats }
  act := JournalStage.act

/-- What a stage is built with, besides its writer. -/
structure StageParts (E : Type) where
  config : StageConfig
  /-- Slots published before the stage starts. -/
  ring : List (InputSlot E)
  streamMarks : Option (List StreamMark)
  producers : List ReplicationRing
  preparing : Bool
  cursors : DurabilityCursors
  rotateRequested : Option Bool
  beats : List (List (Act E))

def JournalStage.start {E : Type} (parts : StageParts E) (writer : BufferedWriter) (fs : Fs NodeFile) :
    Except JournalError (JournalStage E) :=
  match writer.intoHalves.run fs with
  | (_, .error err) => .error err
  | (fs, .ok (encoder, segment)) =>
    .ok
      { config := { parts.config with chainHashObserved := parts.cursors.fsyncState.isSome }
        core :=
          { nextRead := 0, encoder, claim := false, segmentBytes := segment.writePos
            rotationBackoffUntil := none, pendingMark := none, inputBatchBuf := []
            inputBatchCount := 0, batchesSinceChainCheck := 0 }
        ring := parts.ring
        streamMarks := parts.streamMarks
        producers := parts.producers
        batches := []
        rotation := .idle
        preparer := if parts.preparing then some none else none
        poisoned := false
        error := none
        disk := { fs, segment, cursors := parts.cursors, sealedFiles := [], history := [] }
        rotateRequested := parts.rotateRequested
        shutdown := false
        now := 0
        beats := parts.beats }

abbrev SequencerCall (E : Type) := Call (JournalStage E) JournalError

def modifyCore {E : Type} (update : SequencerCore → SequencerCore) : SequencerCall E Unit :=
  Call.change fun stage => { stage with core := update stage.core }

end Melin
