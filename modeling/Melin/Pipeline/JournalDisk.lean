import Melin.Journal.Reader
import Melin.Journal.SegmentFile

/-! The journal's disk thread: batches are written and synced, then published. -/

namespace Melin

open Lib

def maxIov : Nat := 64

/-- What a batch makes true once it is on disk. -/
structure JournalWriteMeta where
  len : Nat
  /-- Last sequence of the batch. -/
  journalSeq : Nat
  chainHash : Digest
  /-- Input-ring position one past the last slot the batch covers. -/
  ringProgress : Nat

structure HandedBatch where
  bytes : Bytes
  info : JournalWriteMeta

/-- State published after each durable write. -/
structure FsyncState where
  journalSeq : Nat
  chainHash : Digest
  inputRingSeq : Nat

/-- The cursors a batch on disk moves. -/
structure DurabilityCursors where
  inputProgress : Nat
  durableWireSeq : Option Nat
  advertisedTip : Option Nat
  fsyncState : Option FsyncState

def DurabilityCursors.publish (cursors : DurabilityCursors) (info : JournalWriteMeta) :
    DurabilityCursors where
  inputProgress := info.ringProgress
  durableWireSeq := cursors.durableWireSeq.map fun _ => info.journalSeq
  -- The advertised tip only advances.
  advertisedTip := cursors.advertisedTip.map fun tip => max tip info.journalSeq
  fsyncState := cursors.fsyncState.map fun _ =>
    { journalSeq := info.journalSeq, chainHash := info.chainHash, inputRingSeq := info.ringProgress }

structure RotateRequest where
  prepared : Option PreparedSegment
  startingSequence : Nat
  anchorHash : Digest

inductive RotateSlot where
  | idle
  | requested (request : RotateRequest)
  | done (result : Except JournalError Unit)

/-- Write the staged batches, as many at a time as one vectored write takes; empty ones are skipped. -/
def writeStaged (segment : SegmentFile) (iov : List Bytes) : List Bytes → JournalProg SegmentFile
  | [] => if iov = [] then .ret segment else segment.writeVectored iov
  | bytes :: staged =>
    if bytes = [] then writeStaged segment iov staged
    else if iov.length + 1 = maxIov then do
      let segment ← segment.writeVectored (iov ++ [bytes])
      writeStaged segment [] staged
    else writeStaged segment (iov ++ [bytes]) staged

def pollDirFsyncRetry (due : Bool) : JournalProg Unit :=
  if due then SegmentFile.syncDirQuietly else .ret ()

/--
Write every staged batch and sync once.

A batch of queries alone has nothing to make durable, and is not synced.
-/
def drainAndSync (segment : SegmentFile) (staged : List Bytes) (retryDir : Bool) :
    JournalProg SegmentFile :=
  if 0 < (staged.map List.length).sum then do
    let segment ← writeStaged segment [] staged
    pollDirFsyncRetry retryDir
    segment.sync
    return segment
  else do
    pollDirFsyncRetry retryDir
    return segment

end Melin
