import Melin.Journal.Encoder
import Melin.Journal.SegmentFile

/-! The single-threaded journal writer: the entry stream and the live segment together. -/

namespace Melin

open Lib

def batchBufCapacity : Nat := 512 * 1024

structure BufferedWriter where
  encoder : JournalEncoder
  segment : SegmentFile
  batchBufLen : Nat

namespace BufferedWriter

def nextSequence (writer : BufferedWriter) : Nat := writer.encoder.nextSequence

def chainHash [Hashing] (writer : BufferedWriter) : Digest := writer.encoder.chainHash

section

variable [Hashing]

def createContinuing (path : NodeFile) (startingSequence : Nat) (anchorHash : Digest)
    (genesisEntries : Option Nat) (prealloc : Prealloc) : JournalProg BufferedWriter := do
  let segment ← SegmentFile.createContinuing path startingSequence anchorHash genesisEntries
    prealloc
  return { segment, encoder := .new startingSequence anchorHash, batchBufLen := batchBufCapacity }

/-- Create a fresh journal, anchored to a random salt, in a lineage without a genesis. -/
def create (path : NodeFile) (salt : Digest) (prealloc : Prealloc) : JournalProg BufferedWriter := do
  cleanupStagingOrphan
  createContinuing path 1 salt (some 0) prealloc

def openAppend (path : NodeFile) (lastSeq validEnd : Nat) (prealloc : Prealloc)
    (grants : Nat → Nat) : JournalProg BufferedWriter := do
  let (segment, info) ← SegmentFile.openAppend path validEnd prealloc
  let content ← Prog.look fun fs =>
    match fs.content path with
    | none => .fail (ioError .notFound)
    | some content => .ret content
  match JournalEncoder.resume { content, cursor := 0, grants, calls := 0 } info.startingSequence
      info.anchorHash lastSeq validEnd with
  | .error err => .fail err
  | .ok encoder => return { encoder, segment, batchBufLen := batchBufCapacity }

variable {E : Type} [AppEvent E]

/-- Encode an event under a sequence of the caller's, growing the batch buffer when it is full. -/
def encodeEvent (writer : BufferedWriter) (seq : Nat) (timestampNs : UInt64)
    (event : JournalEvent E) (keyHash : UInt64) : BufferedWriter × Except JournalError Unit :=
  let headroom := writer.batchBufLen - writer.encoder.batch.length
  let batchBufLen :=
    if headroom < entrySize E then writer.batchBufLen + batchBufCapacity else writer.batchBufLen
  let writer := { writer with batchBufLen }
  match writer.encoder.encodeEvent (batchBufLen - writer.encoder.batch.length) seq timestampNs event
      keyHash with
  | .error err => (writer, .error err)
  | .ok encoder => ({ writer with encoder }, .ok ())

def batchAppendWithTs (writer : BufferedWriter) (event : JournalEvent E)
    (timestampNs keyHash : UInt64) : BufferedWriter × Except JournalError Nat :=
  let (seq, encoder) := writer.encoder.allocateSequence
  match encodeEvent { writer with encoder } seq timestampNs event keyHash with
  | (writer, .error err) => (writer, .error err)
  | (writer, .ok ()) => (writer, .ok seq)

end

def flushBatchSync (writer : BufferedWriter) : JournalProg BufferedWriter :=
  if writer.encoder.batch.length = 0 then .ret writer
  else do
    let segment ← writer.segment.writeBatch writer.encoder.batch
    segment.sync
    return { writer with segment, encoder := writer.encoder.clearBatch }

def intoHalves (writer : BufferedWriter) : JournalProg (JournalEncoder × SegmentFile) := do
  let writer ← writer.flushBatchSync
  return (writer.encoder, writer.segment)

section

variable [Hashing]

def rotateSegment (writer : BufferedWriter) (prepared : Option PreparedSegment) :
    JournalProg BufferedWriter := do
  let writer ← writer.flushBatchSync
  let nextSeq := writer.nextSequence
  let anchor := writer.chainHash
  let segment ← writer.segment.rotate prepared nextSeq anchor
  return { writer with segment, encoder := writer.encoder.beginSegment nextSeq anchor }

end

end BufferedWriter

end Melin
