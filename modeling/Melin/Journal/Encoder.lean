import Melin.Journal.Codec
import Melin.Journal.Chain

/-! The journal's entry stream: sequences, framing, the chain, and the pending batch. -/

namespace Melin

open Lib

/-- The entry stream of a segment; it touches no file. -/
structure JournalEncoder where
  /-- Bytes encoded into the caller's destination since the last flush. -/
  batch : Bytes
  nextSequence : Nat
  /-- First sequence of the active segment. -/
  startingSequence : Nat
  chain : SegmentChain
  /-- Every encoded sequence must exceed this one. -/
  lastEncodedSeq : Nat

namespace JournalEncoder

def new (startingSequence : Nat) (anchorHash : Digest) : JournalEncoder :=
  { batch := [], nextSequence := startingSequence, startingSequence, chain := .new anchorHash
    lastEncodedSeq := startingSequence - 1 }

/-- Resume a stream partway through a segment: the chain is rebuilt from the file's own bytes. -/
def resume (file : ByteFile) (startingSequence : Nat) (anchorHash : Digest)
    (lastSeq validEnd : Nat) : Except JournalError JournalEncoder := do
  let chain ← SegmentChain.rebuildFromFile file anchorHash entryOffset validEnd
  return { batch := [], nextSequence := lastSeq + 1, startingSequence, chain
           lastEncodedSeq := lastSeq }

def beginSegment (encoder : JournalEncoder) (startingSequence : Nat) (anchorHash : Digest) :
    JournalEncoder :=
  { encoder with startingSequence, batch := [], chain := .new anchorHash }

def allocateSequence (encoder : JournalEncoder) : Nat × JournalEncoder :=
  (encoder.nextSequence, { encoder with nextSequence := encoder.nextSequence + 1 })

def adoptSequence (encoder : JournalEncoder) (seq : Nat) :
    Except JournalError (Nat × JournalEncoder) :=
  if seq ≠ encoder.nextSequence then
    .error (.replicaSequenceMismatch encoder.nextSequence seq)
  else .ok encoder.allocateSequence

def chainHash [Hashing] (encoder : JournalEncoder) : Digest := encoder.chain.value

def clearBatch (encoder : JournalEncoder) : JournalEncoder := { encoder with batch := [] }

def encodeEvent {E : Type} [AppEvent E] [Hashing] (encoder : JournalEncoder) (room seq : Nat)
    (timestampNs : UInt64) (event : JournalEvent E) (keyHash : UInt64) :
    Except JournalError JournalEncoder :=
  if seq ≤ encoder.lastEncodedSeq then
    .error (.sequenceRegression seq encoder.lastEncodedSeq)
  else do
    let bytes ← encode seq timestampNs keyHash event maxEntrySize
    if room < bytes.length then
      let offset := encoder.batch.length
      let written := bytes.length
      let reserve := entrySize E
      .error (.io .invalidInput (s!"journal batch destination too small: {room} bytes free at "
        ++ s!"offset {offset}, entry needs {written} (caller must reserve entry_size::<E>() = "
        ++ s!"{reserve} per event)"))
    else
      return { encoder with
        chain := encoder.chain.absorb bytes
        batch := encoder.batch ++ bytes
        lastEncodedSeq := seq }

end JournalEncoder

end Melin
