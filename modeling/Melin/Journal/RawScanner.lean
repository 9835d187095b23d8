import Melin.Journal.Reader

/-! The raw scanner: entries cut out of a segment by their length field, without decoding them. -/

namespace Melin

open Lib

def scannerBufSize : Nat := 64 * 1024

/-- Reads the raw bytes of a segment's entries in order. -/
structure RawJournalScanner where
  file : ByteFile
  /-- The valid bytes at the front of the read buffer. -/
  held : Bytes
  /-- Size of the read buffer. -/
  capacity : Nat
  /-- Position of the next entry within the valid bytes. -/
  pos : Nat

def rawSequence (bytes : Bytes) : Nat := leNat (slice bytes 4 8)

def rawTotal (bytes : Bytes) : Nat := entryHeaderSize + leNat (slice bytes 2 2) + crcSize

namespace RawJournalScanner

def window (scanner : RawJournalScanner) : Bytes := scanner.held.drop scanner.pos

section

variable [Hashing]

def openSegment (content : Bytes) (grants : Nat → Nat) : Except JournalError RawJournalScanner :=
  if content.length < fileHeaderSize then
    .error (.io .unexpectedEof "failed to fill whole buffer")
  else do
    let info ← decodeFileHeader (content.take fileHeaderSize)
    return { file := { content, cursor := info.sectorSize, grants, calls := 0 }
             held := [], capacity := scannerBufSize, pos := 0 }

end

/-- Compact the buffer, grow it if it must be, and read until it holds what is needed. -/
def ensureLoop (needed : Nat) : Nat → RawJournalScanner → RawJournalScanner
  | 0, scanner => scanner
  | fuel + 1, scanner =>
    if scanner.window.length < needed then
      let held := scanner.window
      let capacity := if scanner.capacity < needed then needed else scanner.capacity
      let (chunk, file) := scanner.file.read (capacity - held.length)
      let scanner := { held := held ++ chunk, pos := 0, capacity, file }
      if chunk.length = 0 then scanner else ensureLoop needed fuel scanner
    else scanner

/-- Have the needed bytes in the buffer, or all that are left; each pass reads at least one. -/
def ensureAvailable (scanner : RawJournalScanner) (needed : Nat) : RawJournalScanner :=
  ensureLoop needed (scanner.file.unread.length + 1) scanner

/-- Pass over entries up to a sequence, stopping at the first one behind it. -/
def skipLoop (target : Nat) : Nat → RawJournalScanner → RawJournalScanner
  | 0, scanner => scanner
  | fuel + 1, scanner =>
    let scanner := scanner.ensureAvailable entryHeaderSize
    if scanner.window.length < entryHeaderSize then scanner
    else if zeroMagic scanner.window then scanner
    else if rawSequence scanner.window > target then scanner
    else
      let total := rawTotal scanner.window
      let scanner := scanner.ensureAvailable total
      if scanner.window.length < total then scanner
      else skipLoop target fuel { scanner with pos := scanner.pos + total }

def skipToAfter (scanner : RawJournalScanner) (target : Nat) : RawJournalScanner :=
  skipLoop target (scanner.file.content.length + 1) scanner

/-- Take entries into a batch until it is full, the stop sequence is passed, or none is left. -/
def readRawBatchLoop (maxBytes : Nat) (stopAfter : Option Nat) :
    Nat → RawJournalScanner → Bytes → Option Nat → RawJournalScanner × Bytes × Option Nat
  | 0, scanner, out, endSeq => (scanner, out, endSeq)
  | fuel + 1, scanner, out, endSeq =>
    let scanner := scanner.ensureAvailable entryHeaderSize
    if scanner.window.length < entryHeaderSize then (scanner, out, endSeq)
    else if zeroMagic scanner.window then (scanner, out, endSeq)
    else
      let entrySeq := rawSequence scanner.window
      let total := rawTotal scanner.window
      if stopAfter.any (entrySeq > ·) then (scanner, out, endSeq)
      -- The batch holds at least one entry, however large.
      else if endSeq.isSome ∧ out.length + total > maxBytes then (scanner, out, endSeq)
      else
        let scanner := scanner.ensureAvailable total
        if scanner.window.length < total then (scanner, out, endSeq)
        else
          readRawBatchLoop maxBytes stopAfter fuel { scanner with pos := scanner.pos + total }
            (out ++ scanner.window.take total) (some entrySeq)

def readRawBatchInner (scanner : RawJournalScanner) (maxBytes : Nat) (stopAfter : Option Nat) :
    RawJournalScanner × Bytes × Option Nat :=
  readRawBatchLoop maxBytes stopAfter (scanner.file.content.length + 1) scanner [] none

def readRawBatchUntil (scanner : RawJournalScanner) (maxBytes stopAfter : Nat) :
    RawJournalScanner × Bytes × Option Nat := scanner.readRawBatchInner maxBytes (some stopAfter)

def readRawBatch (scanner : RawJournalScanner) (maxBytes : Nat) :
    RawJournalScanner × Bytes × Option Nat := scanner.readRawBatchInner maxBytes none

end RawJournalScanner

inductive ChainValueAt where
  | value (chain : Digest)
  /-- The segment's entries end before the sequence. -/
  | beyondTip
  deriving DecidableEq

section

variable [Hashing]

def readHeaderInfo (content : Bytes) : Except JournalError FileHeaderInfo :=
  if content.length < fileHeaderSize then
    .error (.io .unexpectedEof "failed to fill whole buffer")
  else decodeFileHeader (content.take fileHeaderSize)

def chainValueLoop (seq : Nat) : Nat → RawJournalScanner → SegmentChain → ChainValueAt
  | 0, _, _ => .beyondTip
  | fuel + 1, scanner, chain =>
    match scanner.readRawBatchUntil (2 ^ 20) seq with
    | (scanner, buf, some last) =>
      if last = seq then .value (chain.absorb buf).value
      else chainValueLoop seq fuel scanner (chain.absorb buf)
    | (_, _, none) => .beyondTip

def chainValueAt (content : Bytes) (grants : Nat → Nat) (seq : Nat) :
    Except JournalError ChainValueAt := do
  let info ← readHeaderInfo content
  let scanner ← RawJournalScanner.openSegment content grants
  return chainValueLoop seq (content.length + 1) scanner (.new info.anchorHash)

def prefixLoop (throughSeq : Nat) : Nat → RawJournalScanner → Bytes → Option Bytes
  | 0, _, _ => none
  | fuel + 1, scanner, out =>
    match scanner.readRawBatchUntil (2 ^ 20) throughSeq with
    | (scanner, buf, some last) =>
      if last = throughSeq then some (out ++ buf)
      else prefixLoop throughSeq fuel scanner (out ++ buf)
    | (_, _, none) => none

def readSegmentPrefix (content : Bytes) (grants : Nat → Nat) (throughSeq : Nat) :
    Except JournalError (Option Bytes) := do
  let info ← readHeaderInfo content
  if content.length < entryOffset then .error (.io .unexpectedEof "failed to fill whole buffer")
  let out := content.take entryOffset
  if throughSeq = info.startingSequence - 1 then return some out
  let scanner ← RawJournalScanner.openSegment content grants
  return prefixLoop throughSeq (content.length + 1) scanner out

def countLoop (throughSeq : Nat) :
    Nat → RawJournalScanner → Nat → Nat → RawJournalScanner × Nat × Nat
  | 0, scanner, bytes, last => (scanner, bytes, last)
  | fuel + 1, scanner, bytes, last =>
    match scanner.readRawBatchUntil (2 ^ 20) throughSeq with
    | (scanner, buf, some last) => countLoop throughSeq fuel scanner (bytes + buf.length) last
    | (scanner, _, none) => (scanner, bytes, last)

def verifySegmentPrefix (content : Bytes) (grants : Nat → Nat) (throughSeq expectedLen : Nat) :
    Except JournalError Unit := do
  let info ← readHeaderInfo content
  let scanner ← RawJournalScanner.openSegment content grants
  let (scanner, bytes, last) := countLoop throughSeq (content.length + 1) scanner entryOffset
    (info.startingSequence - 1)
  if last ≠ throughSeq then
    .error (.corruptEntry throughSeq "segment seed does not end at the expected sequence")
  else if bytes ≠ expectedLen then
    .error (.corruptEntry throughSeq "segment seed byte length does not match its entries")
  else if (scanner.readRawBatch 256).2.2.isSome then
    .error (.corruptEntry throughSeq "segment seed carries entries past the expected sequence")
  else .ok ()

end

end Melin
