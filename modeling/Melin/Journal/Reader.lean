import Melin.Journal.Codec
import Melin.Journal.Chain

/-! The sequential journal reader, with its refilled buffer and its end-of-segment rules. -/

namespace Melin

open Lib

def chunkSize : Nat := 640 * 1024

def defaultCapacity : Nat := 64

def maxUnsyncedBytes : Nat := defaultCapacity * chunkSize

/-- Which end-of-segment rules apply. -/
inductive SegmentKind where
  | live
  | archived
  deriving DecidableEq, Repr

/-- The bytes of an unacknowledged write found at the end of a segment. -/
structure TornTail where
  offset : Nat
  len : Nat
  deriving DecidableEq, Repr

structure SegmentEnd where
  lastSequence : Option Nat
  validFileEnd : Nat
  chain : SegmentChain
  tornTail : Option TornTail

def nextStart (header : FileHeaderInfo) (ending : SegmentEnd) : Nat :=
  match ending.lastSequence with
  | some last => last + 1
  | none => header.startingSequence

def initialBufSize : Nat := 2 ^ 20

structure JournalReader where
  file : ByteFile
  /-- The valid bytes at the front of the read buffer. -/
  held : Bytes
  /-- Size of the read buffer. -/
  capacity : Nat
  /-- Position of the next entry within the valid bytes. -/
  pos : Nat
  lastSequence : Option Nat
  validFileEnd : Nat
  kind : SegmentKind
  path : SegmentPath
  ended : Bool
  tornTail : Option TornTail
  sectorSize : Nat
  startingSequence : Nat
  genesisEntries : Option Nat
  chain : SegmentChain

def JournalReader.headerInfo (reader : JournalReader) : FileHeaderInfo :=
  { sectorSize := reader.sectorSize, startingSequence := reader.startingSequence,
    anchorHash := reader.chain.anchor, genesisEntries := reader.genesisEntries }

def JournalReader.segmentEnd (reader : JournalReader) : SegmentEnd :=
  { lastSequence := reader.lastSequence, validFileEnd := reader.validFileEnd,
    chain := reader.chain, tornTail := reader.tornTail }

def zeroMagic : Bytes → Bool
  | first :: second :: _ => first == 0 && second == 0
  | _ => false

/-- Whether an interrupted write can have left bytes that fail to decode this way. -/
def isTornShape (bytes : Bytes) : JournalError → Bool
  | .truncatedEntry => true
  | .checksumMismatch .. => true
  -- With the right magic, a corrupt entry is the length cap or a check behind the checksum.
  | .corruptEntry .. => bytes.length < 2 || leNat (slice bytes 0 2) != entryMagic
  | _ => false

namespace JournalReader

def window (reader : JournalReader) : Bytes := reader.held.drop reader.pos

section

variable [Hashing]

def openSegment (content : Bytes) (grants : Nat → Nat) (path : SegmentPath) (kind : SegmentKind) :
    Except JournalError JournalReader :=
  if content.length < fileHeaderSize then
    .error (.io .unexpectedEof "failed to fill whole buffer")
  else do
    let info ← decodeFileHeader (content.take fileHeaderSize)
    return { file := { content, cursor := info.sectorSize, grants, calls := 0 }
             held := [], capacity := initialBufSize, pos := 0
             lastSequence := none, validFileEnd := info.sectorSize
             kind, path, ended := false, tornTail := none
             sectorSize := info.sectorSize, startingSequence := info.startingSequence
             genesisEntries := info.genesisEntries, chain := .new info.anchorHash }

end

def fillBuffer (reader : JournalReader) : JournalReader :=
  if reader.held.length > reader.pos then reader
  else
    let (chunk, file) := reader.file.read reader.capacity
    { reader with held := chunk, pos := 0, file }

/-- Read more bytes behind a partial entry, growing the buffer when the entry fills it. -/
def tryExtendBuffer (reader : JournalReader) : Bool × JournalReader :=
  let held := reader.window
  let capacity := if held.length = reader.capacity then reader.capacity * 2 else reader.capacity
  let (chunk, file) := reader.file.read (capacity - held.length)
  (0 < chunk.length, { reader with held := held ++ chunk, pos := 0, capacity, file })

def scanTailLoop (reach capacity : Nat) :
    Nat → ByteFile → Nat → Option Nat → ByteFile × Option Nat × Option Nat
  | 0, file, _, lastWithin => (file, lastWithin, none)
  | fuel + 1, file, offset, lastWithin =>
    if offset < file.content.length then
      let want := min (file.content.length - offset) capacity
      let (chunk, file) := file.readAt offset want
      if chunk.length = 0 then (file, lastWithin, none)
      else
        let split := min (reach - offset) chunk.length
        let lastWithin := ((lastNonzero (chunk.take split)).map (offset + ·)).or lastWithin
        match firstNonzero (chunk.drop split) with
        | some index => (file, lastWithin, some (offset + (split + index)))
        | none => scanTailLoop reach capacity fuel file (offset + chunk.length) lastWithin
    else (file, lastWithin, none)

/-- Scan everything behind a stop; every pass of the loop covers at least one byte. -/
def scanTail (file : ByteFile) (capacity start reach : Nat) : ByteFile × Option Nat × Option Nat :=
  scanTailLoop reach capacity (file.content.length - start) file start none

def unsyncedReach : SegmentKind → Nat
  | .live => maxUnsyncedBytes
  | .archived => 0

/-- Decide whether a stop is the end of the segment or corruption. -/
def endOfEntries (reader : JournalReader) (cause : Option JournalError) :
    JournalReader × Except JournalError Unit :=
  let offset := reader.validFileEnd
  let reach := offset + unsyncedReach reader.kind
  let (file, lastWithin, beyond) := scanTail reader.file reader.capacity offset reach
  let reader := { reader with pos := 0, held := [], file := { file with cursor := offset } }
  match beyond with
  | some nonzeroAt =>
    (reader, .error (.unrecoverableTail reader.path offset reader.lastSequence nonzeroAt cause))
  | none =>
    ({ reader with
        ended := true
        tornTail := (lastWithin.map fun last => { offset, len := last + 1 - offset }).or
          reader.tornTail }, .ok ())

def checkSequence (startingSequence : Nat) (lastSequence : Option Nat) (sequence : Nat) :
    Except JournalError Unit :=
  match lastSequence with
  | none =>
    if sequence ≠ startingSequence then .error (.sequenceGap startingSequence sequence) else .ok ()
  | some last =>
    if sequence < last + 1 then .error (.sequenceDuplicate sequence last)
    else if sequence > last + 1 then .error (.sequenceGap (last + 1) sequence)
    else .ok ()

section

variable {E : Type}

def validateAndAdvance (reader : JournalReader) (decoded : DecodedEntry E) :
    JournalReader × Except JournalError (JournalEntry E) :=
  match checkSequence reader.startingSequence reader.lastSequence decoded.entry.sequence with
  | .error err => (reader, .error err)
  | .ok () =>
    ({ reader with
        chain := reader.chain.absorb (reader.window.take decoded.consumed)
        lastSequence := some decoded.entry.sequence
        pos := reader.pos + decoded.consumed
        validFileEnd := reader.validFileEnd + decoded.consumed }, .ok decoded.entry)

variable [AppEvent E] [Hashing]

/--
Decode the entry at the window, reading more bytes while it is cut short.

No result means the bytes that arrived show that no entry starts here.
Each pass reads at least one byte, so the loop ends with the file.
-/
def decodeExtending : Nat → JournalReader →
    JournalReader × Option (Except JournalError (DecodedEntry E))
  | 0, reader => (reader, some (decode reader.window))
  | fuel + 1, reader =>
    match decode (E := E) reader.window with
    | .error .truncatedEntry =>
      match reader.tryExtendBuffer with
      | (false, reader) => (reader, some (.error .truncatedEntry))
      | (true, reader) =>
        if zeroMagic reader.window then (reader, none) else decodeExtending fuel reader
    | decoded => (reader, some decoded)

def stop (reader : JournalReader) (cause : Option JournalError) :
    JournalReader × Except JournalError (Option (JournalEntry E)) :=
  let (reader, verdict) := reader.endOfEntries cause
  (reader, verdict.map fun _ => none)

def nextEntry (reader : JournalReader) :
    JournalReader × Except JournalError (Option (JournalEntry E)) :=
  if reader.ended then (reader, .ok none)
  else
    let reader := reader.fillBuffer
    if reader.window = [] then reader.stop none
    else if zeroMagic reader.window then reader.stop none
    else
      match decodeExtending (E := E) (reader.file.unread.length + 1) reader with
      | (reader, none) => reader.stop none
      | (reader, some (.ok decoded)) =>
        let (reader, verdict) := reader.validateAndAdvance decoded
        (reader, verdict.map some)
      | (reader, some (.error err)) =>
        if isTornShape reader.window err then reader.stop (some err) else (reader, .error err)

def forEachEntryLoop {σ ε : Type} (lift : JournalError → ε)
    (body : SegmentChain → JournalEntry E → σ → σ × Except ε Unit) :
    Nat → JournalReader → σ → σ × Except ε JournalReader
  | 0, reader, state => (state, .ok reader)
  | fuel + 1, reader, state =>
    match reader.nextEntry (E := E) with
    | (_, .error err) => (state, .error (lift err))
    | (reader, .ok none) => (state, .ok reader)
    | (reader, .ok (some entry)) =>
      match body reader.chain entry state with
      | (state, .error err) => (state, .error err)
      | (state, .ok ()) => forEachEntryLoop lift body fuel reader state

/-- The reading loop of every consumer; each entry takes at least one byte of the file. -/
def forEachEntry {σ ε : Type} (lift : JournalError → ε)
    (body : SegmentChain → JournalEntry E → σ → σ × Except ε Unit) (reader : JournalReader)
    (state : σ) : σ × Except ε JournalReader :=
  forEachEntryLoop lift body (reader.file.content.length + 1) reader state

def readAll (reader : JournalReader) :
    List (JournalEntry E) × Except JournalError JournalReader :=
  reader.forEachEntry id (fun _ entry entries => (entries ++ [entry], .ok ())) []

end

end JournalReader

structure JournalDir where
  archives : List (Nat × Bytes)
  live : Option Bytes
  ascending : archives.Pairwise (·.1 < ·.1)

abbrev ReadSchedule := SegmentPath → Nat → Nat

end Melin
