import Melin.Journal.Codec
import Melin.Lib.FileSystem

/-! The journal's file half: the live segment on disk, its allocation, and its rotation. -/

namespace Melin

open Lib

/-- The files of a node that this development follows. -/
inductive NodeFile where
  | segment (path : SegmentPath)
  /-- A segment staged by the preparer, not yet installed. -/
  | staging (serial : Nat)
  /-- A journal that is built to hold the genesis, not yet installed. -/
  | genesisStaging
  | snapshot
  | snapshotTmp
  | snapshotPrev
  deriving DecidableEq, Repr

abbrev NodeFile.live : NodeFile := .segment .live

abbrev NodeFile.archive (index : Nat) : NodeFile := .segment (.archive index)

def emptyFs : Fs NodeFile :=
  { table := ∅, older := [], inodes := fun _ => .settled [], fresh := 0 }

abbrev JournalProg := Prog NodeFile JournalError

def ioError : FsError → JournalError
  | .notFound => .io .notFound "No such file or directory (os error 2)"
  | .alreadyExists => .io .alreadyExists "File exists (os error 17)"

def io (op : FsOp NodeFile) : JournalProg Nat := .perform op ioError

/-- How much disk a journal reserves at a time. -/
structure Prealloc where
  chunkBytes : Nat
  positive : 0 < chunkBytes

structure PreparedSegment where
  file : Nat
  serial : Nat
  allocatedEnd : Nat
  /-- Whether the zeros were written rather than allocated. -/
  written : Bool

def archiveIndex : NodeFile → Option Nat
  | .segment (.archive index) => if index = 0 then none else some index
  | .segment .live | .staging _ | .genesisStaging | .snapshot | .snapshotTmp | .snapshotPrev => none

def archiveIndexes (table : Table NodeFile) : List Nat :=
  (table.keys.filterMap archiveIndex).mergeSort (· ≤ ·)

def nextArchiveIndex (table : Table NodeFile) : Nat :=
  match (archiveIndexes table).getLast? with
  | none => 1
  | some index => index + 1

def stagingSerial : NodeFile → Option Nat
  | .staging serial => some serial
  | .segment _ | .genesisStaging | .snapshot | .snapshotTmp | .snapshotPrev => none

def removeStaging (serial : Nat) : JournalProg Unit :=
  .step (.remove (.staging serial)) (fun _ => .ret ()) (fun _ => .ret ())

def cleanupStagingOrphan : JournalProg Unit :=
  .look fun fs => (fs.table.keys.filterMap stagingSerial).forM removeStaging

structure SegmentFile where
  file : Nat
  path : NodeFile
  /-- Offset of the next entry. -/
  writePos : Nat
  allocatedEnd : Nat
  prealloc : Prealloc
  preWritten : Bool
  genesisEntries : Option Nat

def fallocateChunk (file offset : Nat) (prealloc : Prealloc) : JournalProg Nat := do
  let _ ← io (.change file (.allocate (offset + prealloc.chunkBytes)))
  return offset + prealloc.chunkBytes

section

variable [Hashing]

def writeHeader (file startingSequence : Nat) (anchorHash : Digest) (genesisEntries : Option Nat) :
    JournalProg Unit := do
  let _ ← io (.change file
    (.write 0 (encodeFileHeader maxSectorSize startingSequence anchorHash genesisEntries)))

end

namespace SegmentFile

section

variable [Hashing]

def createContinuing (path : NodeFile) (startingSequence : Nat) (anchorHash : Digest)
    (genesisEntries : Option Nat) (prealloc : Prealloc) : JournalProg SegmentFile := do
  let file ← io (.create path)
  let allocatedEnd ← fallocateChunk file 0 prealloc
  writeHeader file startingSequence anchorHash genesisEntries
  let _ ← io (.sync file)
  return { file, path, writePos := entryOffset, allocatedEnd, prealloc, preWritten := false
           genesisEntries }

def openAppend (path : NodeFile) (validEnd : Nat) (prealloc : Prealloc) :
    JournalProg (SegmentFile × FileHeaderInfo) := do
  cleanupStagingOrphan
  let file ← io (.openFile path)
  let content ← Prog.look fun fs => .ret (fs.inodes file).content
  if content.length < fileHeaderSize then
    .fail (.io .unexpectedEof "journal file too short to read file header")
  else
    match decodeFileHeader (content.take fileHeaderSize) with
    | .error err => .fail err
    | .ok info =>
      if content.length > validEnd then
        let _ ← io (.change file (.setLen validEnd))
      let allocatedEnd ← fallocateChunk file validEnd prealloc
      let _ ← io (.sync file)
      return ({ file, path, writePos := validEnd, allocatedEnd, prealloc, preWritten := false
                genesisEntries := info.genesisEntries }, info)

end

def ensureAllocated (segment : SegmentFile) (adding : Nat) : JournalProg SegmentFile :=
  if segment.writePos + adding ≤ segment.allocatedEnd then .ret segment
  else do
    let allocatedEnd ← fallocateChunk segment.file segment.allocatedEnd segment.prealloc
    return { segment with allocatedEnd, preWritten := false }

def writeBatch (segment : SegmentFile) (bytes : Bytes) : JournalProg SegmentFile :=
  if bytes = [] then .ret segment
  else do
    let segment ← segment.ensureAllocated bytes.length
    let _ ← io (.change segment.file (.write segment.writePos bytes))
    return { segment with writePos := segment.writePos + bytes.length }

/-- Write several batches at the current position, one behind the other. -/
def writeVectored (segment : SegmentFile) (bufs : List Bytes) : JournalProg SegmentFile :=
  let total := (bufs.map List.length).sum
  if total = 0 then .ret segment
  else do
    let segment ← segment.ensureAllocated total
    let _ ← io (.change segment.file (.write segment.writePos bufs.flatten))
    return { segment with writePos := segment.writePos + total }

def sync (segment : SegmentFile) : JournalProg Unit := do
  let _ ← io (.sync segment.file)

/-- Sync the directory behind a committed rotation; a failure is not reported, but retried. -/
def syncDirQuietly : JournalProg Unit := .step .syncDir (fun _ => .ret ()) (fun _ => .ret ())

def archiveLive (live : NodeFile) : JournalProg Nat := do
  let index ← Prog.look fun fs => .ret (nextArchiveIndex fs.table)
  let _ ← io (.rename live (.archive index))
  return index

def compactArchive (index validEnd : Nat) : JournalProg Unit :=
  .step (.openFile (.archive index))
    (fun file => .step (.change file (.setLen validEnd)) (fun _ => .ret ()) (fun _ => .ret ()))
    (fun _ => .ret ())

section

variable [Hashing]

def installFresh (segment : SegmentFile) (live : NodeFile) (startingSequence : Nat)
    (anchorHash : Digest) : JournalProg SegmentFile := do
  let fresh ← createContinuing live startingSequence anchorHash segment.genesisEntries
    segment.prealloc
  return { segment with
    file := fresh.file, writePos := fresh.writePos, allocatedEnd := fresh.allocatedEnd
    preWritten := fresh.preWritten }

def installPrepared (segment : SegmentFile) (prepared : PreparedSegment) (live : NodeFile)
    (startingSequence : Nat) (anchorHash : Digest) : JournalProg SegmentFile :=
  -- The staging file goes with an install that fails.
  Prog.recover (do
    writeHeader prepared.file startingSequence anchorHash segment.genesisEntries
    let _ ← io (.sync prepared.file)
    let _ ← io (.rename (.staging prepared.serial) live)
    return { segment with
      file := prepared.file, writePos := entryOffset, allocatedEnd := prepared.allocatedEnd
      preWritten := prepared.written })
    (fun err => do
      removeStaging prepared.serial
      .fail err)

def rotate (segment : SegmentFile) (prepared : Option PreparedSegment) (startingSequence : Nat)
    (anchorHash : Digest) : JournalProg SegmentFile := do
  let sealedEnd := segment.writePos
  let archived ← archiveLive segment.path
  let installed ← Prog.recover
    (match prepared with
      | some prepared => segment.installPrepared prepared segment.path startingSequence anchorHash
      | none => segment.installFresh segment.path startingSequence anchorHash)
    (fun err =>
      -- A refused rename back leaves an archive and no live segment.
      .step (.rename (.archive archived) segment.path)
        (fun _ => .step .syncDir (fun _ => .fail err) (fun _ => .fail err))
        (fun _ => .fail err))
  syncDirQuietly
  compactArchive archived sealedEnd
  return installed

end

end SegmentFile

end Melin
