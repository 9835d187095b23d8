import Melin.Journal.BufferedWriter
import Melin.Journal.CodecLaws

/-! What the writer's programs leave on disk. -/

namespace Melin

open Lib

structure SameSegments (before after : Fs NodeFile) : Prop where
  names : ∀ name, (∀ serial, name ≠ .staging serial) →
    after.table.lookup name = before.table.lookup name
  inodes : after.inodes = before.inodes
  fresh : after.fresh = before.fresh

theorem run_removeStaging (serials : List Nat) (fs : Fs NodeFile) :
    ∃ after, (serials.forM removeStaging).run fs = (after, .ok ()) ∧ SameSegments fs after := by
  induction serials generalizing fs with
  | nil => exact ⟨fs, rfl, ⟨fun _ _ => rfl, rfl, rfl⟩⟩
  | cons serial serials ih =>
    rw [List.forM_eq_forM, List.forM_cons, Prog.run_bind]
    cases found : fs.table.lookup (.staging serial) with
    | none =>
      -- A name that is not there is passed over.
      simp only [removeStaging, Prog.run, Fs.step, found]
      exact ih fs
    | some inode =>
      simp only [removeStaging, Prog.run, Fs.step, found]
      obtain ⟨after, ran, same⟩ := ih (fs.setTable (fs.table.erase (.staging serial)))
      refine ⟨after, ran, ⟨fun name other => ?_, same.inodes, same.fresh⟩⟩
      rw [same.names name other]
      exact AList.lookup_erase_ne (other serial)

theorem run_cleanupStagingOrphan (fs : Fs NodeFile) :
    ∃ after, cleanupStagingOrphan.run fs = (after, .ok ()) ∧ SameSegments fs after :=
  run_removeStaging _ fs

/-- A file opened for appending: its valid part, and zeros to the end of one reservation. -/
def openedContent (content : Bytes) (validEnd : Nat) (prealloc : Prealloc) : Bytes :=
  content.take validEnd
    ++ List.replicate (validEnd + prealloc.chunkBytes - (content.take validEnd).length) 0

theorem apply_setLen_allocate {content : Bytes} {validEnd : Nat}
    (longer : content.length > validEnd) (prealloc : Prealloc) :
    FileOp.apply (FileOp.apply content (.setLen validEnd))
        (.allocate (validEnd + prealloc.chunkBytes))
      = openedContent content validEnd prealloc := by
  have none : validEnd - content.length = 0 := by omega
  simp [FileOp.apply, openedContent, none]

theorem apply_allocate {content : Bytes} {validEnd : Nat} (short : ¬ content.length > validEnd)
    (prealloc : Prealloc) :
    FileOp.apply content (.allocate (validEnd + prealloc.chunkBytes))
      = openedContent content validEnd prealloc := by
  rw [FileOp.apply, openedContent, List.take_of_length_le (by omega)]

/-- Writing bytes behind the last entry puts them there, not yet all on disk. -/
theorem SegmentFile.run_writeBatch {fs : Fs NodeFile} {segment : SegmentFile} {front : Bytes}
    (position : segment.writePos = front.length)
    (padded : Padded front (fs.inodes segment.file).content) (bytes : Bytes) :
    ∃ file after, (segment.writeBatch bytes).run fs = (fs.setInode segment.file file, .ok after) ∧
      Padded (front ++ bytes) file.content ∧ after.file = segment.file ∧
      after.path = segment.path ∧ after.writePos = (front ++ bytes).length ∧
      after.genesisEntries = segment.genesisEntries := by
  unfold writeBatch
  by_cases none : bytes = []
  · refine ⟨fs.inodes segment.file, segment, ?_, ?_, rfl, rfl, ?_, rfl⟩
    · simp [none, Prog.run, Fs.setInode]
    · simpa [none] using padded
    · simpa [none] using position
  · simp only [if_neg none, ensureAllocated]
    by_cases fits : segment.writePos + bytes.length ≤ segment.allocatedEnd
    · refine ⟨(fs.inodes segment.file).change (.write segment.writePos bytes),
        { segment with writePos := segment.writePos + bytes.length }, ?_, ?_, rfl, rfl, ?_, rfl⟩
      · simp only [if_pos fits, Prog.run_bind, Prog.run, io, Prog.run_perform_change, Prog.run_pure]
      · rw [DurableFile.content_change, position]
        exact padded.write bytes
      · simp [position]
    · refine ⟨((fs.inodes segment.file).change
          (.allocate (segment.allocatedEnd + segment.prealloc.chunkBytes))).change
            (.write segment.writePos bytes),
        { segment with
          allocatedEnd := segment.allocatedEnd + segment.prealloc.chunkBytes
          preWritten := false
          writePos := segment.writePos + bytes.length }, ?_, ?_, rfl, rfl, ?_, rfl⟩
      · simp only [if_neg fits, fallocateChunk, Prog.run_bind, io, Prog.run_perform_change,
          Prog.run_pure, Fs.setInode_setInode, Fs.inodes_setInode]
      · rw [DurableFile.content_change, DurableFile.content_change, position]
        exact (padded.allocate _).write bytes
      · simp [position]

section

variable [Hashing]

variable {fs : Fs NodeFile} {path : NodeFile}

theorem SegmentFile.run_openAppend {inode : Nat} {info : FileHeaderInfo}
    (named : ∀ serial, path ≠ .staging serial) (found : fs.table.lookup path = some inode)
    (long : fileHeaderSize ≤ (fs.inodes inode).content.length)
    (header : decodeFileHeader ((fs.inodes inode).content.take fileHeaderSize) = .ok info)
    (validEnd : Nat) (prealloc : Prealloc) :
    ∃ after, (openAppend path validEnd prealloc).run fs = (after, .ok
        ({ file := inode, path, writePos := validEnd, allocatedEnd := validEnd + prealloc.chunkBytes
           prealloc, preWritten := false, genesisEntries := info.genesisEntries }, info)) ∧
      (∀ name, (∀ serial, name ≠ .staging serial) →
        after.table.lookup name = fs.table.lookup name) ∧
      after.fresh = fs.fresh ∧
      after.inodes = Function.update fs.inodes inode
        (.settled (openedContent (fs.inodes inode).content validEnd prealloc)) := by
  obtain ⟨cleaned, cleans, same⟩ := run_cleanupStagingOrphan fs
  have still : cleaned.table.lookup path = some inode := by rw [same.names path named, found]
  have file : cleaned.inodes inode = fs.inodes inode := by rw [same.inodes]
  refine ⟨cleaned.setInode inode (.settled _), ?_, fun name other => same.names name other,
    same.fresh, by rw [← same.inodes]; rfl⟩
  simp only [openAppend, Prog.run_bind, cleans, io, Prog.run_perform, Fs.step, still, Prog.run,
    file, if_neg (Nat.not_lt.mpr long), header]
  -- With or without a cut, what is left before the reservation is the valid part.
  by_cases longer : (fs.inodes inode).content.length > validEnd
  · simp [if_pos longer, Prog.run_bind, fallocateChunk, io, file, DurableFile.sync,
      apply_setLen_allocate longer prealloc, DurableFile.settled]
  · simp [if_neg longer, Prog.run_bind, fallocateChunk, io, file, DurableFile.sync,
      apply_allocate longer prealloc, DurableFile.settled]

def freshSegment (startingSequence : Nat) (anchorHash : Digest) (genesisEntries : Option Nat)
    (prealloc : Prealloc) : Bytes :=
  encodeFileHeader maxSectorSize startingSequence anchorHash genesisEntries
    ++ List.replicate (prealloc.chunkBytes - entryOffset) 0

def withFile (fs : Fs NodeFile) (path : NodeFile) (file : DurableFile) : Fs NodeFile :=
  { (fs.setTable (fs.table.insert path fs.fresh)).setInode fs.fresh file with fresh := fs.fresh + 1 }

theorem SegmentFile.run_createContinuing (free : fs.table.lookup path = none)
    (startingSequence : Nat) (anchorHash : Digest) (genesisEntries : Option Nat)
    (prealloc : Prealloc) :
    (createContinuing path startingSequence anchorHash genesisEntries prealloc).run fs
      = (withFile fs path (.settled (freshSegment startingSequence anchorHash genesisEntries
            prealloc)),
          .ok { file := fs.fresh, path, writePos := entryOffset, allocatedEnd := prealloc.chunkBytes
                prealloc, preWritten := false, genesisEntries }) := by
  have width : (encodeFileHeader maxSectorSize startingSequence anchorHash genesisEntries).length
      = entryOffset := encodeFileHeader_length (.inr rfl)
  -- The reservation is zeros, and the header overwrites the front of them.
  have content : FileOp.apply (FileOp.apply [] (.allocate prealloc.chunkBytes))
      (.write 0 (encodeFileHeader maxSectorSize startingSequence anchorHash genesisEntries))
        = freshSegment startingSequence anchorHash genesisEntries prealloc := by
    simp [FileOp.apply, writeAt, freshSegment, width]
  simp only [createContinuing, Prog.run_bind, io, Prog.run_perform, Fs.step, free, fallocateChunk,
    writeHeader, Option.isSome_none, Bool.false_eq_true, if_false, Prog.run_pure, Fs.setInode,
    Function.update_self, Function.update_idem, DurableFile.sync, DurableFile.content_change,
    DurableFile.content_settled, Nat.zero_add, content]
  rfl

def rebuiltChain (info : FileHeaderInfo) (content : Bytes) (validEnd : Nat) : SegmentChain :=
  if validEnd ≤ entryOffset then .new info.anchorHash
  else (SegmentChain.new info.anchorHash).absorb
    (slice content entryOffset (validEnd - entryOffset))

theorem BufferedWriter.run_openAppend {inode : Nat} {info : FileHeaderInfo}
    (named : ∀ serial, path ≠ .staging serial) (found : fs.table.lookup path = some inode)
    (long : fileHeaderSize ≤ (fs.inodes inode).content.length)
    (header : decodeFileHeader ((fs.inodes inode).content.take fileHeaderSize) = .ok info)
    (lastSeq validEnd : Nat) (prealloc : Prealloc) :
    ∃ after, (∀ grants, (openAppend path lastSeq validEnd prealloc grants).run fs = (after, .ok
        { encoder :=
            { batch := [], nextSequence := lastSeq + 1, startingSequence := info.startingSequence
              chain := rebuiltChain info
                (openedContent (fs.inodes inode).content validEnd prealloc) validEnd
              lastEncodedSeq := lastSeq }
          segment :=
            { file := inode, path, writePos := validEnd
              allocatedEnd := validEnd + prealloc.chunkBytes, prealloc, preWritten := false
              genesisEntries := info.genesisEntries }
          batchBufLen := batchBufCapacity })) ∧
      (∀ name, (∀ serial, name ≠ .staging serial) →
        after.table.lookup name = fs.table.lookup name) ∧
      after.fresh = fs.fresh ∧
      after.inodes = Function.update fs.inodes inode
        (.settled (openedContent (fs.inodes inode).content validEnd prealloc)) := by
  obtain ⟨after, ran, names, fresh, inodes⟩ := SegmentFile.run_openAppend named found long header
    validEnd prealloc
  refine ⟨after, fun grants => ?_, names, fresh, inodes⟩
  have content : after.content path
      = some (openedContent (fs.inodes inode).content validEnd prealloc) := by
    simp [Fs.content, Fs.file, names path named, found, inodes]
  have width : validEnd ≤ (openedContent (fs.inodes inode).content validEnd prealloc).length := by
    simp only [openedContent, List.length_append, List.length_replicate]
    omega
  have rebuilt : SegmentChain.rebuildFromFile
      { content := openedContent (fs.inodes inode).content validEnd prealloc
        cursor := 0, grants, calls := 0 } info.anchorHash entryOffset validEnd
        = .ok (rebuiltChain info (openedContent (fs.inodes inode).content validEnd prealloc)
            validEnd) := by
    rw [SegmentChain.rebuildFromFile_eq _ width]
    rfl
  simp only [openAppend, Prog.run_bind, ran, Prog.run, content, JournalEncoder.resume, rebuilt]
  rfl

theorem BufferedWriter.run_createContinuing (free : fs.table.lookup path = none)
    (startingSequence : Nat) (anchorHash : Digest) (genesisEntries : Option Nat)
    (prealloc : Prealloc) :
    (createContinuing path startingSequence anchorHash genesisEntries prealloc).run fs
      = (withFile fs path (.settled (freshSegment startingSequence anchorHash genesisEntries
            prealloc)),
          .ok
            { encoder := .new startingSequence anchorHash
              segment :=
                { file := fs.fresh, path, writePos := entryOffset
                  allocatedEnd := prealloc.chunkBytes, prealloc, preWritten := false
                  genesisEntries }
              batchBufLen := batchBufCapacity }) := by
  rw [createContinuing, Prog.run_bind, SegmentFile.run_createContinuing free]
  rfl

end

end Melin
