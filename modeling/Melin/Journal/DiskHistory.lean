import Melin.Journal.Directory
import Melin.Journal.Preparer
import Melin.Journal.WriterLaws
import Melin.Journal.WrittenSegment

/-! A written history on disk, and what appending to it and rotating it leave there. -/

namespace Melin

open Lib

section

variable {E : Type} [AppEvent E] [Hashing]

namespace WrittenSegment

def next (written : WrittenSegment E) : Nat := written.startingSequence + written.entries.length

def extend (written : WrittenSegment E) (more : List (WrittenEntry E))
    (continues : Consecutive written.next (sequencesOf more)) : WrittenSegment E :=
  { written with
    entries := written.entries ++ more
    consecutive := by
      rw [sequencesOf, List.map_append, consecutive_append]
      refine ⟨written.consecutive, ?_⟩
      rw [List.length_map]
      exact continues }

def fresh (startingSequence : Nat) (anchorHash : Digest) (genesisEntries : Option Nat)
    (startFits : startingSequence < 2 ^ 64) (genesisFits : ∀ count ∈ genesisEntries, count < 2 ^ 64) :
    WrittenSegment E :=
  { startingSequence, anchorHash, genesisEntries, entries := [], consecutive := rfl, startFits
    genesisFits }

theorem extend_bytes (written : WrittenSegment E) (more : List (WrittenEntry E))
    (continues : Consecutive written.next (sequencesOf more)) :
    (written.extend more continues).bytes = written.bytes ++ bytesOf more := by
  simp [bytes, header, extend, bytesOf]

theorem extend_chain (written : WrittenSegment E) (more : List (WrittenEntry E))
    (continues : Consecutive written.next (sequencesOf more)) :
    (written.extend more continues).chain
      = more.foldl (fun chain entry => chain.absorb entry.bytes) written.chain := by
  simp [chain, extend, List.foldl_append]

end WrittenSegment

theorem bytesOf_eq_nil {entries : List (WrittenEntry E)} : bytesOf entries = [] ↔ entries = [] := by
  constructor
  · intro none
    cases entries with
    | nil => rfl
    | cons first entries =>
      have framing := first.framing_le
      simp only [bytesOf, List.flatMap_cons, List.append_eq_nil_iff] at none
      simp [none.1, entryFramingSize, entryHeaderSize] at framing
  · rintro rfl
    rfl

theorem rebuiltChain_eq (live : WrittenSegment E) (rest : Bytes) :
    rebuiltChain live.info (live.bytes ++ rest) live.bytes.length = live.chain := by
  have width := live.header_length
  have behind : slice (live.bytes ++ rest) entryOffset (live.bytes.length - entryOffset)
      = bytesOf live.entries := by
    rw [WrittenSegment.bytes, List.append_assoc, List.length_append, width, entryOffset,
      Nat.add_sub_cancel_left, slice, List.drop_left' width, List.take_left]
  rw [rebuiltChain, behind, WrittenSegment.chain]
  by_cases none : live.entries = []
  · rw [if_pos (by simp [WrittenSegment.bytes, none, bytesOf, width, entryOffset]), none]
    rfl
  · have some : 0 < (bytesOf live.entries).length :=
      List.length_pos_iff.mpr fun empty => none (bytesOf_eq_nil.mp empty)
    rw [if_neg (by rw [WrittenSegment.bytes, List.length_append, width, entryOffset]; omega),
      SegmentChain.foldl_absorb (·.bytes) none]
    rfl

/-- The archives of a disk are the segments, in order, whatever of their compaction is on disk. -/
def HoldsArchives (fs : Fs NodeFile) (archived : List (WrittenSegment E)) : Prop :=
  List.Forall₂ (fun index written => ∃ inode, fs.table.lookup (.archive index) = some inode ∧
    (fs.inodes inode).Keeps written.bytes) (archiveIndexes fs.table) archived

variable {after fs : Fs NodeFile} {archived : List (WrittenSegment E)} {inode : Nat}
  {live : WrittenSegment E}

theorem HoldsArchives.frame {before : Fs NodeFile} (holds : HoldsArchives before archived)
    (names : ∀ index, after.table.lookup (.archive index) = before.table.lookup (.archive index))
    (inodes : ∀ index inode, before.table.lookup (.archive index) = some inode →
      after.inodes inode = before.inodes inode) : HoldsArchives after archived := by
  rw [HoldsArchives, archiveIndexes_congr names]
  refine List.Forall₂.imp (fun index written => ?_) holds
  rintro ⟨inode, found, keeps⟩
  exact ⟨inode, by rw [names, found], by rw [inodes index inode found]; exact keeps⟩

theorem HoldsArchives.snoc {before : Fs NodeFile} (holds : HoldsArchives before archived)
    (names : ∀ index, index ≠ nextArchiveIndex before.table →
      after.table.lookup (.archive index) = before.table.lookup (.archive index))
    (inodes : ∀ index inode, before.table.lookup (.archive index) = some inode →
      after.inodes inode = before.inodes inode)
    {last : WrittenSegment E}
    (added : after.table.lookup (.archive (nextArchiveIndex before.table)) = some inode)
    (keeps : (after.inodes inode).Keeps last.bytes) : HoldsArchives after (archived ++ [last]) := by
  rw [HoldsArchives, archiveIndexes_snoc names added]
  refine List.rel_append (List.Forall₂.imp (fun index written => ?_) holds)
    (.cons ⟨inode, added, keeps⟩ .nil)
  rintro ⟨other, found, keepsOther⟩
  -- The next index is free before, so this archive is not the new one.
  have isOther : index ≠ nextArchiveIndex before.table := by
    rintro rfl
    simp [lookup_nextArchive] at found
  exact ⟨other, by rw [names index isOther, found], by rw [inodes index other found]; exact keepsOther⟩

structure DiskHolds (fs : Fs NodeFile) (archived : List (WrittenSegment E)) (inode : Nat)
    (live : WrittenSegment E) : Prop where
  sound : fs.Sound
  archives : HoldsArchives fs archived
  liveName : fs.table.lookup .live = some inode
  liveFile : ∃ content, fs.inodes inode = .settled content ∧ Padded live.bytes content

structure SegmentFile.At (segment : SegmentFile) (inode : Nat) (live : WrittenSegment E) : Prop where
  file : segment.file = inode
  path : segment.path = .live
  writePos : segment.writePos = live.bytes.length
  genesis : segment.genesisEntries = live.genesisEntries

theorem DiskHolds.archive_ne (disk : DiskHolds fs archived inode live) {index other : Nat}
    (found : fs.table.lookup (.archive index) = some other) : other ≠ inode := by
  rintro rfl
  have same := disk.sound.distinct found disk.liveName
  simp at same

theorem DiskHolds.staged_ne (disk : DiskHolds fs archived inode live) {serial other : Nat}
    (found : fs.table.lookup (.staging serial) = some other) : other ≠ inode := by
  rintro rfl
  have same := disk.sound.distinct found disk.liveName
  simp at same

theorem DiskHolds.keepsStaged (disk : DiskHolds fs archived inode live) {prepared : PreparedSegment}
    (staged : Staged fs prepared) (file : DurableFile) :
    Staged (fs.setInode inode file) prepared := by
  obtain ⟨named, content, settled, padded⟩ := staged
  refine ⟨named, content, ?_, padded⟩
  rw [← settled]
  exact Function.update_of_ne (disk.staged_ne named) ..

theorem DiskHolds.prepareOne (disk : DiskHolds fs archived inode live) {serial : Nat}
    (free : fs.table.lookup (.staging serial) = none) (bytes window : Nat) (mode : StagingMode) :
    ∃ after prepared, (Melin.prepareOne serial bytes window mode).run fs = (after, .ok prepared) ∧
      DiskHolds after archived inode live ∧ Staged after prepared := by
  obtain ⟨content, prepared, ran, fileEq, serialEq, padded⟩ := run_prepareOne free bytes window mode
  have sound := Prog.sound_run (Melin.prepareOne serial bytes window mode) disk.sound
  rw [ran] at sound
  have unstaged : ∀ name, (∀ serial, name ≠ .staging serial) → ∀ file,
      (fs.table.insert (.staging serial) file).lookup name = fs.table.lookup name :=
    fun name other file => AList.lookup_insert_ne (other serial)
  have allocated : ∀ {name : NodeFile} {other : Nat}, fs.table.lookup name = some other →
      other ≠ fs.fresh := fun found => (disk.sound.allocated found).ne
  refine ⟨_, prepared, ran, ⟨sound, ?_, ?_, ?_⟩, ⟨?_, content, ?_, padded⟩⟩
  · exact disk.archives.frame (fun index => unstaged _ (by simp) _)
      fun index other found => Function.update_of_ne (allocated found) ..
  · exact (unstaged .live (by simp) _).trans disk.liveName
  · obtain ⟨liveContent, settled, livePadded⟩ := disk.liveFile
    exact ⟨liveContent, (Function.update_of_ne (allocated disk.liveName) ..).trans settled, livePadded⟩
  · rw [serialEq, fileEq]
    exact AList.lookup_insert _
  · rw [fileEq]
    exact Function.update_self ..

theorem DiskHolds.setLive {after : WrittenSegment E} (disk : DiskHolds fs archived inode live)
    {content : Bytes} (padded : Padded after.bytes content) :
    DiskHolds (fs.setInode inode (.settled content)) archived inode after where
  sound := ⟨disk.sound.distinct, disk.sound.allocated⟩
  archives := disk.archives.frame (fun _ => rfl) fun _ _ found =>
    Function.update_of_ne (disk.archive_ne found) ..
  liveName := disk.liveName
  liveFile := ⟨content, Function.update_self .., padded⟩

theorem DiskHolds.rotated {fresh : WrittenSegment E} (disk : DiskHolds fs archived inode live)
    (sound : after.Sound) {file : Nat}
    (names : ∀ index, index ≠ nextArchiveIndex fs.table →
      after.table.lookup (.archive index) = fs.table.lookup (.archive index))
    (sealedName : after.table.lookup (.archive (nextArchiveIndex fs.table)) = some inode)
    (liveName : after.table.lookup .live = some file)
    (unarchived : ∀ index, fs.table.lookup (.archive index) ≠ some file)
    (inodes : ∀ other, other ≠ file → other ≠ inode → after.inodes other = fs.inodes other)
    (sealedFile : after.inodes inode = (fs.inodes inode).change (.setLen live.bytes.length))
    (freshFile : ∃ content, after.inodes file = .settled content ∧ Padded fresh.bytes content) :
    DiskHolds after (archived ++ [live]) file fresh where
  sound := sound
  archives := by
    refine disk.archives.snoc names (fun index other found => ?_) sealedName ?_
    · exact inodes other (fun same => unarchived index (same ▸ found)) (disk.archive_ne found)
    · obtain ⟨content, settled, padded⟩ := disk.liveFile
      rw [sealedFile, settled]
      exact (DurableFile.Keeps.settled padded).cut
  liveName := liveName
  liveFile := freshFile

def SegmentFile.install (segment : SegmentFile) (prepared : Option PreparedSegment)
    (startingSequence : Nat) (anchorHash : Digest) : JournalProg SegmentFile :=
  match prepared with
  | some prepared => segment.installPrepared prepared segment.path startingSequence anchorHash
  | none => segment.installFresh segment.path startingSequence anchorHash

theorem SegmentFile.run_rotate_of_install {archivedFs installedFs : Fs NodeFile}
    {segment installed : SegmentFile} {prepared : Option PreparedSegment}
    {startingSequence index : Nat} {anchorHash : Digest}
    (archives : (archiveLive segment.path).run fs = (archivedFs, .ok index))
    (installs : (segment.install prepared startingSequence anchorHash).run archivedFs
      = (installedFs, .ok installed))
    (sealedName : installedFs.table.lookup (.archive index) = some inode) :
    (segment.rotate prepared startingSequence anchorHash).run fs
      = (({ installedFs with older := [] } : Fs NodeFile).setInode inode
          ((installedFs.inodes inode).change (.setLen segment.writePos)), .ok installed) := by
  cases prepared <;>
  · simp only [install] at installs
    simp only [rotate, Prog.run_bind, archives, Prog.run_recover, installs, syncDirQuietly, Prog.run,
      Fs.step, compactArchive, sealedName, Prog.run_pure]

theorem SegmentFile.run_rotate (disk : DiskHolds fs archived inode live) {segment : SegmentFile}
    (opened : segment.At inode live) {prepared : Option PreparedSegment}
    (staged : ∀ ready ∈ prepared, Staged fs ready) {startingSequence : Nat} (anchorHash : Digest)
    (startFits : startingSequence < 2 ^ 64) :
    ∃ after installed file,
      (segment.rotate prepared startingSequence anchorHash).run fs = (after, .ok installed) ∧
      DiskHolds after (archived ++ [live]) file
        (.fresh startingSequence anchorHash live.genesisEntries startFits live.genesisFits) ∧
      installed.At file (.fresh (E := E) startingSequence anchorHash live.genesisEntries startFits
        live.genesisFits) ∧
      ∀ other, Staged fs other → (∀ ready ∈ prepared, ready.serial ≠ other.serial) →
        Staged after other := by
  let index := nextArchiveIndex fs.table
  let archivedFs := fs.setTable ((fs.table.erase .live).insert (.archive index) inode)
  -- The live segment goes to the next archive's name first.
  have archives : (archiveLive segment.path).run fs = (archivedFs, .ok index) := by
    simp [archiveLive, Prog.run_bind, Prog.run, io, Prog.run_perform, Fs.step, opened.path,
      disk.liveName, index, archivedFs]
  have headerEq : (WrittenSegment.fresh (E := E) startingSequence anchorHash live.genesisEntries
      startFits live.genesisFits).bytes
        = encodeFileHeader maxSectorSize startingSequence anchorHash live.genesisEntries := by
    simp [WrittenSegment.bytes, WrittenSegment.header, WrittenSegment.fresh, bytesOf]
  have headerWidth : entryOffset = (WrittenSegment.fresh (E := E) startingSequence anchorHash
      live.genesisEntries startFits live.genesisFits).bytes.length := by
    rw [headerEq]
    exact (encodeFileHeader_length (.inr rfl)).symm
  have liveInode : inode < fs.fresh := disk.sound.allocated disk.liveName
  cases prepared with
  | none =>
    have free : archivedFs.table.lookup .live = none := by
      simp [archivedFs, Fs.setTable, AList.lookup_insert_ne]
    let installedFs := withFile archivedFs .live (.settled (freshSegment startingSequence anchorHash
      live.genesisEntries segment.prealloc))
    have installs : (segment.install none startingSequence anchorHash).run archivedFs
        = (installedFs, .ok { segment with
            file := fs.fresh, writePos := entryOffset
            allocatedEnd := segment.prealloc.chunkBytes, preWritten := false }) := by
      simp only [install, installFresh, opened.path, opened.genesis, Prog.run_bind,
        run_createContinuing free, Prog.run_pure]
      rfl
    have sealedName : installedFs.table.lookup (.archive index) = some inode := by
      simp [installedFs, withFile, archivedFs, Fs.setTable, Fs.setInode, AList.lookup_insert_ne]
    have ran := run_rotate_of_install archives installs sealedName
    have sound := Prog.sound_run (segment.rotate none startingSequence anchorHash) disk.sound
    rw [ran] at sound
    have apart : inode ≠ fs.fresh := liveInode.ne
    refine ⟨_, _, fs.fresh, ran, disk.rotated sound (fun other isOther => ?_) sealedName ?_ ?_ ?_ ?_
      ⟨freshSegment startingSequence anchorHash live.genesisEntries segment.prealloc, ?_, ?_⟩,
      ⟨rfl, opened.path, headerWidth, opened.genesis⟩, fun other staged _ => ?_⟩
    · have isOther' : other ≠ index := isOther
      simp [installedFs, withFile, archivedFs, Fs.setTable, Fs.setInode, AList.lookup_insert_ne,
        isOther', AList.lookup_erase_ne]
    · simp [installedFs, withFile, archivedFs, Fs.setTable, Fs.setInode]
    · exact fun index found => absurd (disk.sound.allocated found) (lt_irrefl _)
    · intro other notFresh notLive
      simp [installedFs, withFile, archivedFs, Fs.setTable, Fs.setInode, Function.update_of_ne,
        notFresh, notLive]
    · simp [installedFs, withFile, archivedFs, Fs.setTable, Fs.setInode, Function.update_of_ne,
        apart, opened.writePos]
    · simp [installedFs, withFile, archivedFs, Fs.setTable, Fs.setInode, Function.update_of_ne,
        apart.symm]
    · rw [headerEq]
      exact ⟨_, rfl⟩
    · obtain ⟨named, content, settled, padded⟩ := staged
      have notLive := disk.staged_ne named
      have notFresh : other.file ≠ fs.fresh := (disk.sound.allocated named).ne
      refine ⟨?_, content, ?_, padded⟩
      · simp [installedFs, withFile, archivedFs, Fs.setTable, Fs.setInode, AList.lookup_insert_ne,
          AList.lookup_erase_ne, named]
      · simp [installedFs, withFile, archivedFs, Fs.setTable, Fs.setInode, Function.update_of_ne,
          notLive, notFresh, settled]
  | some ready =>
    obtain ⟨named, content, settled, padded⟩ := staged ready rfl
    let written := FileOp.apply content (.write 0
      (encodeFileHeader maxSectorSize startingSequence anchorHash live.genesisEntries))
    have stagedName : archivedFs.table.lookup (.staging ready.serial) = some ready.file := by
      simp [archivedFs, Fs.setTable, AList.lookup_insert_ne, AList.lookup_erase_ne, named]
    let installedFs := (archivedFs.setInode ready.file (.settled written)).setTable
      ((archivedFs.table.erase (.staging ready.serial)).insert .live ready.file)
    have onDisk : ((archivedFs.inodes ready.file).change (.write 0 (encodeFileHeader maxSectorSize
        startingSequence anchorHash live.genesisEntries))).sync = .settled written := by
      have same : archivedFs.inodes ready.file = .settled content := settled
      rw [same, DurableFile.sync, DurableFile.content_change, DurableFile.content_settled]
      rfl
    have installs : (segment.install (some ready) startingSequence anchorHash).run archivedFs
        = (installedFs, .ok { segment with
            file := ready.file, writePos := entryOffset
            allocatedEnd := ready.allocatedEnd, preWritten := ready.written }) := by
      simp only [install, installPrepared, Prog.run_recover, writeHeader, io, Prog.run_bind,
        Prog.run_perform, Prog.run_pure, Fs.step, opened.path, opened.genesis,
        Fs.setInode_setInode, Fs.inodes_setInode]
      simp [Fs.setInode, stagedName, installedFs, onDisk]
    have sealedName : installedFs.table.lookup (.archive index) = some inode := by
      simp [installedFs, archivedFs, Fs.setTable, Fs.setInode, AList.lookup_insert_ne,
        AList.lookup_erase_ne]
    have ran := run_rotate_of_install archives installs sealedName
    have sound := Prog.sound_run (segment.rotate (some ready) startingSequence anchorHash) disk.sound
    rw [ran] at sound
    have apart : inode ≠ ready.file := by
      intro same
      have clash := disk.sound.distinct disk.liveName (same ▸ named)
      simp at clash
    refine ⟨_, _, ready.file, ran, disk.rotated sound (fun other isOther => ?_) sealedName ?_ ?_ ?_ ?_
      ⟨written, ?_, ?_⟩, ⟨rfl, opened.path, headerWidth, opened.genesis⟩, fun other staged apart => ?_⟩
    · have isOther' : other ≠ index := isOther
      simp [installedFs, archivedFs, Fs.setTable, Fs.setInode, AList.lookup_insert_ne, isOther',
        AList.lookup_erase_ne]
    · simp [installedFs, Fs.setTable, Fs.setInode]
    · intro index found
      have clash := disk.sound.distinct named found
      simp at clash
    · intro other notReady notLive
      simp [installedFs, archivedFs, Fs.setTable, Fs.setInode, Function.update_of_ne, notReady,
        notLive]
    · simp [installedFs, archivedFs, Fs.setTable, Fs.setInode, Function.update_of_ne, apart,
        opened.writePos]
    · simp [installedFs, Fs.setTable, Fs.setInode, Function.update_of_ne, apart.symm]
    · rw [headerEq]
      exact padded.write _
    · obtain ⟨otherNamed, otherContent, otherSettled, otherPadded⟩ := staged
      have notLive := disk.staged_ne otherNamed
      have serials : ready.serial ≠ other.serial := apart ready rfl
      have notReady : other.file ≠ ready.file := by
        intro same
        have clash := disk.sound.distinct named (same ▸ otherNamed)
        exact serials (by simpa using clash)
      refine ⟨?_, otherContent, ?_, otherPadded⟩
      · simp [installedFs, archivedFs, Fs.setTable, Fs.setInode, AList.lookup_insert_ne,
          AList.lookup_erase_ne, serials.symm, otherNamed]
      · simp [installedFs, archivedFs, Fs.setTable, Fs.setInode, Function.update_of_ne, notLive,
          notReady, otherSettled]

end

end Melin
