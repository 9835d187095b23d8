import Melin.Journal.DiskHistory
import Melin.Lib.FailingDevice

/-! The segments a writer has written to, on a device that may fail any step. -/

namespace Melin

open Lib

structure Touched (fs after : Fs NodeFile) (spare : Nat) : Prop where
  inodes : ∀ file, file ≠ spare → after.inodes file = fs.inodes file
  grown : fs.fresh ≤ after.fresh
  liveName : ∀ file, after.table.lookup .live = some file → file = spare
  archives : ∀ index, after.table.lookup (.archive index) = fs.table.lookup (.archive index)

namespace Touched

variable {fs after : Fs NodeFile} {spare : Nat}

theorem refl (free : fs.table.lookup .live = none) (spare : Nat) : Touched fs fs spare :=
  ⟨fun _ _ => rfl, le_rfl, fun _ found => absurd (free.symm.trans found) (by simp), fun _ => rfl⟩

theorem setInode (touched : Touched fs after spare) (file : DurableFile) :
    Touched fs (after.setInode spare file) spare :=
  ⟨fun other apart => (Function.update_of_ne apart ..).trans (touched.inodes other apart),
    touched.grown, touched.liveName, touched.archives⟩

theorem afterFailed (touched : Touched fs after spare) {op : FsOp NodeFile} (count : Nat)
    (only : ∀ inode change, op = .change inode change → inode = spare) :
    Touched fs (after.afterFailed op count) spare := by
  refine ⟨fun other apart => ?_, ?_, ?_, ?_⟩
  · rw [Fs.inodes_afterFailed _ _ fun inode change same => only inode change same ▸ apart]
    exact touched.inodes other apart
  · rw [Fs.fresh_afterFailed]
    exact touched.grown
  · rw [Fs.table_afterFailed]
    exact touched.liveName
  · rw [Fs.table_afterFailed]
    exact touched.archives

end Touched

variable {fs : Fs NodeFile}

theorem SegmentFile.compactArchive_always {index validEnd inode : Nat}
    (found : fs.table.lookup (.archive index) = some inode) :
    (compactArchive index validEnd).Always (fun after result => result = .ok () ∧
      (after = fs ∨ after = fs.setInode inode ((fs.inodes inode).change (.setLen validEnd)))) fs := by
  refine Prog.always_step.mpr ⟨fun answer after step => ?_, fun _ _ => ⟨rfl, .inl rfl⟩,
    fun _ _ => ⟨rfl, .inl rfl⟩⟩
  simp only [Fs.step, found, Except.ok.injEq, Prod.mk.injEq] at step
  obtain ⟨rfl, rfl⟩ := step
  refine Prog.always_step.mpr ⟨fun answer after step => ?_, fun _ _ => ⟨rfl, .inl rfl⟩,
    fun _ count => ⟨rfl, ?_⟩⟩
  · cases step
    exact ⟨rfl, .inr rfl⟩
  · -- A cut that failed was made or was not.
    by_cases none : count = 0
    · exact .inl (by simp [Fs.afterFailed, FileOp.landed, none])
    · exact .inr (by simp [Fs.afterFailed, FileOp.landed, none])

/-- What staging does to a file system: it works on one file, and on no name but staging ones. -/
structure StagingLeaves (fs after : Fs NodeFile) (file : Nat) : Prop where
  inodes : ∀ other, other ≠ file → after.inodes other = fs.inodes other
  grown : fs.fresh ≤ after.fresh
  liveName : after.table.lookup .live = fs.table.lookup .live

theorem StagingLeaves.frame {left after : Fs NodeFile} {file : Nat}
    (leaves : StagingLeaves fs left file) (table : after.table = left.table)
    (fresh : after.fresh = left.fresh)
    (inodes : ∀ other, other ≠ file → after.inodes other = left.inodes other) :
    StagingLeaves fs after file :=
  ⟨fun other apart => (inodes other apart).trans (leaves.inodes other apart),
    leaves.grown.trans_eq fresh.symm, by rw [table]; exact leaves.liveName⟩

/-- How filling a staging file may end: with zeros on disk, if it ends well. -/
def FillEnds (fs : Fs NodeFile) (file : Nat) (after : Fs NodeFile) : Except JournalError Unit → Prop
  | .ok () => after.table = fs.table ∧ after.fresh = fs.fresh ∧
      (∀ other, other ≠ file → after.inodes other = fs.inodes other) ∧
      ∃ content, after.inodes file = .settled content ∧ Padded [] content
  | .error _ => after.table = fs.table ∧ after.fresh = fs.fresh ∧
      ∀ other, other ≠ file → after.inodes other = fs.inodes other

theorem fillEnds_afterFailed (fs : Fs NodeFile) (file : Nat) (op : FileOp) (count : Nat)
    (err : JournalError) : FillEnds fs file (fs.afterFailed (.change file op) count) (.error err) :=
  ⟨Fs.table_afterFailed .., Fs.fresh_afterFailed .., fun _ apart =>
    Fs.inodes_afterFailed _ _ fun _ _ same => by cases same; exact apart⟩

theorem FillEnds.behind {fs after : Fs NodeFile} {file : Nat} {changed : DurableFile}
    {result : Except JournalError Unit}
    (ends : FillEnds (fs.setInode file changed) file after result) : FillEnds fs file after result := by
  have elsewhere : ∀ other, other ≠ file → (fs.setInode file changed).inodes other = fs.inodes other :=
    fun other apart => Function.update_of_ne apart ..
  cases result with
  | ok _ =>
    obtain ⟨table, fresh, inodes, zeros⟩ := ends
    exact ⟨table, fresh, fun other apart => (inodes other apart).trans (elsewhere other apart), zeros⟩
  | error err =>
    obtain ⟨table, fresh, inodes⟩ := ends
    exact ⟨table, fresh, fun other apart => (inodes other apart).trans (elsewhere other apart)⟩

theorem sync_fills {file : Nat} (zeros : Padded [] (fs.inodes file).content) :
    (do let _ ← io (.sync file) : JournalProg Unit).Always (FillEnds fs file) fs := by
  refine Prog.always_bind (Prog.always_sync ?_ fun err => ⟨rfl, rfl, fun _ _ => rfl⟩)
  exact ⟨rfl, rfl, fun other apart => Function.update_of_ne apart ..,
    _, Function.update_self .., zeros⟩

theorem prepareZeroFilled_always (file window bytes : Nat) {offset : Nat}
    (zeros : (fs.inodes file).content = List.replicate offset 0) :
    (prepareZeroFilled file window offset bytes).Always (FillEnds fs file) fs := by
  induction bytes using Nat.strong_induction_on generalizing offset fs with
  | _ bytes ih =>
    match bytes with
    | 0 =>
      rw [prepareZeroFilled]
      exact sync_fills ⟨offset, by simp [zeros]⟩
    | bytes + 1 =>
      rw [prepareZeroFilled]
      refine Prog.always_bind (Prog.always_change ?_ fun err count => fillEnds_afterFailed ..)
      refine (ih _ (by omega) ?_).imp fun after result => FillEnds.behind
      simp [zeros, FileOp.apply, writeAt, List.replicate_append_replicate]

/-- Whatever fails, staging works on a new file alone, and what it offers is staged. -/
theorem prepareOne_always (fs : Fs NodeFile) (serial bytes window : Nat) (mode : StagingMode) :
    (prepareOne serial bytes window mode).Always (fun after result =>
      StagingLeaves fs after fs.fresh ∧
        ∀ ready, result = .ok ready → Staged after ready ∧ ready.file = fs.fresh) fs := by
  have start : StagingLeaves fs fs fs.fresh := ⟨fun _ _ => rfl, le_rfl, rfl⟩
  rw [prepareOne]
  refine Prog.always_bind (Prog.always_perform (fun answer created step => ?_)
    (fun _ => ⟨start, by simp⟩) (fun _ _ => ⟨start, by simp⟩))
  simp only [Fs.step] at step
  split at step
  · cases step
  cases step
  -- The file is new; from here on its zeros are all that changes.
  let created : Fs NodeFile := { (fs.setTable (fs.table.insert (.staging serial) fs.fresh)).setInode
    fs.fresh (.settled []) with fresh := fs.fresh + 1 }
  have leaves : StagingLeaves fs created fs.fresh :=
    ⟨fun other apart => Function.update_of_ne apart .., Nat.le_succ _,
      AList.lookup_insert_ne (by simp)⟩
  have empty : (created.inodes fs.fresh).content = List.replicate 0 0 := by
    simp [created, Fs.setInode]
  have filled : ∀ {fill : JournalProg Unit} {written : Bool},
      fill.Always (FillEnds created fs.fresh) created →
      (do fill; return { file := fs.fresh, serial, allocatedEnd := bytes, written } :
        JournalProg PreparedSegment).Always (fun after result => StagingLeaves fs after fs.fresh ∧
          ∀ ready, result = .ok ready → Staged after ready ∧ ready.file = fs.fresh) created := by
    intro fill written fills
    refine Prog.always_bind (fills.imp fun after result ends => ?_)
    cases result with
    | error err =>
      obtain ⟨table, fresh, inodes⟩ := ends
      exact ⟨leaves.frame table fresh inodes, by simp⟩
    | ok _ =>
      obtain ⟨table, fresh, inodes, zeros⟩ := ends
      refine ⟨leaves.frame table fresh inodes, fun ready same => ?_⟩
      cases same
      exact ⟨⟨by rw [table]; exact AList.lookup_insert _, zeros⟩, rfl⟩
  cases mode with
  | zeroFill => exact filled (prepareZeroFilled_always _ _ _ empty)
  | allocate =>
    refine filled (Prog.always_bind (Prog.always_change ?_ fun err count => fillEnds_afterFailed ..))
    refine (sync_fills ⟨bytes, ?_⟩).imp fun after result => FillEnds.behind
    simp [empty, FileOp.apply]

section

variable {E : Type} [AppEvent E] [Hashing]

/--
The files a writer has written segments to: the sealed ones, and the live one it stands in.

Names matter only so far as the live name is not a sealed file's.
-/
structure HoldsFiles (fs : Fs NodeFile) (files : List Nat) (archived : List (WrittenSegment E))
    (segment : SegmentFile) (live : WrittenSegment E) : Prop where
  sound : fs.Sound
  sealedFiles : List.Forall₂ (fun file written => (fs.inodes file).Keeps written.bytes)
    files archived
  liveFile : ∃ content, fs.inodes segment.file = .settled content ∧ Padded live.bytes content
  writePos : segment.writePos = live.bytes.length
  genesis : segment.genesisEntries = live.genesisEntries
  path : segment.path = .live
  distinct : (segment.file :: files).Nodup
  allocated : ∀ file ∈ segment.file :: files, file < fs.fresh
  unnamed : ∀ file ∈ files, fs.table.lookup .live ≠ some file

namespace HoldsFiles

variable {fs after : Fs NodeFile} {files : List Nat} {archived : List (WrittenSegment E)}
  {segment : SegmentFile} {live : WrittenSegment E}

theorem frame (holds : HoldsFiles fs files archived segment live) (sound : after.Sound)
    (inodes : ∀ file ∈ segment.file :: files, after.inodes file = fs.inodes file)
    (fresh : fs.fresh ≤ after.fresh)
    (unnamed : ∀ file ∈ files, after.table.lookup .live ≠ some file) :
    HoldsFiles after files archived segment live where
  sound := sound
  sealedFiles := by
    refine List.Forall₂.imp (fun file written => ?_) (List.forall₂_and_left _ _ |>.mpr
      ⟨fun file member => inodes file (List.mem_cons_of_mem _ member), holds.sealedFiles⟩)
    rintro ⟨same, keeps⟩
    rw [same]
    exact keeps
  liveFile := by
    rw [inodes segment.file (by simp)]
    exact holds.liveFile
  writePos := holds.writePos
  genesis := holds.genesis
  path := holds.path
  distinct := holds.distinct
  allocated := fun file member => (holds.allocated file member).trans_le fresh
  unnamed := unnamed

theorem setLive (holds : HoldsFiles fs files archived segment live) {content : Bytes}
    {opened : SegmentFile} {longer : WrittenSegment E} (file : opened.file = segment.file)
    (path : opened.path = segment.path) (genesis : opened.genesisEntries = longer.genesisEntries)
    (writePos : opened.writePos = longer.bytes.length) (padded : Padded longer.bytes content) :
    HoldsFiles (fs.setInode segment.file (.settled content)) files archived opened longer where
  sound := ⟨holds.sound.distinct, holds.sound.allocated⟩
  sealedFiles := by
    refine List.Forall₂.imp (fun sealedFile written => ?_) (List.forall₂_and_left _ _ |>.mpr
      ⟨fun sealedFile member => ne_of_mem_of_not_mem member (List.nodup_cons.mp holds.distinct).1,
        holds.sealedFiles⟩)
    rintro ⟨apart, keeps⟩
    rw [show (fs.setInode segment.file (.settled content)).inodes sealedFile = fs.inodes sealedFile
      from Function.update_of_ne apart ..]
    exact keeps
  liveFile := ⟨content, by rw [file, Fs.inodes_setInode], padded⟩
  writePos := writePos
  genesis := genesis
  path := path.trans holds.path
  distinct := by rw [file]; exact holds.distinct
  allocated := by rw [file]; exact holds.allocated
  unnamed := holds.unnamed

theorem sealLive (holds : HoldsFiles fs files archived segment live) (sound : after.Sound)
    {opened : SegmentFile} {fresh : WrittenSegment E}
    (inodes : ∀ file ∈ files, after.inodes file = fs.inodes file)
    (sealedFile : (after.inodes segment.file).Keeps live.bytes)
    (freshFile : ∃ content, after.inodes opened.file = .settled content ∧
      Padded fresh.bytes content)
    (path : opened.path = .live) (writePos : opened.writePos = fresh.bytes.length)
    (genesis : opened.genesisEntries = fresh.genesisEntries)
    (apart : opened.file ∉ segment.file :: files) (grown : fs.fresh ≤ after.fresh)
    (liveName : after.table.lookup .live = some opened.file) :
    HoldsFiles after (files ++ [segment.file]) (archived ++ [live]) opened fresh where
  sound := sound
  sealedFiles := by
    refine List.rel_append (List.Forall₂.imp (fun file written => ?_)
      (List.forall₂_and_left _ _ |>.mpr ⟨inodes, holds.sealedFiles⟩)) (.cons sealedFile .nil)
    rintro ⟨same, keeps⟩
    rw [same]
    exact keeps
  liveFile := freshFile
  writePos := writePos
  genesis := genesis
  path := path
  distinct := by
    refine List.nodup_cons.mpr ⟨fun member => apart ?_, ?_⟩
    · simpa [or_comm] using member
    · exact (List.perm_append_singleton _ _).nodup_iff.mpr holds.distinct
  allocated := by
    intro file member
    rcases List.mem_cons.mp member with rfl | old
    · exact sound.allocated liveName
    · refine (holds.allocated file ?_).trans_le grown
      simpa [or_comm] using old
  unnamed := by
    intro file member found
    rw [liveName, Option.some.injEq] at found
    subst found
    exact apart (by simpa [or_comm] using member)

end HoldsFiles

def InstallEnds (fs : Fs NodeFile) (segment : SegmentFile) (startingSequence : Nat)
    (anchorHash : Digest) (spare : Nat) (after : Fs NodeFile) :
    Except JournalError SegmentFile → Prop
  | .ok installed => Touched fs after spare ∧ after.table.lookup .live = some spare ∧
      installed.file = spare ∧ installed.path = segment.path ∧
      installed.writePos = entryOffset ∧ installed.genesisEntries = segment.genesisEntries ∧
      ∃ content, after.inodes spare = .settled content ∧ Padded
        (encodeFileHeader maxSectorSize startingSequence anchorHash segment.genesisEntries) content
  | .error _ => Touched fs after spare

variable {fs : Fs NodeFile} {segment : SegmentFile}

theorem SegmentFile.installFresh_always (path : segment.path = .live)
    (free : fs.table.lookup .live = none) (startingSequence : Nat) (anchorHash : Digest) :
    (segment.installFresh segment.path startingSequence anchorHash).Always
      (InstallEnds fs segment startingSequence anchorHash fs.fresh) fs := by
  have start := Touched.refl free fs.fresh
  rw [path, installFresh, createContinuing]
  refine Prog.always_bind (Prog.always_bind (Prog.always_perform (fun answer created step => ?_)
    (fun err => start) (fun err count => start)))
  simp only [Fs.step, free, Option.isSome_none, Bool.false_eq_true, if_false, Except.ok.injEq,
    Prod.mk.injEq] at step
  obtain ⟨rfl, createdEq⟩ := step
  have touched : Touched fs created fs.fresh := by
    subst createdEq
    refine ⟨fun file apart => Function.update_of_ne apart .., Nat.le_succ _, fun file found => ?_,
      fun index => AList.lookup_insert_ne (by simp)⟩
    exact (Option.some.inj ((AList.lookup_insert _).symm.trans found)).symm
  have named : created.table.lookup .live = some fs.fresh := by
    subst createdEq
    exact AList.lookup_insert _
  have empty : created.inodes fs.fresh = .settled [] := by
    subst createdEq
    exact Function.update_self ..
  -- Each later step changes the new file, or fails on it.
  refine Prog.always_bind (Prog.always_bind (Prog.always_change ?_ fun err count =>
    touched.afterFailed count fun inode change same => by cases same; rfl))
  refine Prog.always_bind (Prog.always_bind (Prog.always_change ?_ fun err count =>
    (touched.setInode _).afterFailed count fun inode change same => by cases same; rfl))
  refine Prog.always_bind (Prog.always_sync ?_ fun err => (touched.setInode _).setInode _)
  refine ⟨((touched.setInode _).setInode _).setInode _, named, rfl, rfl, rfl, rfl, ?_⟩
  refine ⟨_, (Fs.inodes_setInode ..).trans rfl, ?_⟩
  simp only [Fs.inodes_setInode, DurableFile.content_change, empty, DurableFile.content_settled]
  exact ((Padded.refl []).allocate _).write _

theorem SegmentFile.installPrepared_always {ready : PreparedSegment} (path : segment.path = .live)
    (free : fs.table.lookup .live = none) (staged : Staged fs ready) (startingSequence : Nat)
    (anchorHash : Digest) :
    (segment.installPrepared ready segment.path startingSequence anchorHash).Always
      (InstallEnds fs segment startingSequence anchorHash ready.file) fs := by
  have start := Touched.refl free ready.file
  obtain ⟨named, content, settled, padded⟩ := staged
  -- Whatever failed, what is left is to remove the staging name.
  have discarded : ∀ {left : Fs NodeFile} (err : JournalError), Touched fs left ready.file →
      Prog.Always (InstallEnds fs segment startingSequence anchorHash ready.file)
        (do removeStaging ready.serial; Prog.fail err) left := by
    intro left err touched
    refine Prog.always_bind (Prog.always_step.mpr ⟨fun answer after step => ?_, fun _ _ => touched,
      fun _ _ => touched⟩)
    simp only [Fs.step] at step
    split at step
    · cases step
    · cases step
      exact ⟨touched.inodes, touched.grown,
        fun file found => touched.liveName file ((AList.lookup_erase_ne (by simp)).symm.trans found),
        fun index => (AList.lookup_erase_ne (by simp)).trans (touched.archives index)⟩
  rw [path, installPrepared]
  refine Prog.always_recover (Prog.always_bind (Prog.always_bind (Prog.always_change ?_
    fun err count => discarded _ (start.afterFailed count fun inode change same => by
      cases same; rfl))))
  refine Prog.always_bind (Prog.always_sync ?_ fun err => discarded _ (start.setInode _))
  refine Prog.always_bind (Prog.always_perform (fun answer after step => ?_)
    (fun err => discarded _ ((start.setInode _).setInode _))
    (fun err count => discarded _ ((start.setInode _).setInode _)))
  simp only [Fs.step] at step
  split at step
  · cases step
  · rename_i found
    cases step
    have same : answer = ready.file := Option.some.inj (found.symm.trans named)
    subst same
    refine ⟨⟨((start.setInode _).setInode _).inodes, le_rfl, fun file isLive => ?_,
      fun index => ?_⟩, AList.lookup_insert _, rfl, rfl, rfl, rfl, ?_⟩
    · exact (Option.some.inj ((AList.lookup_insert _).symm.trans isLive)).symm
    · exact (AList.lookup_insert_ne (by simp)).trans (AList.lookup_erase_ne (by simp))
    · refine ⟨_, (Fs.inodes_setInode ..).trans rfl, ?_⟩
      simp only [Fs.inodes_setInode, DurableFile.content_change, settled,
        DurableFile.content_settled]
      exact padded.write _

def spareFile (fs : Fs NodeFile) (prepared : Option PreparedSegment) : Nat :=
  match prepared with
  | some ready => ready.file
  | none => fs.fresh

theorem SegmentFile.install_always {prepared : Option PreparedSegment} (path : segment.path = .live)
    (free : fs.table.lookup .live = none) (staged : ∀ ready ∈ prepared, Staged fs ready)
    (startingSequence : Nat) (anchorHash : Digest) :
    (segment.install prepared startingSequence anchorHash).Always
      (InstallEnds fs segment startingSequence anchorHash (spareFile fs prepared)) fs := by
  cases prepared with
  | none => exact installFresh_always path free startingSequence anchorHash
  | some ready =>
    exact installPrepared_always path free (staged ready rfl) startingSequence anchorHash

def RotationEnds (files : List Nat) (archived : List (WrittenSegment E)) (segment : SegmentFile)
    (live next : WrittenSegment E) (after : Fs NodeFile) : Except JournalError SegmentFile → Prop
  | .ok installed => HoldsFiles after (files ++ [segment.file]) (archived ++ [live]) installed next
  | .error _ => HoldsFiles after files archived segment live

namespace HoldsFiles

variable {fs archivedFs left : Fs NodeFile} {files : List Nat}
  {archived : List (WrittenSegment E)} {segment installed : SegmentFile}
  {live next : WrittenSegment E} {spare index inode : Nat}

theorem touch (holds : HoldsFiles fs files archived segment live)
    (touched : Touched fs left spare) (sound : left.Sound)
    (spared : spare ∉ segment.file :: files) : HoldsFiles left files archived segment live := by
  refine holds.frame sound (fun file member => touched.inodes file fun same => spared ?_)
    touched.grown (fun file member found => spared ?_)
  · rwa [← same]
  · rw [← touched.liveName file found]
    exact List.mem_cons_of_mem _ member

theorem archive (holds : HoldsFiles fs files archived segment live)
    (sound : (fs.setTable ((fs.table.erase .live).insert (.archive index) inode)).Sound) :
    HoldsFiles (fs.setTable ((fs.table.erase .live).insert (.archive index) inode)) files archived
      segment live := by
  refine holds.frame sound (fun _ _ => rfl) le_rfl fun file _ found => ?_
  have free : ((fs.table.erase .live).insert (.archive index) inode).lookup .live = none :=
    (AList.lookup_insert_ne (by simp)).trans (AList.lookup_erase _ _)
  exact absurd (free.symm.trans found) (by simp)

theorem restore (holds : HoldsFiles fs files archived segment live)
    (found : fs.table.lookup (.archive index) = some inode) (unsealed : inode ∉ files)
    {after : Fs NodeFile} {answer : Nat}
    (renamed : fs.step (.rename (.archive index) .live) = .ok (answer, after)) :
    HoldsFiles after files archived segment live := by
  have sound := holds.sound.step renamed
  simp only [Fs.step, found, Except.ok.injEq, Prod.mk.injEq] at renamed
  obtain ⟨rfl, rfl⟩ := renamed
  exact holds.frame sound (fun _ _ => rfl) le_rfl fun file member isLive =>
    unsealed (Option.some.inj ((AList.lookup_insert _).symm.trans isLive) ▸ member)

theorem sealInstalled (holds : HoldsFiles fs files archived segment live) (sound : left.Sound)
    (touched : Touched fs left spare) (spared : spare ∉ segment.file :: files)
    (archiveName : left.table.lookup (.archive index) = some inode) (unsealed : inode ∉ files)
    (liveName : left.table.lookup .live = some spare) (file : installed.file = spare)
    (path : installed.path = .live) (writePos : installed.writePos = next.bytes.length)
    (genesis : installed.genesisEntries = next.genesisEntries)
    (nextFile : ∃ content, left.inodes spare = .settled content ∧ Padded next.bytes content)
    {after : Fs NodeFile} (table : after.table = left.table) (grown : after.fresh = left.fresh)
    (inodes : after.inodes = left.inodes ∨ after.inodes = Function.update left.inodes inode
      ((left.inodes inode).change (.setLen segment.writePos))) :
    HoldsFiles after (files ++ [segment.file]) (archived ++ [live]) installed next := by
  -- The archive's file is not the new one: the two have different names.
  have apart : spare ≠ inode := fun same => by
    have clash := sound.distinct archiveName (same ▸ liveName)
    simp at clash
  have elsewhere : ∀ other, other ≠ inode → after.inodes other = left.inodes other := by
    intro other isOther
    rcases inodes with same | cut
    · rw [same]
    · rw [cut]
      exact Function.update_of_ne isOther ..
  obtain ⟨content, settled, padded⟩ := holds.liveFile
  have keeps : (left.inodes segment.file).Keeps live.bytes := by
    rw [touched.inodes _ fun same => spared (same ▸ List.mem_cons_self ..), settled]
    exact .settled padded
  refine holds.sealLive ⟨?_, ?_⟩ (fun other member => ?_) ?_ ?_ path writePos genesis
    (file ▸ spared) (grown ▸ touched.grown) (by rw [table, file]; exact liveName)
  · rw [table]
    exact sound.distinct
  · rw [table, grown]
    exact sound.allocated
  · rw [elsewhere other fun same => unsealed (same ▸ member),
      touched.inodes other fun same => spared (same ▸ List.mem_cons_of_mem _ member)]
  · rcases inodes with same | cut
    · rw [same]
      exact keeps
    · by_cases isSealed : segment.file = inode
      · rw [cut, isSealed, Function.update_self, ← isSealed, holds.writePos]
        exact keeps.cut
      · rw [elsewhere _ isSealed]
        exact keeps
  · rw [file, elsewhere _ apart]
    exact nextFile

end HoldsFiles

theorem WrittenSegment.fresh_bytes (startingSequence : Nat) (anchorHash : Digest)
    (genesisEntries : Option Nat) (startFits : startingSequence < 2 ^ 64)
    (genesisFits : ∀ count ∈ genesisEntries, count < 2 ^ 64) :
    (fresh (E := E) startingSequence anchorHash genesisEntries startFits genesisFits).bytes
      = encodeFileHeader maxSectorSize startingSequence anchorHash genesisEntries := by
  simp [bytes, header, fresh, bytesOf]

/--
Whatever fails, a rotation seals the live segment and opens the next one, or changes nothing.

The names may be left in disorder by a failed one; the files are not.
-/
theorem HoldsFiles.rotate_always {fs : Fs NodeFile} {files : List Nat}
    {archived : List (WrittenSegment E)} {segment : SegmentFile} {live : WrittenSegment E}
    (holds : HoldsFiles fs files archived segment live) {prepared : Option PreparedSegment}
    (staged : ∀ ready ∈ prepared, Staged fs ready ∧ ready.file ∉ segment.file :: files)
    {startingSequence : Nat} (anchorHash : Digest) (startFits : startingSequence < 2 ^ 64) :
    (segment.rotate prepared startingSequence anchorHash).Always
      (RotationEnds files archived segment live
        (.fresh startingSequence anchorHash live.genesisEntries startFits live.genesisFits)) fs := by
  have spared : spareFile fs prepared ∉ segment.file :: files := by
    cases prepared with
    | some ready => exact (staged ready rfl).2
    | none => exact fun member => lt_irrefl _ (holds.allocated _ member)
  have rotates : segment.rotate prepared startingSequence anchorHash = (do
      let archived ← SegmentFile.archiveLive segment.path
      let installed ← Prog.recover (segment.install prepared startingSequence anchorHash) (fun err =>
        .step (.rename (.archive archived) segment.path)
          (fun _ => .step .syncDir (fun _ => .fail err) (fun _ => .fail err))
          (fun _ => .fail err))
      SegmentFile.syncDirQuietly
      SegmentFile.compactArchive archived segment.writePos
      return installed) := by
    cases prepared <;> rfl
  rw [rotates, SegmentFile.archiveLive, holds.path]
  refine Prog.always_bind (Prog.always_bind (Prog.always_look (Prog.always_ret
    (Prog.always_bind (Prog.always_perform (fun inode archivedFs step => ?_) (fun _ => holds)
      (fun _ _ => holds))))))
  have archivedSound := holds.sound.step step
  simp only [Fs.step] at step
  split at step
  · cases step
  rename_i liveName
  cases step
  have unsealed : inode ∉ files := fun member => holds.unnamed inode member liveName
  have archivedHolds := holds.archive archivedSound
  generalize nextArchiveIndex fs.table = index at *
  have free : ((fs.table.erase .live).insert (.archive index) inode).lookup .live = none :=
    (AList.lookup_insert_ne (by simp)).trans (AList.lookup_erase _ _)
  have stagedStill : ∀ ready ∈ prepared, Staged
      (fs.setTable ((fs.table.erase .live).insert (.archive index) inode)) ready := by
    intro ready isReady
    obtain ⟨⟨named, zeros⟩, -⟩ := staged ready isReady
    exact ⟨((AList.lookup_insert_ne (by simp)).trans (AList.lookup_erase_ne (by simp))).trans named,
      zeros⟩
  refine Prog.always_bind (Prog.always_recover (((SegmentFile.install_always holds.path free
    stagedStill startingSequence anchorHash).and (Prog.always_sound _ archivedSound)).imp
      fun left result ended => ?_))
  obtain ⟨ended, sound⟩ := ended
  cases result with
  | error err =>
    -- The archive is renamed back, if that works.
    have still := archivedHolds.touch ended sound spared
    have archiveName := (ended.archives index).trans (AList.lookup_insert _)
    refine Prog.always_step.mpr ⟨fun back restoredFs step => ?_, fun _ _ => still, fun _ _ => still⟩
    have restored := still.restore archiveName unsealed step
    refine Prog.always_step.mpr ⟨fun _ synced step => ?_, fun _ _ => restored, fun _ _ => restored⟩
    cases step
    exact restored.frame ⟨restored.sound.distinct, restored.sound.allocated⟩ (fun _ _ => rfl) le_rfl
      restored.unnamed
  | ok installed =>
    obtain ⟨touched, liveIs, fileEq, pathEq, writePosEq, genesisEq, nextFile⟩ := ended
    have archiveName := (touched.archives index).trans (AList.lookup_insert _)
    rw [holds.genesis, ← WrittenSegment.fresh_bytes (E := E) _ _ _ startFits live.genesisFits]
      at nextFile
    have width : installed.writePos = (WrittenSegment.fresh (E := E) startingSequence anchorHash
        live.genesisEntries startFits live.genesisFits).bytes.length := by
      rw [writePosEq, WrittenSegment.fresh_bytes]
      exact (encodeFileHeader_length (.inr rfl)).symm
    -- The directory is synced or is not, and the archive is cut or is not.
    have compacts : ∀ {synced : Fs NodeFile}, synced.table = left.table →
        synced.fresh = left.fresh → synced.inodes = left.inodes →
        Prog.Always (RotationEnds files archived segment live
          (.fresh startingSequence anchorHash live.genesisEntries startFits live.genesisFits))
          (do SegmentFile.compactArchive index segment.writePos; return installed) synced := by
      intro synced table grown inodes
      refine Prog.always_bind ((SegmentFile.compactArchive_always
        (by rw [table]; exact archiveName)).imp fun after result ended => ?_)
      obtain ⟨rfl, cut⟩ := ended
      refine archivedHolds.sealInstalled sound touched spared archiveName unsealed
        liveIs fileEq (pathEq.trans holds.path) width (genesisEq.trans holds.genesis) nextFile ?_ ?_ ?_
      · rcases cut with rfl | rfl <;> exact table
      · rcases cut with rfl | rfl <;> exact grown
      · rcases cut with rfl | rfl
        · exact .inl inodes
        · exact .inr (by rw [Fs.setInode, inodes])
    refine Prog.always_bind (Prog.always_step.mpr ⟨fun _ synced step => ?_,
      fun _ _ => compacts rfl rfl rfl, fun _ _ => compacts rfl rfl rfl⟩)
    cases step
    exact compacts rfl rfl rfl

end

end Melin
