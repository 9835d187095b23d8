import Melin.Lib.Crash
import Melin.Transport.SnapshotRecovery

/-! The snapshot on disk: how a save replaces it, and what a crash or a failure leaves of it. -/

namespace Melin

open Lib

abbrev SnapshotProg := Prog NodeFile SnapshotError

def snapshotIoError : FsError → SnapshotError
  | .notFound => .io ⟨.notFound, "No such file or directory (os error 2)"⟩
  | .alreadyExists => .io ⟨.alreadyExists, "File exists (os error 17)"⟩

def snapshotIo (op : FsOp NodeFile) : SnapshotProg Nat := .perform op snapshotIoError

def writebackChunk : Nat := 4 * 1024 * 1024

def openTmp : SnapshotProg Nat :=
  .look fun fs =>
    if (fs.table.lookup .snapshotTmp).isSome then do
      let file ← snapshotIo (.openFile .snapshotTmp)
      let _ ← snapshotIo (.change file (.setLen 0))
      return file
    else snapshotIo (.create .snapshotTmp)

def writeBounded (file chunk : Nat) : Nat → Nat → Bytes → SnapshotProg Unit
  | 0, _, _ => .ret ()
  | fuel + 1, offset, buf =>
    if buf = [] then .ret ()
    else do
      let piece := buf.take chunk
      let _ ← snapshotIo (.change file (.write offset piece))
      writeBounded file chunk fuel (offset + piece.length) (buf.drop chunk)

def stageSnapshot (bytes : Bytes) : SnapshotProg Unit := do
  let file ← openTmp
  writeBounded file writebackChunk bytes.length 0 bytes
  let _ ← snapshotIo (.sync file)

def publishSnapshot : SnapshotProg Unit := do
  let _ ← snapshotIo (.rename .snapshotTmp .snapshot)
  let _ ← snapshotIo .syncDir

/--
Keep the snapshot as the one before, and put the temporary file in its place.

A rotation that is refused or fails costs the one before, and not the save.
-/
def replaceSnapshot : SnapshotProg Unit :=
  .step (.rename .snapshot .snapshotPrev)
    (fun _ => do
      let _ ← snapshotIo .syncDir
      publishSnapshot)
    (fun _ => publishSnapshot)

section

variable {A E R : Type} [Application A E R] [Hashing]

def saveSnapshot (app : A) (journalSequence : Nat) (chainHash : Digest) (lineage : Lineage)
    (genesisEntries : Option Nat) (tickWatermark : TickWatermark) : SnapshotProg Nat :=
  match save app journalSequence chainHash lineage genesisEntries tickWatermark with
  | .error err => .fail err
  | .ok bytes => do
    stageSnapshot bytes
    replaceSnapshot
    return bytes.length

def loadSnapshot (A : Type) {E R : Type} [Application A E R] (fs : Fs NodeFile) :
    Except SnapshotError (A × SnapshotHeader) :=
  match fs.content .snapshot with
  | none => .error (snapshotIoError .notFound)
  | some bytes => load A bytes

end

def pieceCount (chunk length : Nat) : Nat := (length + chunk - 1) / chunk

def stagingSteps (fs : Fs NodeFile) (bytes : Bytes) : Nat :=
  (if (fs.table.lookup .snapshotTmp).isSome then 2 else 1)
    + (pieceCount writebackChunk bytes.length + 1)

/-- What the directories show at the snapshot path, by which of the last steps were taken. -/
def pathImages (took : Nat → Bool) (olds : List (Option Bytes)) (bytes : Bytes) :
    List (Option Bytes) :=
  if took 0 then
    if took 1 then
      if took 2 then if took 3 then [some bytes] else [some bytes, none]
      else [none]
    else none :: olds
  else if took 1 then if took 2 then [some bytes] else some bytes :: olds
  else olds

/--
A save was disturbed while no snapshot was at the path, or a crash takes it back to there.

The old one was renamed away, and the new one was not put in its place, or not for good.
-/
def LeftEmpty (fs : Fs NodeFile) (bytes : Bytes) (faults : List Fault) (steps lost : Nat) : Prop :=
  let took := fun index => Prog.took faults steps (stagingSteps fs bytes + index)
  (∀ index < stagingSteps fs bytes, Prog.took faults steps index = true) ∧ took 0 = true ∧
    if took 1 then took 2 = true → took 3 = false ∧ 0 < lost else lost = 0

def Published (fs : Fs NodeFile) (bytes : Bytes) (faults : List Fault) (steps : Nat) : Prop :=
  let took := fun index => Prog.took faults steps (stagingSteps fs bytes + index)
  (∀ index < stagingSteps fs bytes, Prog.took faults steps index = true) ∧
    if took 0 then took 1 = true ∧ took 2 = true else took 1 = true

section

variable {fs : Fs NodeFile} {file : Nat} {old bytes : Bytes}

theorem snapshotIo_straight {op : FsOp NodeFile} {after : Fs NodeFile} {answer : Nat}
    (step : fs.step op = .ok (answer, after)) : (snapshotIo op).Straight answer after 1 fs :=
  Prog.straight_perform step

theorem snapshotIo_runUntil {op : FsOp NodeFile} {after : Fs NodeFile} {answer : Nat}
    (quiet : ∀ count, fs.afterFailed op count = fs) (step : fs.step op = .ok (answer, after))
    {α : Type} (next : Nat → SnapshotProg α) (faults : List Fault) (steps : Nat) :
    (Prog.took faults steps 0 = true ∧ (snapshotIo op >>= next).runUntil faults steps fs
        = (next answer).runUntil (faults.drop 1) (steps - 1) after) ∨
      (Prog.took faults steps 0 = false ∧
        ((snapshotIo op >>= next).runUntil faults steps fs).1 = fs) :=
  Prog.runUntil_perform quiet step next faults steps

theorem pieceCount_eq {chunk : Nat} (positive : 0 < chunk) (length : Nat) :
    pieceCount chunk length = if length = 0 then 0 else 1 + pieceCount chunk (length - chunk) := by
  split
  · rename_i empty
    rw [empty, pieceCount]
    exact Nat.div_eq_of_lt (by omega)
  · rename_i some
    have first : length + chunk - 1 = length - 1 + chunk := by omega
    rw [pieceCount, pieceCount, first, Nat.add_div_right _ positive, Nat.add_comm 1]
    congr 1
    by_cases last : length ≤ chunk
    · rw [Nat.sub_eq_zero_of_le last, Nat.div_eq_of_lt (by omega), Nat.div_eq_of_lt (by omega)]
    · congr 1
      omega

theorem writeBounded_straight {chunk : Nat} (positive : 0 < chunk) (fuel : Nat) {done : Bytes}
    (buf : Bytes) (content : (fs.inodes file).content = done) (enough : buf.length ≤ fuel) :
    ∃ written : DurableFile, written.content = done ++ buf ∧
      (writeBounded file chunk fuel done.length buf).Straight () (fs.setInode file written)
        (pieceCount chunk buf.length) fs := by
  induction fuel generalizing fs done buf with
  | zero =>
    obtain rfl : buf = [] := List.length_eq_zero_iff.mp (by omega)
    refine ⟨fs.inodes file, by rw [content, List.append_nil], ?_⟩
    rw [pieceCount_eq positive, Fs.setInode_self]
    exact Prog.straight_ret () fs
  | succ fuel ih =>
    rw [pieceCount_eq positive, writeBounded]
    by_cases empty : buf = []
    · subst empty
      refine ⟨fs.inodes file, by rw [content, List.append_nil], ?_⟩
      rw [Fs.setInode_self]
      exact Prog.straight_ret () fs
    · have positive : buf.length ≠ 0 := fun none => empty (List.length_eq_zero_iff.mp none)
      rw [if_neg empty, if_neg positive]
      have put : (((fs.inodes file).change (.write done.length (buf.take chunk)))).content
          = done ++ buf.take chunk := by
        rw [DurableFile.content_change, content]
        simp [FileOp.apply, writeAt]
      obtain ⟨written, isContent, rest⟩ := @ih
        (fs.setInode file ((fs.inodes file).change (.write done.length (buf.take chunk))))
        (done ++ buf.take chunk) (buf.drop chunk) (by rw [Fs.inodes_setInode, put])
        (by rw [List.length_drop]; omega)
      rw [Fs.setInode_setInode, List.length_drop, List.length_append] at rest
      refine ⟨written, by rw [isContent, List.append_assoc, List.take_append_drop], ?_⟩
      exact Prog.straight_bind (snapshotIo_straight rfl) rest

structure Ready (old bytes : Bytes) (fs : Fs NodeFile) : Prop where
  stable : fs.Stable .snapshot (· = some old)
  staged : ∃ file, fs.table.lookup .snapshotTmp = some file ∧ fs.inodes file = .settled bytes

theorem openTmp_straight (stable : fs.Stable .snapshot (· = some old)) (allocated : fs.Allocated)
    (apart : ∀ inode, fs.table.lookup .snapshotTmp = some inode → fs.Apart .snapshot inode) :
    ∃ file opened, openTmp.Straight file opened
        (if (fs.table.lookup .snapshotTmp).isSome then 2 else 1) fs ∧
      opened.table.lookup .snapshotTmp = some file ∧ (opened.inodes file).content = [] ∧
      opened.Beside .snapshot (· = some old) file := by
  cases found : fs.table.lookup .snapshotTmp with
  | some inode =>
    have beside : fs.Beside .snapshot (· = some old) inode := ⟨stable, allocated, apart inode found⟩
    refine ⟨inode, fs.setInode inode ((fs.inodes inode).change (.setLen 0)), ?_, found, ?_,
      beside.setInode _⟩
    · show Prog.Straight _ _ _ (if (fs.table.lookup .snapshotTmp).isSome then _ else _) fs
      have opens : fs.step (.openFile .snapshotTmp) = .ok (inode, fs) := by simp [Fs.step, found]
      have cuts : fs.step (.change inode (.setLen 0)) = .ok (inode, _) := rfl
      rw [found, Option.isSome_some, if_pos rfl, if_pos rfl]
      show Prog.Straight _ _ (1 + 1) _ fs
      exact Prog.straight_bind (snapshotIo_straight opens)
        ((snapshotIo_straight cuts).returning inode)
    · rw [Fs.inodes_setInode, DurableFile.content_change]
      simp [FileOp.apply]
  | none =>
    have step : fs.step (.create .snapshotTmp) = .ok (fs.fresh,
        { (fs.setTable (fs.table.insert .snapshotTmp fs.fresh)).setInode fs.fresh (.settled [])
          with fresh := fs.fresh + 1 }) := by
      simp [Fs.step, found]
    obtain ⟨-, named, empty, beside⟩ := stable.create allocated (by decide) step
    refine ⟨fs.fresh, _, ?_, named, by rw [empty]; rfl, beside⟩
    show Prog.Straight _ _ _ (if (fs.table.lookup .snapshotTmp).isSome then _ else _) fs
    rw [found]
    exact Prog.straight_perform step

theorem openTmp_passes (stable : fs.Stable .snapshot (· = some old)) (allocated : fs.Allocated)
    (apart : ∀ inode, fs.table.lookup .snapshotTmp = some inode → fs.Apart .snapshot inode) :
    openTmp.Passes (·.Stable .snapshot (· = some old)) (fun after result => ∀ file,
      result = .ok file → after.Beside .snapshot (· = some old) file) fs := by
  show Prog.Passes _ _ (if (fs.table.lookup .snapshotTmp).isSome then _ else _) fs
  cases found : fs.table.lookup .snapshotTmp with
  | some inode =>
    have beside : fs.Beside .snapshot (· = some old) inode := ⟨stable, allocated, apart inode found⟩
    refine Prog.passes_bind (Prog.passes_step.mpr ⟨stable, fun answer after step => ?_,
      fun _ _ => ⟨stable, by simp⟩, fun _ _ => ⟨stable, by simp⟩⟩)
    simp only [Fs.step, found, Except.ok.injEq, Prod.mk.injEq] at step
    obtain ⟨rfl, rfl⟩ := step
    have cut := beside.setInode ((fs.inodes inode).change (.setLen 0))
    refine ⟨stable, Prog.passes_bind (Prog.passes_change stable ⟨cut.stable, cut.stable, ?_⟩
      fun _ count => ⟨((beside.touch (.inl ⟨_, rfl⟩)).2 count).stable, by simp⟩)⟩
    rintro file ⟨rfl⟩
    exact cut
  | none =>
    refine Prog.passes_step.mpr ⟨stable, fun answer after step => ?_, fun _ _ => ⟨stable, by simp⟩,
      fun _ _ => ⟨stable, by simp⟩⟩
    obtain ⟨rfl, -, -, beside⟩ := stable.create allocated (by decide) step
    refine ⟨beside.stable, ?_⟩
    rintro file ⟨rfl⟩
    exact beside

theorem stageSnapshot_straight (stable : fs.Stable .snapshot (· = some old))
    (allocated : fs.Allocated)
    (apart : ∀ inode, fs.table.lookup .snapshotTmp = some inode → fs.Apart .snapshot inode)
    (bytes : Bytes) :
    ∃ staged, (stageSnapshot bytes).Straight () staged (stagingSteps fs bytes) fs ∧
      Ready old bytes staged := by
  obtain ⟨file, opened, opens, named, empty, beside⟩ := openTmp_straight stable allocated apart
  obtain ⟨written, content, writes⟩ := writeBounded_straight
    (show 0 < writebackChunk by decide) bytes.length bytes empty le_rfl
  rw [List.nil_append] at content
  refine ⟨(opened.setInode file written).setInode file written.sync, ?_, ?_⟩
  · have syncs : (opened.setInode file written).step (.sync file)
        = .ok (file, (opened.setInode file written).setInode file written.sync) := by
      simp [Fs.step]
    exact Prog.straight_bind opens
      (Prog.straight_bind writes ((snapshotIo_straight syncs).returning ()))
  · refine ⟨((beside.setInode _).setInode _).stable, file, named, ?_⟩
    rw [Fs.inodes_setInode, DurableFile.sync, content]
    rfl

/-- Staging leaves the snapshot, wherever it is stopped and whatever fails. -/
theorem stageSnapshot_passes (stable : fs.Stable .snapshot (· = some old))
    (allocated : fs.Allocated)
    (apart : ∀ inode, fs.table.lookup .snapshotTmp = some inode → fs.Apart .snapshot inode)
    (bytes : Bytes) :
    (stageSnapshot bytes).Passes (·.Stable .snapshot (· = some old)) (fun _ _ => True) fs := by
  have only : ∀ file fuel offset buf, (writeBounded file writebackChunk fuel offset buf).Only
      (Fs.Touches file) fun _ => True := by
    intro file fuel
    induction fuel with
    | zero => exact fun _ _ => trivial
    | succ fuel ih =>
      intro offset buf
      rw [writeBounded]
      split
      · exact trivial
      · exact Prog.only_bind (Prog.only_perform (.inl ⟨_, rfl⟩)) fun _ _ => ih ..
  -- Once the temporary file is open, every step is on it.
  refine Prog.passes_bind ((openTmp_passes stable allocated apart).imp (fun _ kept => kept)
    fun opened result ended => ?_)
  cases result with
  | error err => exact trivial
  | ok file =>
    have written : (do
        writeBounded file writebackChunk bytes.length 0 bytes
        let _ ← snapshotIo (.sync file) : SnapshotProg Unit).Only (Fs.Touches file) fun _ => True :=
      Prog.only_bind (only ..) fun _ _ =>
        Prog.only_bind (Prog.only_perform (.inr rfl)) fun _ _ => trivial
    exact (written.passes (fun _ _ touched beside => beside.touch touched) (ended file rfl)
      (Prog.always_true ..)).imp (fun _ beside => beside.stable) fun _ _ _ => trivial

/-- The staged file is put at the snapshot path, and the directory's sync leaves nothing else. -/
theorem publishSnapshot_shows {images : List (Option Bytes)} (shows : fs.Shows .snapshot images)
    (named : fs.table.lookup .snapshotTmp = some file) (settled : fs.inodes file = .settled bytes)
    (faults : List Fault) (steps : Nat) :
    (publishSnapshot.runUntil faults steps fs).1.Shows .snapshot
      (if Prog.took faults steps 0 then
        if Prog.took faults steps 1 then [some bytes] else some bytes :: images
      else images) := by
  have renames : fs.step (.rename .snapshotTmp .snapshot) = .ok (file,
      fs.setTable ((fs.table.erase .snapshotTmp).insert .snapshot file)) := by
    simp [Fs.step, named]
  have leads : fs.Leads .snapshot (· = some bytes)
      ((fs.table.erase .snapshotTmp).insert .snapshot file) :=
    Fs.leads_of_lookup (AList.lookup_insert _) settled rfl
  have placed := shows.setTable leads
  rw [publishSnapshot]
  rcases snapshotIo_runUntil (fun _ => rfl) renames (fun _ => do let _ ← snapshotIo .syncDir) faults
    steps with ⟨taken, goes⟩ | ⟨not, stops⟩
  · rw [goes, taken, if_pos rfl, show 1 = 1 + 0 from rfl, Prog.took_add]
    rcases snapshotIo_runUntil (fun _ => rfl) (show Fs.step _ .syncDir = .ok _ from rfl)
      (fun _ => pure ()) (faults.drop 1) (steps - 1) with ⟨taken, goes⟩ | ⟨not, stops⟩
    · rw [goes, taken, if_pos rfl]
      exact placed.syncDir
    · rw [stops, not, if_neg Bool.false_ne_true]
      exact placed
  · rw [stops, not, if_neg Bool.false_ne_true]
    exact shows

theorem replaceSnapshot_shows (ready : Ready old bytes fs) (faults : List Fault) (steps : Nat) :
    (replaceSnapshot.runUntil faults steps fs).1.Shows .snapshot (pathImages
      (Prog.took faults steps) (List.replicate (fs.older.length + 1) (some old)) bytes) := by
  obtain ⟨stable, file, named, settled⟩ := ready
  have shows := stable.shows
  have leads := stable fs.table List.mem_cons_self
  obtain ⟨inode, found⟩ : ∃ inode, fs.table.lookup .snapshot = some inode := by
    cases found : fs.table.lookup .snapshot with
    | none =>
      rw [Fs.Leads, found] at leads
      cases leads
    | some inode => exact ⟨inode, rfl⟩
  have renames : fs.step (.rename .snapshot .snapshotPrev) = .ok (inode,
      fs.setTable ((fs.table.erase .snapshot).insert .snapshotPrev inode)) := by
    simp [Fs.step, found]
  have absent : fs.Leads .snapshot (· = none)
      ((fs.table.erase .snapshot).insert .snapshotPrev inode) := by
    rw [Fs.Leads, AList.lookup_insert_ne (by decide), AList.lookup_erase]
  have rotated := shows.setTable absent
  have tmp : ((fs.table.erase .snapshot).insert .snapshotPrev inode).lookup .snapshotTmp
      = some file := by
    rw [AList.lookup_insert_ne (by decide), AList.lookup_erase_ne (by decide), named]
  -- A step behind the rotation is counted from the rotation on.
  have second : ∀ index, Prog.took (faults.drop 1) (steps - 1) index
      = Prog.took faults steps (1 + index) := fun index => (Prog.took_add ..).symm
  have third : ∀ index, Prog.took ((faults.drop 1).drop 1) (steps - 1 - 1) index
      = Prog.took faults steps (1 + (1 + index)) := fun index =>
    (Prog.took_add ..).symm.trans (second _)
  rw [pathImages, replaceSnapshot]
  rcases Prog.runUntil_step renames faults steps with
    ⟨taken, goes⟩ | ⟨not, ⟨none, stops⟩ | ⟨err, count, -, fails⟩⟩
  · rw [goes, taken, if_pos rfl]
    rcases snapshotIo_runUntil (fun _ => rfl) (show Fs.step _ .syncDir = .ok _ from rfl)
      (fun _ => publishSnapshot) (faults.drop 1) (steps - 1) with ⟨taken, goes⟩ | ⟨not, stops⟩
    · rw [second] at taken
      rw [goes, taken, if_pos rfl]
      have published := publishSnapshot_shows rotated.syncDir tmp settled ((faults.drop 1).drop 1)
        (steps - 1 - 1)
      rwa [third, third] at published
    · rw [second] at not
      rw [stops, not, if_neg Bool.false_ne_true]
      exact rotated
  · have none : Prog.took faults steps 1 = false := by simp [Prog.took, none]
    rw [stops, not, none, if_neg Bool.false_ne_true, if_neg Bool.false_ne_true]
    exact shows
  · rw [fails, not, if_neg Bool.false_ne_true]
    have published := publishSnapshot_shows shows named settled (faults.drop 1) (steps - 1)
    rwa [second, second] at published

theorem pathImages_cases (took : Nat → Bool) (count : Nat) {lost : Nat} {image : Option Bytes}
    (shown : (pathImages took (List.replicate (count + 1) (some old)) bytes)[lost]? = some image) :
    (image = none ↔ took 0 = true ∧
        if took 1 then took 2 = true → took 3 = false ∧ 0 < lost else lost = 0) ∧
      (image = none ∨ image = some old ∨ image = some bytes) ∧
      (¬ (if took 0 then took 1 = true ∧ took 2 = true else took 1 = true) →
        image = none ∨ image = some old) := by
  have olds : ∀ {lost : Nat}, (List.replicate (count + 1) (some old))[lost]? = some image →
      image = some old := fun found => List.eq_of_mem_replicate (List.mem_of_getElem? found)
  rw [pathImages] at shown
  cases rotated : took 0 <;> cases second : took 1 <;> cases third : took 2 <;>
    cases fourth : took 3 <;> cases lost <;>
    simp only [rotated, second, third, fourth, if_true, Bool.false_eq_true, if_false,
      List.getElem?_cons_zero, List.getElem?_cons_succ, List.getElem?_nil, Option.some.injEq,
      reduceCtorEq] at shown ⊢ <;>
    grind

theorem saved_shows (stable : fs.Stable .snapshot (· = some old)) (allocated : fs.Allocated)
    (apart : ∀ inode, fs.table.lookup .snapshotTmp = some inode → fs.Apart .snapshot inode)
    (bytes : Bytes) (faults : List Fault) (steps : Nat) :
    ∃ images, ((do
          stageSnapshot bytes
          replaceSnapshot
          return bytes.length : SnapshotProg Nat).runUntil faults steps fs).1.Shows .snapshot images ∧
      ∀ lost image, images[lost]? = some image →
        (image = none ↔ LeftEmpty fs bytes faults steps lost) ∧
        (image = none ∨ image = some old ∨ image = some bytes) ∧
        (¬ Published fs bytes faults steps → image = none ∨ image = some old) := by
  obtain ⟨staged, stages, ready⟩ := stageSnapshot_straight stable allocated apart bytes
  rcases stages.runUntil_bind (fun _ => do replaceSnapshot; return bytes.length) faults steps with
    ⟨all, goes⟩ | ⟨⟨index, inside, not⟩, stops, -⟩
  · have shows := replaceSnapshot_shows ready (faults.drop (stagingSteps fs bytes))
      (steps - stagingSteps fs bytes)
    rw [← Prog.runUntil_returning replaceSnapshot bytes.length, ← goes] at shows
    refine ⟨_, shows, fun lost image shown => ?_⟩
    obtain ⟨empty, among, before⟩ := pathImages_cases _ _ shown
    simp only [← Prog.took_add] at empty before
    refine ⟨?_, among, fun unpublished => before fun published => unpublished ⟨all, published⟩⟩
    rw [empty, LeftEmpty, and_iff_right all]
  · -- Staging was not finished, and the old snapshot is in every directory.
    have kept := ((stageSnapshot_passes stable allocated apart bytes).runUntil faults steps).1
    rw [← stops] at kept
    have missed : ¬ ∀ index < stagingSteps fs bytes, Prog.took faults steps index = true :=
      fun all => Bool.false_ne_true (not.symm.trans (all index inside))
    refine ⟨_, kept.shows, fun lost image shown => ?_⟩
    obtain rfl := List.eq_of_mem_replicate (List.mem_of_getElem? shown)
    exact ⟨⟨nofun, fun empty => absurd empty.1 missed⟩, .inr (.inl rfl), fun _ => .inr rfl⟩

end

section

variable {A E R : Type} [Application A E R] [Hashing]

theorem loadSnapshot_eq {fs : Fs NodeFile} {image : Option Bytes}
    (content : fs.content .snapshot = image) :
    loadSnapshot A fs = (image.map (load A)).getD (.error (snapshotIoError .notFound)) := by
  rw [loadSnapshot, content]
  cases image <;> rfl

/--
A disturbed save leaves the old snapshot or the new one at the path, but for one stretch of it.

From the rename of the old snapshot until the new one is there for good, a crash or a failure may
leave the path without any, and does so exactly as the condition says. The first part is about a crash
behind any step, the second about a save that was not followed by one, and the third about a save
that did not come to put the new snapshot in place, behind which it is the old one.
-/
theorem snapshot_save_atomic_iff [LawfulApplication A] {fs : Fs NodeFile} {old : Bytes}
    {loaded : A × SnapshotHeader} (valid : load A old = .ok loaded)
    (stable : fs.Stable .snapshot (· = some old)) (allocated : fs.Allocated)
    (apart : ∀ inode, fs.table.lookup .snapshotTmp = some inode → fs.Apart .snapshot inode)
    (app : A) {sequence : Nat} (chainHash : Digest) {lineage : Lineage}
    {genesisEntries : Option Nat} (tickWatermark : TickWatermark)
    (inRange : SnapshotInRange sequence lineage genesisEntries) (faults : List Fault) (steps : Nat) :
    let saving := save app sequence chainHash lineage genesisEntries tickWatermark
    let saved : A × SnapshotHeader := (app,
      { appVersion := (Application.appVersion A).toNat, sequence, chainHash, lineage
        genesisEntries, tickWatermark := some tickWatermark, len := headerSizeV5 })
    let left := ((saveSnapshot app sequence chainHash lineage genesisEntries
      tickWatermark).runUntil faults steps fs).1
    (∀ lost after, left.Crashes lost after →
      ((loadSnapshot A after = .ok loaded ∨ loadSnapshot A after = .ok saved) ↔
        ∀ bytes, saving = .ok bytes → ¬ LeftEmpty fs bytes faults steps lost)) ∧
    ((loadSnapshot A left = .ok loaded ∨ loadSnapshot A left = .ok saved) ↔
      ∀ bytes, saving = .ok bytes → ¬ LeftEmpty fs bytes faults steps 0) ∧
    ((∀ bytes, saving = .ok bytes → ¬ Published fs bytes faults steps) →
      (loadSnapshot A left = .ok loaded ↔
        ∀ bytes, saving = .ok bytes → ¬ LeftEmpty fs bytes faults steps 0)) := by
  intro saving saved left
  cases isSaving : saving with
  | error err =>
    -- A save that is refused touches no file.
    have same : left = fs := by
      simp only [left, saveSnapshot]
      rw [show save app sequence chainHash lineage genesisEntries tickWatermark = _ from isSaving]
      rfl
    have loads : ∀ {seen : Fs NodeFile}, seen.Stable .snapshot (· = some old) →
        loadSnapshot A seen = .ok loaded := fun stable => by
      rw [loadSnapshot_eq stable.content]
      exact valid
    rw [same]
    exact ⟨fun lost after crashes => ⟨fun _ => nofun, fun _ => .inl (loads (stable.crashes crashes))⟩,
      ⟨fun _ => nofun, fun _ => .inl (loads stable)⟩, fun _ => ⟨fun _ => nofun, fun _ => loads stable⟩⟩
  | ok bytes =>
    have isLeft : left = ((do
        stageSnapshot bytes
        replaceSnapshot
        return bytes.length : SnapshotProg Nat).runUntil faults steps fs).1 := by
      simp only [left, saveSnapshot]
      rw [show save app sequence chainHash lineage genesisEntries tickWatermark = _ from isSaving]
    obtain ⟨images, shows, cases⟩ := saved_shows stable allocated apart bytes faults steps
    rw [← isLeft] at shows
    have new : load A bytes = .ok saved := load_save inRange isSaving
    have single : ∀ P : Bytes → Prop, (∀ other, (.ok bytes : Except SnapshotError Bytes) = .ok other →
        ¬ P other) ↔ ¬ P bytes := fun P =>
      ⟨fun none => none bytes rfl, fun none other same => Except.ok.inj same ▸ none⟩
    -- What is loaded is what the directory shows, and that is one of three.
    have loads : ∀ {seen : Fs NodeFile} {lost : Nat}, images[lost]? = some (seen.content .snapshot) →
        ((loadSnapshot A seen = .ok loaded ∨ loadSnapshot A seen = .ok saved) ↔
          ¬ LeftEmpty fs bytes faults steps lost) ∧
        (¬ Published fs bytes faults steps →
          (loadSnapshot A seen = .ok loaded ↔ ¬ LeftEmpty fs bytes faults steps lost)) := by
      intro seen lost shown
      obtain ⟨empty, among, before⟩ := cases lost _ shown
      rw [← empty, loadSnapshot_eq rfl]
      cases isImage : seen.content .snapshot with
      | none => simp
      | some image =>
        rw [isImage] at among before
        simp only [Option.map_some, Option.getD_some, reduceCtorEq, not_false_eq_true, iff_true]
        refine ⟨?_, fun unpublished => ?_⟩
        · rcases among with none | isOld | isNew
          · cases none
          · exact .inl (Option.some.inj isOld ▸ valid)
          · exact .inr (Option.some.inj isNew ▸ new)
        · rcases before unpublished with none | isOld
          · cases none
          · exact Option.some.inj isOld ▸ valid
    simp only [single]
    exact ⟨fun lost after crashes => (loads (shows.crashes crashes)).1, (loads shows.content).1,
      (loads shows.content).2⟩

end

def sampleSave : SnapshotProg Nat := saveSnapshot (⟨9⟩ : Counter) 2 .zero .genesis (some 0) .genesis

theorem sampleFs_stable : sampleFs.Stable .snapshot (· = some sampleSnapshot) := by
  intro table member
  rw [List.mem_singleton.mp member]
  exact ⟨sampleSnapshot, rfl, rfl⟩

theorem sampleFs_allocated : sampleFs.Allocated := by
  intro table member name inode found
  rw [List.mem_singleton.mp member] at found
  have listed := AList.mem_lookup_iff.mp found
  change (⟨name, inode⟩ : Sigma fun _ : NodeFile => Nat) ∈
    [⟨.snapshot, 2⟩, ⟨.live, 1⟩, ⟨.archive 1, 0⟩] at listed
  simp only [List.mem_cons, Sigma.mk.injEq, heq_eq_eq, List.not_mem_nil, or_false] at listed
  show inode < 3
  omega

theorem sampleSnapshot_valid : ∃ header, load Counter sampleSnapshot = .ok (sampleState.app, header) := by
  have inRange : SnapshotInRange 1 sampleState.lineage (some 0) :=
    ⟨by decide, by decide +kernel, by decide⟩
  exact ⟨_, load_save inRange save_sampleState⟩

/-- A save that nothing disturbs is loaded. -/
theorem snapshot_save_atomic_undisturbed :
    ∃ loaded, loadSnapshot Counter (sampleSave.runUntil [] 7 sampleFs).1 = .ok loaded := by
  obtain ⟨header, valid⟩ := sampleSnapshot_valid
  have inRange : SnapshotInRange 2 .genesis (some 0) := ⟨by decide, nofun, by decide⟩
  obtain ⟨-, loads, -⟩ := snapshot_save_atomic_iff valid sampleFs_stable
    sampleFs_allocated nofun (⟨9⟩ : Counter) .zero .genesis inRange [] 7
  refine (loads.mpr fun bytes saving empty => ?_).elim (fun loaded => ⟨_, loaded⟩)
    fun saved => ⟨_, saved⟩
  -- The file is opened, written in one piece, and synced: the last step is the one numbered 6.
  have staging : (save (⟨9⟩ : Counter) 2 .zero .genesis (some 0) .genesis).toOption.map
      (stagingSteps sampleFs) = some 3 := by decide +kernel
  rw [saving] at staging
  rw [LeftEmpty, Option.some.inj staging] at empty
  exact absurd empty.2.2 (by decide)

/--
The old snapshot is gone from the path while the new one is not there yet.

A save that fails to sync the directory in between reports an error, and neither is at the path; nor
is it behind a crash there.
-/
theorem snapshot_save_leaves_nothing :
    (∃ loaded, loadSnapshot Counter sampleFs = .ok loaded) ∧
      (sampleSave.runUntil (List.replicate 4 .works ++ [.fails .notFound 0]) 7 sampleFs).2
        = some (.error (snapshotIoError .notFound)) ∧
      loadSnapshot Counter
        (sampleSave.runUntil (List.replicate 4 .works ++ [.fails .notFound 0]) 7 sampleFs).1
        = .error (snapshotIoError .notFound) ∧
      ∃ after, (sampleSave.runUntil [] 4 sampleFs).1.Crashes 0 after ∧
        loadSnapshot Counter after = .error (snapshotIoError .notFound) := by
  obtain ⟨header, valid⟩ := sampleSnapshot_valid
  have loaded : loadSnapshot Counter sampleFs = .ok (sampleState.app, header) := by
    rw [loadSnapshot_eq sampleFs_stable.content, Option.map_some, Option.getD_some, valid]
  refine ⟨⟨_, loaded⟩, by decide +kernel, by decide +kernel, ?_⟩
  exact ⟨_, Fs.crashes_rebooted _, by decide +kernel⟩

end Melin
