import Melin.Lib.Bytes

/-!
A file system with crashes: what processes see, what is on disk, and programs of its steps.

A file is what its last sync left and the changes since; a directory is its table and the tables it
had since its own last sync.
-/

namespace Lib

def writeAt (content : Bytes) (offset : Nat) (bytes : Bytes) : Bytes :=
  content.take offset ++ List.replicate (offset - content.length) 0 ++ bytes
    ++ content.drop (offset + bytes.length)

inductive FileOp where
  | write (offset : Nat) (bytes : Bytes)
  /-- Cut the file, or extend it with zeros. -/
  | setLen (length : Nat)
  /-- Reserve space; a file that was shorter is extended with zeros. -/
  | allocate (length : Nat)

def FileOp.apply (content : Bytes) : FileOp → Bytes
  | .write offset bytes => writeAt content offset bytes
  | .setLen length => content.take length ++ List.replicate (length - content.length) 0
  | .allocate length => content ++ List.replicate (length - content.length) 0

def Padded (bytes content : Bytes) : Prop := ∃ zeros, content = bytes ++ List.replicate zeros 0

theorem Padded.refl (bytes : Bytes) : Padded bytes bytes := ⟨0, by simp⟩

variable {bytes : Bytes}

theorem Padded.allocate {content : Bytes} (padded : Padded bytes content) (length : Nat) :
    Padded bytes (FileOp.apply content (.allocate length)) := by
  obtain ⟨zeros, rfl⟩ := padded
  refine ⟨zeros + (length - (bytes ++ List.replicate zeros 0).length), ?_⟩
  rw [FileOp.apply, List.append_assoc, List.replicate_append_replicate]

theorem Padded.write {content : Bytes} (padded : Padded bytes content) (more : Bytes) :
    Padded (bytes ++ more) (FileOp.apply content (.write bytes.length more)) := by
  obtain ⟨zeros, rfl⟩ := padded
  refine ⟨zeros - more.length, ?_⟩
  simp [FileOp.apply, writeAt, List.drop_append]

theorem Padded.setLen {content : Bytes} (padded : Padded bytes content) :
    FileOp.apply content (.setLen bytes.length) = bytes := by
  obtain ⟨zeros, rfl⟩ := padded
  simp [FileOp.apply]

/-- A file: its content at the last sync, and the changes since. -/
structure DurableFile where
  synced : Bytes
  pending : List FileOp

namespace DurableFile

def content (file : DurableFile) : Bytes := file.pending.foldl FileOp.apply file.synced

def change (file : DurableFile) (op : FileOp) : DurableFile :=
  { file with pending := file.pending ++ [op] }

def sync (file : DurableFile) : DurableFile := { synced := file.content, pending := [] }

def settled (content : Bytes) : DurableFile := { synced := content, pending := [] }

@[simp] theorem content_settled (content : Bytes) : (settled content).content = content := rfl

@[simp] theorem content_change (file : DurableFile) (op : FileOp) :
    (file.change op).content = op.apply file.content := by
  simp [content, change, List.foldl_append]

@[simp] theorem content_sync (file : DurableFile) : file.sync.content = file.content := rfl

/-- The file holds the bytes and zeros, and so it does whichever of its changes reach the disk. -/
structure Keeps (file : DurableFile) (bytes : Bytes) : Prop where
  synced : Padded bytes file.synced
  pending : ∀ op ∈ file.pending, op = .setLen bytes.length

variable {bytes : Bytes}

theorem Keeps.settled {content : Bytes} (padded : Padded bytes content) :
    (settled content).Keeps bytes := ⟨padded, by simp [DurableFile.settled]⟩

theorem Keeps.cut {file : DurableFile} (keeps : file.Keeps bytes) :
    (file.change (.setLen bytes.length)).Keeps bytes := by
  refine ⟨keeps.synced, fun op member => ?_⟩
  rcases List.mem_append.mp member with before | last
  · exact keeps.pending op before
  · exact List.mem_singleton.mp last

theorem Keeps.foldl {content : Bytes} {ops : List FileOp} (padded : Padded bytes content)
    (cuts : ∀ op ∈ ops, op = .setLen bytes.length) :
    Padded bytes (ops.foldl FileOp.apply content) := by
  induction ops generalizing content with
  | nil => exact padded
  | cons op ops ih =>
    obtain ⟨rfl, later⟩ := List.forall_mem_cons.mp cuts
    refine ih ?_ later
    rw [padded.setLen]
    exact .refl bytes

theorem Keeps.content {file : DurableFile} (keeps : file.Keeps bytes) :
    Padded bytes file.content := Keeps.foldl keeps.synced keeps.pending

end DurableFile

abbrev Table (N : Type) := AList (fun _ : N => Nat)

structure Fs (N : Type) where
  /-- The directory as processes see it. -/
  table : Table N
  /-- The directories before it that may still be the one on disk. -/
  older : List (Table N)
  inodes : Nat → DurableFile
  /-- The next inode to be handed out. -/
  fresh : Nat

/-- Why a step of the file system is refused. -/
inductive FsError where
  | notFound
  | alreadyExists
  deriving DecidableEq, Repr

inductive FsOp (N : Type) where
  | create (name : N)
  | openFile (name : N)
  | rename (source target : N)
  | remove (name : N)
  | change (inode : Nat) (op : FileOp)
  | sync (inode : Nat)
  | syncDir

namespace Fs

variable {N : Type}

def setTable (fs : Fs N) (table : Table N) : Fs N :=
  { fs with table, older := fs.table :: fs.older }

def setInode (fs : Fs N) (inode : Nat) (file : DurableFile) : Fs N :=
  { fs with inodes := Function.update fs.inodes inode file }

@[simp] theorem inodes_setInode (fs : Fs N) (inode : Nat) (file : DurableFile) :
    (fs.setInode inode file).inodes inode = file := Function.update_self ..

@[simp] theorem setInode_setInode (fs : Fs N) (inode : Nat) (before after : DurableFile) :
    (fs.setInode inode before).setInode inode after = fs.setInode inode after := by
  simp [setInode]

@[simp] theorem setInode_self (fs : Fs N) (inode : Nat) : fs.setInode inode (fs.inodes inode) = fs := by
  simp [setInode]

variable [DecidableEq N]

def step (fs : Fs N) : FsOp N → Except FsError (Nat × Fs N)
  | .create name =>
    if (fs.table.lookup name).isSome then .error .alreadyExists
    else
      .ok (fs.fresh, { (fs.setTable (fs.table.insert name fs.fresh)).setInode fs.fresh
        (.settled []) with fresh := fs.fresh + 1 })
  | .openFile name =>
    match fs.table.lookup name with
    | none => .error .notFound
    | some inode => .ok (inode, fs)
  | .rename source target =>
    match fs.table.lookup source with
    | none => .error .notFound
    | some inode => .ok (inode, fs.setTable ((fs.table.erase source).insert target inode))
  | .remove name =>
    match fs.table.lookup name with
    | none => .error .notFound
    | some inode => .ok (inode, fs.setTable (fs.table.erase name))
  | .change inode op => .ok (inode, fs.setInode inode ((fs.inodes inode).change op))
  | .sync inode => .ok (inode, fs.setInode inode (fs.inodes inode).sync)
  | .syncDir => .ok (0, { fs with older := [] })

/-- Every name has a file of its own, and no file is handed out again. -/
structure Sound (fs : Fs N) : Prop where
  distinct : ∀ {one other : N} {inode : Nat}, fs.table.lookup one = some inode →
    fs.table.lookup other = some inode → one = other
  allocated : ∀ {name : N} {inode : Nat}, fs.table.lookup name = some inode → inode < fs.fresh

theorem Sound.step {fs after : Fs N} (sound : fs.Sound) {op : FsOp N} {answer : Nat}
    (taken : fs.step op = .ok (answer, after)) : after.Sound := by
  -- A name taken away changes no other; a name put in place has a file no other name has.
  have erased : ∀ {name other : N} {inode : Nat},
      (fs.table.erase name).lookup other = some inode →
      other ≠ name ∧ fs.table.lookup other = some inode := by
    intro name other inode found
    by_cases same : other = name
    · rw [same, AList.lookup_erase] at found
      cases found
    · exact ⟨same, by rwa [AList.lookup_erase_ne same] at found⟩
  cases op with
  | create name =>
    simp only [Fs.step] at taken
    split at taken
    · simp at taken
    · obtain ⟨-, rfl⟩ := Prod.mk.inj (Except.ok.inj taken)
      have fresh : ∀ {other : N} {inode : Nat},
          (fs.table.insert name fs.fresh).lookup other = some inode →
          (other = name ∧ inode = fs.fresh) ∨ (fs.table.lookup other = some inode) := by
        intro other inode found
        by_cases same : other = name
        · subst same
          rw [AList.lookup_insert, Option.some.injEq] at found
          exact .inl ⟨rfl, found.symm⟩
        · rw [AList.lookup_insert_ne same] at found
          exact .inr found
      refine ⟨fun {one other inode} oneIs otherIs => ?_, fun {other inode} found => ?_⟩
      · rcases fresh oneIs with ⟨rfl, rfl⟩ | oneOld <;> rcases fresh otherIs with ⟨rfl, isFresh⟩ | otherOld
        · rfl
        · exact absurd (sound.allocated otherOld) (lt_irrefl _)
        · exact absurd (isFresh ▸ sound.allocated oneOld) (lt_irrefl _)
        · exact sound.distinct oneOld otherOld
      · rcases fresh found with ⟨-, rfl⟩ | old
        · exact Nat.lt_succ_self _
        · exact Nat.lt_succ_of_lt (sound.allocated old)
  | openFile name =>
    simp only [Fs.step] at taken
    split at taken
    · simp at taken
    · obtain ⟨-, rfl⟩ := Prod.mk.inj (Except.ok.inj taken)
      exact sound
  | rename source target =>
    simp only [Fs.step] at taken
    split at taken
    · simp at taken
    · rename_i moved found
      obtain ⟨-, rfl⟩ := Prod.mk.inj (Except.ok.inj taken)
      have renamed : ∀ {other : N} {inode : Nat},
          ((fs.table.erase source).insert target moved).lookup other = some inode →
          (other = target ∧ inode = moved) ∨
            (other ≠ source ∧ fs.table.lookup other = some inode) := by
        intro other inode found
        by_cases same : other = target
        · subst same
          rw [AList.lookup_insert, Option.some.injEq] at found
          exact .inl ⟨rfl, found.symm⟩
        · rw [AList.lookup_insert_ne same] at found
          exact .inr (erased found)
      refine ⟨fun {one other inode} oneIs otherIs => ?_, fun {other inode} isThere => ?_⟩
      · rcases renamed oneIs with ⟨rfl, rfl⟩ | ⟨oneMoved, oneOld⟩ <;>
          rcases renamed otherIs with ⟨rfl, isMoved⟩ | ⟨otherMoved, otherOld⟩
        · rfl
        · exact absurd (sound.distinct otherOld found) otherMoved
        · exact absurd (sound.distinct oneOld (isMoved ▸ found)) oneMoved
        · exact sound.distinct oneOld otherOld
      · rcases renamed isThere with ⟨-, rfl⟩ | ⟨-, old⟩
        · exact sound.allocated found
        · exact sound.allocated old
  | remove name =>
    simp only [Fs.step] at taken
    split at taken
    · simp at taken
    · obtain ⟨-, rfl⟩ := Prod.mk.inj (Except.ok.inj taken)
      exact ⟨fun oneIs otherIs => sound.distinct (erased oneIs).2 (erased otherIs).2,
        fun found => sound.allocated (erased found).2⟩
  | change inode op =>
    obtain ⟨-, rfl⟩ := Prod.mk.inj (Except.ok.inj taken)
    exact ⟨sound.distinct, sound.allocated⟩
  | sync inode =>
    obtain ⟨-, rfl⟩ := Prod.mk.inj (Except.ok.inj taken)
    exact ⟨sound.distinct, sound.allocated⟩
  | syncDir =>
    obtain ⟨-, rfl⟩ := Prod.mk.inj (Except.ok.inj taken)
    exact ⟨sound.distinct, sound.allocated⟩

def file (fs : Fs N) (name : N) : Option DurableFile := (fs.table.lookup name).map fs.inodes

def content (fs : Fs N) (name : N) : Option Bytes := (fs.file name).map (·.content)

end Fs

inductive Prog (N ε α : Type) where
  | ret (value : α)
  | fail (err : ε)
  /-- Look at the file system, which changes nothing. -/
  | look (next : Fs N → Prog N ε α)
  /-- Take a step, and go on with its answer or with the reason it was refused. -/
  | step (op : FsOp N) (ok : Nat → Prog N ε α) (refused : FsError → Prog N ε α)

namespace Prog

variable {N ε α β : Type}

def bind : Prog N ε α → (α → Prog N ε β) → Prog N ε β
  | .ret value, next => next value
  | .fail err, _ => .fail err
  | .look seen, next => .look fun fs => (seen fs).bind next
  | .step op ok refused, next =>
    .step op (fun answer => (ok answer).bind next) (fun err => (refused err).bind next)

instance : Monad (Prog N ε) where
  pure := .ret
  bind := .bind

def recover : Prog N ε α → (ε → Prog N ε α) → Prog N ε α
  | .ret value, _ => .ret value
  | .fail err, handler => handler err
  | .look seen, handler => .look fun fs => (seen fs).recover handler
  | .step op ok refused, handler =>
    .step op (fun answer => (ok answer).recover handler) (fun err => (refused err).recover handler)

def mapError {δ : Type} (convert : ε → δ) : Prog N ε α → Prog N δ α
  | .ret value => .ret value
  | .fail err => .fail (convert err)
  | .look seen => .look fun fs => (seen fs).mapError convert
  | .step op ok refused =>
    .step op (fun answer => (ok answer).mapError convert)
      (fun err => (refused err).mapError convert)

variable [DecidableEq N]

def run : Prog N ε α → Fs N → Fs N × Except ε α
  | .ret value, fs => (fs, .ok value)
  | .fail err, fs => (fs, .error err)
  | .look next, fs => (next fs).run fs
  | .step op ok refused, fs =>
    match fs.step op with
    | .ok (answer, fs) => (ok answer).run fs
    | .error err => (refused err).run fs

def perform (op : FsOp N) (lift : FsError → ε) : Prog N ε Nat :=
  .step op .ret fun err => .fail (lift err)

@[simp] theorem run_pure (value : α) (fs : Fs N) :
    (Pure.pure value : Prog N ε α).run fs = (fs, .ok value) := rfl

theorem run_perform (op : FsOp N) (lift : FsError → ε) (fs : Fs N) :
    (perform op lift).run fs =
      match fs.step op with
      | .ok (answer, fs) => (fs, .ok answer)
      | .error err => (fs, .error (lift err)) := by
  simp only [perform, run]

@[simp] theorem run_perform_change (inode : Nat) (op : FileOp) (lift : FsError → ε) (fs : Fs N) :
    (perform (.change inode op) lift).run fs
      = (fs.setInode inode ((fs.inodes inode).change op), .ok inode) := rfl

@[simp] theorem run_perform_sync (inode : Nat) (lift : FsError → ε) (fs : Fs N) :
    (perform (.sync inode) lift).run fs
      = (fs.setInode inode (fs.inodes inode).sync, .ok inode) := rfl

theorem run_mapError {δ : Type} (convert : ε → δ) (prog : Prog N ε α) (fs : Fs N) :
    (prog.mapError convert).run fs = ((prog.run fs).1, (prog.run fs).2.mapError convert) := by
  induction prog generalizing fs with
  | ret value => rfl
  | fail err => rfl
  | look next ih => exact ih fs fs
  | step op ok refused ihOk ihRefused =>
    simp only [mapError, run]
    cases fs.step op with
    | ok answered => exact ihOk answered.1 answered.2
    | error err => exact ihRefused err fs

theorem run_bind (first : Prog N ε α) (second : α → Prog N ε β) (fs : Fs N) :
    (first >>= second).run fs =
      match first.run fs with
      | (fs, .ok value) => (second value).run fs
      | (fs, .error err) => (fs, .error err) := by
  show (first.bind second).run fs = _
  induction first generalizing fs with
  | ret value => rfl
  | fail err => rfl
  | look next ih => exact ih fs fs
  | step op ok refused ihOk ihRefused =>
    simp only [bind, run]
    cases fs.step op with
    | ok answered => exact ihOk answered.1 answered.2
    | error err => exact ihRefused err fs

theorem run_recover (prog : Prog N ε α) (handler : ε → Prog N ε α) (fs : Fs N) :
    (prog.recover handler).run fs =
      match prog.run fs with
      | (fs, .ok value) => (fs, .ok value)
      | (fs, .error err) => (handler err).run fs := by
  induction prog generalizing fs with
  | ret value => rfl
  | fail err => rfl
  | look next ih => exact ih fs fs
  | step op ok refused ihOk ihRefused =>
    simp only [recover, run]
    cases fs.step op with
    | ok answered => exact ihOk answered.1 answered.2
    | error err => exact ihRefused err fs

theorem sound_run (prog : Prog N ε α) {fs : Fs N} (sound : fs.Sound) : (prog.run fs).1.Sound := by
  induction prog generalizing fs with
  | ret value => exact sound
  | fail err => exact sound
  | look next ih => exact ih fs sound
  | step op ok refused ihOk ihRefused =>
    simp only [run]
    cases taken : fs.step op with
    | ok answered => exact ihOk answered.1 (sound.step taken)
    | error err => exact ihRefused err sound

end Prog

end Lib
