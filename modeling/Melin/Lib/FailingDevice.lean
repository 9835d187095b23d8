import Melin.Lib.FileSystem

/-! Programs of file system steps on a device that may fail any of them. -/

namespace Lib

inductive Fault where
  | works
  /-- The step fails, after the first `landed` bytes of a write, or after another change if any. -/
  | fails (err : FsError) (landed : Nat)

def FileOp.landed (count : Nat) : FileOp → Option FileOp
  | .write offset bytes => if count = 0 then none else some (.write offset (bytes.take count))
  | .setLen length => if count = 0 then none else some (.setLen length)
  | .allocate length => if count = 0 then none else some (.allocate length)

namespace Fs

variable {N : Type}

def afterFailed (fs : Fs N) (op : FsOp N) (count : Nat) : Fs N :=
  match op with
  | .change inode change =>
    match change.landed count with
    | none => fs
    | some done => fs.setInode inode ((fs.inodes inode).change done)
  | .create _ | .openFile _ | .rename _ _ | .remove _ | .sync _ | .syncDir => fs

@[simp] theorem table_afterFailed (fs : Fs N) (op : FsOp N) (count : Nat) :
    (fs.afterFailed op count).table = fs.table := by
  cases op with
  | change inode change =>
    simp only [afterFailed]
    cases change.landed count <;> rfl
  | create | openFile | rename | remove | sync | syncDir => rfl

@[simp] theorem fresh_afterFailed (fs : Fs N) (op : FsOp N) (count : Nat) :
    (fs.afterFailed op count).fresh = fs.fresh := by
  cases op with
  | change inode change =>
    simp only [afterFailed]
    cases change.landed count <;> rfl
  | create | openFile | rename | remove | sync | syncDir => rfl

theorem inodes_afterFailed (fs : Fs N) {op : FsOp N} (count : Nat) {other : Nat}
    (apart : ∀ inode change, op = .change inode change → other ≠ inode) :
    (fs.afterFailed op count).inodes other = fs.inodes other := by
  cases op with
  | change inode change =>
    simp only [afterFailed]
    cases change.landed count with
    | none => rfl
    | some done => exact Function.update_of_ne (apart inode change rfl) ..
  | create | openFile | rename | remove | sync | syncDir => rfl

theorem Sound.afterFailed [DecidableEq N] {fs : Fs N} (sound : fs.Sound) (op : FsOp N)
    (count : Nat) : (fs.afterFailed op count).Sound := by
  refine ⟨fun {one other inode} oneIs otherIs => ?_, fun {name inode} found => ?_⟩
  · rw [table_afterFailed] at oneIs otherIs
    exact sound.distinct oneIs otherIs
  · rw [table_afterFailed] at found
    rw [fresh_afterFailed]
    exact sound.allocated found

end Fs

namespace Prog

variable {N ε α β : Type} [DecidableEq N]

/-- Run a program on a device that does with its steps, in order, what it is told to. -/
@[simp]
def runFailing : Prog N ε α → List Fault → Fs N → Fs N × Except ε α
  | .ret value, _, fs => (fs, .ok value)
  | .fail err, _, fs => (fs, .error err)
  | .look next, faults, fs => (next fs).runFailing faults fs
  | .step op _ refused, .fails err count :: faults, fs =>
    (refused err).runFailing faults (fs.afterFailed op count)
  | .step op ok refused, faults, fs =>
    match fs.step op with
    | .ok (answer, after) => (ok answer).runFailing faults.tail after
    | .error err => (refused err).runFailing faults.tail fs

/-- However its steps fare, the program ends so. -/
@[simp]
def Always (post : Fs N → Except ε α → Prop) : Prog N ε α → Fs N → Prop
  | .ret value, fs => post fs (.ok value)
  | .fail err, fs => post fs (.error err)
  | .look next, fs => (next fs).Always post fs
  | .step op ok refused, fs =>
    (match fs.step op with
      | .ok (answer, after) => (ok answer).Always post after
      | .error err => (refused err).Always post fs) ∧
    ∀ err count, (refused err).Always post (fs.afterFailed op count)

variable {post : Fs N → Except ε α → Prop} {fs : Fs N} {prog : Prog N ε α} {lift : FsError → ε}

theorem always_step {op : FsOp N} {ok : Nat → Prog N ε α} {refused : FsError → Prog N ε α} :
    (Prog.step op ok refused).Always post fs ↔
      (∀ answer after, fs.step op = .ok (answer, after) → (ok answer).Always post after) ∧
      (∀ err, fs.step op = .error err → (refused err).Always post fs) ∧
      ∀ err count, (refused err).Always post (fs.afterFailed op count) := by
  rw [Always]
  cases step : fs.step op with
  | ok answered =>
    constructor
    · rintro ⟨taken, failed⟩
      refine ⟨fun answer after same => ?_, by simp, failed⟩
      cases same
      exact taken
    · rintro ⟨taken, -, failed⟩
      exact ⟨taken _ _ rfl, failed⟩
  | error err =>
    constructor
    · rintro ⟨taken, failed⟩
      refine ⟨by simp, fun other same => ?_, failed⟩
      cases same
      exact taken
    · rintro ⟨-, taken, failed⟩
      exact ⟨taken _ rfl, failed⟩

theorem always_ret {value : α} (holds : post fs (.ok value)) :
    (Prog.ret value : Prog N ε α).Always post fs := holds

theorem always_look {next : Fs N → Prog N ε α} (always : (next fs).Always post fs) :
    (Prog.look next).Always post fs := always

theorem Always.runFailing (always : prog.Always post fs) (faults : List Fault) :
    post (prog.runFailing faults fs).1 (prog.runFailing faults fs).2 := by
  induction prog generalizing fs faults with
  | ret value => exact always
  | fail err => exact always
  | look next ih => exact ih fs always faults
  | step op ok refused ihOk ihRefused =>
    obtain ⟨answered, declined, failed⟩ := always_step.mp always
    match faults with
    | .fails err count :: faults =>
      rw [Prog.runFailing]
      exact ihRefused err (failed err count) faults
    | [] | .works :: _ =>
      simp only [Prog.runFailing]
      cases step : fs.step op with
      | ok result => exact ihOk result.1 (answered _ _ step) _
      | error err => exact ihRefused err (declined err step) _

theorem runFailing_nil (prog : Prog N ε α) (fs : Fs N) : prog.runFailing [] fs = prog.run fs := by
  induction prog generalizing fs with
  | ret value => rfl
  | fail err => rfl
  | look next ih => exact ih fs fs
  | step op ok refused ihOk ihRefused =>
    simp only [Prog.runFailing, Prog.run, List.tail_nil]
    cases fs.step op with
    | ok answered => exact ihOk answered.1 answered.2
    | error err => exact ihRefused err fs

theorem Always.run {after : Fs N} {result : Except ε α} (always : prog.Always post fs)
    (ran : prog.run fs = (after, result)) :
    post after result := by
  have ends := always.runFailing []
  rwa [runFailing_nil, ran] at ends

theorem Always.imp {post' : Fs N → Except ε α → Prop} (always : prog.Always post fs)
    (implies : ∀ after result, post after result → post' after result) :
    prog.Always post' fs := by
  induction prog generalizing fs with
  | ret value => exact implies _ _ always
  | fail err => exact implies _ _ always
  | look next ih => exact ih fs always
  | step op ok refused ihOk ihRefused =>
    obtain ⟨answered, declined, failed⟩ := always_step.mp always
    exact always_step.mpr ⟨fun answer after step => ihOk answer (answered answer after step),
      fun err step => ihRefused err (declined err step),
      fun err count => ihRefused err (failed err count)⟩

theorem Always.and {other : Fs N → Except ε α → Prop} (always : prog.Always post fs)
    (also : prog.Always other fs) :
    prog.Always (fun after result => post after result ∧ other after result) fs := by
  induction prog generalizing fs with
  | ret value => exact ⟨always, also⟩
  | fail err => exact ⟨always, also⟩
  | look next ih => exact ih fs always also
  | step op ok refused ihOk ihRefused =>
    obtain ⟨answered, declined, failed⟩ := always_step.mp always
    obtain ⟨answered', declined', failed'⟩ := always_step.mp also
    exact always_step.mpr
      ⟨fun answer after step => ihOk answer (answered answer after step) (answered' answer after step),
        fun err step => ihRefused err (declined err step) (declined' err step),
        fun err count => ihRefused err (failed err count) (failed' err count)⟩

theorem always_true (prog : Prog N ε α) (fs : Fs N) : prog.Always (fun _ _ => True) fs := by
  induction prog generalizing fs with
  | ret value => exact trivial
  | fail err => exact trivial
  | look next ih => exact ih fs fs
  | step op ok refused ihOk ihRefused =>
    exact always_step.mpr ⟨fun answer after _ => ihOk answer after, fun err _ => ihRefused err fs,
      fun err count => ihRefused err _⟩

theorem always_sound (prog : Prog N ε α) (sound : fs.Sound) :
    prog.Always (fun after _ => after.Sound) fs := by
  induction prog generalizing fs with
  | ret value => exact sound
  | fail err => exact sound
  | look next ih => exact ih fs sound
  | step op ok refused ihOk ihRefused =>
    exact always_step.mpr ⟨fun answer _ step => ihOk answer (sound.step step),
      fun err _ => ihRefused err sound,
      fun err count => ihRefused err (sound.afterFailed op count)⟩

theorem always_bind {first : Prog N ε α} {second : α → Prog N ε β} {post : Fs N → Except ε β → Prop}
    (always : first.Always (fun after result =>
      match result with
      | .ok value => (second value).Always post after
      | .error err => post after (.error err)) fs) : (first >>= second).Always post fs := by
  show (first.bind second).Always post fs
  induction first generalizing fs with
  | ret value => exact always
  | fail err => exact always
  | look next ih => exact ih fs always
  | step op ok refused ihOk ihRefused =>
    obtain ⟨answered, declined, failed⟩ := always_step.mp always
    exact always_step.mpr ⟨fun answer after step => ihOk answer (answered answer after step),
      fun err step => ihRefused err (declined err step),
      fun err count => ihRefused err (failed err count)⟩

theorem always_recover {handler : ε → Prog N ε α}
    (always : prog.Always (fun after result =>
      match result with
      | .ok value => post after (.ok value)
      | .error err => (handler err).Always post after) fs) :
    (prog.recover handler).Always post fs := by
  induction prog generalizing fs with
  | ret value => exact always
  | fail err => exact always
  | look next ih => exact ih fs always
  | step op ok refused ihOk ihRefused =>
    obtain ⟨answered, declined, failed⟩ := always_step.mp always
    exact always_step.mpr ⟨fun answer after step => ihOk answer (answered answer after step),
      fun err step => ihRefused err (declined err step),
      fun err count => ihRefused err (failed err count)⟩

theorem always_mapError {δ : Type} {convert : ε → δ} {post : Fs N → Except δ α → Prop}
    (always : prog.Always (fun after result => post after (result.mapError convert)) fs) :
    (prog.mapError convert).Always post fs := by
  induction prog generalizing fs with
  | ret value => exact always
  | fail err => exact always
  | look next ih => exact ih fs always
  | step op ok refused ihOk ihRefused =>
    obtain ⟨answered, declined, failed⟩ := always_step.mp always
    exact always_step.mpr ⟨fun answer after step => ihOk answer (answered answer after step),
      fun err step => ihRefused err (declined err step),
      fun err count => ihRefused err (failed err count)⟩

theorem always_perform {op : FsOp N} {post : Fs N → Except ε Nat → Prop}
    (answered : ∀ answer after, fs.step op = .ok (answer, after) → post after (.ok answer))
    (declined : ∀ err, post fs (.error err))
    (failed : ∀ err count, post (fs.afterFailed op count) (.error err)) :
    (perform op lift).Always post fs :=
  always_step.mpr ⟨answered, fun _ _ => declined _, fun _ count => failed _ count⟩

theorem always_change {inode : Nat} {op : FileOp} {post : Fs N → Except ε Nat → Prop}
    (made : post (fs.setInode inode ((fs.inodes inode).change op)) (.ok inode))
    (failed : ∀ err count, post (fs.afterFailed (.change inode op) count) (.error err)) :
    (perform (.change inode op) lift).Always post fs := by
  refine always_step.mpr ⟨fun answer after step => ?_, fun err step => ?_,
    fun err count => failed _ count⟩
  · cases step
    exact made
  · cases step

theorem always_sync {inode : Nat} {post : Fs N → Except ε Nat → Prop}
    (made : post (fs.setInode inode (fs.inodes inode).sync) (.ok inode))
    (failed : ∀ err, post fs (.error err)) : (perform (.sync inode) lift).Always post fs := by
  refine always_step.mpr ⟨fun answer after step => ?_, fun err step => ?_,
    fun err count => failed _⟩
  · cases step
    exact made
  · cases step

end Prog

end Lib
