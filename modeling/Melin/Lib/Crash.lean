import Melin.Lib.FailingDevice

/-!
Crashes: a program stopped behind any of its steps, and what the next boot finds.

Behind a crash the directory is one it had since its last sync, and a file that was not synced may
hold anything.
-/

namespace Lib

namespace Prog

variable {N ε α β : Type}

/-- Every step the program may take is allowed, and every value it returns is such a one. -/
def Only (allowed : FsOp N → Prop) (returns : α → Prop) : Prog N ε α → Prop
  | .ret value => returns value
  | .fail _ => True
  | .look next => ∀ fs, (next fs).Only allowed returns
  | .step op ok refused => allowed op ∧ (∀ answer, (ok answer).Only allowed returns) ∧
      ∀ err, (refused err).Only allowed returns

section

variable {allowed : FsOp N → Prop} {returns : α → Prop} {later : β → Prop}

theorem only_bind {first : Prog N ε α} {second : α → Prog N ε β}
    (firstOnly : first.Only allowed returns)
    (secondOnly : ∀ value, returns value → (second value).Only allowed later) :
    (first >>= second).Only allowed later := by
  show (first.bind second).Only allowed later
  induction first with
  | ret value => exact secondOnly value firstOnly
  | fail err => exact trivial
  | look next ih => exact fun fs => ih fs (firstOnly fs)
  | step op ok refused ihOk ihRefused =>
    exact ⟨firstOnly.1, fun answer => ihOk answer (firstOnly.2.1 answer),
      fun err => ihRefused err (firstOnly.2.2 err)⟩

theorem only_perform {op : FsOp N} {lift : FsError → ε} (isAllowed : allowed op) :
    (perform op lift : Prog N ε Nat).Only allowed fun _ => True :=
  ⟨isAllowed, fun _ => trivial, fun _ => trivial⟩

end

variable [DecidableEq N]

/--
Run a program on a failing device for at most so many steps.

Where the steps run out nothing is returned, and the file system is the one between two steps.
-/
def runUntil : Prog N ε α → List Fault → Nat → Fs N → Fs N × Option (Except ε α)
  | .ret value, _, _, fs => (fs, some (.ok value))
  | .fail err, _, _, fs => (fs, some (.error err))
  | .look next, faults, steps, fs => (next fs).runUntil faults steps fs
  | .step _ _ _, _, 0, fs => (fs, none)
  | .step op _ refused, .fails err count :: faults, steps + 1, fs =>
    (refused err).runUntil faults steps (fs.afterFailed op count)
  | .step op ok refused, faults, steps + 1, fs =>
    match fs.step op with
    | .ok (answer, after) => (ok answer).runUntil faults.tail steps after
    | .error err => (refused err).runUntil faults.tail steps fs

/-- Whether a step is taken: the program comes to it, and the device does not fail it. -/
def took (faults : List Fault) (steps index : Nat) : Bool :=
  index < steps && match faults[index]? with
    | some (.fails ..) => false
    | some .works | none => true

theorem took_add (faults : List Fault) (steps first index : Nat) :
    took faults steps (first + index) = took (faults.drop first) (steps - first) index := by
  simp only [took, List.getElem?_drop]
  congr 1
  simp only [decide_eq_decide]
  omega

theorem took_succ (faults : List Fault) (steps index : Nat) :
    took faults (steps + 1) (index + 1) = took faults.tail steps index := by
  cases faults <;> simp [took]

variable {op : FsOp N} {fs after : Fs N} {answer count : Nat} {lift : FsError → ε}
  {first prog : Prog N ε α} {value : α}

theorem runUntil_step {ok : Nat → Prog N ε α} {refused : FsError → Prog N ε α}
    (step : fs.step op = .ok (answer, after)) (faults : List Fault) (steps : Nat) :
    (took faults steps 0 = true ∧ (Prog.step op ok refused).runUntil faults steps fs
        = (ok answer).runUntil (faults.drop 1) (steps - 1) after) ∨
      (took faults steps 0 = false ∧ ((steps = 0 ∧
          (Prog.step op ok refused).runUntil faults steps fs = (fs, none)) ∨
        ∃ err count, 0 < steps ∧ (Prog.step op ok refused).runUntil faults steps fs
          = (refused err).runUntil (faults.drop 1) (steps - 1) (fs.afterFailed op count))) := by
  match steps, faults with
  | 0, _ => exact .inr ⟨by simp [took], .inl ⟨rfl, by rw [runUntil]⟩⟩
  | steps + 1, .fails err count :: faults =>
    exact .inr ⟨by simp [took], .inr ⟨err, count, Nat.succ_pos _, by rw [runUntil]; rfl⟩⟩
  | steps + 1, [] | steps + 1, .works :: faults =>
    refine .inl ⟨by simp [took], ?_⟩
    simp only [runUntil, step]
    rfl

theorem runUntil_perform (quiet : ∀ count, fs.afterFailed op count = fs)
    (step : fs.step op = .ok (answer, after)) (next : Nat → Prog N ε α) (faults : List Fault)
    (steps : Nat) :
    (took faults steps 0 = true ∧ (perform op lift >>= next).runUntil faults steps fs
        = (next answer).runUntil (faults.drop 1) (steps - 1) after) ∨
      (took faults steps 0 = false ∧ ((perform op lift >>= next).runUntil faults steps fs).1 = fs) := by
  rcases runUntil_step step faults steps with ⟨taken, goes⟩ | ⟨not, ⟨-, stops⟩ | ⟨err, count, -, fails⟩⟩
  · exact .inl ⟨taken, goes⟩
  · exact .inr ⟨not, congrArg Prod.fst stops⟩
  · exact .inr ⟨not, (congrArg Prod.fst fails).trans (quiet count)⟩

theorem runUntil_returning (prog : Prog N ε α) (result : β) (faults : List Fault) (steps : Nat)
    (fs : Fs N) : ((prog >>= fun _ => pure result).runUntil faults steps fs).1
      = (prog.runUntil faults steps fs).1 := by
  show ((prog.bind fun _ => .ret result).runUntil faults steps fs).1 = _
  induction prog generalizing faults steps fs with
  | ret value => rfl
  | fail err => rfl
  | look next ih => exact ih fs faults steps fs
  | step op ok refused ihOk ihRefused =>
    match steps, faults with
    | 0, _ => simp only [Prog.bind, runUntil]
    | steps + 1, .fails err count :: faults =>
      simp only [Prog.bind, runUntil]
      exact ihRefused err ..
    | steps + 1, [] | steps + 1, .works :: faults =>
      simp only [Prog.bind, runUntil]
      cases fs.step op with
      | ok answered => exact ihOk answered.1 ..
      | error err => exact ihRefused err ..

/-- Where nothing fails, the program takes so many steps to a value; any failure is its own. -/
def Straight (value : α) (after : Fs N) : Nat → Prog N ε α → Fs N → Prop
  | count, .ret returned, fs => count = 0 ∧ returned = value ∧ fs = after
  | _, .fail _, _ => False
  | count, .look next, fs => (next fs).Straight value after count fs
  | 0, .step _ _ _, _ => False
  | count + 1, .step op ok refused, fs => (∀ err, ∃ failure, refused err = .fail failure) ∧
    ∃ answer behind, fs.step op = .ok (answer, behind) ∧
      (ok answer).Straight value after count behind

theorem straight_ret (value : α) (fs : Fs N) :
    (Prog.ret value : Prog N ε α).Straight value fs 0 fs := ⟨rfl, rfl, rfl⟩

theorem straight_perform (step : fs.step op = .ok (answer, after)) :
    (perform op lift).Straight answer after 1 fs :=
  ⟨fun _ => ⟨_, rfl⟩, answer, after, step, straight_ret answer after⟩

theorem straight_bind {second : α → Prog N ε β} {behind : Fs N} {result : β} {more : Nat}
    (one : first.Straight value behind count fs)
    (two : (second value).Straight result after more behind) :
    (first >>= second).Straight result after (count + more) fs := by
  show (first.bind second).Straight result after (count + more) fs
  induction first generalizing count fs with
  | ret returned =>
    obtain ⟨rfl, rfl, rfl⟩ := one
    rw [Nat.zero_add]
    exact two
  | fail err => cases one
  | look next ih => exact ih fs one
  | step op ok refused ihOk =>
    match count, one with
    | count + 1, ⟨fails, answer, stepped, taken, rest⟩ =>
      rw [Nat.succ_add]
      refine ⟨fun err => ?_, answer, stepped, taken, ihOk answer rest⟩
      obtain ⟨failure, isFailure⟩ := fails err
      exact ⟨failure, congrArg (fun failed => failed.bind second) isFailure⟩

theorem Straight.returning (straight : first.Straight value after count fs) (result : β) :
    (first >>= fun _ => pure result).Straight result after count fs := by
  rw [← Nat.add_zero count]
  exact straight_bind straight (straight_ret result after)

/-- All of a straight program's steps are taken and it goes on, or it stops or fails at one. -/
theorem Straight.runUntil_bind (second : α → Prog N ε β) {behind : Fs N}
    (straight : first.Straight value behind count fs) (faults : List Fault) (steps : Nat) :
    ((∀ index < count, took faults steps index = true) ∧
        (first >>= second).runUntil faults steps fs
          = (second value).runUntil (faults.drop count) (steps - count) behind) ∨
      ((∃ index < count, took faults steps index = false) ∧
        ((first >>= second).runUntil faults steps fs).1 = (first.runUntil faults steps fs).1 ∧
        ∀ result, ((first >>= second).runUntil faults steps fs).2 ≠ some (.ok result)) := by
  change ((∀ index < count, took faults steps index = true) ∧
      (first.bind second).runUntil faults steps fs = _) ∨ ((∃ index < count, _) ∧
      ((first.bind second).runUntil faults steps fs).1 = _ ∧ ∀ result,
        ((first.bind second).runUntil faults steps fs).2 ≠ some (.ok result))
  induction first generalizing count faults steps fs with
  | ret returned =>
    obtain ⟨rfl, rfl, rfl⟩ := straight
    exact .inl ⟨nofun, rfl⟩
  | fail err => cases straight
  | look next ih => exact ih fs straight faults steps
  | step op ok refused ihOk =>
    match count, straight with
    | count + 1, ⟨fails, answer, stepped, taken, rest⟩ =>
      match steps, faults with
      | 0, _ => exact .inr ⟨⟨0, Nat.succ_pos _, by simp [took]⟩, by simp [Prog.bind, runUntil]⟩
      | steps + 1, .fails err count :: faults =>
        obtain ⟨failure, isFailure⟩ := fails err
        exact .inr ⟨⟨0, Nat.succ_pos _, by simp [took]⟩,
          by simp [Prog.bind, runUntil, isFailure]⟩
      | steps + 1, [] | steps + 1, .works :: faults =>
        simp only [Prog.bind, runUntil, taken, ← List.drop_tail, Nat.succ_sub_succ_eq_sub]
        rcases ihOk answer rest _ steps with ⟨all, goes⟩ | ⟨⟨index, inside, not⟩, stops⟩
        · refine .inl ⟨fun index inside => ?_, goes⟩
          cases index with
          | zero => simp [took]
          | succ index => exact (took_succ ..).trans (all index (Nat.lt_of_succ_lt_succ inside))
        · exact .inr ⟨⟨index + 1, Nat.succ_lt_succ inside, (took_succ ..).trans not⟩, stops⟩

/-- However its steps fare, the program goes through such file systems only, and ends so. -/
def Passes (inv : Fs N → Prop) (post : Fs N → Except ε α → Prop) : Prog N ε α → Fs N → Prop
  | .ret value, fs => inv fs ∧ post fs (.ok value)
  | .fail err, fs => inv fs ∧ post fs (.error err)
  | .look next, fs => (next fs).Passes inv post fs
  | .step op ok refused, fs => inv fs ∧
    (match fs.step op with
      | .ok (answer, after) => (ok answer).Passes inv post after
      | .error err => (refused err).Passes inv post fs) ∧
    ∀ err count, (refused err).Passes inv post (fs.afterFailed op count)

variable {inv : Fs N → Prop} {post : Fs N → Except ε α → Prop} {fs : Fs N}

theorem passes_step {ok : Nat → Prog N ε α} {refused : FsError → Prog N ε α} :
    (Prog.step op ok refused).Passes inv post fs ↔ inv fs ∧
      (∀ answer after, fs.step op = .ok (answer, after) → (ok answer).Passes inv post after) ∧
      (∀ err, fs.step op = .error err → (refused err).Passes inv post fs) ∧
      ∀ err count, (refused err).Passes inv post (fs.afterFailed op count) := by
  rw [Passes]
  cases fs.step op with
  | ok answered =>
    refine and_congr_right fun _ => ⟨fun passes => ⟨fun answer after same => ?_, nofun, passes.2⟩,
      fun passes => ⟨passes.1 _ _ rfl, passes.2.2⟩⟩
    cases same
    exact passes.1
  | error err =>
    refine and_congr_right fun _ => ⟨fun passes => ⟨nofun, fun other same => ?_, passes.2⟩,
      fun passes => ⟨passes.2.1 _ rfl, passes.2.2⟩⟩
    cases same
    exact passes.1

theorem Passes.runUntil (passes : prog.Passes inv post fs) (faults : List Fault) (steps : Nat) :
    inv (prog.runUntil faults steps fs).1 ∧
      ∀ result ∈ (prog.runUntil faults steps fs).2, post (prog.runUntil faults steps fs).1 result := by
  induction prog generalizing fs faults steps with
  | ret value => exact ⟨passes.1, fun _ ended => Option.some.inj ended ▸ passes.2⟩
  | fail err => exact ⟨passes.1, fun _ ended => Option.some.inj ended ▸ passes.2⟩
  | look next ih => exact ih fs passes faults steps
  | step op ok refused ihOk ihRefused =>
    obtain ⟨now, answered, declined, failed⟩ := passes_step.mp passes
    match steps, faults with
    | 0, _ => simpa only [Prog.runUntil, Option.mem_def, reduceCtorEq, false_implies, implies_true,
        and_true] using now
    | steps + 1, .fails err count :: faults =>
      rw [Prog.runUntil]
      exact ihRefused err (failed err count) faults steps
    | steps + 1, [] | steps + 1, .works :: _ =>
      simp only [Prog.runUntil]
      cases step : fs.step op with
      | ok result => exact ihOk result.1 (answered _ _ step) _ steps
      | error err => exact ihRefused err (declined err step) _ steps

theorem Passes.imp {inv' : Fs N → Prop} {post' : Fs N → Except ε α → Prop}
    (passes : prog.Passes inv post fs) (keeps : ∀ seen, inv seen → inv' seen)
    (implies : ∀ after result, post after result → post' after result) :
    prog.Passes inv' post' fs := by
  induction prog generalizing fs with
  | ret value => exact passes.imp (keeps _) (implies _ _)
  | fail err => exact passes.imp (keeps _) (implies _ _)
  | look next ih => exact ih fs passes
  | step op ok refused ihOk ihRefused =>
    obtain ⟨now, answered, declined, failed⟩ := passes_step.mp passes
    exact passes_step.mpr ⟨keeps _ now, fun answer after step => ihOk answer (answered _ _ step),
      fun err step => ihRefused err (declined err step),
      fun err count => ihRefused err (failed err count)⟩

theorem passes_bind {second : α → Prog N ε β} {post : Fs N → Except ε β → Prop}
    (passes : first.Passes inv (fun after result =>
      match result with
      | .ok value => (second value).Passes inv post after
      | .error err => post after (.error err)) fs) : (first >>= second).Passes inv post fs := by
  show (first.bind second).Passes inv post fs
  induction first generalizing fs with
  | ret value => exact passes.2
  | fail err => exact passes
  | look next ih => exact ih fs passes
  | step op ok refused ihOk ihRefused =>
    obtain ⟨now, answered, declined, failed⟩ := passes_step.mp passes
    exact passes_step.mpr ⟨now, fun answer after step => ihOk answer (answered answer after step),
      fun err step => ihRefused err (declined err step),
      fun err count => ihRefused err (failed err count)⟩

theorem passes_change {inode : Nat} {op : FileOp} {post : Fs N → Except ε Nat → Prop} (now : inv fs)
    (made : inv (fs.setInode inode ((fs.inodes inode).change op)) ∧
      post (fs.setInode inode ((fs.inodes inode).change op)) (.ok inode))
    (failed : ∀ err count, inv (fs.afterFailed (.change inode op) count) ∧
      post (fs.afterFailed (.change inode op) count) (.error err)) :
    (perform (.change inode op) lift).Passes inv post fs := by
  refine passes_step.mpr ⟨now, fun answer after step => ?_, nofun, fun err count => failed _ count⟩
  cases step
  exact made

theorem passes_sync {inode : Nat} {post : Fs N → Except ε Nat → Prop} (now : inv fs)
    (made : inv (fs.setInode inode (fs.inodes inode).sync) ∧
      post (fs.setInode inode (fs.inodes inode).sync) (.ok inode))
    (failed : ∀ err, post fs (.error err)) : (perform (.sync inode) lift).Passes inv post fs := by
  refine passes_step.mpr ⟨now, fun answer after step => ?_, nofun, fun err count => ⟨now, failed _⟩⟩
  cases step
  exact made

theorem passes_mapError {δ : Type} {convert : ε → δ} {post : Fs N → Except δ α → Prop}
    (passes : prog.Passes inv (fun after result => post after (result.mapError convert)) fs) :
    (prog.mapError convert).Passes inv post fs := by
  induction prog generalizing fs with
  | ret value => exact passes
  | fail err => exact passes
  | look next ih => exact ih fs passes
  | step op ok refused ihOk ihRefused =>
    obtain ⟨now, answered, declined, failed⟩ := passes_step.mp passes
    exact passes_step.mpr ⟨now, fun answer after step => ihOk answer (answered answer after step),
      fun err step => ihRefused err (declined err step),
      fun err count => ihRefused err (failed err count)⟩

theorem Only.passes {allowed : FsOp N → Prop} {returns : α → Prop}
    (only : prog.Only allowed returns)
    (keeps : ∀ fs op, allowed op → inv fs → (∀ answer after, fs.step op = .ok (answer, after) →
      inv after) ∧ ∀ count, inv (fs.afterFailed op count))
    (now : inv fs) (always : prog.Always post fs) :
    prog.Passes inv (fun after result => inv after ∧ post after result) fs := by
  induction prog generalizing fs with
  | ret value => exact ⟨now, now, always⟩
  | fail err => exact ⟨now, now, always⟩
  | look next ih => exact ih fs (only fs) now always
  | step op ok refused ihOk ihRefused =>
    obtain ⟨isAllowed, okOnly, refusedOnly⟩ := only
    obtain ⟨taken, failed⟩ := keeps fs op isAllowed now
    obtain ⟨answered, declined, failed'⟩ := always_step.mp always
    exact passes_step.mpr ⟨now,
      fun answer after step => ihOk answer (okOnly _) (taken _ _ step) (answered _ _ step),
      fun err step => ihRefused err (refusedOnly err) now (declined err step),
      fun err count => ihRefused err (refusedOnly err) (failed count) (failed' err count)⟩

end Prog

namespace Fs

variable {N : Type}

def directories (fs : Fs N) : List (Table N) := fs.table :: fs.older

/-- What the next boot finds behind a crash that lost so many of the directory's latest changes. -/
structure Crashes (fs : Fs N) (lost : Nat) (after : Fs N) : Prop where
  table : fs.directories[lost]? = some after.table
  older : after.older = []
  /-- A file is what is on disk, and that is what its last sync left if it was not changed since. -/
  inodes : ∀ inode, ∃ content, after.inodes inode = .settled content ∧
    ((fs.inodes inode).pending = [] → content = (fs.inodes inode).synced)
  fresh : after.fresh = fs.fresh

/-- What the next boot finds where every change of the directory is on disk, and no other change. -/
def rebooted (fs : Fs N) : Fs N :=
  { fs with older := [], inodes := fun inode => .settled (fs.inodes inode).synced }

theorem crashes_rebooted (fs : Fs N) : fs.Crashes 0 fs.rebooted :=
  ⟨rfl, rfl, fun _ => ⟨_, rfl, fun _ => rfl⟩, rfl⟩

variable [DecidableEq N]

def Allocated (fs : Fs N) : Prop :=
  ∀ table ∈ fs.directories, ∀ name inode, table.lookup name = some inode → inode < fs.fresh

def Leads (fs : Fs N) (name : N) (ok : Option Bytes → Prop) (table : Table N) : Prop :=
  match table.lookup name with
  | none => ok none
  | some inode => ∃ content, fs.inodes inode = .settled content ∧ ok (some content)

def Stable (name : N) (ok : Option Bytes → Prop) (fs : Fs N) : Prop :=
  ∀ table ∈ fs.directories, fs.Leads name ok table

def Apart (name : N) (inode : Nat) (fs : Fs N) : Prop :=
  ∀ table ∈ fs.directories, table.lookup name ≠ some inode

variable {name other : N} {ok : Option Bytes → Prop} {fs after : Fs N} {inode : Nat}
  {table : Table N}

theorem leads_of_lookup (found : table.lookup name = some inode) {content : Bytes}
    (settled : fs.inodes inode = .settled content) (isOk : ok (some content)) :
    fs.Leads name ok table := by
  rw [Leads, found]
  exact ⟨content, settled, isOk⟩

theorem Leads.congr {other : Table N} (leads : fs.Leads name ok table)
    (same : other.lookup name = table.lookup name) : fs.Leads name ok other := by
  rw [Leads, same]
  exact leads

theorem Leads.frame (leads : fs.Leads name ok table)
    (same : ∀ inode, table.lookup name = some inode → ∀ content,
      fs.inodes inode = .settled content → after.inodes inode = .settled content) :
    after.Leads name ok table := by
  rw [Leads] at leads ⊢
  cases found : table.lookup name with
  | none =>
    rw [found] at leads
    exact leads
  | some inode =>
    rw [found] at leads
    obtain ⟨content, settled, isOk⟩ := leads
    exact ⟨content, same inode found content settled, isOk⟩

theorem Stable.imp {ok' : Option Bytes → Prop} (stable : fs.Stable name ok)
    (implies : ∀ content, ok content → ok' content) : fs.Stable name ok' := by
  intro table member
  have leads := stable table member
  rw [Leads] at leads ⊢
  cases found : table.lookup name with
  | none =>
    rw [found] at leads
    exact implies _ leads
  | some inode =>
    rw [found] at leads
    obtain ⟨content, settled, isOk⟩ := leads
    exact ⟨content, settled, implies _ isOk⟩

theorem Leads.content (leads : fs.Leads name ok fs.table) : ok (fs.content name) := by
  rw [Leads] at leads
  rw [Fs.content, Fs.file]
  cases found : fs.table.lookup name with
  | none =>
    rw [found] at leads
    exact leads
  | some inode =>
    rw [found] at leads
    obtain ⟨content, settled, isOk⟩ := leads
    rw [Option.map_some, Option.map_some, settled]
    exact isOk

theorem Stable.content (stable : fs.Stable name ok) : ok (fs.content name) :=
  (stable fs.table List.mem_cons_self).content

variable {lost answer : Nat} {image : Option Bytes} {images : List (Option Bytes)}

theorem Leads.crashes (leads : fs.Leads name ok table) (crashes : fs.Crashes lost after) :
    after.Leads name ok table := by
  refine leads.frame fun inode _ content settled => ?_
  obtain ⟨left, leftSettled, same⟩ := crashes.inodes inode
  rw [settled] at same
  rw [leftSettled, same rfl]
  rfl

theorem Stable.crashes (stable : fs.Stable name ok) (crashes : fs.Crashes lost after) :
    after.Stable name ok := by
  intro table member
  rw [directories, crashes.older, List.mem_singleton] at member
  rw [member]
  exact (stable after.table (List.mem_of_getElem? crashes.table)).crashes crashes

def Shows (name : N) (images : List (Option Bytes)) (fs : Fs N) : Prop :=
  List.Forall₂ (fun table image => fs.Leads name (· = image) table) fs.directories images

theorem Stable.shows (stable : fs.Stable name (· = image)) :
    fs.Shows name (List.replicate (fs.older.length + 1) image) := by
  refine List.forall₂_iff_get.mpr ⟨by simp [directories], fun index inside _ => ?_⟩
  simpa using stable _ (List.getElem_mem inside)

theorem Shows.setTable (shows : fs.Shows name images) (leads : fs.Leads name (· = image) table) :
    (fs.setTable table).Shows name (image :: images) := .cons leads shows

theorem Shows.syncDir (shows : fs.Shows name (image :: images)) :
    ({ fs with older := [] } : Fs N).Shows name [image] :=
  .cons (List.forall₂_cons.mp shows).1 .nil

theorem Shows.content (shows : fs.Shows name images) :
    images[0]? = some (fs.content name) := by
  cases shows with
  | cons leads others => exact congrArg some leads.content.symm

theorem Shows.crashes (shows : fs.Shows name images) (crashes : fs.Crashes lost after) :
    images[lost]? = some (after.content name) := by
  obtain ⟨inside, isTable⟩ := List.getElem?_eq_some_iff.mp crashes.table
  have within : lost < images.length := shows.length_eq ▸ inside
  have leads := (List.forall₂_iff_get.mp shows).2 lost inside within
  rw [List.get_eq_getElem, List.get_eq_getElem, isTable] at leads
  rw [List.getElem?_eq_getElem within]
  exact congrArg some (leads.crashes crashes).content.symm

theorem Allocated.crashes (allocated : fs.Allocated) (crashes : fs.Crashes lost after) :
    after.Allocated := by
  intro table member name inode found
  rw [directories, crashes.older, List.mem_singleton] at member
  rw [crashes.fresh]
  exact allocated table (member ▸ List.mem_of_getElem? crashes.table) name inode found

theorem Allocated.apart (allocated : fs.Allocated) (name : N) : fs.Apart name fs.fresh :=
  fun table member found => lt_irrefl _ (allocated table member name fs.fresh found)

theorem Stable.setInode (stable : fs.Stable name ok) (apart : fs.Apart name inode)
    (file : DurableFile) : (fs.setInode inode file).Stable name ok :=
  fun table member => (stable table member).frame fun _ isThere _ settled =>
    (Function.update_of_ne (fun same => apart table member (isThere.trans (congrArg some same)))
      ..).trans settled

theorem Stable.setTable (stable : fs.Stable name ok) (leads : fs.Leads name ok table) :
    (fs.setTable table).Stable name ok := by
  intro seen member
  rcases List.mem_cons.mp member with rfl | before
  · exact leads
  · exact stable seen before

theorem Stable.syncDir (stable : fs.Leads name ok fs.table) :
    ({ fs with older := [] } : Fs N).Stable name ok :=
  fun _ member => List.mem_singleton.mp member ▸ stable

theorem Allocated.setTable (allocated : fs.Allocated)
    (handed : ∀ name inode, table.lookup name = some inode → inode < fs.fresh) :
    (fs.setTable table).Allocated := by
  intro seen member
  rcases List.mem_cons.mp member with rfl | before
  · exact handed
  · exact allocated seen before

theorem Allocated.syncDir (allocated : fs.Allocated) : ({ fs with older := [] } : Fs N).Allocated :=
  fun _ member => allocated _ (List.mem_singleton.mp member ▸ List.mem_cons_self)

theorem Allocated.erase (allocated : fs.Allocated) (name : N) :
    ∀ other inode, (fs.table.erase name).lookup other = some inode → inode < fs.fresh := by
  intro other inode found
  by_cases same : other = name
  · rw [same, AList.lookup_erase] at found
    cases found
  · rw [AList.lookup_erase_ne same] at found
    exact allocated fs.table List.mem_cons_self other inode found

/-- A file at a name is stable, and another is written beside it. -/
structure Beside (name : N) (ok : Option Bytes → Prop) (inode : Nat) (fs : Fs N) : Prop where
  stable : fs.Stable name ok
  allocated : fs.Allocated
  apart : fs.Apart name inode

theorem Beside.setInode (beside : fs.Beside name ok inode) (file : DurableFile) :
    (fs.setInode inode file).Beside name ok inode :=
  ⟨beside.stable.setInode beside.apart file, beside.allocated, beside.apart⟩

def Touches (inode : Nat) (op : FsOp N) : Prop := (∃ change, op = .change inode change) ∨ op = .sync inode

theorem Beside.touch (beside : fs.Beside name ok inode) {op : FsOp N} (touches : Touches inode op) :
    (∀ answer after, fs.step op = .ok (answer, after) → after.Beside name ok inode) ∧
      ∀ count, (fs.afterFailed op count).Beside name ok inode := by
  rcases touches with ⟨change, rfl⟩ | rfl
  · refine ⟨fun answer after step => ?_, fun count => ?_⟩
    · cases step
      exact beside.setInode _
    · rw [afterFailed]
      cases change.landed count with
      | none => exact beside
      | some done => exact beside.setInode _
  · refine ⟨fun answer after step => ?_, fun _ => beside⟩
    cases step
    exact beside.setInode _

theorem Stable.create (stable : fs.Stable name ok) (allocated : fs.Allocated)
    (differ : name ≠ other) (step : fs.step (.create other) = .ok (answer, after)) :
    answer = fs.fresh ∧ after.table.lookup other = some fs.fresh ∧
      after.inodes fs.fresh = .settled [] ∧ after.Beside name ok fs.fresh := by
  simp only [Fs.step] at step
  split at step
  · cases step
  · obtain ⟨rfl, rfl⟩ := Prod.mk.inj (Except.ok.inj step)
    have same : (fs.table.insert other fs.fresh).lookup name = fs.table.lookup name :=
      AList.lookup_insert_ne differ
    have apart : (fs.setTable (fs.table.insert other fs.fresh)).Apart name fs.fresh := by
      intro table member found
      rcases List.mem_cons.mp member with rfl | before
      · exact allocated.apart name _ List.mem_cons_self (same.symm.trans found)
      · exact allocated.apart name _ before found
    refine ⟨rfl, AList.lookup_insert _, Function.update_self .., ?_, ?_, apart⟩
    · exact (stable.setTable ((stable _ List.mem_cons_self).congr same)).setInode apart _
    · intro table member seen inode found
      rcases List.mem_cons.mp member with rfl | before
      · change (fs.table.insert other fs.fresh).lookup seen = some inode at found
        by_cases created : seen = other
        · rw [created, AList.lookup_insert, Option.some.injEq] at found
          exact Nat.lt_succ_of_le found.ge
        · rw [AList.lookup_insert_ne created] at found
          exact Nat.lt_succ_of_lt (allocated _ List.mem_cons_self _ _ found)
      · exact Nat.lt_succ_of_lt (allocated _ before _ _ found)

theorem Stable.remove (stable : fs.Stable name ok) (allocated : fs.Allocated)
    (differ : name ≠ other) (step : fs.step (.remove other) = .ok (answer, after)) :
    after.Stable name ok ∧ after.Allocated := by
  simp only [Fs.step] at step
  split at step
  · cases step
  · obtain ⟨-, rfl⟩ := Prod.mk.inj (Except.ok.inj step)
    exact ⟨stable.setTable ((stable _ List.mem_cons_self).congr (AList.lookup_erase_ne differ)),
      allocated.setTable (allocated.erase other)⟩

theorem Beside.rename (beside : fs.Beside name ok inode)
    (found : fs.table.lookup other = some inode) {content : Bytes}
    (settled : fs.inodes inode = .settled content) (isOk : ok (some content))
    (step : fs.step (.rename other name) = .ok (answer, after)) :
    after.Stable name ok ∧ after.Allocated ∧ after.table.lookup name = some inode ∧
      after.inodes = fs.inodes := by
  simp only [Fs.step, found] at step
  obtain ⟨-, rfl⟩ := Prod.mk.inj (Except.ok.inj step)
  have placed : ((fs.table.erase other).insert name inode).lookup name = some inode :=
    AList.lookup_insert _
  refine ⟨beside.stable.setTable (leads_of_lookup placed settled isOk),
    beside.allocated.setTable fun seen target isThere => ?_, placed, rfl⟩
  by_cases same : seen = name
  · rw [same, placed] at isThere
    exact Option.some.inj isThere ▸ beside.allocated _ List.mem_cons_self other inode found
  · rw [AList.lookup_insert_ne same] at isThere
    exact beside.allocated.erase other seen target isThere

end Fs

end Lib
