import Melin.Lib.Bytes

/-! Files read through calls that may return fewer bytes than asked for. -/

namespace Lib

/--
An open file: its content, a read position, and how generous its reads are.

The `n`-th read returns at most `grants n` bytes, but at least one while any are left.
-/
structure ByteFile where
  content : Bytes
  cursor : Nat
  grants : Nat → Nat
  calls : Nat

def ByteFile.granted (file : ByteFile) (offset room : Nat) : Nat :=
  min (max 1 (file.grants file.calls)) (min room (file.content.length - offset))

def ByteFile.read (file : ByteFile) (room : Nat) : Bytes × ByteFile :=
  let count := file.granted file.cursor room
  (slice file.content file.cursor count,
    { file with cursor := file.cursor + count, calls := file.calls + 1 })

def ByteFile.readAt (file : ByteFile) (offset room : Nat) : Bytes × ByteFile :=
  (slice file.content offset (file.granted offset room), { file with calls := file.calls + 1 })

def ByteFile.unread (file : ByteFile) : Bytes := file.content.drop file.cursor

@[simp] theorem ByteFile.read_content (file : ByteFile) (room : Nat) :
    (file.read room).2.content = file.content := rfl

theorem ByteFile.read_append_unread (file : ByteFile) (room : Nat) :
    (file.read room).1 ++ (file.read room).2.unread = file.unread := by
  simp only [read, unread, slice, ← List.drop_drop]
  exact List.take_append_drop _ _

theorem ByteFile.read_eq_nil (file : ByteFile) {room : Nat} (some : 0 < room) :
    (file.read room).1 = [] ↔ file.unread = [] := by
  simp only [read, unread, slice, granted, List.take_eq_nil_iff, List.drop_eq_nil_iff]
  omega

theorem ByteFile.read_length_le (file : ByteFile) (room : Nat) :
    (file.read room).1.length ≤ room := by
  simp only [read, slice, granted, List.length_take]
  omega

theorem ByteFile.readAt_eq (file : ByteFile) {offset room : Nat} (some : 0 < room)
    (inside : offset < file.content.length) :
    ∃ chunk, 0 < chunk.length ∧
      file.content.drop offset = chunk ++ file.content.drop (offset + chunk.length) ∧
      file.readAt offset room = (chunk, { file with calls := file.calls + 1 }) := by
  have width : (slice file.content offset (file.granted offset room)).length
      = file.granted offset room := slice_length (by simp only [granted]; omega)
  refine ⟨slice file.content offset (file.granted offset room), ?_, ?_, rfl⟩
  · rw [width, granted]
    omega
  · rw [width, ← List.drop_drop]
    exact (List.take_append_drop _ _).symm

def firstNonzero (bytes : Bytes) : Option Nat := bytes.findIdx? (· != 0)

def lastNonzero : Bytes → Option Nat
  | [] => none
  | byte :: rest =>
    match lastNonzero rest with
    | some index => some (index + 1)
    | none => if byte = 0 then none else some 0

theorem lastNonzero_append (front back : Bytes) :
    lastNonzero (front ++ back)
      = ((lastNonzero back).map (front.length + ·)).or (lastNonzero front) := by
  induction front with
  | nil => cases found : lastNonzero back <;> simp [lastNonzero, found]
  | cons byte front ih =>
    -- A byte in front only matters when nothing behind it is nonzero.
    cases back : lastNonzero back <;> cases rest : lastNonzero front <;>
      simp [lastNonzero, ih, back, rest] <;> omega

theorem firstNonzero_append (front back : Bytes) :
    firstNonzero (front ++ back)
      = (firstNonzero front).or ((firstNonzero back).map (front.length + ·)) := by
  simp only [firstNonzero, List.findIdx?_append, Nat.add_comm front.length]

theorem lastNonzero_eq_none {bytes : Bytes} :
    lastNonzero bytes = none ↔ ∀ byte ∈ bytes, byte = 0 := by
  induction bytes with
  | nil => simp [lastNonzero]
  | cons byte rest ih =>
    cases found : lastNonzero rest <;> simp [lastNonzero, found, ← ih]

theorem firstNonzero_eq_none {bytes : Bytes} :
    firstNonzero bytes = none ↔ ∀ byte ∈ bytes, byte = 0 := by
  simp [firstNonzero]

end Lib
