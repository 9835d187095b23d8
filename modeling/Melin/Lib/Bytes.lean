import Mathlib

/-! Byte strings: fixed-width little-endian integers, windows, and half-written images. -/

namespace Lib

abbrev Bytes := List UInt8

/-- An integer written little-endian at a fixed width, dropping what the width cannot hold. -/
def leBytes : Nat → Nat → Bytes
  | 0, _ => []
  | width + 1, value => UInt8.ofNat (value % 256) :: leBytes width (value / 256)

def leNat : Bytes → Nat
  | [] => 0
  | byte :: rest => byte.toNat + 256 * leNat rest

def slice (bytes : Bytes) (start count : Nat) : Bytes :=
  (bytes.drop start).take count

@[simp] theorem leBytes_length (width value : Nat) : (leBytes width value).length = width := by
  -- The value shrinks by a factor of 256 at every step, so it stays quantified over.
  induction width generalizing value with
  | zero => rfl
  | succ width ih => simp [leBytes, ih]

theorem leNat_leBytes (width value : Nat) (bound : value < 256 ^ width) :
    leNat (leBytes width value) = value := by
  induction width generalizing value with
  | zero =>
    -- A width of no bytes holds only the value zero.
    simp only [Nat.pow_zero] at bound
    simp only [leBytes, leNat]
    omega
  | succ width ih =>
    -- What is left after the low byte still fits the width that is left.
    have tail : value / 256 < 256 ^ width := by
      rw [Nat.pow_succ] at bound
      exact Nat.div_lt_of_lt_mul (by rw [Nat.mul_comm]; exact bound)
    simp only [leBytes, leNat, ih _ tail, UInt8.toNat_ofNat']
    omega

theorem leNat_lt (bytes : Bytes) : leNat bytes < 256 ^ bytes.length := by
  induction bytes with
  | nil => simp [leNat]
  | cons byte rest ih =>
    have low := byte.toNat_lt
    simp only [leNat, List.length_cons, Nat.pow_succ]
    omega

theorem leBytes_leNat (bytes : Bytes) : leBytes bytes.length (leNat bytes) = bytes := by
  induction bytes with
  | nil => rfl
  | cons byte rest ih =>
    have low := byte.toNat_lt
    -- The low digit is the first byte, and dividing it away leaves the rest.
    have digit : (byte.toNat + 256 * leNat rest) % 256 = byte.toNat := by omega
    have shifted : (byte.toNat + 256 * leNat rest) / 256 = leNat rest := by omega
    simp [leNat, leBytes, digit, shifted, ih]

variable {bytes written image : Bytes} {start count : Nat}

theorem slice_length (inside : start + count ≤ bytes.length) :
    (slice bytes start count).length = count := by
  simp only [slice, List.length_take, List.length_drop]
  omega

theorem slice_append_left {front back : Bytes} (inside : start + count ≤ front.length) :
    slice (front ++ back) start count = slice front start count := by
  simp only [slice]
  rw [List.drop_append_of_le_length (by omega),
    List.take_append_of_le_length (by simp only [List.length_drop]; omega)]

theorem slice_append_right (front back : Bytes) (start count : Nat) :
    slice (front ++ back) (front.length + start) count = slice back start count := by
  simp only [slice, ← List.drop_drop, List.drop_left]

theorem slice_append_slice (bytes : Bytes) (start first second : Nat) :
    slice bytes start first ++ slice bytes (start + first) second
      = slice bytes start (first + second) := by
  simp only [slice, List.take_add, List.drop_drop]

def windows (bytes : Bytes) : Nat → List Nat → List Bytes
  | _, [] => []
  | start, width :: widths => slice bytes start width :: windows bytes (start + width) widths

theorem flatten_windows (bytes : Bytes) (start : Nat) (widths : List Nat) :
    (windows bytes start widths).flatten = slice bytes start widths.sum := by
  induction widths generalizing start with
  | nil => simp [windows, slice]
  | cons width widths ih =>
    rw [windows, List.flatten_cons, ih, slice_append_slice, List.sum_cons]

theorem leBytes_slice (inside : start + count ≤ bytes.length) :
    leBytes count (leNat (slice bytes start count)) = slice bytes start count := by
  have whole := leBytes_leNat (slice bytes start count)
  rwa [slice_length inside] at whole

theorem leNat_slice_lt (bytes : Bytes) (start count : Nat) :
    leNat (slice bytes start count) < 256 ^ count := by
  have narrow : (slice bytes start count).length ≤ count := List.length_take_le ..
  exact (leNat_lt _).trans_le (Nat.pow_le_pow_right (by decide) narrow)

theorem slice_one {place : Nat} (inside : place < bytes.length) :
    [bytes.getD place 0] = slice bytes place 1 := by
  rw [slice, List.take_one, List.head?_drop, List.getD_eq_getElem?_getD,
    List.getElem?_eq_getElem inside]
  rfl

theorem leBytes_ofNat_slice {place : Nat} (inside : place + 8 ≤ bytes.length) :
    leBytes 8 (UInt64.ofNat (leNat (slice bytes place 8))).toNat = slice bytes place 8 := by
  have fits := leNat_lt (slice bytes place 8)
  rw [slice_length inside] at fits
  rw [UInt64.toNat_ofNat_of_lt' fits, leBytes_slice inside]

theorem slice_front (front back : Bytes) :
    slice (front ++ back) 0 front.length = front := by
  simp [slice]

theorem slice_flatten (fields : List Bytes) (back : Bytes) (index : Nat) {start count : Nat}
    {field : Bytes} (present : fields[index]? = some field)
    (place : (fields.take index).flatten.length = start) (width : field.length = count) :
    slice (fields.flatten ++ back) start count = field := by
  obtain ⟨inside, rfl⟩ := List.getElem?_eq_some_iff.mp present
  subst place width
  -- The record splits into what lies before the field, the field, and what lies behind it.
  have split : fields.flatten = (fields.take index).flatten
      ++ (fields[index] ++ (fields.drop (index + 1)).flatten) := by
    calc fields.flatten = (fields.take index ++ fields.drop index).flatten := by
          rw [List.take_append_drop]
      _ = _ := by rw [List.flatten_append, List.drop_eq_getElem_cons inside, List.flatten_cons]
  rw [split]
  simp [slice]

/--
Every byte of the image is the byte written there, or zero.

This is what an interrupted write leaves behind, byte by byte and in any pattern.
-/
def Torn (written image : Bytes) : Prop :=
  List.Forall₂ (fun byte left => left = byte ∨ left = 0) written image

theorem Torn.length_eq (torn : Torn written image) :
    image.length = written.length := (List.Forall₂.length_eq torn).symm

theorem Torn.refl (written : Bytes) : Torn written written :=
  List.forall₂_same.mpr fun _ _ => .inl rfl

theorem Torn.zeros (written : Bytes) : Torn written (List.replicate written.length 0) := by
  induction written with
  | nil => exact .nil
  | cons byte rest ih => exact .cons (.inr rfl) ih

theorem Torn.cut (written : Bytes) (count : Nat) :
    Torn written (written.take count ++ List.replicate (written.length - count) 0) := by
  have back := Torn.zeros (written.drop count)
  rw [List.length_drop] at back
  have whole : Torn (written.take count ++ written.drop count) _ :=
    List.rel_append (Torn.refl (written.take count)) back
  rwa [List.take_append_drop] at whole

theorem Torn.append_split {first second : Bytes} (torn : Torn (first ++ second) image) :
    ∃ left right, image = left ++ right ∧ Torn first left ∧ Torn second right := by
  -- The image is cut where the first write ends.
  refine ⟨image.take first.length, image.drop first.length, (List.take_append_drop _ _).symm,
    ?_, ?_⟩
  · simpa [Torn] using List.forall₂_take first.length torn
  · simpa [Torn] using List.forall₂_drop first.length torn

theorem Torn.take (torn : Torn written image) (count : Nat) :
    Torn (written.take count) (image.take count) := List.forall₂_take count torn

theorem Torn.drop (torn : Torn written image) (count : Nat) :
    Torn (written.drop count) (image.drop count) := List.forall₂_drop count torn

theorem Torn.slice (torn : Torn written image) (start count : Nat) :
    Torn (slice written start count) (slice image start count) := (torn.drop start).take count

theorem Torn.leNat_le (torn : Torn written image) :
    leNat image ≤ leNat written := by
  induction torn with
  | nil => exact Nat.le_refl _
  | cons head tail ih =>
    simp only [leNat]
    rcases head with rfl | rfl
    · omega
    · simp only [UInt8.toNat_zero]
      omega

theorem Torn.getElem? (torn : Torn written image) (index : Nat) :
    image[index]? = written[index]? ∨ image[index]? = some 0 := by
  induction torn generalizing index with
  | nil => exact .inl rfl
  | cons head tail ih =>
    cases index with
    | zero => rcases head with rfl | rfl <;> simp
    | succ index => simpa using ih index

end Lib
