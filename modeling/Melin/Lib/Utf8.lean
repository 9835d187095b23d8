import Mathlib
import Melin.Lib.Bytes

/-! Texts as UTF-8 bytes: which bytes encode one, and where its characters start. -/

namespace Lib

def utf8Bytes (text : String) : Bytes := text.toByteArray.data.toList

def fromUtf8 (bytes : Bytes) : Option String := String.fromUTF8? ⟨bytes.toArray⟩

def encodeChars (chars : List Char) : Bytes := chars.flatMap String.utf8EncodeChar

def isContinuation (byte : UInt8) : Bool := decide (0x80 ≤ byte ∧ byte < 0xC0)

def isCharBoundary (bytes : Bytes) (index : Nat) : Bool :=
  if index = 0 then true
  else if bytes.length ≤ index then decide (index = bytes.length)
  else !isContinuation (bytes.getD index 0)

theorem utf8Bytes_eq (text : String) : utf8Bytes text = encodeChars text.toList := by
  rw [utf8Bytes, ← String.utf8Encode_toList]
  simp [List.utf8Encode, encodeChars]

@[simp]
theorem utf8Bytes_ofList (chars : List Char) :
    utf8Bytes (String.ofList chars) = encodeChars chars := by
  rw [utf8Bytes_eq, String.toList_ofList]

@[simp]
theorem encodeChars_append (front back : List Char) :
    encodeChars (front ++ back) = encodeChars front ++ encodeChars back :=
  List.flatMap_append

theorem fromUtf8_utf8Bytes (text : String) : fromUtf8 (utf8Bytes text) = some text := by
  have whole : (⟨(utf8Bytes text).toArray⟩ : ByteArray) = text.toByteArray := by
    simp [utf8Bytes]
  rw [fromUtf8, whole, String.fromUTF8?, dif_pos text.isValidUTF8]
  rfl

theorem utf8Bytes_of_fromUtf8 {bytes : Bytes} {text : String} (read : fromUtf8 bytes = some text) :
    utf8Bytes text = bytes := by
  simp only [fromUtf8, String.fromUTF8?] at read
  split at read
  · obtain rfl := Option.some.inj read
    simp [utf8Bytes, String.fromUTF8]
  · cases read

theorem isContinuation_utf8EncodeChar (char : Char) :
    ∃ first others, String.utf8EncodeChar char = first :: others ∧
      isContinuation first = false ∧ ∀ byte ∈ others, isContinuation byte = true := by
  -- The first byte carries the width in its high bits; the others are marked by theirs.
  have small : ∀ value : Nat, value ≤ 0x7F → isContinuation (UInt8.ofNat value) = false := by
    decide
  have lead : ∀ value : Nat, value < 0x40 → isContinuation (UInt8.ofNat (value + 0xC0)) = false := by
    decide
  have later : ∀ value : Nat, value < 0x40 → isContinuation (UInt8.ofNat (value + 0x80)) = true := by
    decide
  have follow : ∀ value : Nat, isContinuation (UInt8.ofNat (value % 0x40 + 0x80)) = true :=
    fun value => later _ (Nat.mod_lt _ (by decide))
  have leads : ∀ value mark : Nat, value + mark < 0x40 →
      isContinuation (UInt8.ofNat (value + (mark + 0xC0))) = false := by
    intro value mark narrow
    rw [← Nat.add_assoc]
    exact lead _ narrow
  simp only [String.utf8EncodeChar]
  split_ifs with one two three
  · exact ⟨_, [], rfl, small _ one, by simp⟩
  · exact ⟨_, _, rfl, leads _ 0 (by omega), by simp only [List.forall_mem_singleton, follow]⟩
  · exact ⟨_, _, rfl, leads _ 0x20 (by omega), by
      simp only [List.forall_mem_cons, follow, List.not_mem_nil, false_implies, implies_true,
        and_self]⟩
  · exact ⟨_, _, rfl, leads _ 0x30 (by omega), by
      simp only [List.forall_mem_cons, follow, List.not_mem_nil, false_implies, implies_true,
        and_self]⟩

theorem isContinuation_encodeChars {chars : List Char} {first : UInt8} {others : Bytes}
    (starts : encodeChars chars = first :: others) : isContinuation first = false := by
  cases chars with
  | nil => cases starts
  | cons char chars =>
    obtain ⟨lead, rest, encoded, isLead, -⟩ := isContinuation_utf8EncodeChar char
    rw [encodeChars, List.flatMap_cons, encoded] at starts
    obtain ⟨rfl, -⟩ := List.cons.inj starts
    exact isLead

theorem isCharBoundary_cons (char : Char) (chars : List Char) (index : Nat) :
    isCharBoundary (encodeChars (char :: chars)) index = true ↔
      index = 0 ∨ ∃ later, isCharBoundary (encodeChars chars) later = true ∧
        index = (String.utf8EncodeChar char).length + later := by
  obtain ⟨first, others, encoded, -, inside⟩ := isContinuation_utf8EncodeChar char
  have split : encodeChars (char :: chars) = first :: others ++ encodeChars chars := by
    rw [encodeChars, List.flatMap_cons, encoded]
    rfl
  rw [split, encoded]
  rcases Nat.eq_zero_or_pos index with rfl | positive
  · simp [isCharBoundary]
  by_cases within : index < (first :: others).length
  · -- Inside the character there is no boundary.
    obtain ⟨place, rfl⟩ : ∃ place, index = place + 1 := ⟨index - 1, by omega⟩
    have here : place < others.length := by simpa using within
    have byte : (first :: others ++ encodeChars chars).getD (place + 1) 0 = others[place] := by
      rw [List.cons_append, List.getD_cons_succ, List.getD_append _ _ _ _ here,
        List.getD_eq_getElem _ _ here]
    have continues := inside others[place] (List.getElem_mem here)
    have short : ¬ (first :: others ++ encodeChars chars).length ≤ place + 1 := by
      simp only [List.length_append]
      omega
    rw [isCharBoundary, if_neg (by omega), if_neg short, byte, continues]
    simp only [Bool.not_true, Bool.false_eq_true, false_iff, not_or, not_exists, not_and]
    exact ⟨by omega, fun later _ => by omega⟩
  · -- Behind it, what follows starts a character or is at the same place of the rest.
    obtain ⟨later, rfl⟩ : ∃ later, index = (first :: others).length + later :=
      ⟨index - (first :: others).length, by omega⟩
    have same : isCharBoundary (first :: others ++ encodeChars chars)
        ((first :: others).length + later) = isCharBoundary (encodeChars chars) later := by
      have place : (first :: others ++ encodeChars chars).getD ((first :: others).length + later) 0
          = (encodeChars chars).getD later 0 := by
        rw [List.getD_append_right _ _ _ _ (by omega), Nat.add_sub_cancel_left]
      rw [isCharBoundary, if_neg (by omega), place, List.length_append]
      simp only [Nat.add_le_add_iff_left, Nat.add_right_inj]
      cases later with
      | succ later => simp [isCharBoundary]
      | zero =>
        cases rest : encodeChars chars with
        | nil => simp [isCharBoundary]
        | cons start more => simp [isCharBoundary, isContinuation_encodeChars rest]
    rw [same]
    constructor
    · exact fun boundary => .inr ⟨later, boundary, rfl⟩
    · rintro (none | ⟨other, boundary, place⟩)
      · omega
      · obtain rfl : later = other := by omega
        exact boundary

theorem isCharBoundary_iff (chars : List Char) (index : Nat) :
    isCharBoundary (encodeChars chars) index = true ↔
      ∃ front back, chars = front ++ back ∧ (encodeChars front).length = index := by
  induction chars generalizing index with
  | nil =>
    rcases Nat.eq_zero_or_pos index with rfl | positive
    · exact ⟨fun _ => ⟨[], [], rfl, rfl⟩, fun _ => rfl⟩
    · have nothing : isCharBoundary (encodeChars []) index = false := by
        simp [isCharBoundary, encodeChars, positive.ne']
      rw [nothing]
      simp only [Bool.false_eq_true, false_iff, not_exists, not_and]
      rintro front back split
      obtain ⟨rfl, -⟩ := List.append_eq_nil_iff.mp split.symm
      exact positive.ne
  | cons char chars ih =>
    have width : ∀ front, (encodeChars (char :: front)).length
        = (String.utf8EncodeChar char).length + (encodeChars front).length := by
      intro front
      rw [encodeChars, List.flatMap_cons, List.length_append]
      rfl
    rw [isCharBoundary_cons]
    constructor
    · rintro (rfl | ⟨later, boundary, rfl⟩)
      · exact ⟨[], char :: chars, rfl, rfl⟩
      · obtain ⟨front, back, rfl, length⟩ := (ih later).mp boundary
        exact ⟨char :: front, back, rfl, by rw [width, length]⟩
    · rintro ⟨front, back, split, length⟩
      cases front with
      | nil => exact .inl length.symm
      | cons first front =>
        obtain ⟨rfl, rest⟩ := List.cons.inj split
        exact .inr ⟨_, (ih _).mpr ⟨front, back, rest, rfl⟩, by rw [← length, width]⟩

end Lib
