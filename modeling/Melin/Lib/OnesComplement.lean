import Melin.Lib.Bytes

/-! One's complement sums of 16-bit words, as the internet checksum takes them. -/

namespace Lib

def beWords : Bytes → List Nat
  | high :: low :: rest => (256 * high.toNat + low.toNat) :: beWords rest
  | [last] => [256 * last.toNat]
  | [] => []

/-- One's complement addition: the carry out of sixteen bits comes back in at the bottom. -/
def onesAdd (left right : Nat) : Nat :=
  (left + right) % 0x10000 + (left + right) / 0x10000

def onesSum (words : List Nat) : Nat := words.foldr onesAdd 0

def ChecksumCorrect (region : Bytes) : Prop := onesSum (beWords region) = 0xFFFF

def onesResidue (sum : Nat) : Nat := if sum = 0 then 0 else (sum - 1) % 0xFFFF + 1

theorem onesResidue_allOnes_iff (sum : Nat) :
    onesResidue sum = 0xFFFF ↔ sum % 0xFFFF = 0 ∧ sum ≠ 0 := by
  unfold onesResidue
  split <;> omega

theorem onesResidue_carry (sum : Nat) :
    onesResidue (sum % 0x10000 + sum / 0x10000) = onesResidue sum := by
  -- A carry is worth 0x10000 where it leaves and one where it comes back.
  unfold onesResidue
  split <;> split <;> omega

theorem onesResidue_small {sum : Nat} (small : sum ≤ 0xFFFF) : onesResidue sum = sum := by
  unfold onesResidue
  split <;> omega

theorem beWords_le {region : Bytes} {word : Nat} (member : word ∈ beWords region) :
    word ≤ 0xFFFF := by
  fun_induction beWords region with
  | case1 high low rest ih =>
    have highLt := high.toNat_lt
    have lowLt := low.toNat_lt
    rcases List.mem_cons.mp member with rfl | later
    · omega
    · exact ih later
  | case2 last =>
    have lastLt := last.toNat_lt
    rw [List.mem_singleton.mp member]
    omega
  | case3 => cases member

theorem onesSum_eq_residue {words : List Nat} (narrow : ∀ word ∈ words, word ≤ 0xFFFF) :
    onesSum words = onesResidue words.sum := by
  induction words with
  | nil => rfl
  | cons word words ih =>
    have wordLe := narrow word List.mem_cons_self
    have later := ih fun other member => narrow other (List.mem_cons_of_mem _ member)
    change onesAdd word (onesSum words) = _
    rw [later, List.sum_cons]
    -- Two words leave room for one carry only, so the sum is its own residue behind it.
    unfold onesAdd onesResidue
    split <;> split <;> omega

theorem checksumCorrect_iff (region : Bytes) :
    ChecksumCorrect region ↔ (beWords region).sum % 0xFFFF = 0 ∧ (beWords region).sum ≠ 0 := by
  rw [ChecksumCorrect, onesSum_eq_residue fun word => beWords_le, onesResidue_allOnes_iff]

theorem beWords_append {front : Bytes} (back : Bytes) (even : front.length % 2 = 0) :
    beWords (front ++ back) = beWords front ++ beWords back := by
  fun_induction beWords front with
  | case1 high low rest ih =>
    have evenRest : rest.length % 2 = 0 := by
      simp only [List.length_cons] at even
      omega
    simp [beWords, ih evenRest]
  | case2 last => simp at even
  | case3 => rfl

theorem beWords_sum_le (region : Bytes) :
    (beWords region).sum ≤ 0xFFFF * ((region.length + 1) / 2) := by
  fun_induction beWords region with
  | case1 high low rest ih =>
    have highLt := high.toNat_lt
    have lowLt := low.toNat_lt
    simp only [List.sum_cons, List.length_cons]
    omega
  | case2 last =>
    have lastLt := last.toNat_lt
    simp only [List.sum_singleton, List.length_singleton]
    omega
  | case3 => simp

def setWord (bytes : Bytes) (place : Nat) (high low : UInt8) : Bytes :=
  (bytes.set place high).set (place + 1) low

/-- A word is changed to one that stands for another residue: neither kept, nor one zero put for
the other. -/
def Altered (old new : Nat) : Prop :=
  old ≠ new ∧ ¬ (old = 0 ∧ new = 0xFFFF) ∧ ¬ (old = 0xFFFF ∧ new = 0)

instance (old new : Nat) : Decidable (Altered old new) := inferInstanceAs (Decidable (_ ∧ _ ∧ _))

theorem beWords_setWord (region : Bytes) (index : Nat) (high low : UInt8) :
    ∃ word, beWords (setWord region (2 * index) high low) = (beWords region).set index word := by
  induction index generalizing region with
  | zero =>
    match region with
    | [] => exact ⟨0, rfl⟩
    | [last] => exact ⟨256 * high.toNat, rfl⟩
    | first :: second :: rest => exact ⟨256 * high.toNat + low.toNat, rfl⟩
  | succ index ih =>
    match region with
    | [] => exact ⟨0, rfl⟩
    | [last] => exact ⟨0, by simp [setWord, beWords, Nat.mul_add]⟩
    | first :: second :: rest =>
      obtain ⟨word, replaced⟩ := ih rest
      refine ⟨word, ?_⟩
      have shifted : setWord (first :: second :: rest) (2 * (index + 1)) high low
          = first :: second :: setWord rest (2 * index) high low := by
        simp [setWord, Nat.mul_add]
      rw [shifted]
      simp [beWords, replaced]

theorem sum_set {words : List Nat} {index old : Nat} (found : words[index]? = some old)
    (new : Nat) : (words.set index new).sum + old = words.sum + new := by
  induction words generalizing index with
  | nil => simp at found
  | cons word words ih =>
    cases index with
    | zero =>
      cases found
      simp only [List.set_cons_zero, List.sum_cons]
      omega
    | succ index =>
      have later := ih found
      simp only [List.set_cons_succ, List.sum_cons]
      omega

theorem not_correct_of_altered {region : Bytes} {index : Nat} {high low : UInt8} {old new : Nat}
    (correct : ChecksumCorrect region) (was : (beWords region)[index]? = some old)
    (is : (beWords (setWord region (2 * index) high low))[index]? = some new)
    (altered : Altered old new) :
    ¬ ChecksumCorrect (setWord region (2 * index) high low) := by
  intro still
  have oldLe : old ≤ 0xFFFF := beWords_le (List.mem_of_getElem? was)
  have newLe : new ≤ 0xFFFF := beWords_le (List.mem_of_getElem? is)
  obtain ⟨word, replaced⟩ := beWords_setWord region index high low
  rw [checksumCorrect_iff] at correct still
  rw [replaced] at is still
  have inside : index < (beWords region).length := (List.getElem?_eq_some_iff.mp was).1
  rw [List.getElem?_set_self inside, Option.some.injEq] at is
  subst is
  -- The sums differ by two words, which only differ in residue if they are no zeros.
  have shifted := sum_set was word
  unfold Altered at altered
  omega

end Lib
