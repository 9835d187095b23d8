import Mathlib

/-! General facts about lists: what holds at every place of a record, ordered sublists. -/

namespace Lib

section

variable {α : Type}

def EachAfter (holds : List α → α → Prop) (items : List α) : Prop :=
  ∀ before item after, items = before ++ item :: after → holds before item

theorem EachAfter.nil (holds : List α → α → Prop) : EachAfter holds [] := by
  intro before item after split
  simp at split

theorem EachAfter.snoc {holds : List α → α → Prop} {items : List α} {last : α}
    (each : EachAfter holds items) (lastHolds : holds items last) :
    EachAfter holds (items ++ [last]) := by
  intro before item after split
  -- The item is the last one, or it stood in the shorter list already.
  rcases List.eq_nil_or_concat after with rfl | ⟨rest, final, rfl⟩
  · obtain ⟨rfl, rfl⟩ := List.append_inj' split rfl |>.imp_right List.singleton_inj.mp
    exact lastHolds
  · rw [List.concat_eq_append, ← List.cons_append, ← List.append_assoc] at split
    exact each before item rest (List.append_inj' split rfl).1

theorem forall₂_mapIdx {β γ : Type} {related : α → β → Prop} {other : γ → β → Prop}
    {items : List α} {others : List β} (each : List.Forall₂ related items others)
    (f : Nat → α → γ) (maps : ∀ place item value, related item value → other (f place item) value) :
    List.Forall₂ other (items.mapIdx f) others := by
  induction each generalizing f with
  | nil => exact .nil
  | cons head _ ih =>
    rw [List.mapIdx_cons]
    exact .cons (maps 0 _ _ head) (ih _ fun place => maps (place + 1))

theorem exists_getElem?_of_forall₂ {β : Type} {related : α → β → Prop} {items : List α}
    {others : List β} (each : List.Forall₂ related items others) {place : Nat} {other : β}
    (found : others[place]? = some other) :
    ∃ item, items[place]? = some item ∧ related item other := by
  induction each generalizing place with
  | nil => simp at found
  | cons head _ ih =>
    cases place with
    | zero =>
      obtain rfl : _ = other := by simpa using found
      exact ⟨_, rfl, head⟩
    | succ place => exact ih (by simpa using found)

theorem sublist_of_increasing (key : α → Nat) {chosen items : List α}
    (chosenOrder : chosen.Pairwise (key · < key ·)) (order : items.Pairwise (key · < key ·))
    (within : chosen ⊆ items) : chosen.Sublist items := by
  have distinct : chosen.Nodup := chosenOrder.imp fun {a b} less same => by
    rw [same] at less
    exact lt_irrefl _ less
  have antisymmetric : Std.Antisymm fun a b : α => key a < key b :=
    ⟨fun _ _ less more => absurd (less.trans more) (lt_irrefl _)⟩
  exact List.sublist_of_subperm_of_pairwise (List.subperm_of_subset distinct within) chosenOrder
    order

end

theorem sublist_dropWhile {α : Type} (test : α → Bool) {part whole : List α}
    (sub : part.Sublist whole) : (part.dropWhile test).Sublist (whole.dropWhile test) := by
  induction sub with
  | slnil => exact List.Sublist.refl _
  | @cons part whole item sub ih =>
    rw [List.dropWhile_cons]
    split
    · exact ih
    · exact ((List.dropWhile_sublist _).trans sub).cons item
  | @cons_cons part whole item sub ih =>
    rw [List.dropWhile_cons, List.dropWhile_cons]
    split
    · exact ih
    · exact sub.cons_cons item

end Lib
