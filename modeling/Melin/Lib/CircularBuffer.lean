import Mathlib

/-! A circular buffer with a power of two for its capacity, and the queue it stands for. -/

namespace Lib

/-- A fixed number of cells, of which so many from the head on, around the end, are in use. -/
structure CircularBuffer (α : Type) where
  cells : List α
  head : Nat
  used : Nat
  power : cells.length.isPowerOfTwo
  headFits : head < cells.length
  usedFits : used ≤ cells.length

namespace CircularBuffer

variable {α : Type} (ring : CircularBuffer α)

def capacity : Nat := ring.cells.length

def place (offset : Nat) : Nat := (ring.head + offset) &&& (ring.capacity - 1)

theorem place_eq_mod (offset : Nat) : ring.place offset = (ring.head + offset) % ring.capacity := by
  obtain ⟨exponent, power⟩ := ring.power
  rw [place, capacity, power, Nat.and_two_pow_sub_one_eq_mod]

theorem capacity_pos : 0 < ring.capacity := Nat.zero_lt_of_lt ring.headFits

theorem place_lt (offset : Nat) : ring.place offset < ring.cells.length := by
  rw [place_eq_mod]
  exact Nat.mod_lt _ ring.capacity_pos

theorem place_inj {one other : Nat} (oneFits : one < ring.capacity) (otherFits : other < ring.capacity)
    (same : ring.place one = ring.place other) : one = other := by
  rw [place_eq_mod, place_eq_mod] at same
  have congruent : one % ring.capacity = other % ring.capacity := Nat.ModEq.add_left_cancel' _ same
  rwa [Nat.mod_eq_of_lt oneFits, Nat.mod_eq_of_lt otherFits] at congruent

def items : List α := List.ofFn fun offset : Fin ring.used =>
  ring.cells.get ⟨ring.place offset, ring.place_lt offset⟩

@[simp] theorem items_length : ring.items.length = ring.used := List.length_ofFn

theorem getElem?_items {offset : Nat} (inside : offset < ring.used) :
    ring.items[offset]? = ring.cells[ring.place offset]? := by
  rw [items, List.getElem?_ofFn, dif_pos inside, List.getElem?_eq_getElem (ring.place_lt offset)]
  rfl

def empty (cell : α) (capacity : Nat) (power : capacity.isPowerOfTwo) : CircularBuffer α where
  cells := List.replicate capacity cell
  head := 0
  used := 0
  power := by rwa [List.length_replicate]
  headFits := by
    obtain ⟨exponent, rfl⟩ := power
    rw [List.length_replicate]
    positivity
  usedFits := Nat.zero_le _

def push (item : α) (room : ring.used < ring.capacity) : CircularBuffer α :=
  { ring with
    cells := ring.cells.set (ring.place ring.used) item
    used := ring.used + 1
    power := by rw [List.length_set]; exact ring.power
    headFits := by rw [List.length_set]; exact ring.headFits
    usedFits := by rw [List.length_set]; exact room }

theorem items_push (item : α) (room : ring.used < ring.capacity) :
    (ring.push item room).items = ring.items ++ [item] := by
  have place : ∀ offset, (ring.push item room).place offset = ring.place offset := by
    intro offset
    simp [CircularBuffer.place, push, capacity]
  refine List.ext_getElem? fun offset => ?_
  rcases Nat.lt_trichotomy offset ring.used with before | rfl | behind
  · rw [getElem?_items _ (Nat.lt_succ_of_lt before), place,
      List.getElem?_append_left (by rwa [items_length]), ring.getElem?_items before]
    exact List.getElem?_set_ne fun same =>
      before.ne (ring.place_inj (before.trans room) room same.symm)
  · rw [getElem?_items _ (Nat.lt_succ_self _), place,
      List.getElem?_append_right (by rw [items_length])]
    simp [push, List.getElem?_set_self (ring.place_lt _)]
  · rw [List.getElem?_eq_none (by rw [items_length]; exact behind),
      List.getElem?_eq_none (by simp; omega)]

def modifyLast (change : α → α) : CircularBuffer α :=
  { ring with
    cells := ring.cells.modify (ring.place (ring.used - 1)) change
    power := by rw [List.length_modify]; exact ring.power
    headFits := by rw [List.length_modify]; exact ring.headFits
    usedFits := by rw [List.length_modify]; exact ring.usedFits }

theorem items_modifyLast (change : α → α) {front : List α} {last : α}
    (split : ring.items = front ++ [last]) :
    (ring.modifyLast change).items = front ++ [change last] := by
  have count : ring.used = front.length + 1 := by
    rw [← ring.items_length, split, List.length_append]
    rfl
  have place : ∀ offset, (ring.modifyLast change).place offset = ring.place offset := by
    intro offset
    simp [CircularBuffer.place, modifyLast, capacity]
  have changed : (ring.modifyLast change).cells
      = ring.cells.modify (ring.place front.length) change := by
    have last : front.length = ring.used - 1 := by omega
    rw [last]
    rfl
  have inside : ∀ {offset}, offset < front.length + 1 → offset < ring.capacity := fun offset =>
    lt_of_lt_of_le (count ▸ offset) ring.usedFits
  refine List.ext_getElem? fun offset => ?_
  rcases Nat.lt_trichotomy offset front.length with before | rfl | behind
  · have here : offset < ring.used := by omega
    rw [(ring.modifyLast change).getElem?_items here, place, changed,
      List.getElem?_append_left before,
      List.getElem?_modify_ne _ _ fun same =>
        before.ne' (ring.place_inj (inside (by omega)) (inside (by omega)) same),
      ← ring.getElem?_items here, split, List.getElem?_append_left before]
  · have here : front.length < ring.used := by omega
    rw [(ring.modifyLast change).getElem?_items here, place, changed, List.getElem?_modify_eq,
      ← ring.getElem?_items here, split]
    simp
  · have same : (ring.modifyLast change).used = ring.used := rfl
    rw [List.getElem?_eq_none (by rw [items_length, same]; omega),
      List.getElem?_eq_none (by rw [List.length_append, List.length_singleton]; omega)]

def pop : CircularBuffer α :=
  { ring with
    head := ring.place 1
    used := ring.used - 1
    headFits := ring.place_lt 1
    usedFits := (Nat.sub_le ..).trans ring.usedFits }

theorem items_pop : ring.pop.items = ring.items.tail := by
  have place : ∀ offset, ring.pop.place offset = ring.place (offset + 1) := by
    intro offset
    have width : ring.pop.capacity = ring.capacity := rfl
    have front : ring.pop.head = (ring.head + 1) % ring.capacity := ring.place_eq_mod 1
    rw [place_eq_mod, place_eq_mod, width, front, Nat.mod_add_mod]
    congr 1
    omega
  have count : ring.pop.used = ring.used - 1 := rfl
  refine List.ext_getElem? fun offset => ?_
  rw [List.getElem?_tail]
  by_cases inside : offset < ring.pop.used
  · rw [ring.pop.getElem?_items inside, place, ring.getElem?_items (by omega)]
    rfl
  · rw [List.getElem?_eq_none (by rw [items_length]; omega),
      List.getElem?_eq_none (by rw [items_length]; omega)]

def front : Option α := if 0 < ring.used then ring.cells[ring.head]? else none

theorem front_eq : ring.front = ring.items.head? := by
  rw [front, List.head?_eq_getElem?]
  split
  · rename_i some
    have here : ring.place 0 = ring.head := by
      rw [place_eq_mod, Nat.add_zero]
      exact Nat.mod_eq_of_lt ring.headFits
    rw [ring.getElem?_items some, here]
  · rename_i none
    rw [List.getElem?_eq_none (by rw [items_length]; omega)]

end CircularBuffer

end Lib
