import Mathlib
import Melin.Lib.Runs

/-! The seqlock: a value that one thread stores word by word, while any number of others load it. -/

namespace Melin.SeqLock

open Lib

/-- A store under way: the sequence it found, its value, and how many words it has copied. -/
structure Store (W : Type) where
  seq : Nat
  value : List W
  copied : Nat

/-- A load under way: the sequence it found, and the words it has copied. -/
structure Load (W : Type) where
  seq1 : Nat
  copied : List W

structure Cell (W : Type) where
  sequence : Nat
  words : List W
  writer : Option (Store W)
  readers : Nat → Option (Load W)
  /-- A record of the values stored whole, the first one in front, which nothing reads. -/
  values : List (List W)
  /-- A record of what loads returned, with the index that the newest value had at that moment. -/
  loaded : List (Nat × List W)

/-- One access to what is shared; the fences keep a thread's in their order. -/
inductive Access (W : Type) where
  /-- A store begins: the sequence goes odd. -/
  | store (value : List W)
  /-- The store copies its next word. -/
  | put
  /-- The store ends: the sequence goes even. -/
  | stored
  /-- A reader reads the sequence, and begins to copy unless it is odd. -/
  | load (reader : Nat)
  /-- It copies the next word. -/
  | get (reader : Nat)
  /-- It reads the sequence again, and returns its copy where that has not changed. -/
  | check (reader : Nat)

variable {W : Type}

namespace Cell

def split (value : List W) : Cell W where
  sequence := 0
  words := value
  writer := none
  readers _ := none
  values := [value]
  loaded := []

def setReader (cell : Cell W) (reader : Nat) (load : Option (Load W))
    (loaded : List (Nat × List W)) : Cell W :=
  { cell with readers := Function.update cell.readers reader load, loaded }

def copying (cell : Cell W) (reader : Nat) (load : Load W) : Cell W :=
  cell.setReader reader (some load) cell.loaded

def step (access : Access W) (cell : Cell W) : Option (Cell W) :=
  match access with
  | .store value =>
    if cell.writer = none ∧ value.length = cell.words.length then
      some { cell with
        sequence := (cell.sequence + 1) % 2 ^ 64
        writer := some { seq := cell.sequence, value, copied := 0 } }
    else none
  | .put => do
    let store ← cell.writer
    let word ← store.value[store.copied]?
    some { cell with
      words := cell.words.set store.copied word
      writer := some { store with copied := store.copied + 1 } }
  | .stored => do
    let store ← cell.writer
    if store.copied = store.value.length then
      some { cell with
        sequence := (store.seq + 2) % 2 ^ 64
        writer := none
        values := cell.values ++ [store.value] }
    else none
  | .load reader =>
    if cell.readers reader = none then
      if cell.sequence % 2 = 0 then
        some (cell.copying reader { seq1 := cell.sequence, copied := [] })
      else some cell
    else none
  | .get reader => do
    let load ← cell.readers reader
    let word ← cell.words[load.copied.length]?
    some (cell.copying reader { load with copied := load.copied ++ [word] })
  | .check reader => do
    let load ← cell.readers reader
    if load.copied.length = cell.words.length then
      some (cell.setReader reader none
        (if load.seq1 = cell.sequence then cell.loaded ++ [(cell.values.length - 1, load.copied)]
        else cell.loaded))
    else none

/-- A load that began on the newest value has copied the front of it, if no store has begun. -/
structure Copies (cell : Cell W) (load : Load W) (began : Nat) : Prop where
  older : began < cell.values.length
  seq1 : load.seq1 = 2 * began % 2 ^ 64
  front : began + 1 = cell.values.length → cell.writer = none →
    load.copied = cell.words.take load.copied.length

/-- What holds between any two accesses. -/
structure Sound (cell : Cell W) : Prop where
  nonempty : 0 < cell.values.length
  idle : cell.writer = none →
    cell.values.getLast? = some cell.words ∧ cell.sequence = 2 * (cell.values.length - 1) % 2 ^ 64
  busy : ∀ store, cell.writer = some store →
    store.seq = 2 * (cell.values.length - 1) % 2 ^ 64 ∧ cell.sequence = (store.seq + 1) % 2 ^ 64 ∧
      store.value.length = cell.words.length ∧
      cell.words.take store.copied = store.value.take store.copied
  readers : ∀ reader load, cell.readers reader = some load → ∃ began, Copies cell load began
  /-- The sequence must not have come around. -/
  loaded : cell.values.length ≤ 2 ^ 63 →
    ∀ entry ∈ cell.loaded, cell.values[entry.1]? = some entry.2

variable {cell : Cell W}

theorem Sound.even_iff (sound : Sound cell) : cell.sequence % 2 = 0 ↔ cell.writer = none := by
  cases isWriter : cell.writer with
  | none =>
    have idle := (sound.idle isWriter).2
    simp only [iff_true]
    omega
  | some store =>
    obtain ⟨seq, sequence, -⟩ := sound.busy store isWriter
    simp only [reduceCtorEq, iff_false]
    omega

theorem Sound.setReader (sound : Sound cell) (reader : Nat) {load : Option (Load W)}
    {loaded : List (Nat × List W)} (copies : ∀ now ∈ load, ∃ began, Copies cell now began)
    (returned : cell.values.length ≤ 2 ^ 63 →
      ∀ entry ∈ loaded, cell.values[entry.1]? = some entry.2) :
    Sound (cell.setReader reader load loaded) := by
  refine { sound with readers := fun other now isLoad => ?_, loaded := returned }
  obtain ⟨began, held⟩ : ∃ began, Copies cell now began := by
    rcases eq_or_ne other reader with rfl | apart
    · exact copies now (by simpa [Cell.setReader] using isLoad)
    · exact sound.readers other now (by simpa [Cell.setReader, apart] using isLoad)
  exact ⟨began, { held with }⟩

/-- A copy is whole where the sequence is the same: no value was stored since it began. -/
theorem Sound.answer (sound : Sound cell) {load : Load W} {began : Nat}
    (copies : Copies cell load began) (whole : load.copied.length = cell.words.length)
    (same : load.seq1 = cell.sequence) (bounded : cell.values.length ≤ 2 ^ 63) :
    cell.values[cell.values.length - 1]? = some load.copied := by
  obtain ⟨older, seq1, front⟩ := copies
  have idle : cell.writer = none := sound.even_iff.mp (by omega)
  obtain ⟨newest, sequence⟩ := sound.idle idle
  rw [← List.getLast?_eq_getElem?, newest, front (by omega) idle, whole, List.take_length]

theorem Sound.step (access : Access W) (before after : Cell W)
    (stepped : step access before = some after) (sound : Sound before) : Sound after := by
  cases access with
  | store value =>
    simp only [Cell.step, Option.ite_none_right_eq_some, Option.some.injEq] at stepped
    obtain ⟨⟨idle, width⟩, rfl⟩ := stepped
    refine ⟨sound.nonempty, by simp, fun now isNow => ?_, fun reader load isLoad => ?_,
      sound.loaded⟩
    · obtain rfl := Option.some.inj isNow
      exact ⟨(sound.idle idle).2, rfl, width, rfl⟩
    · -- While a store is under way, nothing is asked of a copy.
      obtain ⟨began, copies⟩ := sound.readers reader load isLoad
      exact ⟨began, { copies with front := by simp }⟩
  | put =>
    obtain ⟨store, isWriter, stepped⟩ := Option.bind_eq_some_iff.mp stepped
    obtain ⟨word, isWord, stepped⟩ := Option.bind_eq_some_iff.mp stepped
    obtain rfl := Option.some.inj stepped
    obtain ⟨seq, sequence, width, front⟩ := sound.busy store isWriter
    refine ⟨sound.nonempty, by simp, fun now isNow => ?_, fun reader load isLoad => ?_,
      sound.loaded⟩
    · obtain rfl := Option.some.inj isNow
      have inside := (List.getElem?_eq_some_iff.mp isWord).1
      refine ⟨seq, sequence, by simpa using width, ?_⟩
      dsimp only
      rw [List.take_add_one, List.take_add_one, isWord, List.take_set_of_le le_rfl, front,
        List.getElem?_set_self (width ▸ inside)]
    · obtain ⟨began, copies⟩ := sound.readers reader load isLoad
      exact ⟨began, { copies with front := by simp }⟩
  | stored =>
    obtain ⟨store, isWriter, stepped⟩ := Option.bind_eq_some_iff.mp stepped
    obtain ⟨whole, stepped⟩ := Option.ite_none_right_eq_some.mp stepped
    obtain rfl := Option.some.inj stepped
    obtain ⟨seq, -, width, front⟩ := sound.busy store isWriter
    have nonempty := sound.nonempty
    rw [whole, List.take_length, width, List.take_length] at front
    have longer : (before.values ++ [store.value]).length = before.values.length + 1 := by simp
    refine ⟨by simp, fun _ => ⟨by simp [front], ?_⟩, by simp, fun reader load isLoad => ?_,
      fun bounded entry among => ?_⟩
    · dsimp only
      omega
    · -- It began on a value that is no longer the newest.
      obtain ⟨began, older, seq1, -⟩ := sound.readers reader load isLoad
      exact ⟨began, by dsimp only; omega, seq1, fun newest => by dsimp only at newest; omega⟩
    · have held := sound.loaded (by dsimp only at bounded; omega) entry among
      rwa [List.getElem?_append_left (List.getElem?_eq_some_iff.mp held).1]
  | load reader =>
    obtain ⟨-, stepped⟩ := Option.ite_none_right_eq_some.mp stepped
    split at stepped
    · next even =>
      obtain rfl := Option.some.inj stepped
      refine sound.setReader reader (fun now isNow => ⟨before.values.length - 1, ?_⟩) sound.loaded
      obtain rfl := Option.some.inj isNow
      exact ⟨Nat.sub_one_lt_of_lt sound.nonempty, (sound.idle (sound.even_iff.mp even)).2, by simp⟩
    · exact Option.some.inj stepped ▸ sound
  | get reader =>
    obtain ⟨load, isLoad, stepped⟩ := Option.bind_eq_some_iff.mp stepped
    obtain ⟨word, isWord, stepped⟩ := Option.bind_eq_some_iff.mp stepped
    obtain rfl := Option.some.inj stepped
    obtain ⟨began, copies⟩ := sound.readers reader load isLoad
    refine sound.setReader reader (fun now isNow => ⟨began, ?_⟩) sound.loaded
    obtain rfl := Option.some.inj isNow
    refine { copies with front := fun newest idle => ?_ }
    dsimp only
    rw [List.length_append, List.length_singleton, List.take_add_one, isWord,
      ← copies.front newest idle, Option.toList_some]
  | check reader =>
    obtain ⟨load, isLoad, stepped⟩ := Option.bind_eq_some_iff.mp stepped
    obtain ⟨whole, stepped⟩ := Option.ite_none_right_eq_some.mp stepped
    obtain rfl := Option.some.inj stepped
    obtain ⟨began, copies⟩ := sound.readers reader load isLoad
    refine sound.setReader reader (by simp) fun bounded entry among => ?_
    split at among
    · next same =>
      rcases List.mem_append.mp among with older | now
      · exact sound.loaded bounded entry older
      · obtain rfl := List.mem_singleton.mp now
        exact sound.answer copies whole same bounded
    · exact sound.loaded bounded entry among

theorem run_gets (cell : Cell W) (reader : Nat) (load : Load W) {left : List W}
    (same : load.seq1 = cell.sequence) (words : cell.words = load.copied ++ left) :
    ∃ after, runActs step (List.replicate left.length (.get reader) ++ [.check reader])
        (cell.copying reader load) = some after ∧
      after.loaded = cell.loaded ++ [(cell.values.length - 1, cell.words)] := by
  induction left generalizing load with
  | nil => simp [runActs, step, copying, setReader, words, same]
  | cons word left ih =>
    have next : step (.get reader) (cell.copying reader load)
        = some (cell.copying reader { load with copied := load.copied ++ [word] }) := by
      simp [step, copying, setReader, words]
    rw [List.length_cons, List.replicate_succ, List.cons_append, runActs, next, Option.bind_some]
    exact ih _ same (words.trans (List.append_cons ..))

/--
A load returns the value that was the newest one when it returned, whole, however stores overlap it.

One that no store overlaps does return. The sequence must not have come around, so the stores are
fewer than half of what it counts.
-/
theorem load_returns_newest {value : List W} {accesses : List (Access W)}
    (ran : runActs step accesses (split value) = some cell)
    (bounded : cell.values.length ≤ 2 ^ 63) :
    (∀ entry ∈ cell.loaded, cell.values[entry.1]? = some entry.2) ∧
    ∀ reader, cell.writer = none → cell.readers reader = none → ∃ after,
      runActs step (.load reader :: (List.replicate cell.words.length (.get reader)
        ++ [.check reader])) cell = some after ∧
      cell.values.getLast? = some cell.words ∧
      after.loaded = cell.loaded ++ [(cell.values.length - 1, cell.words)] := by
  have started : Sound (split value) := by constructor <;> simp [split]
  have sound : Sound cell := runActs_keeps step (fun access _ => Sound.step access) ran started
  refine ⟨sound.loaded bounded, fun reader idle free => ?_⟩
  have next : step (.load reader) cell = some (cell.copying reader ⟨cell.sequence, []⟩) := by
    simp [step, free, sound.even_iff.mpr idle]
  obtain ⟨after, copied, loaded⟩ := run_gets cell reader ⟨cell.sequence, []⟩ rfl rfl
  exact ⟨after, by rwa [runActs, next, Option.bind_some], (sound.idle idle).1, loaded⟩

/-- A store overlaps a load, which copies one word from before it and one from behind it. -/
def tornAccesses : List (Access Nat) :=
  [.load 0, .get 0, .store [3, 4], .put, .load 1, .put, .stored, .get 0, .check 0, .load 0, .get 0,
    .get 0, .check 0]

theorem load_returns_newest_torn :
    ∃ cell, runActs step tornAccesses (split [1, 2]) = some cell ∧ cell.loaded = [(1, [3, 4])] ∧
      ∀ entry ∈ cell.loaded, cell.values[entry.1]? = some entry.2 :=
  have ran : runActs step tornAccesses (split [1, 2]) = some _ := rfl
  ⟨_, ran, rfl, (load_returns_newest ran (by decide)).1⟩

end Cell

end Melin.SeqLock
