import Melin.Lib.FileSystem

/-! Files whose write calls may take less than they are given, and what repeated calls leave. -/

namespace Lib

def byteAt (content : Bytes) (place : Nat) : UInt8 := content.getD place 0

@[simp] theorem length_writeAt (content : Bytes) (offset : Nat) (bytes : Bytes) :
    (writeAt content offset bytes).length = max content.length (offset + bytes.length) := by
  simp only [writeAt, List.length_append, List.length_take, List.length_replicate, List.length_drop]
  omega

theorem byteAt_writeAt (content : Bytes) (offset : Nat) (bytes : Bytes) (place : Nat) :
    byteAt (writeAt content offset bytes) place
      = if offset ≤ place ∧ place < offset + bytes.length then byteAt bytes (place - offset)
        else byteAt content place := by
  -- The content is cut in four: the front, the gap, the window, and what lies behind it.
  have front : (content.take offset ++ List.replicate (offset - content.length) (0 : UInt8)).length
      = offset := by
    rw [List.length_append, List.length_take, List.length_replicate]
    omega
  simp only [byteAt, List.getD_eq_getElem?_getD, writeAt]
  rcases Nat.lt_or_ge place offset with before | behind
  · rw [if_neg (by omega), List.append_assoc, List.getElem?_append_left (by omega)]
    rcases Nat.lt_or_ge place content.length with inside | outside
    · rw [List.getElem?_append_left (by rw [List.length_take]; omega),
        List.getElem?_take_of_lt before]
    · -- The gap reads as zeros, and so does the file behind its end.
      rw [List.getElem?_append_right (by rw [List.length_take]; omega), List.getElem?_replicate,
        if_pos (by rw [List.length_take]; omega), List.getElem?_eq_none outside]
      rfl
  · rcases Nat.lt_or_ge place (offset + bytes.length) with inside | outside
    · rw [if_pos ⟨behind, inside⟩, List.append_assoc, List.getElem?_append_right (by omega), front,
        List.getElem?_append_left (by omega)]
    · rw [if_neg (by omega), List.getElem?_append_right (by rw [List.length_append]; omega),
        List.length_append, front, List.getElem?_drop]
      congr 2
      omega

theorem eq_of_byteAt {one other : Bytes} (agree : ∀ place, byteAt one place = byteAt other place)
    (length : one.length = other.length) : one = other := by
  refine List.ext_getElem length fun place inside otherInside => ?_
  have here := agree place
  rwa [byteAt, byteAt, List.getD_eq_getElem _ _ inside, List.getD_eq_getElem _ _ otherInside] at here

theorem eq_append_zeros_of_byteAt {one other : Bytes}
    (agree : ∀ place, byteAt one place = byteAt other place) (shorter : one.length ≤ other.length) :
    ∃ zeros, other = one ++ List.replicate zeros 0 := by
  refine ⟨other.length - one.length, eq_of_byteAt (fun place => ?_) ?_⟩
  · rw [← agree, byteAt, byteAt, List.getD_eq_getElem?_getD, List.getD_eq_getElem?_getD]
    rcases Nat.lt_or_ge place one.length with inside | outside
    · rw [List.getElem?_append_left inside]
    · -- Behind the shorter one there is nothing, and that reads as zero.
      rw [List.getElem?_append_right outside, List.getElem?_eq_none outside, List.getElem?_replicate]
      split <;> rfl
  · rw [List.length_append, List.length_replicate]
    omega

theorem byteAt_allocate (content : Bytes) (length place : Nat) :
    byteAt (FileOp.apply content (.allocate length)) place = byteAt content place := by
  simp only [FileOp.apply, byteAt, List.getD_eq_getElem?_getD]
  rcases Nat.lt_or_ge place content.length with inside | outside
  · rw [List.getElem?_append_left inside]
  · rw [List.getElem?_append_right outside, List.getElem?_eq_none outside, List.getElem?_replicate]
    split <;> rfl

@[simp] theorem length_allocate (content : Bytes) (length : Nat) :
    (FileOp.apply content (.allocate length)).length = max content.length length := by
  simp only [FileOp.apply, List.length_append, List.length_replicate]
  omega

theorem writeAt_writeAt (content : Bytes) (offset : Nat) (front back : Bytes) :
    writeAt (writeAt content offset front) (offset + front.length) back
      = writeAt content offset (front ++ back) := by
  refine eq_of_byteAt (fun place => ?_) ?_
  · -- A place is in the window of the first write, of the second, or of neither.
    simp only [byteAt_writeAt, List.length_append]
    simp only [byteAt, List.getD_eq_getElem?_getD, List.getElem?_append]
    split_ifs <;> first | rfl | omega | (congr 2; omega)
  · simp only [length_writeAt, List.length_append]
    omega

def Below (place : Nat) (before after : Bytes) : Prop := before.take place <+: after

theorem Below.refl (place : Nat) (content : Bytes) : Below place content content :=
  List.take_prefix _ _

theorem Below.trans {place : Nat} {before between after : Bytes}
    (first : Below place before between) (second : Below place between after) :
    Below place before after := by
  -- The front is short enough to be inside the front that is kept next.
  refine List.IsPrefix.trans ?_ second
  rw [List.prefix_take_iff]
  exact ⟨first, by rw [List.length_take]; omega⟩

theorem below_writeAt {place offset : Nat} (content bytes : Bytes) (behind : place ≤ offset) :
    Below place content (writeAt content offset bytes) := by
  simp only [Below, writeAt, List.append_assoc]
  refine List.IsPrefix.trans ?_ (List.prefix_append _ _)
  rw [List.prefix_take_iff]
  exact ⟨List.take_prefix _ _, by rw [List.length_take]; omega⟩

/-- Drop the first so many bytes off a list of buffers, and the buffers this empties. -/
def advanceSlices : List Bytes → Nat → List Bytes
  | [], _ => []
  | buf :: bufs, count =>
    if buf.length ≤ count then advanceSlices bufs (count - buf.length) else buf.drop count :: bufs

theorem flatten_advanceSlices (bufs : List Bytes) (count : Nat) :
    (advanceSlices bufs count).flatten = bufs.flatten.drop count := by
  induction bufs generalizing count with
  | nil => simp [advanceSlices]
  | cons buf bufs ih =>
    rw [advanceSlices, List.flatten_cons, List.drop_append]
    split
    · rename_i whole
      rw [ih, List.drop_eq_nil_of_le whole, List.nil_append]
    · rename_i part
      rw [List.flatten_cons, Nat.sub_eq_zero_of_le (by omega), List.drop_zero]

theorem advanceSlices_eq_nil {bufs : List Bytes} {count : Nat}
    (all : bufs.flatten.length ≤ count) : advanceSlices bufs count = [] := by
  induction bufs generalizing count with
  | nil => rfl
  | cons buf bufs ih =>
    rw [List.flatten_cons, List.length_append] at all
    rw [advanceSlices, if_pos (by omega)]
    exact ih (by omega)

inductive KernelAnswer (ε : Type) where
  /-- The call takes at most so many of the bytes it is given. -/
  | takes (count : Nat)
  /-- The call fails, after at most so many bytes. -/
  | fails (err : ε) (landed : Nat)

def KernelAnswer.Works {ε : Type} (answer : KernelAnswer ε) : Prop :=
  ∃ count, 0 < count ∧ answer = .takes count

structure ShortDevice (ε : Type) where
  content : Bytes
  /-- The answers to the next write calls. -/
  answers : List (KernelAnswer ε)
  /-- The next calls to reserve space: why each is refused, if it is. -/
  refusals : List (Option ε)

namespace ShortDevice

variable {ε : Type}

def land (device : ShortDevice ε) (offset : Nat) (bytes : Bytes) : ShortDevice ε :=
  if bytes = [] then device else { device with content := writeAt device.content offset bytes }

def pwrite (device : ShortDevice ε) (offset : Nat) (bytes : Bytes) :
    Except ε Nat × ShortDevice ε :=
  match device.answers with
  | [] => (.ok bytes.length, device.land offset bytes)
  | .takes count :: answers =>
    (.ok (min count bytes.length), { device with answers }.land offset (bytes.take count))
  | .fails err landed :: answers =>
    (.error err, { device with answers }.land offset (bytes.take landed))

def fallocate (device : ShortDevice ε) (length : Nat) : Except ε Unit × ShortDevice ε :=
  match device.refusals with
  | some err :: refusals => (.error err, { device with refusals })
  | refusals =>
    (.ok (), { device with content := FileOp.apply device.content (.allocate length)
                           refusals := refusals.tail })

/-- Every write call that is given bytes takes some, and no space is refused. -/
structure Working (device : ShortDevice ε) : Prop where
  writes : ∀ answer ∈ device.answers, answer.Works
  reserves : ∀ refusal ∈ device.refusals, refusal = none

@[simp] theorem answers_land (device : ShortDevice ε) (offset : Nat) (bytes : Bytes) :
    (device.land offset bytes).answers = device.answers := by
  rw [land]
  split <;> rfl

@[simp] theorem refusals_land (device : ShortDevice ε) (offset : Nat) (bytes : Bytes) :
    (device.land offset bytes).refusals = device.refusals := by
  rw [land]
  split <;> rfl

theorem pwrite_eq_ok {device after : ShortDevice ε} {offset count : Nat} {bytes : Bytes}
    (wrote : device.pwrite offset bytes = (.ok count, after)) :
    count ≤ bytes.length ∧
      after = { device with answers := device.answers.tail }.land offset (bytes.take count) ∧
      (count ≠ 0 → ∀ answer ∈ device.answers.head?, answer.Works) := by
  rw [pwrite] at wrote
  split at wrote
  · rename_i none
    obtain ⟨taken, rfl⟩ := Prod.mk.inj wrote
    obtain rfl := Except.ok.inj taken
    rw [List.take_length, none]
    exact ⟨Nat.le_refl _, by rw [List.tail_nil, ← none], by simp⟩
  · rename_i most answers next
    obtain ⟨taken, rfl⟩ := Prod.mk.inj wrote
    obtain rfl := Except.ok.inj taken
    -- Asking for more than there is takes all there is.
    rw [next, List.tail_cons, List.take_eq_take_min, List.head?_cons]
    refine ⟨Nat.min_le_right _ _, rfl, fun taken answer same => ?_⟩
    cases same
    exact ⟨most, by omega, rfl⟩
  · simp at wrote

/-- Where calls work, a write of some bytes takes some of them, and the next calls work too. -/
theorem Working.pwrite {device : ShortDevice ε} (working : device.Working) (offset : Nat)
    {bytes : Bytes} (some : bytes ≠ []) :
    ∃ count after, device.pwrite offset bytes = (.ok count, after) ∧ count ≠ 0 ∧ after.Working := by
  have positive := List.length_pos_iff.mpr some
  rw [ShortDevice.pwrite]
  split
  · refine ⟨_, _, rfl, by omega, ⟨?_, ?_⟩⟩
    · rw [answers_land]
      exact working.writes
    · rw [refusals_land]
      exact working.reserves
  · rename_i count answers next
    have works := working.writes
    rw [next] at works
    obtain ⟨least, isSome, same⟩ := works (.takes count) List.mem_cons_self
    cases same
    refine ⟨_, _, rfl, by omega, ⟨?_, ?_⟩⟩
    · rw [answers_land]
      exact fun answer later => works answer (List.mem_cons_of_mem _ later)
    · rw [refusals_land]
      exact working.reserves
  · rename_i err count answers next
    obtain ⟨least, -, same⟩ := working.writes (.fails err count) (by rw [next]; exact List.mem_cons_self)
    cases same

theorem Working.fallocate {device : ShortDevice ε} (working : device.Working) (length : Nat) :
    ∃ after, device.fallocate length = (.ok (), after) ∧ after.Working ∧
      after.content = FileOp.apply device.content (.allocate length) := by
  rw [ShortDevice.fallocate]
  split
  · rename_i err refusals next
    have refused := working.reserves (some err) (by rw [next]; exact List.mem_cons_self)
    cases refused
  · refine ⟨_, rfl, ⟨working.writes, fun refusal later => ?_⟩, rfl⟩
    exact working.reserves refusal (List.mem_of_mem_tail later)

theorem below_pwrite {place offset : Nat} (device : ShortDevice ε) (bytes : Bytes)
    (behind : place ≤ offset) :
    Below place device.content (device.pwrite offset bytes).2.content := by
  -- Only bytes that land change the content, and they land behind the place.
  have landed : ∀ (other : ShortDevice ε) (more : Bytes),
      Below place other.content (other.land offset more).content := by
    intro other more
    rw [land]
    split
    · exact Below.refl _ _
    · exact below_writeAt _ _ behind
  rw [ShortDevice.pwrite]
  split
  · exact landed device bytes
  · rename_i answers _
    exact landed { device with answers } _
  · rename_i answers _
    exact landed { device with answers } _

theorem below_fallocate (place : Nat) (device : ShortDevice ε) (length : Nat) :
    Below place device.content (device.fallocate length).2.content := by
  rw [ShortDevice.fallocate]
  split
  · exact Below.refl _ _
  · exact (List.take_prefix _ _).trans (List.prefix_append _ _)

@[simp] theorem answers_fallocate (device : ShortDevice ε) (length : Nat) :
    (device.fallocate length).2.answers = device.answers := by
  rw [ShortDevice.fallocate]
  split <;> rfl

end ShortDevice

end Lib
