import Melin.Journal.SegmentFile
import Melin.Lib.ShortWrites

/-! Writing to a segment call by call: short writes, and several buffers in one call. -/

namespace Melin

open Lib

/-- A journal file under a kernel that answers with the standard library's error kinds. -/
abbrev JournalDevice := ShortDevice IoErrorKind

/-- Write bytes in full, call after call; a call that takes nothing ends it with the message. -/
def writeAll (zeroMessage : String) (device : JournalDevice) (rest : Bytes) (offset : Nat) :
    Except JournalError Unit × JournalDevice :=
  if rest = [] then (.ok (), device)
  else
    match _wrote : device.pwrite offset rest with
    | (.error kind, device) => (.error (.io kind ""), device)
    | (.ok count, device) =>
      if count = 0 then (.error (.io .writeZero zeroMessage), device)
      else writeAll zeroMessage device (rest.drop count) (offset + count)
termination_by rest.length
decreasing_by
  have taken := (ShortDevice.pwrite_eq_ok ‹_›).1
  rw [List.length_drop]
  omega

def writeAllAt (device : JournalDevice) (buf : Bytes) (offset : Nat) :
    Except JournalError Unit × JournalDevice :=
  writeAll "buffered journal write returned 0" device buf offset

def writeAllVectoredAt (device : JournalDevice) (remaining : List Bytes) (offset : Nat) :
    Except JournalError Unit × JournalDevice :=
  if remaining = [] then (.ok (), device)
  else
    match _wrote : device.pwrite offset remaining.flatten with
    | (.error kind, device) => (.error (.io kind ""), device)
    | (.ok count, device) =>
      if count = 0 then
        (.error (.io .writeZero "vectored journal write returned 0"), device)
      else writeAllVectoredAt device (advanceSlices remaining count) (offset + count)
termination_by remaining.flatten.length
decreasing_by
  have taken := (ShortDevice.pwrite_eq_ok ‹_›).1
  rw [flatten_advanceSlices, List.length_drop]
  omega

structure OpenSegment where
  segment : SegmentFile
  device : JournalDevice

namespace OpenSegment

/-- Extend the allocation when the next write would run past it. -/
def ensureAllocated (self : OpenSegment) (adding : Nat) : Except JournalError Unit × OpenSegment :=
  let need := self.segment.writePos + adding
  if need ≤ self.segment.allocatedEnd then (.ok (), self)
  else
    let allocatedEnd := self.segment.allocatedEnd + self.segment.prealloc.chunkBytes
    match self.device.fallocate allocatedEnd with
    | (.error kind, device) => (.error (.io kind ""), { self with device })
    | (.ok _, device) =>
      (.ok (), { segment := { self.segment with allocatedEnd, preWritten := false }, device })

def writeBatch (self : OpenSegment) (bytes : Bytes) : Except JournalError Unit × OpenSegment :=
  if bytes = [] then (.ok (), self)
  else
    match self.ensureAllocated bytes.length with
    | (.error err, self) => (.error err, self)
    | (.ok _, self) =>
      match writeAllAt self.device bytes self.segment.writePos with
      | (.error err, device) => (.error err, { self with device })
      | (.ok _, device) =>
        (.ok (), { segment := { self.segment with writePos := self.segment.writePos + bytes.length }
                   device })

/-- Write several batches at the current position in one call. -/
def writeVectored (self : OpenSegment) (bufs : List Bytes) :
    Except JournalError Unit × OpenSegment :=
  let total := (bufs.map List.length).sum
  if total = 0 then (.ok (), self)
  else
    match self.ensureAllocated total with
    | (.error err, self) => (.error err, self)
    | (.ok _, self) =>
      match writeAllVectoredAt self.device bufs self.segment.writePos with
      | (.error err, device) => (.error err, { self with device })
      | (.ok _, device) =>
        (.ok (), { segment := { self.segment with writePos := self.segment.writePos + total }
                   device })

def writeBatches (self : OpenSegment) : List Bytes → Except JournalError Unit × OpenSegment
  | [] => (.ok (), self)
  | buf :: bufs =>
    match self.writeBatch buf with
    | (.error err, self) => (.error err, self)
    | (.ok _, self) => self.writeBatches bufs

end OpenSegment

variable {device : JournalDevice} {rest : Bytes} {offset : Nat}

theorem writeAll_round (zeroMessage : String) {between : JournalDevice}
    {answer : Except IoErrorKind Nat} (some : rest ≠ [])
    (called : device.pwrite offset rest = (answer, between)) :
    writeAll zeroMessage device rest offset
      = match answer with
        | .error kind => (.error (.io kind ""), between)
        | .ok count =>
          if count = 0 then (.error (.io .writeZero zeroMessage), between)
          else writeAll zeroMessage between (rest.drop count) (offset + count) := by
  rw [writeAll, if_neg some]
  split
  · rename_i again
    rw [called] at again
    cases again
    rfl
  · rename_i again
    rw [called] at again
    cases again
    rfl

theorem writeAll_working (zeroMessage : String) (working : device.Working) (rest : Bytes)
    (offset : Nat) :
    ∃ after, writeAll zeroMessage device rest offset = (.ok (), after) ∧ after.Working := by
  fun_induction writeAll zeroMessage device rest offset with
  | case1 device offset => exact ⟨device, rfl, working⟩
  | case2 device rest offset some kind after wrote =>
    obtain ⟨count, other, same, -⟩ := working.pwrite offset some
    rw [wrote] at same
    cases same
  | case3 device rest offset some after wrote =>
    obtain ⟨count, other, same, taken, -⟩ := working.pwrite offset some
    rw [wrote] at same
    cases same
    exact absurd rfl taken
  | case4 device rest offset some count after wrote taken ih =>
    obtain ⟨least, other, same, -, works⟩ := working.pwrite offset some
    rw [wrote] at same
    cases same
    exact ih works

theorem writeAll_content {zeroMessage : String} {after : JournalDevice}
    (wrote : writeAll zeroMessage device rest offset = (.ok (), after)) (some : rest ≠ []) :
    after.content = writeAt device.content offset rest := by
  -- Each round adds the front it wrote to what the rounds behind it write.
  fun_induction writeAll zeroMessage device rest offset with
  | case1 device offset => exact absurd rfl some
  | case2 device rest offset some kind between failed => simp at wrote
  | case3 device rest offset some between failed => simp at wrote
  | case4 device rest offset some count between called taken ih =>
    obtain ⟨within, landed, -⟩ := ShortDevice.pwrite_eq_ok called
    have front : (rest.take count).length = count := by rw [List.length_take]; omega
    have content : between.content = writeAt device.content offset (rest.take count) := by
      rw [landed, ShortDevice.land, if_neg]
      intro none
      rw [none, List.length_nil] at front
      omega
    by_cases done : rest.drop count = []
    · rw [done, writeAll, if_pos rfl] at wrote
      cases wrote
      have all : rest.take count = rest :=
        List.take_of_length_le (List.drop_eq_nil_iff.mp done)
      rw [content, all]
    · have whole := writeAt_writeAt device.content offset (rest.take count) (rest.drop count)
      rw [front, List.take_append_drop, ← content] at whole
      rw [ih wrote done, whole]

theorem writeAll_answers {zeroMessage : String} {after : JournalDevice}
    (wrote : writeAll zeroMessage device rest offset = (.ok (), after)) :
    ∃ used, device.answers = used ++ after.answers ∧ ∀ answer ∈ used, answer.Works := by
  -- A round uses up the first answer, if there is one, and goes on only if it took bytes.
  fun_induction writeAll zeroMessage device rest offset with
  | case1 device offset =>
    cases wrote
    exact ⟨[], rfl, by simp⟩
  | case2 device rest offset some kind between called => simp at wrote
  | case3 device rest offset some between called => simp at wrote
  | case4 device rest offset some count between called taken ih =>
    obtain ⟨used, split, works⟩ := ih wrote
    obtain ⟨-, landed, worked⟩ := ShortDevice.pwrite_eq_ok called
    have left : between.answers = device.answers.tail := by
      rw [landed, ShortDevice.answers_land]
    refine ⟨device.answers.head?.toList ++ used, ?_, fun answer member => ?_⟩
    · rw [List.append_assoc, ← split, left]
      cases device.answers <;> rfl
    · rcases List.mem_append.mp member with first | later
      · exact worked taken answer (Option.mem_toList.mp first)
      · exact works answer later

theorem below_writeAll (zeroMessage : String) (device : JournalDevice) (rest : Bytes) {place : Nat}
    (behind : place ≤ offset) :
    Below place device.content (writeAll zeroMessage device rest offset).2.content := by
  -- The offset only grows, so every round writes behind the place.
  fun_induction writeAll zeroMessage device rest offset with
  | case1 device offset => exact Below.refl _ _
  | case2 device rest offset some kind between called =>
    have below := device.below_pwrite rest behind
    rwa [called] at below
  | case3 device rest offset some between called =>
    have below := device.below_pwrite rest behind
    rwa [called] at below
  | case4 device rest offset some count between called taken ih =>
    have below := device.below_pwrite rest behind
    rw [called] at below
    exact below.trans (ih (by omega))

theorem writeAllVectoredAt_eq (device : JournalDevice) (bufs : List Bytes) (offset : Nat)
    (filled : bufs.flatten = [] → bufs = []) :
    writeAllVectoredAt device bufs offset
      = writeAll "vectored journal write returned 0" device bufs.flatten offset := by
  -- A round of either loop makes the same call; what is left of the buffers is empty with the rest.
  fun_induction writeAllVectoredAt device bufs offset with
  | case1 device offset => rw [List.flatten_nil, writeAll, if_pos rfl]
  | case2 device bufs offset some kind between called =>
    rw [writeAll_round _ (fun none => some (filled none)) called]
  | case3 device bufs offset some between called =>
    rw [writeAll_round _ (fun none => some (filled none)) called]
    rfl
  | case4 device bufs offset some count between called taken ih =>
    have left : (advanceSlices bufs count).flatten = [] → advanceSlices bufs count = [] := by
      intro none
      rw [flatten_advanceSlices, List.drop_eq_nil_iff] at none
      exact advanceSlices_eq_nil none
    rw [ih left, flatten_advanceSlices, writeAll_round _ (fun none => some (filled none)) called]
    exact (if_neg taken).symm

namespace OpenSegment

structure Appends (start : OpenSegment) (bytes : Bytes) (after : OpenSegment) : Prop where
  position : after.segment.writePos = start.segment.writePos + bytes.length
  chunk : after.segment.prealloc = start.segment.prealloc
  reserve :
    (start.segment.writePos + bytes.length ≤ start.segment.allocatedEnd ∧
      after.segment.allocatedEnd = start.segment.allocatedEnd ∧
      after.device.content = writeAt start.device.content start.segment.writePos bytes) ∨
    (start.segment.allocatedEnd < start.segment.writePos + bytes.length ∧
      after.segment.allocatedEnd
        = start.segment.allocatedEnd + start.segment.prealloc.chunkBytes ∧
      after.device.content = writeAt (FileOp.apply start.device.content (.allocate
        (start.segment.allocatedEnd + start.segment.prealloc.chunkBytes)))
          start.segment.writePos bytes)

/-- Reserving moves neither the position nor the chunk, and asks for no write. -/
theorem ensureAllocated_frame (self : OpenSegment) (adding : Nat) :
    (self.ensureAllocated adding).2.segment.writePos = self.segment.writePos ∧
      (self.ensureAllocated adding).2.segment.prealloc = self.segment.prealloc ∧
      (self.ensureAllocated adding).2.device.answers = self.device.answers ∧
      Below self.segment.writePos self.device.content
        (self.ensureAllocated adding).2.device.content := by
  rw [ensureAllocated]
  dsimp only
  split
  · exact ⟨rfl, rfl, rfl, Below.refl _ _⟩
  · -- Refused or not, the call leaves every byte.
    have below := self.device.below_fallocate self.segment.writePos
      (self.segment.allocatedEnd + self.segment.prealloc.chunkBytes)
    have answers := self.device.answers_fallocate
      (self.segment.allocatedEnd + self.segment.prealloc.chunkBytes)
    split
    · rename_i called
      rw [called] at below answers
      exact ⟨rfl, rfl, answers, below⟩
    · rename_i called
      rw [called] at below answers
      exact ⟨rfl, rfl, answers, below⟩

variable {self after : OpenSegment} {bytes : Bytes}

theorem appends_of_ensureAllocated (working : self.device.Working) (some : bytes ≠ [])
    (zeroMessage : String) :
    ∃ between after, self.ensureAllocated bytes.length = (.ok (), between) ∧
      writeAll zeroMessage between.device bytes between.segment.writePos = (.ok (), after) ∧
      after.Working ∧
      self.Appends bytes
        { segment := { between.segment with
            writePos := between.segment.writePos + bytes.length }
          device := after } := by
  rw [ensureAllocated]
  dsimp only
  split
  · rename_i room
    obtain ⟨after, wrote, works⟩ :=
      writeAll_working zeroMessage working bytes self.segment.writePos
    exact ⟨self, after, rfl, wrote, works, rfl, rfl, .inl ⟨room, rfl, writeAll_content wrote some⟩⟩
  · rename_i full
    obtain ⟨device, reserved, works, content⟩ := working.fallocate
      (self.segment.allocatedEnd + self.segment.prealloc.chunkBytes)
    rw [reserved]
    obtain ⟨after, wrote, stillWorks⟩ :=
      writeAll_working zeroMessage works bytes self.segment.writePos
    refine ⟨_, after, rfl, wrote, stillWorks, rfl, rfl, .inr ⟨Nat.lt_of_not_le full, rfl, ?_⟩⟩
    dsimp only
    rw [writeAll_content wrote some, content]

theorem writeBatch_appends (working : self.device.Working) (some : bytes ≠ []) :
    ∃ after, self.writeBatch bytes = (.ok (), after) ∧ after.device.Working ∧
      self.Appends bytes after := by
  obtain ⟨between, after, reserved, wrote, works, appends⟩ :=
    appends_of_ensureAllocated working some "buffered journal write returned 0"
  refine ⟨_, ?_, works, appends⟩
  rw [writeBatch, if_neg some, reserved]
  dsimp only
  rw [writeAllAt, wrote]

theorem sum_length_eq (bufs : List Bytes) : (bufs.map List.length).sum = bufs.flatten.length :=
  List.length_flatten.symm

theorem writeVectored_appends {self : OpenSegment} (working : self.device.Working)
    {bufs : List Bytes} (some : bufs.flatten ≠ []) :
    ∃ after, self.writeVectored bufs = (.ok (), after) ∧ after.device.Working ∧
      self.Appends bufs.flatten after := by
  obtain ⟨between, after, reserved, wrote, works, appends⟩ :=
    appends_of_ensureAllocated working some "vectored journal write returned 0"
  refine ⟨_, ?_, works, appends⟩
  have total : bufs.flatten.length ≠ 0 := by rwa [Ne, List.length_eq_zero_iff]
  rw [writeVectored, sum_length_eq, if_neg total, reserved]
  dsimp only
  rw [writeAllVectoredAt_eq _ _ _ (fun none => absurd none some), wrote]

/-- What a run of appends leaves: the bytes in their window, and at least the space they needed. -/
structure Leaves (start : OpenSegment) (bytes : Bytes) (after : OpenSegment) : Prop where
  position : after.segment.writePos = start.segment.writePos + bytes.length
  chunk : after.segment.prealloc = start.segment.prealloc
  window : ∀ place, byteAt after.device.content place
    = if start.segment.writePos ≤ place ∧ place < start.segment.writePos + bytes.length then
        byteAt bytes (place - start.segment.writePos)
      else byteAt start.device.content place
  longer : start.device.content.length ≤ after.device.content.length
  covered : bytes ≠ [] → start.segment.writePos + bytes.length ≤ after.device.content.length
  reserved : (after.segment.allocatedEnd = start.segment.allocatedEnd ∧
      (bytes ≠ [] → start.segment.writePos + bytes.length ≤ start.segment.allocatedEnd)) ∨
    start.segment.allocatedEnd + start.segment.prealloc.chunkBytes ≤ after.device.content.length

theorem Leaves.nil (self : OpenSegment) : self.Leaves [] self := by
  refine ⟨rfl, rfl, fun place => ?_, Nat.le_refl _, fun some => absurd rfl some,
    .inl ⟨rfl, fun some => absurd rfl some⟩⟩
  rw [if_neg]
  rw [List.length_nil]
  omega

theorem Leaves.append {between : OpenSegment} {more : Bytes} (leaves : self.Leaves bytes between)
    (appends : between.Appends more after) (some : more ≠ []) :
    self.Leaves (bytes ++ more) after := by
  have positive := List.length_pos_iff.mpr some
  have position := leaves.position
  have chunk := congrArg Prealloc.chunkBytes leaves.chunk
  have grown := leaves.longer
  -- Whether or not a chunk was reserved, the bytes outside the window read as before.
  obtain ⟨base, content, same, longer⟩ : ∃ base,
      after.device.content = writeAt base between.segment.writePos more ∧
      (∀ place, byteAt base place = byteAt between.device.content place) ∧
      between.device.content.length ≤ base.length := by
    rcases appends.reserve with ⟨-, -, content⟩ | ⟨-, -, content⟩
    · exact ⟨_, content, fun _ => rfl, Nat.le_refl _⟩
    · exact ⟨_, content, byteAt_allocate _ _, by rw [length_allocate]; omega⟩
  have length := congrArg List.length content
  rw [length_writeAt] at length
  constructor
  · rw [appends.position, position, List.length_append]
    omega
  · rw [appends.chunk, leaves.chunk]
  · intro place
    rw [content, byteAt_writeAt, same, leaves.window, position, List.length_append]
    simp only [byteAt, List.getD_eq_getElem?_getD, List.getElem?_append]
    split_ifs <;> first | rfl | omega | (congr 2; omega)
  · omega
  · intro
    rw [List.length_append]
    omega
  · rw [List.length_append]
    rcases leaves.reserved with ⟨allocated, room⟩ | reserved
    · rcases appends.reserve with ⟨fits, still, -⟩ | ⟨full, -, grows⟩
      · exact .inl ⟨by omega, fun _ => by omega⟩
      · -- The first append that runs past the reserved space puts its chunk into the file.
        refine .inr ?_
        rw [grows, length_writeAt, length_allocate]
        omega
    · exact .inr (by omega)

theorem writeBatches_leaves {self between : OpenSegment} {bytes : Bytes} {bufs : List Bytes}
    (leaves : self.Leaves bytes between) (working : between.device.Working) :
    ∃ after, between.writeBatches bufs = (.ok (), after) ∧
      self.Leaves (bytes ++ bufs.flatten) after := by
  induction bufs generalizing between bytes with
  | nil => exact ⟨between, rfl, by rwa [List.flatten_nil, List.append_nil]⟩
  | cons buf bufs ih =>
    rw [writeBatches, List.flatten_cons, ← List.append_assoc]
    by_cases none : buf = []
    · -- An empty buffer is not written at all.
      rw [writeBatch, if_pos none, none, List.append_nil]
      exact ih leaves working
    · obtain ⟨after, wrote, works, appends⟩ := writeBatch_appends working none
      rw [wrote]
      exact ih (leaves.append appends none) works

theorem Appends.length_le {other : OpenSegment} (some : bytes ≠ [])
    (appends : self.Appends bytes after) (leaves : self.Leaves bytes other) :
    after.device.content.length ≤ other.device.content.length := by
  have longer := leaves.longer
  have covered := leaves.covered some
  rcases appends.reserve with ⟨-, -, content⟩ | ⟨full, -, content⟩
  · rw [content, length_writeAt]
    omega
  · rw [content, length_writeAt, length_allocate]
    rcases leaves.reserved with ⟨-, room⟩ | reserved
    · exact absurd (room some) (by omega)
    · omega

theorem Leaves.congr {start other : OpenSegment} (leaves : start.Leaves bytes after)
    (segment : other.segment = start.segment)
    (content : other.device.content = start.device.content) : other.Leaves bytes after := by
  obtain ⟨position, chunk, window, longer, covered, reserved⟩ := leaves
  refine ⟨?_, ?_, ?_, ?_, ?_, ?_⟩
  · rwa [segment]
  · rwa [segment]
  · rwa [segment, content]
  · rwa [content]
  · rwa [segment]
  · rwa [segment]

/-- Where calls work, the two ways of writing end alike, but for the zeros behind. -/
theorem writeVectored_eq_writeBatches {segment : SegmentFile} {vectored single : JournalDevice}
    (content : single.content = vectored.content) (working : vectored.Working)
    (singleWorking : single.Working) (bufs : List Bytes) :
    ∃ one other, writeVectored ⟨segment, vectored⟩ bufs = (.ok (), one) ∧
      writeBatches ⟨segment, single⟩ bufs = (.ok (), other) ∧
      other.segment.writePos = one.segment.writePos ∧
      ∃ zeros, other.device.content = one.device.content ++ List.replicate zeros 0 := by
  obtain ⟨other, batched, leaves⟩ :=
    @writeBatches_leaves _ ⟨segment, single⟩ [] bufs (.nil _) singleWorking
  rw [List.nil_append] at leaves
  have leaves : (OpenSegment.mk segment vectored).Leaves bufs.flatten other :=
    leaves.congr rfl content.symm
  by_cases none : bufs.flatten = []
  · -- Without a byte to write, the vectored write returns at once.
    rw [none] at leaves
    have alone := Leaves.nil ⟨segment, vectored⟩
    refine ⟨⟨segment, vectored⟩, other, ?_, batched, leaves.position,
      eq_append_zeros_of_byteAt (fun place => ?_) leaves.longer⟩
    · rw [writeVectored, sum_length_eq, none]
      rfl
    · rw [alone.window, leaves.window]
  · obtain ⟨one, wrote, -, appends⟩ := @writeVectored_appends ⟨segment, vectored⟩ working _ none
    have alone := (Leaves.nil ⟨segment, vectored⟩).append appends none
    rw [List.nil_append] at alone
    refine ⟨one, other, wrote, batched, by rw [leaves.position, alone.position], ?_⟩
    refine eq_append_zeros_of_byteAt (fun place => ?_) (appends.length_le none leaves)
    rw [alone.window, leaves.window]

theorem writeVectored_error {bufs : List Bytes} {err : JournalError}
    (failed : self.writeVectored bufs = (.error err, after)) :
    after.segment.writePos = self.segment.writePos ∧
      Below self.segment.writePos self.device.content after.device.content := by
  rw [writeVectored, sum_length_eq] at failed
  dsimp only at failed
  split at failed
  · simp at failed
  rename_i some
  obtain ⟨position, -, -, below⟩ := self.ensureAllocated_frame bufs.flatten.length
  split at failed
  · rename_i between reserved
    rw [reserved] at position below
    obtain ⟨-, rfl⟩ := Prod.mk.inj failed
    exact ⟨position, below⟩
  · rename_i between reserved
    rw [reserved] at position below
    have filled : bufs.flatten = [] → bufs = [] := fun none => absurd none (by
      rwa [← List.length_eq_zero_iff])
    rw [writeAllVectoredAt_eq _ _ _ filled] at failed
    -- The position moves last, so the loop writes at it or behind it.
    have kept := below_writeAll "vectored journal write returned 0" between.device bufs.flatten
      (Nat.le_of_eq position.symm)
    split at failed
    · rename_i device wrote
      obtain ⟨-, rfl⟩ := Prod.mk.inj failed
      rw [wrote] at kept
      exact ⟨position, below.trans kept⟩
    · simp at failed

theorem writeVectored_answers {bufs : List Bytes}
    (wrote : self.writeVectored bufs = (.ok (), after)) :
    ∃ used, self.device.answers = used ++ after.device.answers ∧
      ∀ answer ∈ used, answer.Works := by
  rw [writeVectored, sum_length_eq] at wrote
  dsimp only at wrote
  split at wrote
  · cases wrote
    exact ⟨[], rfl, by simp⟩
  rename_i some
  obtain ⟨-, -, answers, -⟩ := self.ensureAllocated_frame bufs.flatten.length
  split at wrote
  · simp at wrote
  · rename_i between reserved
    rw [reserved] at answers
    have filled : bufs.flatten = [] → bufs = [] := fun none => absurd none (by
      rwa [← List.length_eq_zero_iff])
    rw [writeAllVectoredAt_eq _ _ _ filled] at wrote
    split at wrote
    · simp at wrote
    · rename_i device called
      cases wrote
      rw [← answers]
      exact writeAll_answers called

/-- A vectored write is the run of single ones, but for the space that is reserved behind it. -/
theorem vectored_write_concatenates (segment : SegmentFile) (content : Bytes) (bufs : List Bytes) :
    (∀ vectored single : JournalDevice, vectored.content = content → single.content = content →
      vectored.Working → single.Working →
      ∃ one other, writeVectored ⟨segment, vectored⟩ bufs = (.ok (), one) ∧
        writeBatches ⟨segment, single⟩ bufs = (.ok (), other) ∧
        other.segment.writePos = one.segment.writePos ∧
        ∃ zeros, other.device.content = one.device.content ++ List.replicate zeros 0) ∧
    (∀ (device : JournalDevice) (err : JournalError) (after : OpenSegment),
      device.content = content → writeVectored ⟨segment, device⟩ bufs = (.error err, after) →
      after.segment.writePos = segment.writePos ∧
        content.take segment.writePos <+: after.device.content) ∧
    ∀ (device : JournalDevice) (after : OpenSegment),
      writeVectored ⟨segment, device⟩ bufs = (.ok (), after) →
      ∃ used, device.answers = used ++ after.device.answers ∧ ∀ answer ∈ used, answer.Works := by
  refine ⟨fun vectored single one other working singleWorking => ?_,
    fun device err after held failed => ?_, fun device after wrote => ?_⟩
  · exact writeVectored_eq_writeBatches (other.trans one.symm) working singleWorking bufs
  · rw [← held]
    exact writeVectored_error failed
  · exact writeVectored_answers wrote

/-- Two bytes at a time, and a byte at a time, with empty buffers on the way. -/
theorem vectored_write_concatenates_short :
    ∃ one other,
      writeVectored ⟨⟨0, .segment .live, 0, 4, ⟨4, by decide⟩, false, none⟩,
        ⟨[], [.takes 2, .takes 1], []⟩⟩ [[], [1, 2, 3], [], [4], []] = (.ok (), one) ∧
      writeBatches ⟨⟨0, .segment .live, 0, 4, ⟨4, by decide⟩, false, none⟩,
        ⟨[], [.takes 1], []⟩⟩ [[], [1, 2, 3], [], [4], []] = (.ok (), other) ∧
      other.segment.writePos = one.segment.writePos := by
  obtain ⟨equal, -, -⟩ := vectored_write_concatenates
    ⟨0, .segment .live, 0, 4, ⟨4, by decide⟩, false, none⟩ [] [[], [1, 2, 3], [], [4], []]
  have short : ∀ counts : List Nat, 0 ∉ counts →
      (ShortDevice.mk [] (counts.map .takes) [] : JournalDevice).Working := by
    intro counts positive
    refine ⟨fun answer member => ?_, by simp⟩
    obtain ⟨count, isCount, rfl⟩ := List.mem_map.mp member
    exact ⟨count, Nat.pos_of_ne_zero fun zero => positive (zero ▸ isCount), rfl⟩
  obtain ⟨one, other, wrote, batched, position, -⟩ := equal ⟨[], [.takes 2, .takes 1], []⟩
    ⟨[], [.takes 1], []⟩ rfl rfl (short [2, 1] (by decide)) (short [1] (by decide))
  exact ⟨one, other, wrote, batched, position⟩

/-- Three batches of eight bytes, ten bytes at a time: the run of single writes reserves once more. -/
theorem vectored_write_reserves_less :
    ((writeVectored ⟨⟨0, .segment .live, 0, 10, ⟨10, by decide⟩, false, none⟩,
        ⟨List.replicate 10 0, [], []⟩⟩ (List.replicate 3 (List.replicate 8 1))).2.device.content.length,
      (writeBatches ⟨⟨0, .segment .live, 0, 10, ⟨10, by decide⟩, false, none⟩,
        ⟨List.replicate 10 0, [], []⟩⟩ (List.replicate 3 (List.replicate 8 1))).2.device.content.length)
      = (24, 30) := by
  decide +kernel

end OpenSegment

end Melin
