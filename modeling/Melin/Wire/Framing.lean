import Melin.Lib.Bytes

/-! Length-prefixed frames, and splitting the first one off a buffer. -/

namespace Melin

open Lib

def prefixLen : Nat := 4

structure FrameTooLarge where
  /-- The payload length the prefix declared. -/
  declared : Nat
  max : Nat
  deriving DecidableEq, Repr

/-- Split the first frame off the front of a buffer, refusing a payload longer than the limit. -/
def splitFrameLimited (buf : Bytes) (maxPayload : Nat) : Except FrameTooLarge (Option Bytes) :=
  if buf.length < prefixLen then .ok none
  else
    let declared := leNat (buf.take prefixLen)
    if maxPayload < declared then .error { declared, max := maxPayload }
    else
      let rest := buf.drop prefixLen
      if rest.length < declared then .ok none else .ok (some (rest.take declared))

def frame (payload : Bytes) : Bytes := leBytes 4 payload.length ++ payload

variable {buf payload stream : Bytes} {maxPayload : Nat}

theorem splitFrameLimited_eq_some (found : splitFrameLimited buf maxPayload = .ok (some payload)) :
    buf = frame payload ++ buf.drop (prefixLen + payload.length) ∧
      payload.length ≤ maxPayload := by
  unfold splitFrameLimited at found
  by_cases short : buf.length < prefixLen
  · rw [if_pos short] at found
    cases found
  rw [if_neg short] at found
  dsimp only at found
  by_cases large : maxPayload < leNat (buf.take prefixLen)
  · rw [if_pos large] at found
    cases found
  rw [if_neg large] at found
  by_cases cut : (buf.drop prefixLen).length < leNat (buf.take prefixLen)
  · rw [if_pos cut] at found
    cases found
  rw [if_neg cut] at found
  have taken : (buf.drop prefixLen).take (leNat (buf.take prefixLen)) = payload := by
    simpa using found
  have width : payload.length = leNat (buf.take prefixLen) := by
    rw [← taken, List.length_take]
    omega
  have first : (buf.take prefixLen).length = 4 := by
    rw [List.length_take]
    unfold prefixLen at short ⊢
    omega
  refine ⟨?_, by omega⟩
  calc buf = buf.take prefixLen ++ (buf.drop prefixLen) := (List.take_append_drop ..).symm
    _ = leBytes 4 payload.length ++ (payload ++ (buf.drop prefixLen).drop payload.length) := by
        have read := leBytes_leNat (buf.take prefixLen)
        rw [first, ← width] at read
        rw [read]
        conv_lhs => rw [← List.take_append_drop payload.length (buf.drop prefixLen)]
        rw [width, taken]
    _ = frame payload ++ buf.drop (prefixLen + payload.length) := by
        rw [List.drop_drop, frame, List.append_assoc]

theorem splitFrameLimited_frame (rest : Bytes) (fits : payload.length ≤ maxPayload)
    (small : payload.length < 256 ^ 4) :
    splitFrameLimited (frame payload ++ rest) maxPayload = .ok (some payload) := by
  have front : (frame payload ++ rest).take prefixLen = leBytes 4 payload.length := by
    simp [frame, prefixLen, List.append_assoc]
  have back : (frame payload ++ rest).drop prefixLen = payload ++ rest := by
    simp [frame, prefixLen, List.append_assoc]
  have long : ¬ (frame payload ++ rest).length < prefixLen := by
    simp [frame, prefixLen]
  rw [splitFrameLimited, if_neg long]
  simp only [front, back, leNat_leBytes 4 payload.length small, List.length_append]
  rw [if_neg (by omega), if_neg (by omega), List.take_left]

/-- What a buffer already starts with, or already declares too long, more bytes do not change. -/
theorem splitFrameLimited_append (known : splitFrameLimited buf maxPayload ≠ .ok none)
    (more : Bytes) :
    splitFrameLimited (buf ++ more) maxPayload = splitFrameLimited buf maxPayload := by
  -- The prefix is complete, so what it declares is read the same.
  have long : ¬ buf.length < prefixLen := by
    intro short
    rw [splitFrameLimited, if_pos short] at known
    exact known rfl
  have declared : (buf ++ more).take prefixLen = buf.take prefixLen :=
    List.take_append_of_le_length (by omega)
  have behind : (buf ++ more).drop prefixLen = buf.drop prefixLen ++ more :=
    List.drop_append_of_le_length (by omega)
  have longer : ¬ (buf ++ more).length < prefixLen := by
    rw [List.length_append]
    omega
  simp only [splitFrameLimited, if_neg long] at known
  simp only [splitFrameLimited, if_neg long, if_neg longer, declared, behind]
  by_cases large : maxPayload < leNat (buf.take prefixLen)
  · rw [if_pos large, if_pos large]
  rw [if_neg large] at known ⊢
  rw [if_neg large]
  by_cases cut : (buf.drop prefixLen).length < leNat (buf.take prefixLen)
  · rw [if_pos cut] at known
    exact absurd rfl known
  · rw [if_neg cut, if_neg (by rw [List.length_append]; omega),
      List.take_append_of_le_length (by omega)]

theorem length_drop_splitFrame (found : splitFrameLimited buf maxPayload = .ok (some payload)) :
    (buf.drop (prefixLen + payload.length)).length < buf.length := by
  have whole := congrArg List.length (splitFrameLimited_eq_some found).1
  simp only [List.length_append, frame, leBytes_length] at whole
  omega

def splitStream (maxPayload : Nat) (stream : Bytes) : List Bytes × Option FrameTooLarge :=
  match _found : splitFrameLimited stream maxPayload with
  | .error err => ([], some err)
  | .ok none => ([], none)
  | .ok (some payload) =>
    let (payloads, err) := splitStream maxPayload (stream.drop (prefixLen + payload.length))
    (payload :: payloads, err)
termination_by stream.length
decreasing_by exact length_drop_splitFrame _found

theorem splitStream_error {err : FrameTooLarge}
    (found : splitFrameLimited stream maxPayload = .error err) :
    splitStream maxPayload stream = ([], some err) := by
  rw [splitStream]
  split <;> rename_i other <;> rw [found] at other <;> cases other
  rfl

theorem splitStream_none (found : splitFrameLimited stream maxPayload = .ok none) :
    splitStream maxPayload stream = ([], none) := by
  rw [splitStream]
  split <;> rename_i other <;> rw [found] at other <;> cases other

theorem splitStream_some (found : splitFrameLimited stream maxPayload = .ok (some payload)) :
    splitStream maxPayload stream
      = (payload :: (splitStream maxPayload (stream.drop (prefixLen + payload.length))).1,
          (splitStream maxPayload (stream.drop (prefixLen + payload.length))).2) := by
  rw [splitStream]
  split <;> rename_i other <;> rw [found] at other <;> cases other
  rfl

end Melin
