import Melin.Wire.FrameDecoder
import Melin.Wire.RequestFrames

/-! Frames are split the same however a stream is cut, and requests are read back from them. -/

namespace Melin

open Lib

namespace FrameDecoder

theorem after_run (maxPayload : Nat) (calls : List Call) :
    ((withMaxPayload maxPayload).run calls).2 = splitAnswers maxPayload [] 0 calls ∧
      ((withMaxPayload maxPayload).run calls).1.After maxPayload (pushed calls)
        (payloadsIn ((withMaxPayload maxPayload).run calls).2) := by
  have ran := (after_withMaxPayload maxPayload).run calls
  rwa [List.nil_append, List.nil_append] at ran

theorem After.taken_isPrefix {decoder : FrameDecoder} {maxPayload : Nat} {stream : Bytes}
    {taken : List Bytes} (after : decoder.After maxPayload stream taken) :
    taken <+: (splitStream maxPayload stream).1 := by
  cases sound : decoder.poisoned with
  | none =>
    have whole := after.rest sound []
    rw [List.append_nil] at whole
    rw [whole]
    exact List.prefix_append ..
  | some err =>
    have whole := (after.spoilt err sound).2 []
    rw [List.append_nil] at whole
    rw [whole]

theorem After.kept {decoder : FrameDecoder} {maxPayload : Nat} {stream : Bytes}
    {taken : List Bytes} (after : decoder.After maxPayload stream taken)
    (spoilt : decoder.poisoned.isSome = true) : decoder.buf = [] := by
  obtain ⟨err, isErr⟩ := Option.isSome_iff_exists.mp spoilt
  exact (after.spoilt err isErr).1

end FrameDecoder

open FrameDecoder in
/--
Splitting frames does not depend on how a stream is cut, and requests are read back.

Every call for a frame answers with the payload that comes next in what was pushed before it; all
payloads together are the first of the whole stream. Behind an error every answer is that error,
and nothing is kept.
-/
theorem frame_splitting_exact :
    (∀ (maxPayload : Nat) (calls : List Call),
      let ran := (withMaxPayload maxPayload).run calls
      ran.2 = splitAnswers maxPayload [] 0 calls ∧
        payloadsIn ran.2 <+: (splitStream maxPayload (pushed calls)).1 ∧
        (∀ err, .error err ∈ ran.2 →
          splitStream maxPayload (pushed calls) = (payloadsIn ran.2, some err) ∧
          ∀ later, ∃ answers, (withMaxPayload maxPayload).run (calls ++ later)
              = (ran.1, ran.2 ++ answers) ∧
            ran.1.buf = [] ∧ ∀ answer ∈ answers, answer = .error err) ∧
        ∀ bytes, (ran.1.push bytes).buf.length ≤ 2 * ran.1.pending.length + bytes.length) ∧
      ∀ (Err : Type) (refused : RequestFrameError → Err) (buf : Bytes) (id : Nat)
        (encoder : BodyEncoder Err) (body : Bytes), id < 2 ^ 64 → body.length ≤ maxRequestBody →
        requestHeaderLen + body.length ≤ buf.length →
        (encoder.encode (bodyRegion buf)).2 = .ok body.length →
        body <+: (encoder.encode (bodyRegion buf)).1 →
        ∃ payload rest, frameRequest refused buf id encoder
            = (frame payload ++ rest, .ok (frame payload).length) ∧
          splitFrameLimited (frame payload ++ rest) maxFrameSize = .ok (some payload) ∧
          splitRequest payload = .ok { requestId := id, body } := by
  constructor
  · intro maxPayload calls ran
    obtain ⟨answered, after⟩ := after_run maxPayload calls
    refine ⟨answered, after.taken_isPrefix, fun err isErr => ?_,
      fun bytes => ran.1.length_push bytes after.kept⟩
    have spoilt := poisoned_of_mem (after_withMaxPayload maxPayload) isErr
    obtain ⟨kept, whole⟩ := after.spoilt err spoilt
    have here := whole []
    rw [List.append_nil] at here
    refine ⟨here, fun later => ?_⟩
    obtain ⟨same, errors⟩ := run_spoilt spoilt later
    refine ⟨(ran.1.run later).2, ?_, kept, errors⟩
    rw [run_append, same]
  · intro Err refused buf id encoder body idFits fits room encoded isFront
    obtain ⟨rest, -, framed⟩ := frameRequest_encoded refused id (by omega) encoded isFront
    have width : (requestPayload id body).length ≤ maxFrameSize := by
      rw [length_requestPayload]
      rw [maxRequestBody] at fits
      have limit : requestTagAndIdLen ≤ maxFrameSize := by decide
      omega
    refine ⟨requestPayload id body, rest, ?_, ?_, splitRequest_requestPayload idFits body⟩
    · rw [framed, length_frame_requestPayload]
    · exact splitFrameLimited_frame rest width (width.trans_lt (by decide))

open FrameDecoder in
/-- A small stream over the limit, cut into three pieces, and a request with a body of two bytes. -/
theorem frame_splitting_exact_sample :
    ((withMaxPayload 3).run [.push [2, 0, 0], .next, .push [0, 7, 8, 9], .next, .push [0, 0, 0, 0],
        .next, .next]).2 = [.ok none, .ok (some [7, 8]), .error ⟨9, 3⟩, .error ⟨9, 3⟩] ∧
      ∃ payload rest, frameRequest id (List.replicate 20 0) 5
          (copyEncoder (fun room => .bufferTooSmall 15 (13 + room)) [1, 2])
            = (frame payload ++ rest, .ok (frame payload).length) ∧
        splitRequest payload = .ok { requestId := 5, body := [1, 2] } := by
  obtain ⟨split, framed⟩ := frame_splitting_exact
  refine ⟨(split 3 _).1.trans (by decide +kernel), ?_⟩
  obtain ⟨payload, rest, written, -, read⟩ := framed RequestFrameError id (List.replicate 20 0) 5
    (copyEncoder (fun room => .bufferTooSmall 15 (13 + room)) [1, 2]) [1, 2] (by decide) (by decide)
    (by decide) (by decide) (by decide)
  exact ⟨payload, rest, written, read⟩

end Melin
