import Melin.Wire.Framing

/-! The frame decoder: received chunks pushed in, whole frames taken out. -/

namespace Melin

open Lib

structure FrameDecoder where
  buf : Bytes
  start : Nat
  maxPayload : Nat
  /-- The error every later call reports. -/
  poisoned : Option FrameTooLarge
  inside : start ≤ buf.length

namespace FrameDecoder

def withMaxPayload (maxPayload : Nat) : FrameDecoder :=
  { buf := [], start := 0, maxPayload, poisoned := none, inside := le_rfl }

def pending (decoder : FrameDecoder) : Bytes := decoder.buf.drop decoder.start

/-- Append received bytes; a cursor past half of the buffer first moves the rest to the front. -/
def push (decoder : FrameDecoder) (bytes : Bytes) : FrameDecoder :=
  if decoder.poisoned.isSome then decoder
  else
    let remaining := decoder.buf.length - decoder.start
    if 0 < decoder.start ∧ remaining ≤ decoder.start then
      { decoder with buf := decoder.buf.drop decoder.start ++ bytes, start := 0
                     inside := Nat.zero_le _ }
    else
      { decoder with buf := decoder.buf ++ bytes
                     inside := by
                       have := decoder.inside
                       rw [List.length_append]
                       omega }

theorem split_inside (decoder : FrameDecoder) {payload : Bytes}
    (found : splitFrameLimited decoder.pending decoder.maxPayload = .ok (some payload)) :
    decoder.start + (prefixLen + payload.length) ≤ decoder.buf.length := by
  have inside := decoder.inside
  have whole := congrArg List.length (splitFrameLimited_eq_some found).1
  simp only [pending, List.length_append, frame, leBytes_length, List.length_drop] at whole
  simp only [prefixLen]
  omega

def next (decoder : FrameDecoder) : FrameDecoder × Except FrameTooLarge (Option Bytes) :=
  match decoder.poisoned with
  | some err => (decoder, .error err)
  | none =>
    match found : splitFrameLimited decoder.pending decoder.maxPayload with
    | .ok (some payload) =>
      ({ decoder with start := decoder.start + (prefixLen + payload.length)
                      inside := decoder.split_inside found }, .ok (some payload))
    | .ok none => (decoder, .ok none)
    | .error err =>
      -- The bytes can never be framed, so they are let go of.
      ({ decoder with buf := [], start := 0, poisoned := some err, inside := le_rfl }, .error err)

inductive Call where
  | push (bytes : Bytes)
  | next

def run (decoder : FrameDecoder) : List Call →
    FrameDecoder × List (Except FrameTooLarge (Option Bytes))
  | [] => (decoder, [])
  | .push bytes :: calls => (decoder.push bytes).run calls
  | .next :: calls =>
    let (decoder, answer) := decoder.next
    let (decoder, answers) := decoder.run calls
    (decoder, answer :: answers)

def pushed : List Call → Bytes
  | [] => []
  | .push bytes :: calls => bytes ++ pushed calls
  | .next :: calls => pushed calls

end FrameDecoder

/-- The payload at a place of a stream: nothing as long as it is not whole, and the error behind
the last payload if the stream declares too much there. -/
def payloadAt (maxPayload : Nat) (stream : Bytes) (place : Nat) :
    Except FrameTooLarge (Option Bytes) :=
  match (splitStream maxPayload stream).1[place]?, (splitStream maxPayload stream).2 with
  | some payload, _ => .ok (some payload)
  | none, some err => .error err
  | none, none => .ok none

def splitAnswers (maxPayload : Nat) :
    Bytes → Nat → List FrameDecoder.Call → List (Except FrameTooLarge (Option Bytes))
  | _, _, [] => []
  | stream, taken, .push bytes :: calls => splitAnswers maxPayload (stream ++ bytes) taken calls
  | stream, taken, .next :: calls =>
    let answer := payloadAt maxPayload stream taken
    let more := match answer with
      | .ok (some _) => 1
      | _ => 0
    answer :: splitAnswers maxPayload stream (taken + more) calls

namespace FrameDecoder

structure After (decoder : FrameDecoder) (maxPayload : Nat) (stream : Bytes)
    (taken : List Bytes) : Prop where
  limit : decoder.maxPayload = maxPayload
  /-- Whatever comes, the rest of the payloads are those of the bytes that are kept. -/
  rest : decoder.poisoned = none → ∀ more, splitStream maxPayload (stream ++ more)
    = (taken ++ (splitStream maxPayload (decoder.pending ++ more)).1,
        (splitStream maxPayload (decoder.pending ++ more)).2)
  /-- Whatever comes, there are no more payloads, and nothing is kept. -/
  spoilt : ∀ err ∈ decoder.poisoned, decoder.buf = [] ∧
    ∀ more, splitStream maxPayload (stream ++ more) = (taken, some err)

theorem after_withMaxPayload (maxPayload : Nat) : (withMaxPayload maxPayload).After maxPayload [] [] :=
  ⟨rfl, fun _ _ => rfl, by rintro err ⟨⟩⟩

theorem pending_push (decoder : FrameDecoder) (bytes : Bytes) (sound : decoder.poisoned = none) :
    (decoder.push bytes).pending = decoder.pending ++ bytes ∧
      (decoder.push bytes).poisoned = none ∧ (decoder.push bytes).maxPayload = decoder.maxPayload := by
  simp only [push, sound, Option.isSome_none, Bool.false_eq_true, if_false]
  split_ifs
  · exact ⟨rfl, rfl, rfl⟩
  · exact ⟨List.drop_append_of_le_length decoder.inside, rfl, rfl⟩

variable {decoder : FrameDecoder} {maxPayload : Nat} {stream : Bytes} {taken : List Bytes}

theorem After.push (after : decoder.After maxPayload stream taken) (bytes : Bytes) :
    (decoder.push bytes).After maxPayload (stream ++ bytes) taken := by
  cases sound : decoder.poisoned with
  | some err =>
    have same : decoder.push bytes = decoder := by simp [FrameDecoder.push, sound]
    obtain ⟨kept, spoilt⟩ := after.spoilt err sound
    rw [same]
    refine ⟨after.limit, fun none => absurd none (by simp [sound]), ?_⟩
    rintro other isOther
    obtain rfl : err = other := Option.some.inj (sound.symm.trans isOther)
    exact ⟨kept, fun more => by rw [List.append_assoc, spoilt]⟩
  | none =>
    obtain ⟨pending, stillSound, limit⟩ := decoder.pending_push bytes sound
    refine ⟨limit.trans after.limit, fun _ more => ?_, ?_⟩
    · rw [pending, List.append_assoc, List.append_assoc]
      exact after.rest sound (bytes ++ more)
    · rw [stillSound]
      rintro err ⟨⟩

theorem length_push (decoder : FrameDecoder) (bytes : Bytes) (kept : decoder.poisoned.isSome →
    decoder.buf = []) :
    (decoder.push bytes).buf.length ≤ 2 * decoder.pending.length + bytes.length := by
  have inside := decoder.inside
  simp only [push, pending, List.length_drop]
  split_ifs with spoilt moves
  · simp [kept spoilt]
  · simp only [List.length_append, List.length_drop]
    omega
  · simp only [List.length_append]
    omega

def payloadsIn : List (Except FrameTooLarge (Option Bytes)) → List Bytes
  | [] => []
  | .ok (some payload) :: answers => payload :: payloadsIn answers
  | .ok none :: answers | .error _ :: answers => payloadsIn answers

theorem payloadsIn_cons (answer : Except FrameTooLarge (Option Bytes))
    (answers : List (Except FrameTooLarge (Option Bytes))) :
    payloadsIn (answer :: answers) = payloadsIn [answer] ++ payloadsIn answers := by
  rcases answer with err | (_ | payload) <;> rfl

theorem After.next (after : decoder.After maxPayload stream taken) :
    decoder.next.2 = payloadAt maxPayload stream taken.length ∧
      decoder.next.1.After maxPayload stream (taken ++ payloadsIn [decoder.next.2]) ∧
      ∀ err, decoder.next.2 = .error err → decoder.next.1.poisoned = some err := by
  unfold FrameDecoder.next
  split
  · -- A spoilt decoder repeats its error, and the stream has nothing else there.
    rename_i err spoilt
    obtain ⟨-, whole⟩ := after.spoilt err spoilt
    have here := whole []
    rw [List.append_nil] at here
    refine ⟨by simp [payloadAt, here], by simpa [payloadsIn] using after, ?_⟩
    intro other same
    rw [spoilt, Except.error.inj same]
  · rename_i sound
    have rest := after.rest sound
    have here := rest []
    rw [List.append_nil, List.append_nil] at here
    have limit := after.limit
    split
    · rename_i payload found
      rw [limit] at found
      refine ⟨?_, ⟨limit, fun _ more => ?_, ?_⟩, by simp⟩
      · rw [payloadAt, here, splitStream_some found]
        simp
      · -- The frame stays in front of whatever comes behind it.
        have whole : splitFrameLimited (decoder.pending ++ more) maxPayload = .ok (some payload) := by
          rw [splitFrameLimited_append (by simp [found]), found]
        have inside : prefixLen + payload.length ≤ decoder.pending.length := by
          have length := congrArg List.length (splitFrameLimited_eq_some found).1
          simp only [List.length_append, frame, leBytes_length] at length
          simp only [prefixLen]
          omega
        have behind : (decoder.pending ++ more).drop (prefixLen + payload.length)
            = decoder.buf.drop (decoder.start + (prefixLen + payload.length)) ++ more := by
          rw [List.drop_append_of_le_length inside, pending, List.drop_drop]
        rw [rest more, splitStream_some whole, behind]
        simp [payloadsIn, pending]
      · rintro err isErr
        exact absurd (sound.symm.trans isErr) (by simp)
    · rename_i found
      rw [limit] at found
      refine ⟨?_, by simpa [payloadsIn] using after, by simp⟩
      rw [payloadAt, here, splitStream_none found]
      simp
    · rename_i err found
      rw [limit] at found
      refine ⟨?_, ⟨limit, by simp, ?_⟩, by rintro other ⟨⟩; rfl⟩
      · rw [payloadAt, here, splitStream_error found]
        simp
      · rintro other ⟨⟩
        refine ⟨rfl, fun more => ?_⟩
        have whole : splitFrameLimited (decoder.pending ++ more) maxPayload = .error err := by
          rw [splitFrameLimited_append (by simp [found]), found]
        rw [rest more, splitStream_error whole]
        simp [payloadsIn]

theorem After.run (after : decoder.After maxPayload stream taken) (calls : List Call) :
    (decoder.run calls).2 = splitAnswers maxPayload stream taken.length calls ∧
      (decoder.run calls).1.After maxPayload (stream ++ pushed calls)
        (taken ++ payloadsIn (decoder.run calls).2) := by
  induction calls generalizing decoder stream taken with
  | nil => exact ⟨rfl, by simpa [FrameDecoder.run, pushed, payloadsIn] using after⟩
  | cons call calls ih =>
    cases call with
    | push bytes =>
      have later := ih (after.push bytes)
      rw [List.append_assoc] at later
      exact later
    | next =>
      obtain ⟨answer, next, -⟩ := after.next
      obtain ⟨answers, last⟩ := ih next
      have count : (taken ++ payloadsIn [decoder.next.2]).length = taken.length
          + (match payloadAt maxPayload stream taken.length with
            | .ok (some _) => 1
            | _ => 0) := by
        rw [List.length_append, answer]
        rcases payloadAt maxPayload stream taken.length with err | (_ | payload) <;> rfl
      refine ⟨?_, ?_⟩
      · rw [FrameDecoder.run, splitAnswers, ← count, ← answer, ← answers]
      · rw [List.append_assoc, ← payloadsIn_cons] at last
        exact last

theorem run_spoilt {err : FrameTooLarge} (spoilt : decoder.poisoned = some err) (calls : List Call) :
    
    (decoder.run calls).1 = decoder ∧ ∀ answer ∈ (decoder.run calls).2, answer = .error err := by
  induction calls with
  | nil => exact ⟨rfl, by simp [run]⟩
  | cons call calls ih =>
    cases call with
    | push bytes =>
      have same : decoder.push bytes = decoder := by simp [push, spoilt]
      rw [run, same]
      exact ih
    | next =>
      have same : decoder.next = (decoder, .error err) := by simp [next, spoilt]
      rw [run, same]
      exact ⟨ih.1, List.forall_mem_cons.mpr ⟨rfl, ih.2⟩⟩

theorem poisoned_of_mem (after : decoder.After maxPayload stream taken) {calls : List Call}
    {err : FrameTooLarge} (answered : .error err ∈ (decoder.run calls).2) :
    (decoder.run calls).1.poisoned = some err := by
  induction calls generalizing decoder stream taken with
  | nil => simp [run] at answered
  | cons call calls ih =>
    cases call with
    | push bytes => exact ih (after.push bytes) answered
    | next =>
      obtain ⟨-, next, spoils⟩ := after.next
      rcases List.mem_cons.mp answered with now | later
      · have spoilt := spoils err now.symm
        rw [run]
        exact (run_spoilt spoilt calls).1 ▸ spoilt
      · exact ih next later

theorem run_append (decoder : FrameDecoder) (front back : List Call) :
    decoder.run (front ++ back)
      = (((decoder.run front).1.run back).1,
          (decoder.run front).2 ++ ((decoder.run front).1.run back).2) := by
  induction front generalizing decoder with
  | nil => rfl
  | cons call front ih =>
    cases call with
    | push bytes => exact ih (decoder.push bytes)
    | next => simp only [List.cons_append, run, ih]

end FrameDecoder

end Melin
