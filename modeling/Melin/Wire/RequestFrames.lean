import Melin.Ingress.ClientFrames

/-! Request frames: a body encoded in place, with the header sealed in front of it. -/

namespace Melin

open Lib

def requestHeaderLen : Nat := prefixLen + requestTagAndIdLen

def maxRequestBody : Nat := maxFrameSize - requestTagAndIdLen

def requestTagAndId (id : Nat) : Bytes := tagRequest :: leBytes 8 id

inductive RequestFrameError where
  /-- The length of the payload, up to the last 64-bit number. -/
  | requestTooLarge (len : Nat)
  | bufferTooSmall (needed available : Nat)
  deriving DecidableEq, Repr

def requestPayloadLen (bodyLen : Nat) : Except RequestFrameError Nat :=
  let len := min (requestTagAndIdLen + bodyLen) (2 ^ 64 - 1)
  if len > maxFrameSize then .error (.requestTooLarge len) else .ok len

def requestBody (buf : Bytes) : Except RequestFrameError Bytes :=
  if buf.length < requestHeaderLen then .error (.bufferTooSmall requestHeaderLen buf.length)
  else .ok ((buf.drop requestHeaderLen).take maxRequestBody)

def sealRequest (buf : Bytes) (id bodyLen : Nat) : Bytes × Except RequestFrameError Nat :=
  match requestPayloadLen bodyLen with
  | .error err => (buf, .error err)
  | .ok payloadLen =>
    let frameLen := requestHeaderLen + bodyLen
    if buf.length < frameLen then (buf, .error (.bufferTooSmall frameLen buf.length))
    else
      (leBytes prefixLen payloadLen ++ requestTagAndId id ++ buf.drop requestHeaderLen,
        .ok frameLen)

/-- Writes a request's body into the region it is given, and says how long it is. -/
structure BodyEncoder (Err : Type) where
  encode : Bytes → Bytes × Except Err Nat
  sameLength : ∀ region, (encode region).1.length = region.length

section

variable {Err : Type}

def copyEncoder (tooSmall : Nat → Err) (body : Bytes) : BodyEncoder Err where
  encode region :=
    if region.length < body.length then (region, .error (tooSmall region.length))
    else (body ++ region.drop body.length, .ok body.length)
  sameLength region := by
    split
    · rfl
    · simp only [List.length_append, List.length_drop]
      omega

def frameRequest (refused : RequestFrameError → Err) (buf : Bytes) (id : Nat)
    (encoder : BodyEncoder Err) : Bytes × Except Err Nat :=
  match requestBody buf with
  | .error err => (buf, .error (refused err))
  | .ok region =>
    let (written, result) := encoder.encode region
    let buf := buf.take requestHeaderLen ++ written
      ++ buf.drop (requestHeaderLen + region.length)
    match result with
    | .error err => (buf, .error err)
    | .ok bodyLen =>
      match sealRequest buf id bodyLen with
      | (buf, .error err) => (buf, .error (refused err))
      | (buf, .ok frameLen) => (buf, .ok frameLen)

end

def requestPayload (id : Nat) (body : Bytes) : Bytes := requestTagAndId id ++ body

@[simp]
theorem length_requestPayload (id : Nat) (body : Bytes) :
    (requestPayload id body).length = requestTagAndIdLen + body.length := by
  simp [requestPayload, requestTagAndId, requestTagAndIdLen]
  omega

theorem splitRequest_requestPayload {id : Nat} (idFits : id < 2 ^ 64) (body : Bytes) :
    splitRequest (requestPayload id body) = .ok { requestId := id, body } := by
  have long : ¬ (requestPayload id body).length < requestTagAndIdLen := by
    rw [length_requestPayload]
    omega
  have field : slice (requestPayload id body) 1 8 = leBytes 8 id := by
    simp [slice, requestPayload, requestTagAndId]
  have rest : (requestPayload id body).drop requestTagAndIdLen = body := by
    simp [requestPayload, requestTagAndId, requestTagAndIdLen]
  have read : leNat (leBytes 8 id) = id := leNat_leBytes 8 id (by simpa using idFits)
  have tagged : requestPayload id body = tagRequest :: (leBytes 8 id ++ body) := rfl
  rw [tagged] at long field rest ⊢
  simp only [splitRequest, if_true, if_neg long, field, rest, read]

theorem requestPayloadLen_ok {bodyLen : Nat} (fits : bodyLen ≤ maxRequestBody) :
    requestPayloadLen bodyLen = .ok (requestTagAndIdLen + bodyLen) := by
  have small : requestTagAndIdLen + bodyLen ≤ maxFrameSize := by
    have limit : requestTagAndIdLen ≤ maxFrameSize := by decide
    rw [maxRequestBody] at fits
    omega
  have narrow : maxFrameSize ≤ 2 ^ 64 - 1 := by decide
  rw [requestPayloadLen, min_eq_left (by omega), if_neg (by omega)]

theorem requestPayloadLen_error {bodyLen : Nat} (large : maxRequestBody < bodyLen) :
    ∃ err, requestPayloadLen bodyLen = .error err := by
  have limit : requestTagAndIdLen ≤ maxFrameSize := by decide
  have narrow : maxFrameSize < 2 ^ 64 - 1 := by decide
  rw [maxRequestBody] at large
  rw [requestPayloadLen, if_pos (lt_min (by omega) narrow)]
  exact ⟨_, rfl⟩

theorem sealRequest_ok {buf : Bytes} (id : Nat) {bodyLen : Nat} (fits : bodyLen ≤ maxRequestBody)
    (inside : requestHeaderLen + bodyLen ≤ buf.length) :
    sealRequest buf id bodyLen
      = (frame (requestPayload id ((buf.drop requestHeaderLen).take bodyLen))
          ++ buf.drop (requestHeaderLen + bodyLen), .ok (requestHeaderLen + bodyLen)) := by
  have payloadLen := requestPayloadLen_ok fits
  have width : ((buf.drop requestHeaderLen).take bodyLen).length = bodyLen := by
    rw [List.length_take, List.length_drop]
    omega
  rw [sealRequest, payloadLen, frame, length_requestPayload, width]
  simp only [Nat.not_lt.mpr inside, if_false, Prod.mk.injEq, and_true]
  rw [requestPayload, ← List.drop_drop, List.append_assoc, List.append_assoc, List.append_assoc,
    List.take_append_drop]
  rfl

theorem sealRequest_error {buf : Bytes} (id : Nat) {bodyLen : Nat}
    (refused : maxRequestBody < bodyLen ∨ buf.length < requestHeaderLen + bodyLen) :
    ∃ err, sealRequest buf id bodyLen = (buf, .error err) := by
  rw [sealRequest]
  rcases Nat.lt_or_ge maxRequestBody bodyLen with large | small
  · obtain ⟨err, tooLarge⟩ := requestPayloadLen_error large
    rw [tooLarge]
    exact ⟨err, rfl⟩
  · rw [requestPayloadLen_ok small]
    simp only [refused.resolve_left (by omega), if_true]
    exact ⟨_, rfl⟩

section

variable {Err : Type}

def bodyRegion (buf : Bytes) : Bytes := (buf.drop requestHeaderLen).take maxRequestBody

theorem length_bodyRegion (buf : Bytes) :
    (bodyRegion buf).length = min maxRequestBody (buf.length - requestHeaderLen) := by
  rw [bodyRegion, List.length_take, List.length_drop]

theorem encoded_buffer {buf written : Bytes} (long : requestHeaderLen ≤ buf.length)
    (same : written.length = (bodyRegion buf).length) :
    let framed := buf.take requestHeaderLen ++ written
      ++ buf.drop (requestHeaderLen + (bodyRegion buf).length)
    framed.length = buf.length ∧ written <+: framed.drop requestHeaderLen := by
  have front : (buf.take requestHeaderLen).length = requestHeaderLen := by
    rw [List.length_take, min_eq_left long]
  have region := length_bodyRegion buf
  dsimp only
  refine ⟨?_, ?_⟩
  · simp only [List.length_append, front, same, List.length_drop]
    omega
  · rw [List.append_assoc, List.drop_left' front]
    exact List.prefix_append ..

theorem frameRequest_encoded (refused : RequestFrameError → Err) {buf : Bytes} (id : Nat)
    {encoder : BodyEncoder Err} (long : requestHeaderLen ≤ buf.length) {body : Bytes}
    (encoded : (encoder.encode (bodyRegion buf)).2 = .ok body.length)
    (isFront : body <+: (encoder.encode (bodyRegion buf)).1) :
    ∃ rest, (frame (requestPayload id body) ++ rest).length = buf.length ∧
      frameRequest refused buf id encoder
        = (frame (requestPayload id body) ++ rest, .ok (requestHeaderLen + body.length)) := by
  have region : requestBody buf = .ok (bodyRegion buf) := by
    rw [requestBody, if_neg (by omega)]
    rfl
  have same := encoder.sameLength (bodyRegion buf)
  have width := length_bodyRegion buf
  obtain ⟨length, inside⟩ := encoded_buffer long same
  rw [frameRequest, region]
  simp only [encoded]
  generalize buf.take requestHeaderLen ++ (encoder.encode (bodyRegion buf)).1
    ++ buf.drop (requestHeaderLen + (bodyRegion buf).length) = framed at length inside
  -- The body lies right behind where the header goes.
  have bodyIn : body <+: framed.drop requestHeaderLen := isFront.trans inside
  have bodyLength := isFront.length_le
  have bodyIs : (framed.drop requestHeaderLen).take body.length = body :=
    (List.prefix_iff_eq_take.mp bodyIn).symm
  have sealed := @sealRequest_ok framed id body.length (by omega) (by omega)
  rw [bodyIs] at sealed
  refine ⟨framed.drop (requestHeaderLen + body.length), ?_, by rw [sealed]⟩
  simp only [List.length_append, frame, leBytes_length, length_requestPayload, List.length_drop,
    requestHeaderLen, prefixLen] at *
  omega

theorem length_frame_requestPayload (id : Nat) (body : Bytes) :
    (frame (requestPayload id body)).length = requestHeaderLen + body.length := by
  rw [frame, List.length_append, leBytes_length, length_requestPayload, requestHeaderLen,
    Nat.add_assoc]
  rfl

def BodyEncoder.Writes (encoder : BodyEncoder Err) (body : Bytes) : Prop :=
  ∃ region, (encoder.encode region).2 = .ok body.length ∧ body <+: (encoder.encode region).1

theorem eq_of_copyEncoder {tooSmall : Nat → Err} {body written : Bytes}
    (writes : (copyEncoder tooSmall body).Writes written) : written = body := by
  obtain ⟨region, encoded, isFront⟩ := writes
  simp only [copyEncoder] at encoded isFront
  split_ifs at encoded isFront with short
  have length : body.length = written.length := Except.ok.inj encoded
  refine List.IsPrefix.eq_of_length ?_ length.symm
  exact List.prefix_of_prefix_length_le isFront (List.prefix_append ..) length.ge

/-- Framing leaves the buffer's length, and fails or frames the body the encoder wrote. -/
theorem frameRequest_cases (refused : RequestFrameError → Err) (buf : Bytes) (id : Nat)
    (encoder : BodyEncoder Err) :
    (∃ after err, after.length = buf.length ∧
        frameRequest refused buf id encoder = (after, .error err)) ∨
      ∃ body rest, encoder.Writes body ∧
        (frame (requestPayload id body) ++ rest).length = buf.length ∧
        frameRequest refused buf id encoder = (frame (requestPayload id body) ++ rest,
          .ok (frame (requestPayload id body)).length) := by
  by_cases short : buf.length < requestHeaderLen
  · rw [frameRequest, requestBody, if_pos short]
    exact .inl ⟨buf, _, rfl, rfl⟩
  have region : requestBody buf = .ok (bodyRegion buf) := by
    rw [requestBody, if_neg short]
    rfl
  have same := encoder.sameLength (bodyRegion buf)
  have width := length_bodyRegion buf
  obtain ⟨length, -⟩ := encoded_buffer (by omega) same
  cases encoded : (encoder.encode (bodyRegion buf)).2 with
  | error err =>
    rw [frameRequest, region]
    simp only [encoded]
    exact .inl ⟨_, err, length, rfl⟩
  | ok bodyLen =>
    by_cases within : bodyLen ≤ (bodyRegion buf).length
    · -- The body is the front of what was written.
      have bodyLength : ((encoder.encode (bodyRegion buf)).1.take bodyLen).length = bodyLen := by
        rw [List.length_take, same, min_eq_left within]
      obtain ⟨rest, whole, framed⟩ := @frameRequest_encoded _ refused buf id encoder
        (Nat.le_of_not_lt short) ((encoder.encode (bodyRegion buf)).1.take bodyLen)
        (by rw [bodyLength, encoded]) (List.take_prefix ..)
      refine .inr ⟨_, rest, ⟨bodyRegion buf, ?_, List.take_prefix ..⟩, whole, ?_⟩
      · rw [bodyLength, encoded]
      · rw [framed, length_frame_requestPayload]
    · rw [frameRequest, region]
      simp only [encoded]
      generalize buf.take requestHeaderLen ++ (encoder.encode (bodyRegion buf)).1
        ++ buf.drop (requestHeaderLen + (bodyRegion buf).length) = framed at length
      obtain ⟨err, failed⟩ := @sealRequest_error framed id bodyLen (by omega)
      rw [failed]
      exact .inl ⟨framed, _, length, rfl⟩

end

end Melin
