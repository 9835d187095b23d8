import Melin.Wire.ControlCodec

/-! Refusals on the wire: what a frame carries of a reason, and the only frames that are read. -/

namespace Melin

open Lib

theorem boundaryAtOrBefore_spec (bytes : Bytes) (index : Nat) :
    isCharBoundary bytes (boundaryAtOrBefore bytes index) = true ∧
      boundaryAtOrBefore bytes index ≤ index ∧
      ∀ other ≤ index, isCharBoundary bytes other = true →
        other ≤ boundaryAtOrBefore bytes index := by
  induction index with
  | zero => exact ⟨rfl, le_rfl, fun other low _ => low⟩
  | succ index ih =>
    obtain ⟨boundary, low, last⟩ := ih
    rw [boundaryAtOrBefore]
    split_ifs with here
    · exact ⟨here, le_rfl, fun other low _ => low⟩
    · refine ⟨boundary, by omega, fun other otherLow otherBoundary => ?_⟩
      -- The index itself is no boundary, so the other one lies before it.
      have before : other ≠ index + 1 := by
        rintro rfl
        exact here otherBoundary
      exact last other (by omega) otherBoundary

structure LongestWithin (limit : Nat) (text front : String) : Prop where
  isFront : front.toList <+: text.toList
  fits : (utf8Bytes front).length ≤ limit
  longest : ∀ other : String, other.toList <+: text.toList →
    (utf8Bytes other).length ≤ limit → (utf8Bytes other).length ≤ (utf8Bytes front).length

theorem truncateReason_spec (reason : String) :
    ∃ front, truncateReason reason = utf8Bytes front ∧
      LongestWithin maxRefusalReason reason front := by
  rw [truncateReason]
  split_ifs with short
  · exact ⟨reason, rfl, List.prefix_rfl, short, fun other isFront _ => by
      obtain ⟨back, split⟩ := isFront
      rw [utf8Bytes_eq, utf8Bytes_eq, ← split, encodeChars_append, List.length_append]
      omega⟩
  · obtain ⟨boundary, low, last⟩ :=
      boundaryAtOrBefore_spec (utf8Bytes reason) maxRefusalReason
    generalize boundaryAtOrBefore (utf8Bytes reason) maxRefusalReason = cut at boundary low last
    rw [utf8Bytes_eq] at boundary ⊢
    obtain ⟨front, back, split, length⟩ := (isCharBoundary_iff _ _).mp boundary
    refine ⟨.ofList front, ?_, ?_, ?_, fun other isFront fits => ?_⟩
    · rw [utf8Bytes_ofList, split, encodeChars_append, ← length, List.take_left]
    · rw [String.toList_ofList, split]
      exact List.prefix_append ..
    · rwa [utf8Bytes_ofList, length]
    · -- The end of any other front is a boundary too.
      rw [utf8Bytes_ofList, length]
      obtain ⟨rest, otherSplit⟩ := isFront
      refine last _ fits ?_
      rw [utf8Bytes_eq reason, isCharBoundary_iff]
      exact ⟨other.toList, rest, otherSplit.symm, by rw [utf8Bytes_eq]⟩

theorem RefusalKind.fromByte_toByte (kind : RefusalKind) : fromByte kind.toByte = some kind := by
  cases kind <;> rfl

theorem RefusalKind.toByte_of_fromByte {byte : UInt8} {kind : RefusalKind}
    (read : fromByte byte = some kind) : kind.toByte = byte := by
  unfold fromByte at read
  split_ifs at read with one two
  · obtain rfl := Option.some.inj read
    exact one.symm
  · obtain rfl := Option.some.inj read
    exact two.symm

def refusalPayload (id : Nat) (kind : RefusalKind) (reason : Bytes) : Bytes :=
  tagRefused :: (leBytes requestIdLen id ++ ([kind.toByte, UInt8.ofNat reason.length] ++ reason))

theorem encode_refused (id : Nat) (kind : RefusalKind) (reason : String) (room : Nat) :
    encodeTransportResponse (.refused id kind reason) room
      = if room < (frame (refusalPayload id kind (truncateReason reason))).length then
          .error .truncated
        else .ok (frame (refusalPayload id kind (truncateReason reason))) := by
  have body : (TransportResponse.refused id kind reason).body = leBytes requestIdLen id ++
      ([kind.toByte, UInt8.ofNat (truncateReason reason).length] ++ truncateReason reason) :=
    List.append_assoc ..
  have width : (refusalPayload id kind (truncateReason reason)).length
      = tagLen + (TransportResponse.refused id kind reason).body.length := by
    rw [body, refusalPayload, List.length_cons, Nat.add_comm]
    rfl
  rw [frame, List.length_append, leBytes_length, width, ← Nat.add_assoc, encodeTransportResponse]
  simp only [prefixLen, body, List.append_assoc]
  rfl

theorem decodeRefused_refusalPayload {id : Nat} (idFits : id < 2 ^ 64) (kind : RefusalKind)
    {reason : String} (short : (utf8Bytes reason).length ≤ maxRefusalReason) :
    decodeRefused (refusalPayload id kind (utf8Bytes reason)) = .ok { id, kind, reason } := by
  have idRead : readId (refusalPayload id kind (utf8Bytes reason)) = some id := by
    have long : ¬ (refusalPayload id kind (utf8Bytes reason)).length < tagLen + requestIdLen := by
      simp [refusalPayload, tagLen, requestIdLen]
    have field : slice (refusalPayload id kind (utf8Bytes reason)) tagLen requestIdLen
        = leBytes requestIdLen id := by
      simp [slice, refusalPayload, tagLen, requestIdLen]
    rw [readId, if_neg long, field, leNat_leBytes _ _ (by simpa [requestIdLen] using idFits)]
  have rest : (refusalPayload id kind (utf8Bytes reason)).drop (tagLen + requestIdLen)
      = kind.toByte :: UInt8.ofNat (utf8Bytes reason).length :: utf8Bytes reason := by
    simp [refusalPayload, tagLen, requestIdLen]
  have length : (UInt8.ofNat (utf8Bytes reason).length).toNat = (utf8Bytes reason).length := by
    simp only [maxRefusalReason] at short
    rw [UInt8.toNat_ofNat']
    omega
  simp only [decodeRefused, idRead, rest, RefusalKind.fromByte_toByte, length, ne_eq,
    not_true_eq_false, if_false, fromUtf8_utf8Bytes]

theorem eq_refusalPayload {payload : Bytes} {refused : Refused}
    (tagged : payload.head? = some tagRefused) (read : decodeRefused payload = .ok refused) :
    payload = refusalPayload refused.id refused.kind (utf8Bytes refused.reason) ∧
      refused.id < 2 ^ 64 ∧ (utf8Bytes refused.reason).length ≤ maxRefusalReason := by
  obtain ⟨rest, rfl⟩ := List.head?_eq_some_iff.mp tagged
  simp only [decodeRefused, readId] at read
  by_cases short : (tagRefused :: rest).length < tagLen + requestIdLen
  · simp only [if_pos short] at read
    cases read
  simp only [if_neg short] at read
  simp only [tagLen, requestIdLen, List.length_cons] at short
  -- Behind the tag lie the ID's bytes, and then the other fields.
  have fields : slice (tagRefused :: rest) tagLen requestIdLen = rest.take 8 := rfl
  have behind : (tagRefused :: rest).drop (tagLen + requestIdLen) = rest.drop 8 := rfl
  have width : (rest.take 8).length = 8 := by
    rw [List.length_take]
    omega
  rw [fields, behind] at read
  split at read
  · rename_i kindByte len reason tail
    split at read
    · cases read
    · rename_i kind isKind
      split_ifs at read with length
      split at read
      · cases read
      · rename_i text isText
        obtain rfl := Except.ok.inj read
        have bytes := utf8Bytes_of_fromUtf8 isText
        have idBytes := leBytes_leNat (rest.take 8)
        rw [width] at idBytes
        have fits := leNat_lt (rest.take 8)
        rw [width] at fits
        have declared : reason.length = len.toNat := by simpa using length
        refine ⟨?_, fits, ?_⟩
        · rw [refusalPayload, bytes, RefusalKind.toByte_of_fromByte isKind, declared,
            UInt8.ofNat_toNat, requestIdLen, idBytes]
          exact congrArg _ (by
            conv_lhs => rw [← List.take_append_drop 8 rest, tail]
            rfl)
        · rw [bytes, declared]
          exact Nat.le_of_lt_succ len.toNat_lt
  · cases read

theorem truncateReason_of_le {reason : String}
    (short : (utf8Bytes reason).length ≤ maxRefusalReason) :
    truncateReason reason = utf8Bytes reason := if_pos short

/--
Refusals are read back as far as they were written, and nothing else is read as one.

A refusal's frame carries the request, the kind and the longest front of the reason that fits; and
every payload with the refusal's tag that is read is the one written for what was read from it.
-/
theorem refusal_frames_exact :
    (∀ (id : Nat) (kind : RefusalKind) (reason : String), id < 2 ^ 64 →
      ∃ payload front, payload.head? = some tagRefused ∧
        (frame payload).length ≤ maxControlFrameLen ∧
        (∀ room, encodeTransportResponse (.refused id kind reason) room
          = if room < (frame payload).length then .error .truncated else .ok (frame payload)) ∧
        decodeRefused payload = .ok { id, kind, reason := front } ∧
        LongestWithin maxRefusalReason reason front) ∧
      ∀ (payload : Bytes) (refused : Refused), payload.head? = some tagRefused →
        decodeRefused payload = .ok refused →
        ∀ room, encodeTransportResponse (.refused refused.id refused.kind refused.reason) room
          = if room < (frame payload).length then .error .truncated else .ok (frame payload) := by
  constructor
  · intro id kind reason idFits
    obtain ⟨front, kept, longest⟩ := truncateReason_spec reason
    refine ⟨refusalPayload id kind (utf8Bytes front), front, rfl, ?_, fun room => ?_,
      decodeRefused_refusalPayload idFits kind longest.fits, longest⟩
    · have fits := longest.fits
      simp only [frame, refusalPayload, List.length_append, List.length_cons, List.length_nil,
        leBytes_length, maxControlFrameLen, prefixLen, tagLen, requestIdLen]
      omega
    · rw [encode_refused, kept]
  · intro payload refused tagged read room
    obtain ⟨whole, -, fits⟩ := eq_refusalPayload tagged read
    rw [encode_refused, truncateReason_of_le fits, ← whole]

/-- A short refusal, and one of a payload that is read. -/
theorem refusal_frames_exact_sample :
    (∃ payload front, payload.head? = some tagRefused ∧
        decodeRefused payload = .ok { id := 7, kind := .malformed, reason := front } ∧
        LongestWithin maxRefusalReason "bad" front) ∧
      encodeTransportResponse (.refused 7 .malformed "") 64
        = .ok (frame [0x0C, 7, 0, 0, 0, 0, 0, 0, 0, 2, 0]) := by
  obtain ⟨written, read⟩ := refusal_frames_exact
  obtain ⟨payload, front, tagged, -, -, decoded, longest⟩ := written 7 .malformed "bad" (by decide)
  refine ⟨⟨payload, front, tagged, decoded, longest⟩, ?_⟩
  have decoded : decodeRefused (refusalPayload 7 .malformed (utf8Bytes ""))
      = .ok { id := 7, kind := .malformed, reason := "" } :=
    decodeRefused_refusalPayload (by decide) .malformed (by decide)
  exact read (refusalPayload 7 .malformed (utf8Bytes "")) _ rfl decoded 64

end Melin
