import Melin.Examples.CounterEvent

/-! The entry codec in both directions: entries read back, and only their own encodings are accepted. -/

namespace Melin

open Lib

/-- An application codec whose two directions are inverse on what it accepts. -/
class InverseAppEvent (E : Type) [AppEvent E] : Prop where
  encode_length : ∀ event : E, (AppEvent.encode event).length = AppEvent.encodedSize event
  decode_encode : ∀ event : E, AppEvent.decode (AppEvent.encode event) = .ok event
  encode_decode : ∀ (payload : Bytes) (event : E),
    AppEvent.decode payload = .ok event → AppEvent.encode event = payload

section

variable {E : Type} [AppEvent E]

def JournalEvent.payloadSize : JournalEvent E → Nat
  | .tick _ | .epochBump _ => transportPayloadSize
  | .ackPolicyChange _ => ackPolicyChangePayloadSize
  | .shutdown => 0
  | .app event => AppEvent.encodedSize event

structure JournalEvent.Journalable (event : JournalEvent E) : Prop where
  lasting : event.isShutdown = false
  declared : ∀ payload, event = .app payload →
    AppEvent.encodedSize payload ≤ AppEvent.maxEncodedSize E
  counted : entryMetaSize + event.payloadSize ≤ 0xFFFF

def encodeRoom (payloadSize : Nat) : Nat :=
  entryFramingSize + max payloadSize transportPayloadSize

theorem ackPolicyFlags_canonical (flags : UInt8)
    (unreserved : flags &&& ~~~ackPolicyFlagUnwitnessed = 0) :
    (if flags &&& ackPolicyFlagUnwitnessed != 0 then ackPolicyFlagUnwitnessed else 0) = flags := by
  -- There are 256 bytes, checked by the kernel.
  obtain ⟨⟨flags⟩⟩ := flags
  revert flags
  decide +kernel

theorem payloadU64_canonical {payload : Bytes} {tooShort : String} {value : UInt64}
    (read : payloadU64 payload tooShort = .ok value) (narrow : payload.length ≤ 8) :
    leBytes 8 value.toNat = payload := by
  simp only [payloadU64] at read
  split_ifs at read with short
  have width : payload.length = 8 := by omega
  have whole : slice payload 0 8 = payload := by simp [slice, List.take_of_length_le, width]
  have fits : leNat payload < 2 ^ 64 := by
    have bound := leNat_lt payload
    rwa [width] at bound
  simp only [Except.ok.injEq, whole] at read
  subst read
  rw [UInt64.toNat_ofNat_of_lt' fits, ← width, leBytes_leNat]

theorem encodeEvent_decodeEvent [InverseAppEvent E] {tag : UInt8} {payload : Bytes}
    {event : JournalEvent E} (found : decodeEvent tag payload = .ok event)
    (narrow : entryMetaSize + payload.length ≤ maxEntryLength E (some tag)) :
    payload.length = event.payloadSize ∧ ∀ room, encodeRoom event.payloadSize ≤ room →
      ∀ sequence, encodeEvent sequence event room = .ok (tag, payload) := by
  simp only [decodeEvent] at found
  split_ifs at found with tick bump policy app
  · subst tick
    cases read : payloadU64 payload "Tick payload too short" with
    | error err => simp [read, Except.map] at found
    | ok value =>
      simp only [read, Except.map, Except.ok.injEq] at found
      subst found
      have canonical := payloadU64_canonical read (by
        simpa [maxEntryLength, transportPayloadSize] using narrow)
      rw [← canonical]
      exact ⟨leBytes_length .., fun _ _ _ => rfl⟩
  · subst bump
    cases read : payloadU64 payload "EpochBump payload too short" with
    | error err => simp [read, Except.map] at found
    | ok value =>
      simp only [read, Except.map, Except.ok.injEq] at found
      subst found
      have canonical := payloadU64_canonical read (by
        simpa [maxEntryLength, transportPayloadSize] using narrow)
      rw [← canonical]
      exact ⟨leBytes_length .., fun _ _ _ => rfl⟩
  · subst policy
    have width : payload.length ≤ 2 := by
      simpa [maxEntryLength, ackPolicyChangePayloadSize, tagAckPolicyChange, tagTick, tagEpochBump]
        using narrow
    split at found
    · rename_i byte flags rest
      split_ifs at found with reserved
      simp only [Except.ok.injEq] at found
      subst found
      -- Two bytes is all there is room for.
      obtain rfl : rest = [] := by
        rw [← List.length_eq_zero_iff]
        simp only [List.length_cons] at width
        omega
      refine ⟨rfl, fun _ _ _ => ?_⟩
      rw [encodeEvent, ackPolicyFlags_canonical flags (not_not.mp reserved)]
    · cases found
  · subst app
    split at found
    · rename_i value decoded
      simp only [Except.ok.injEq] at found
      subst found
      have encoded := InverseAppEvent.encode_decode payload value decoded
      have size := InverseAppEvent.encode_length value
      have width : payload.length ≤ AppEvent.maxEncodedSize E := by
        simpa [maxEntryLength, tagApp, tagTick, tagEpochBump, tagAckPolicyChange] using narrow
      rw [encoded] at size
      refine ⟨size, fun room fits sequence => ?_⟩
      simp only [encodeRoom, entryFramingSize, JournalEvent.payloadSize] at fits
      rw [encodeEvent, if_neg (by omega), if_neg (by omega), encoded, if_neg (not_not.mpr size)]
    · cases found

variable [Hashing]

theorem decode_fields {buf : Bytes} {decoded : DecodedEntry E} (found : decode buf = .ok decoded) :
    ∃ tag payload, decodeEvent tag payload = .ok decoded.entry.event ∧
      entryMetaSize + payload.length ≤ maxEntryLength E (some tag) ∧
      entryMetaSize + payload.length ≤ 0xFFFF ∧
      decoded.consumed = entryFramingSize + payload.length ∧
      buf.take decoded.consumed
        = (entryFields decoded.entry.sequence decoded.entry.timestampNs decoded.entry.keyHash tag
            payload).flatten
          ++ leBytes 4 (Hashing.crc32c (entryFields decoded.entry.sequence decoded.entry.timestampNs
            decoded.entry.keyHash tag payload).flatten).toNat := by
  simp only [decode] at found
  split_ifs at found with short magic wide cut crc metadata
  split at found
  · cases found
  · rename_i event decodedEvent
    simp only [Except.ok.injEq] at found
    subst found
    generalize lengthEq : leNat (slice buf 2 2) = length at *
    have lengthBound : length < 256 ^ 2 := by
      have bound := leNat_lt (slice buf 2 2)
      rwa [slice_length (by simp only [entryHeaderSize, crcSize] at short; omega), lengthEq] at bound
    have magic := not_not.mp magic
    have crc := not_not.mp crc
    simp only [entryHeaderSize, entryMetaSize, crcSize, Nat.not_lt, Nat.reduceAdd] at *
    have tagInside : 28 < buf.length := by omega
    have tagEq : buf[eventTagOffset]? = some (buf.getD eventTagOffset 0) := by
      rw [List.getD_eq_getElem?_getD, show eventTagOffset = 28 from rfl,
        List.getElem?_eq_getElem tagInside, Option.getD_some]
    have tagField : [buf.getD eventTagOffset 0] = slice buf 28 1 := slice_one tagInside
    have payloadWidth : (slice buf 29 (length - 9)).length = length - 9 := slice_length (by omega)
    -- Every field is the window it was read from, so the windows side by side are the entry.
    have fields : (entryFields (leNat (slice buf 4 8)) (UInt64.ofNat (leNat (slice buf 12 8)))
        (UInt64.ofNat (leNat (slice buf 20 8))) (buf.getD eventTagOffset 0)
        (slice buf 29 (length - 9))).flatten = slice buf 0 (20 + length) := by
      have width : entryMetaSize + (length - 9) = length := by
        simp only [entryMetaSize]
        omega
      have lengthField : leBytes 2 length = slice buf 2 2 := by
        rw [← lengthEq, leBytes_slice (by omega)]
      have magicField : leBytes 2 entryMagic = slice buf 0 2 := by
        rw [← magic, leBytes_slice (by omega)]
      simp only [entryFields, payloadWidth, width, leBytes_ofNat_slice (show 12 + 8 ≤ buf.length by omega),
        leBytes_ofNat_slice (show 20 + 8 ≤ buf.length by omega), tagField,
        leBytes_slice (show 4 + 8 ≤ buf.length by omega), lengthField, magicField, List.flatten_cons,
        List.flatten_nil, List.append_nil]
      simp only [slice_append_slice buf 28 1, slice_append_slice buf 20 8, slice_append_slice buf 12 8,
        slice_append_slice buf 4 8, slice_append_slice buf 2 2, slice_append_slice buf 0 2]
      congr 1
      omega
    have crcField : leBytes 4 (Hashing.crc32c (slice buf 0 (20 + length))).toNat
        = slice buf (20 + length) 4 := by
      have fits : leNat (slice buf (20 + length) 4) < 2 ^ 32 := by
        have bound := leNat_lt (slice buf (20 + length) 4)
        rwa [slice_length cut] at bound
      rw [show slice buf 0 (20 + length) = buf.take (20 + length) from rfl, ← crc,
        UInt32.toNat_ofNat_of_lt' fits, leBytes_slice cut]
    refine ⟨_, _, decodedEvent, ?_, ?_, ?_, ?_⟩
    · rw [payloadWidth, ← tagEq]
      omega
    · rw [payloadWidth]
      omega
    · rw [payloadWidth, entryFramingSize]
      simp only [entryHeaderSize, entryMetaSize, crcSize]
      omega
    · have joined := slice_append_slice buf 0 (20 + length) 4
      rw [Nat.zero_add] at joined
      rw [fields, crcField, joined]
      rfl

theorem encode_of_journalable [InverseAppEvent E] {event : JournalEvent E}
    (journalable : event.Journalable) (sequence : Nat) (timestampNs keyHash : UInt64) {room : Nat}
    (fits : encodeRoom event.payloadSize ≤ room) :
    ∃ bytes, encode sequence timestampNs keyHash event room = .ok bytes := by
  have framed : ∃ tag payload, encodeEvent sequence event room = .ok (tag, payload) ∧
      payload.length = event.payloadSize := by
    cases event with
    | tick nowNs => exact ⟨_, _, rfl, by simp [JournalEvent.payloadSize, transportPayloadSize]⟩
    | epochBump epoch => exact ⟨_, _, rfl, by simp [JournalEvent.payloadSize, transportPayloadSize]⟩
    | ackPolicyChange change => exact ⟨_, _, rfl, rfl⟩
    | shutdown => cases journalable.lasting
    | app event =>
      have declared := journalable.declared event rfl
      have length := InverseAppEvent.encode_length event
      simp only [encodeRoom, entryFramingSize, JournalEvent.payloadSize] at fits
      refine ⟨tagApp, AppEvent.encode event, ?_, length⟩
      rw [encodeEvent, if_neg (by omega), if_neg (by omega), if_neg (not_not.mpr length)]
  obtain ⟨tag, payload, framed, width⟩ := framed
  have counted := journalable.counted
  simp only [encodeRoom, entryFramingSize] at fits
  rw [encode, if_neg (by omega), framed]
  simp only [bind, Except.bind]
  rw [if_neg (by omega)]
  exact ⟨_, rfl⟩

/--
Entries read back exactly, and nothing but the encoding of an entry is accepted as one.

An event is encoded wherever its destination has room for the entry.
-/
theorem entry_codec_canonical [InverseAppEvent E] :
    (∀ (sequence timestampNs keyHash : UInt64) (event : JournalEvent E), event.Journalable →
      ∀ room, encodeRoom event.payloadSize ≤ room →
        ∃ bytes, encode sequence.toNat timestampNs keyHash event room = .ok bytes ∧
          ∀ suffix, decode (bytes ++ suffix)
            = .ok { consumed := bytes.length
                    entry := { sequence := sequence.toNat, timestampNs, keyHash, event } }) ∧
    ∀ (buf : Bytes) (decoded : DecodedEntry E), decode buf = .ok decoded →
      ∀ room, encodeRoom decoded.entry.event.payloadSize ≤ room →
        encode decoded.entry.sequence decoded.entry.timestampNs decoded.entry.keyHash
            decoded.entry.event room = .ok (buf.take decoded.consumed) := by
  refine ⟨fun sequence timestampNs keyHash event journalable room fits => ?_,
    fun buf decoded found room fits => ?_⟩
  · obtain ⟨bytes, encoded⟩ := encode_of_journalable journalable sequence.toNat timestampNs keyHash fits
    exact ⟨bytes, encoded,
      decode_encode InverseAppEvent.decode_encode sequence.toNat_lt encoded⟩
  · obtain ⟨tag, payload, decodedEvent, narrow, counted, -, taken⟩ := decode_fields found
    obtain ⟨width, framed⟩ := encodeEvent_decodeEvent decodedEvent narrow
    have framed := framed room fits decoded.entry.sequence
    simp only [encodeRoom, entryFramingSize] at fits
    rw [taken, encode, if_neg (by omega), framed]
    simp only [bind, Except.bind]
    rw [if_neg (by omega)]
    rfl

end

/-- The counter's codec is inverse both ways. -/
instance : InverseAppEvent CounterEvent where
  encode_length := LawfulAppEvent.encode_length
  decode_encode := LawfulAppEvent.decode_encode
  encode_decode := by
    intro payload event decoded
    cases payload with
    | nil => cases decoded
    | cons kind fields =>
      simp only [AppEvent.decode] at decoded
      split_ifs at decoded with increment query empty
      · simp only [amountFrom] at decoded
        split_ifs at decoded with width short <;> simp only [Except.map, Except.ok.injEq,
          reduceCtorEq] at decoded
        subst decoded increment
        have fits : leNat fields < 2 ^ 64 := by
          have bound := leNat_lt fields
          rwa [width] at bound
        simp only [AppEvent.encode, UInt64.toNat_ofNat_of_lt' fits, ← width, leBytes_leNat]
      · simp only [Except.ok.injEq] at decoded
        subst decoded query empty
        rfl

/-- An increment reads back in front of a stray byte, and its bytes are the only ones for it. -/
theorem entry_codec_canonical_increment :
    ∃ bytes, encode 3 5 9 (.app (CounterEvent.increment 7)) 64 = .ok bytes ∧
      decode (bytes ++ [1]) = .ok { consumed := bytes.length
                                    entry := { sequence := 3, timestampNs := 5, keyHash := 9
                                               event := .app (CounterEvent.increment 7) } } := by
  obtain ⟨bytes, encoded, decodes⟩ := entry_codec_canonical.1 3 5 9
    (.app (CounterEvent.increment 7)) ⟨rfl, by rintro _ ⟨⟩; decide, by decide⟩ 64 (by decide)
  exact ⟨bytes, encoded, decodes [1]⟩

end Melin
