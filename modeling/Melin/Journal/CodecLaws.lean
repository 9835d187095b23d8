import Melin.Journal.Codec

/-! Laws of the codec: round trips, and decoding from a growing buffer. -/

namespace Melin

open Lib

/--
What the journal asks of an application's codec.

The size bound is the one the encoder checks when it is compiled for the application.
-/
class LawfulAppEvent (E : Type) [AppEvent E] : Prop where
  encode_length : ∀ event : E, (AppEvent.encode event).length = AppEvent.encodedSize event
  /-- No value is wider than the declared bound. -/
  encodedSize_le : ∀ event : E, AppEvent.encodedSize event ≤ AppEvent.maxEncodedSize E
  decode_encode : ∀ event : E, AppEvent.decode (AppEvent.encode event) = .ok event
  entrySize_le : entrySize E ≤ maxEntrySize

theorem headerFields_length (sectorSize startingSequence : Nat) (anchorHash : Digest)
    (genesisEntries : Option Nat) :
    (headerFields sectorSize startingSequence anchorHash genesisEntries).flatten.length
      = if genesisEntries.isSome then 56 else 48 := by
  cases genesisEntries <;> simp [headerFields, anchorHash.width]

theorem readDigest_eq {bytes : Bytes} {start : Nat} {digest : Digest}
    (window : slice bytes start 32 = digest.bytes) : readDigest bytes start = digest := by
  simp [readDigest, window, digest.width]

theorem ofNat_leNat_crc (crc : UInt32) : UInt32.ofNat (leNat (leBytes 4 crc.toNat)) = crc := by
  rw [leNat_leBytes 4 _ crc.toNat_lt, UInt32.ofNat_toNat]

theorem resolveSectorSize_ok {sectorSize : Nat} (known : sectorSize = 512 ∨ sectorSize = 4096) :
    resolveSectorSize sectorSize = .ok sectorSize := by
  rcases known with rfl | rfl <;> rfl

theorem resolveSectorSize_eq_ok {raw sectorSize : Nat}
    (accepted : resolveSectorSize raw = .ok sectorSize) : sectorSize = 512 ∨ sectorSize = 4096 := by
  simp only [resolveSectorSize] at accepted
  split_ifs at accepted with legacy known <;> simp only [Except.ok.injEq] at accepted <;> omega

section

variable [Hashing]

theorem sectorSize_of_decodeFileHeader {buf : Bytes} {info : FileHeaderInfo}
    (accepted : decodeFileHeader buf = .ok info) :
    info.sectorSize = 512 ∨ info.sectorSize = 4096 := by
  simp only [decodeFileHeader, bind, Except.bind, pure, Except.pure] at accepted
  -- Both layouts settle the sector size the same way, after the checksum.
  split_ifs at accepted
  all_goals
    split at accepted
    · simp at accepted
    · split at accepted
      · simp at accepted
      · rename_i resolved
        simp only [Except.ok.injEq] at accepted
        subst accepted
        exact resolveSectorSize_eq_ok resolved

theorem startingSequence_of_decodeFileHeader {buf : Bytes} {info : FileHeaderInfo}
    (accepted : decodeFileHeader buf = .ok info) : info.startingSequence < 2 ^ 64 := by
  simp only [decodeFileHeader, bind, Except.bind, pure, Except.pure] at accepted
  -- Both layouts have it in the same place.
  split_ifs at accepted
  all_goals
    split at accepted
    · simp at accepted
    · split at accepted
      · simp at accepted
      · simp only [Except.ok.injEq] at accepted
        subst accepted
        exact leNat_slice_lt buf 8 8

theorem verifyHeaderCrc_ok {fields : Bytes} (back : Bytes) {fieldsSize : Nat}
    (place : fields.length = fieldsSize - crcSize) :
    verifyHeaderCrc (fields ++ back) fieldsSize (Hashing.crc32c fields) = .ok () := by
  simp [verifyHeaderCrc, ← place]

variable {sectorSize startingSequence : Nat} {genesisEntries : Option Nat}

theorem decodeFileHeader_headerFields (anchorHash : Digest) (back : Bytes)
    (known : sectorSize = 512 ∨ sectorSize = 4096) (starts : startingSequence < 2 ^ 64)
    (genesis : ∀ entries ∈ genesisEntries, entries < 2 ^ 64) :
    let fields := (headerFields sectorSize startingSequence anchorHash genesisEntries).flatten
    decodeFileHeader (fields ++ (leBytes 4 (Hashing.crc32c fields).toNat ++ back))
      = .ok { sectorSize, startingSequence, anchorHash, genesisEntries } := by
  intro fields
  have sector : leNat (leBytes 2 sectorSize) = sectorSize := by
    apply leNat_leBytes
    rcases known with rfl | rfl <;> decide
  have start : leNat (leBytes 8 startingSequence) = startingSequence := leNat_leBytes 8 _ starts
  have verified : ∀ size, fields.length = size - crcSize → _ := fun size =>
    verifyHeaderCrc_ok (leBytes 4 (Hashing.crc32c fields).toNat ++ back)
  -- The checksum is one more field behind the others, and each reads back from its place.
  have packed : fields ++ (leBytes 4 (Hashing.crc32c fields).toNat ++ back)
      = (headerFields sectorSize startingSequence anchorHash genesisEntries
          ++ [leBytes 4 (Hashing.crc32c fields).toNat]).flatten ++ back := by
    simp [fields]
  rw [packed] at verified ⊢
  have field := slice_flatten (headerFields sectorSize startingSequence anchorHash genesisEntries
    ++ [leBytes 4 (Hashing.crc32c fields).toNat]) back
  have width := anchorHash.width
  have fieldsWidth := headerFields_length sectorSize startingSequence anchorHash genesisEntries
  have knownMagic : leNat (leBytes 4 fileMagic) = fileMagic := by decide
  cases genesisEntries with
  | some entries =>
    have count : leNat (leBytes 8 entries) = entries := leNat_leBytes 8 _ (genesis entries rfl)
    have magic := @field 0 0 4 _ rfl rfl (by simp)
    have version := @field 1 4 2 _ rfl (by simp [headerFields]) (by simp)
    have sectorField := @field 2 6 2 _ rfl (by simp [headerFields]) (by simp)
    have startField := @field 3 8 8 _ rfl (by simp [headerFields]) (by simp)
    have anchorField := @field 4 16 32 _ rfl (by simp [headerFields]) width
    have genesisField := @field 5 48 8 _ rfl (by simp [headerFields, width]) (by simp)
    have crcField := @field 6 56 4 _ rfl (by simp [headerFields, width]) (by simp)
    have knownVersion : leNat (leBytes 2 formatVersion) = formatVersion := by decide
    -- Every length check passes, and every field is the one that was packed.
    rw [decodeFileHeader, if_neg (by simp [headerFields]; omega),
      if_neg (not_not.mpr (by rw [magic, knownMagic])),
      version, if_pos knownVersion,
      if_neg (by simp [headerFields, fileHeaderFieldsSize, width]; omega)]
    simp only [sectorField, startField, genesisField, crcField, readDigest_eq anchorField,
      ofNat_leNat_crc, sector, start, count, resolveSectorSize_ok known,
      verified fileHeaderFieldsSize fieldsWidth]
    rfl
  | none =>
    have magic := @field 0 0 4 _ rfl rfl (by simp)
    have version := @field 1 4 2 _ rfl (by simp [headerFields]) (by simp)
    have sectorField := @field 2 6 2 _ rfl (by simp [headerFields]) (by simp)
    have startField := @field 3 8 8 _ rfl (by simp [headerFields]) (by simp)
    have anchorField := @field 4 16 32 _ rfl (by simp [headerFields]) width
    have crcField := @field 5 48 4 _ rfl (by simp [headerFields, width]) (by simp)
    have otherVersion : leNat (leBytes 2 formatVersionV15) ≠ formatVersion := by decide
    have knownVersion : leNat (leBytes 2 formatVersionV15) = formatVersionV15 := by decide
    rw [decodeFileHeader, if_neg (by simp [headerFields]; omega),
      if_neg (not_not.mpr (by rw [magic, knownMagic])),
      version, if_neg otherVersion, if_pos knownVersion,
      if_neg (by simp [headerFields, fileHeaderV15FieldsSize, width]; omega)]
    simp only [sectorField, startField, crcField, readDigest_eq anchorField, ofNat_leNat_crc,
      sector, start, resolveSectorSize_ok known, verified fileHeaderV15FieldsSize fieldsWidth]
    rfl

theorem encodeFileHeader_length {anchorHash : Digest} (known : sectorSize = 512 ∨ sectorSize = 4096) :
    
    (encodeFileHeader sectorSize startingSequence anchorHash genesisEntries).length
      = sectorSize := by
  have width := headerFields_length sectorSize startingSequence anchorHash genesisEntries
  have fits : (if genesisEntries.isSome then 56 else 48) + crcSize ≤ sectorSize := by
    rcases known with rfl | rfl <;> split <;> simp [crcSize]
  simp only [encodeFileHeader, List.length_append, leBytes_length, List.length_replicate, width]
  simp only [crcSize] at fits ⊢
  omega

theorem decodeFileHeader_encodeFileHeader (anchorHash : Digest) (back : Bytes)
    (known : sectorSize = 512 ∨ sectorSize = 4096) (starts : startingSequence < 2 ^ 64)
    (genesis : ∀ entries ∈ genesisEntries, entries < 2 ^ 64) :
    decodeFileHeader ((encodeFileHeader sectorSize startingSequence anchorHash genesisEntries
        ++ back).take fileHeaderSize)
      = .ok { sectorSize, startingSequence, anchorHash, genesisEntries } := by
  -- The fields and their checksum lie wholly inside the bytes taken.
  have width := headerFields_length sectorSize startingSequence anchorHash genesisEntries
  have inside : (if genesisEntries.isSome then 56 else 48) ≤ 56 := by split <;> omega
  simp only [encodeFileHeader, List.append_assoc]
  rw [List.take_append, List.take_of_length_le (by rw [width, fileHeaderSize]; omega),
    List.take_append, List.take_of_length_le (by
      rw [width, leBytes_length, fileHeaderSize]; omega)]
  exact decodeFileHeader_headerFields anchorHash _ known starts genesis

end

section

variable {E : Type} [AppEvent E]

theorem maxEntryLength_le (tag : Option UInt8) : maxEntryLength E tag ≤ maxEntryLength E none := by
  simp only [maxEntryLength, transportPayloadSize, ackPolicyChangePayloadSize]
  split_ifs <;> simp at *

theorem entryMetaSize_le_maxEntryLength (tag : Option UInt8) :
    entryMetaSize ≤ maxEntryLength E tag := by
  simp [maxEntryLength]

theorem maxEntryLength_zero : maxEntryLength E (some 0) = maxEntryLength E none := rfl

theorem maxEntryLength_append (buf rest : Bytes) (length : Nat)
    (whole : length ≤ maxEntryLength E buf[eventTagOffset]? →
      entryHeaderSize + length + crcSize ≤ buf.length) :
    length ≤ maxEntryLength E (buf ++ rest)[eventTagOffset]?
      ↔ length ≤ maxEntryLength E buf[eventTagOffset]? := by
  simp only [eventTagOffset, entryHeaderSize, crcSize] at whole ⊢
  -- Either the tag was already in the buffer, or the cap was the widest there is.
  rcases Nat.lt_or_ge 28 buf.length with known | unknown
  · rw [List.getElem?_append_left known]
  · rw [List.getElem?_eq_none unknown] at whole ⊢
    constructor
    · intro fits
      exact le_trans fits (maxEntryLength_le _)
    · intro fits
      -- An entry that ends before its own tag is narrower than any cap.
      have narrow := whole fits
      exact le_trans (by simp [entryMetaSize]; omega) (entryMetaSize_le_maxEntryLength _)

variable {sequence room : Nat} {event : JournalEvent E} {tag : UInt8} {payload bytes buf : Bytes}
  {timestampNs keyHash : UInt64}

theorem encodeEvent_width (framed : encodeEvent sequence event room = .ok (tag, payload)) :
    entryMetaSize + payload.length ≤ maxEntryLength E (some tag) := by
  cases event with
  | tick nowNs =>
    simp only [encodeEvent, Except.ok.injEq, Prod.mk.injEq] at framed
    obtain ⟨rfl, rfl⟩ := framed
    simp [maxEntryLength, transportPayloadSize]
  | epochBump epoch =>
    simp only [encodeEvent, Except.ok.injEq, Prod.mk.injEq] at framed
    obtain ⟨rfl, rfl⟩ := framed
    simp [maxEntryLength, transportPayloadSize]
  | ackPolicyChange change =>
    simp only [encodeEvent, Except.ok.injEq, Prod.mk.injEq] at framed
    obtain ⟨rfl, rfl⟩ := framed
    simp [maxEntryLength, ackPolicyChangePayloadSize, tagAckPolicyChange, tagTick, tagEpochBump]
  | shutdown => simp [encodeEvent] at framed
  | app event =>
    -- The encoder itself refuses an event wider than the declared bound.
    simp only [encodeEvent] at framed
    split_ifs at framed with wide room length
    simp only [Except.ok.injEq, Prod.mk.injEq] at framed
    obtain ⟨rfl, rfl⟩ := framed
    simp [maxEntryLength, tagApp, tagTick, tagEpochBump, tagAckPolicyChange]
    omega

theorem encodeEvent_fits (framed : encodeEvent sequence event room = .ok (tag, payload)) :
    payload.length ≤ transportPayloadSize ∨ entryFramingSize + payload.length ≤ room := by
  cases event with
  | tick nowNs =>
    obtain ⟨-, rfl⟩ := Prod.mk.inj (Except.ok.inj framed)
    exact .inl (leBytes_length ..).le
  | epochBump epoch =>
    obtain ⟨-, rfl⟩ := Prod.mk.inj (Except.ok.inj framed)
    exact .inl (leBytes_length ..).le
  | ackPolicyChange change =>
    obtain ⟨-, rfl⟩ := Prod.mk.inj (Except.ok.inj framed)
    exact .inl (by simp [transportPayloadSize])
  | shutdown => simp [encodeEvent] at framed
  | app event =>
    -- The encoder refuses an application event its destination has no room for.
    simp only [encodeEvent] at framed
    split_ifs at framed with wide tight length
    obtain ⟨-, rfl⟩ := Prod.mk.inj (Except.ok.inj framed)
    right
    simp only [entryFramingSize] at tight ⊢
    omega

theorem decodeEvent_encodeEvent
    (inverse : ∀ event : E, AppEvent.decode (AppEvent.encode event) = .ok event)
    (framed : encodeEvent sequence event room = .ok (tag, payload)) :
    decodeEvent tag payload = .ok event := by
  -- A transport payload is one integer at its full width.
  have integer : ∀ (value : UInt64) (reason : String),
      payloadU64 (leBytes 8 value.toNat) reason = .ok value := by
    intro value reason
    have whole : slice (leBytes 8 value.toNat) 0 8 = leBytes 8 value.toNat := by
      simp [slice, List.take_of_length_le]
    simp only [payloadU64, leBytes_length, lt_irrefl, if_false, whole]
    rw [leNat_leBytes 8 _ value.toNat_lt, UInt64.ofNat_toNat]
  cases event with
  | tick nowNs =>
    simp only [encodeEvent, Except.ok.injEq, Prod.mk.injEq] at framed
    obtain ⟨rfl, rfl⟩ := framed
    simp [decodeEvent, integer, Except.map]
  | epochBump epoch =>
    simp only [encodeEvent, Except.ok.injEq, Prod.mk.injEq] at framed
    obtain ⟨rfl, rfl⟩ := framed
    simp [decodeEvent, integer, Except.map, tagTick, tagEpochBump]
  | ackPolicyChange change =>
    simp only [encodeEvent, Except.ok.injEq, Prod.mk.injEq] at framed
    obtain ⟨rfl, rfl⟩ := framed
    -- The flag byte sets no reserved bit, and its one bit is the flag.
    rcases change with ⟨policy, unwitnessed⟩
    cases unwitnessed <;>
      simp [decodeEvent, tagAckPolicyChange, tagTick, tagEpochBump, ackPolicyFlagUnwitnessed]
  | shutdown => simp [encodeEvent] at framed
  | app event =>
    simp only [encodeEvent] at framed
    split_ifs at framed with wide room length
    simp only [Except.ok.injEq, Prod.mk.injEq] at framed
    obtain ⟨rfl, rfl⟩ := framed
    simp [decodeEvent, tagApp, tagTick, tagEpochBump, tagAckPolicyChange, inverse]

variable [Hashing]

theorem encode_eq_ok (encoded : encode sequence timestampNs keyHash event room = .ok bytes) :
    ∃ tag payload, encodeEvent sequence event room = .ok (tag, payload) ∧
      entryMetaSize + payload.length < 256 ^ 2 ∧
      bytes = (entryFields sequence timestampNs keyHash tag payload).flatten
        ++ leBytes 4
          (Hashing.crc32c (entryFields sequence timestampNs keyHash tag payload).flatten).toNat := by
  simp only [encode] at encoded
  split_ifs at encoded
  -- The event was framed, or the error would have been passed on.
  cases framed : encodeEvent sequence event room with
  | error err => simp [framed, bind, Except.bind] at encoded
  | ok pair =>
    obtain ⟨tag, payload⟩ := pair
    simp only [framed, bind, Except.bind] at encoded
    split_ifs at encoded with wide
    refine ⟨tag, payload, rfl, by omega, ?_⟩
    simpa [pure, Except.pure] using encoded.symm

theorem encode_length_le_room (encoded : encode sequence timestampNs keyHash event room = .ok bytes) :
    bytes.length ≤ room := by
  obtain ⟨tag, payload, framed, -, packed⟩ := encode_eq_ok encoded
  have width : bytes.length = entryFramingSize + payload.length := by
    rw [packed]
    simp [entryFields, entryFramingSize, entryHeaderSize, entryMetaSize, crcSize]
    omega
  -- Any destination that is not refused outright has room for a transport payload.
  have least : entryFramingSize + transportPayloadSize ≤ room := by
    simp only [encode] at encoded
    split_ifs at encoded with small
    simp only [entryFramingSize] at small ⊢
    omega
  rcases encodeEvent_fits framed with narrow | fits <;> omega

theorem decode_encode (inverse : ∀ event : E, AppEvent.decode (AppEvent.encode event) = .ok event)
    (inRange : sequence < 2 ^ 64)
    (encoded : encode sequence timestampNs keyHash event room = .ok bytes) (rest : Bytes) :
    decode (bytes ++ rest)
      = .ok { consumed := bytes.length, entry := { sequence, timestampNs, keyHash, event } } := by
  obtain ⟨tag, payload, framed, short, rfl⟩ := encode_eq_ok encoded
  -- The checksum is one more field behind the others, and each reads back from its place.
  generalize crcEq : Hashing.crc32c (entryFields sequence timestampNs keyHash tag payload).flatten
    = crc
  have packed : (entryFields sequence timestampNs keyHash tag payload).flatten
      ++ leBytes 4 crc.toNat
      = (entryFields sequence timestampNs keyHash tag payload ++ [leBytes 4 crc.toNat]).flatten := by
    simp
  rw [packed]
  have field := slice_flatten
    (entryFields sequence timestampNs keyHash tag payload ++ [leBytes 4 crc.toNat]) rest
  have magicField := @field 0 0 2 _ rfl rfl (by simp)
  have lengthField := @field 1 2 2 _ rfl (by simp [entryFields]) (by simp)
  have sequenceField := @field 2 4 8 _ rfl (by simp [entryFields]) (by simp)
  have timestampField := @field 3 12 8 _ rfl (by simp [entryFields]) (by simp)
  have keyHashField := @field 4 20 8 _ rfl (by simp [entryFields]) (by simp)
  have payloadField := @field 6 29 payload.length _ rfl (by simp [entryFields]) rfl
  have crcField := @field 7 (29 + payload.length) 4 _ rfl (by simp [entryFields]; omega) (by simp)
  have width := encodeEvent_width framed
  have lengthEq : leNat (leBytes 2 (entryMetaSize + payload.length))
      = entryMetaSize + payload.length := leNat_leBytes 2 _ short
  have sequenceEq : leNat (leBytes 8 sequence) = sequence := leNat_leBytes 8 _ inRange
  have timestampEq : leNat (leBytes 8 timestampNs.toNat) = timestampNs.toNat :=
    leNat_leBytes 8 _ timestampNs.toNat_lt
  have keyHashEq : leNat (leBytes 8 keyHash.toNat) = keyHash.toNat :=
    leNat_leBytes 8 _ keyHash.toNat_lt
  have tagEq : ((entryFields sequence timestampNs keyHash tag payload
      ++ [leBytes 4 crc.toNat]).flatten ++ rest)[eventTagOffset]? = some tag := by
    simp [entryFields, eventTagOffset, entryHeaderSize, List.getElem?_append]
  have body : ((entryFields sequence timestampNs keyHash tag payload
      ++ [leBytes 4 crc.toNat]).flatten ++ rest).take (29 + payload.length)
      = (entryFields sequence timestampNs keyHash tag payload).flatten := by
    rw [← packed, List.append_assoc, List.take_append_of_le_length (by simp [entryFields]; omega)]
    exact List.take_of_length_le (by simp [entryFields]; omega)
  generalize bufEq : (entryFields sequence timestampNs keyHash tag payload
      ++ [leBytes 4 crc.toNat]).flatten ++ rest = buf at *
  have length : 33 + payload.length + rest.length = buf.length := by
    rw [← bufEq]; simp [entryFields]; omega
  have place : entryHeaderSize + (entryMetaSize + payload.length) = 29 + payload.length := by
    simp [entryHeaderSize, entryMetaSize]; omega
  have start : entryHeaderSize + entryMetaSize = 29 := rfl
  simp only [decode, magicField, lengthField, sequenceField, timestampField, keyHashField,
    lengthEq, sequenceEq, timestampEq, keyHashEq, tagEq, place, crcField, body, crcEq,
    ofNat_leNat_crc, List.getD_eq_getElem?_getD, Option.getD_some, start, Nat.add_sub_cancel_left,
    payloadField, decodeEvent_encodeEvent inverse framed]
  rw [if_neg (by simp [entryHeaderSize, crcSize]; omega), if_neg (by decide),
    if_neg (by omega), if_neg (by simp [crcSize]; omega), if_neg (by simp), if_neg (by omega)]
  simp [entryFields, crcSize]
  omega

theorem decode_short (short : buf.length < entryHeaderSize + 1 + crcSize) :
    decode (E := E) buf = .error .truncatedEntry := by
  rw [decode, if_pos short]

theorem decode_append (rest : Bytes) (whole : decode (E := E) buf ≠ .error .truncatedEntry) :
    decode (E := E) (buf ++ rest) = decode buf := by
  by_cases short : buf.length < entryHeaderSize + 1 + crcSize
  · exact absurd (decode_short short) whole
  have header : 25 ≤ buf.length := by simpa [entryHeaderSize, crcSize] using short
  -- The fixed header is inside the buffer already, so its fields stay what they were.
  have window : ∀ start count, start + count ≤ 25 →
      slice (buf ++ rest) start count = slice buf start count := fun start count inside =>
    slice_append_left (by omega)
  have still : ¬ (buf ++ rest).length < entryHeaderSize + 1 + crcSize := by
    simp [entryHeaderSize, crcSize]; omega
  by_cases magic : leNat (slice buf 0 2) ≠ entryMagic
  · simp only [decode, if_neg short, if_neg still, window 0 2 (by omega), if_pos magic]
  by_cases wide : leNat (slice buf 2 2) > maxEntryLength E buf[eventTagOffset]?
  · have stillWide : leNat (slice buf 2 2) > maxEntryLength E (buf ++ rest)[eventTagOffset]? := by
      have cap := maxEntryLength_append (E := E) buf rest (leNat (slice buf 2 2)) (by omega)
      omega
    simp only [decode, if_neg short, if_neg still, window 0 2 (by omega), window 2 2 (by omega),
      window 4 8 (by omega), if_neg magic, if_pos wide, if_pos stillWide]
  by_cases cut : buf.length < entryHeaderSize + leNat (slice buf 2 2) + crcSize
  · exact absurd (by simp only [decode, if_neg short, if_neg magic, if_neg wide, if_pos cut]) whole
  have stillNarrow : ¬ leNat (slice buf 2 2) > maxEntryLength E (buf ++ rest)[eventTagOffset]? := by
    have cap := maxEntryLength_append (E := E) buf rest (leNat (slice buf 2 2)) (by omega)
    omega
  have stillWhole : ¬ (buf ++ rest).length < entryHeaderSize + leNat (slice buf 2 2) + crcSize := by
    simp only [List.length_append]; omega
  -- From here on every byte that is looked at lies inside the entry.
  have body : (buf ++ rest).take (entryHeaderSize + leNat (slice buf 2 2))
      = buf.take (entryHeaderSize + leNat (slice buf 2 2)) :=
    List.take_append_of_le_length (by omega)
  have crc : slice (buf ++ rest) (entryHeaderSize + leNat (slice buf 2 2)) 4
      = slice buf (entryHeaderSize + leNat (slice buf 2 2)) 4 :=
    slice_append_left (by simp only [crcSize] at cut; omega)
  by_cases metadata : leNat (slice buf 2 2) < entryMetaSize
  · simp only [decode, if_neg short, if_neg still, window 0 2 (by omega), window 2 2 (by omega),
      window 4 8 (by omega), if_neg magic, if_neg wide, if_neg stillNarrow, if_neg cut,
      if_neg stillWhole, body, crc, if_pos metadata]
  have payload : slice (buf ++ rest) (entryHeaderSize + entryMetaSize)
      (leNat (slice buf 2 2) - entryMetaSize)
      = slice buf (entryHeaderSize + entryMetaSize) (leNat (slice buf 2 2) - entryMetaSize) :=
    slice_append_left (by omega)
  have tag : (buf ++ rest).getD eventTagOffset 0 = buf.getD eventTagOffset 0 := by
    simp only [eventTagOffset, entryHeaderSize, entryMetaSize, crcSize] at *
    rw [List.getD_append _ _ _ _ (by omega)]
  have keyHash : slice (buf ++ rest) 20 8 = slice buf 20 8 :=
    slice_append_left (by simp only [entryHeaderSize, entryMetaSize, crcSize] at *; omega)
  simp only [decode, if_neg short, if_neg still, window 0 2 (by omega), window 2 2 (by omega),
    window 4 8 (by omega), window 12 8 (by omega), if_neg magic, if_neg wide, if_neg stillNarrow,
    if_neg cut, if_neg stillWhole, body, crc, if_neg metadata, payload, tag, keyHash]

structure EntryAt (buf : Bytes) (decoded : DecodedEntry E) : Prop where
  magic : leNat (slice buf 0 2) = entryMagic
  consumed : decoded.consumed = entryHeaderSize + leNat (slice buf 2 2) + crcSize
  metadata : entryMetaSize ≤ leNat (slice buf 2 2)
  inside : decoded.consumed ≤ buf.length
  sequence : decoded.entry.sequence = leNat (slice buf 4 8)

theorem decode_eq_ok {decoded : DecodedEntry E} (found : decode buf = .ok decoded) :
    EntryAt buf decoded := by
  simp only [decode] at found
  -- Every check that could have refused the entry passed.
  split_ifs at found with short magic wide cut crc metadata
  split at found
  · simp at found
  · simp only [Except.ok.injEq] at found
    subst found
    exact ⟨not_not.mp magic, rfl, by omega, by simpa using cut, rfl⟩

omit [AppEvent E] [Hashing] in
theorem EntryAt.framing_le {buf : Bytes} {decoded : DecodedEntry E}
    (found : EntryAt buf decoded) : entryFramingSize ≤ decoded.consumed := by
  have width := found.metadata
  rw [found.consumed, entryFramingSize]
  omega

omit [AppEvent E] [Hashing] in
theorem EntryAt.sequence_lt {buf : Bytes} {decoded : DecodedEntry E}
    (found : EntryAt buf decoded) : decoded.entry.sequence < 2 ^ 64 := by
  have inside := found.inside
  have framing := found.framing_le
  have bound := leNat_lt (slice buf 4 8)
  rw [slice_length (by simp only [entryFramingSize, entryHeaderSize, entryMetaSize, crcSize] at *; omega)] at bound
  rw [found.sequence]
  exact bound

theorem decode_ne_truncatedEntry (header : entryHeaderSize + 1 + crcSize ≤ buf.length)
    (whole : entryHeaderSize + leNat (slice buf 2 2) + crcSize ≤ buf.length) :
    decode (E := E) buf ≠ .error .truncatedEntry := by
  -- Both of the checks that report a cut are ruled out, and the others report something else.
  simp only [decode, if_neg (Nat.not_lt.mpr header), if_neg (Nat.not_lt.mpr whole)]
  split_ifs
  case neg => split <;> simp
  all_goals simp

theorem decode_take_consumed {decoded : DecodedEntry E} (found : decode buf = .ok decoded)
    (rest : Bytes) :
    decode (buf.take decoded.consumed ++ rest) = .ok decoded := by
  have held := decode_eq_ok found
  have framing := held.framing_le
  have width : (buf.take decoded.consumed).length = decoded.consumed := by
    simp only [List.length_take]; exact Nat.min_eq_left held.inside
  have lengthField : slice (buf.take decoded.consumed) 2 2 = slice buf 2 2 := by
    conv_rhs => rw [← List.take_append_drop decoded.consumed buf]
    rw [slice_append_left (by simp only [entryFramingSize, entryHeaderSize] at framing; omega)]
  -- Cut at its end, the entry is still whole, so what follows it does not matter.
  have whole : decode (E := E) (buf.take decoded.consumed) ≠ .error .truncatedEntry := by
    apply decode_ne_truncatedEntry
    · simp only [entryFramingSize, entryMetaSize] at framing; omega
    · rw [lengthField, width, held.consumed]
  have alone : decode (buf.take decoded.consumed) = .ok decoded := by
    rw [← decode_append (buf.drop decoded.consumed) whole, List.take_append_drop, found]
  rw [decode_append rest whole, alone]

/-- The checksum stored where an image's own length field puts it is not the image's checksum. -/
def FailsOwnCrc (image : Bytes) : Prop :=
  let dataEnd := entryHeaderSize + leNat (slice image 2 2)
  UInt32.ofNat (leNat (slice image dataEnd 4)) ≠ Hashing.crc32c (image.take dataEnd)

instance (image : Bytes) : Decidable (FailsOwnCrc image) :=
  inferInstanceAs (Decidable (_ ≠ _))

theorem encode_frame (encoded : encode sequence timestampNs keyHash event room = .ok bytes) :
    ∃ tag, slice bytes 0 2 = leBytes 2 entryMagic ∧ bytes[eventTagOffset]? = some tag ∧
      leNat (slice bytes 2 2) ≤ maxEntryLength E (some tag) ∧
      entryMetaSize ≤ leNat (slice bytes 2 2) ∧
      bytes.length = entryHeaderSize + leNat (slice bytes 2 2) + crcSize := by
  obtain ⟨tag, payload, framed, short, rfl⟩ := encode_eq_ok encoded
  have width := encodeEvent_width framed
  have field := slice_flatten (entryFields sequence timestampNs keyHash tag payload)
    (leBytes 4 (Hashing.crc32c (entryFields sequence timestampNs keyHash tag payload).flatten).toNat)
  have lengthField := @field 1 2 2 _ rfl (by simp [entryFields]) (by simp)
  refine ⟨tag, @field 0 0 2 _ rfl rfl (by simp), ?_, ?_⟩
  · simp [entryFields, eventTagOffset, entryHeaderSize, List.getElem?_append]
  · rw [lengthField, leNat_leBytes 2 _ short]
    refine ⟨width, by omega, ?_⟩
    simp [entryFields, entryHeaderSize, entryMetaSize, crcSize]
    omega

/-- An entry that lost bytes but kept its magic is refused by its checksum, and by nothing else. -/
theorem decode_torn {image : Bytes}
    (encoded : encode sequence timestampNs keyHash event room = .ok bytes) (torn : Torn bytes image)
    (magic : leNat (slice image 0 2) = entryMagic) (fails : FailsOwnCrc image) (rest : Bytes) :
    ∃ found expected actual,
      decode (E := E) (image ++ rest) = .error (.checksumMismatch found expected actual) := by
  obtain ⟨tag, -, tagField, width, metadata, size⟩ := encode_frame encoded
  have sameSize := torn.length_eq
  simp only [FailsOwnCrc] at fails
  -- Losing bytes can only shrink the length, and can only make the tag an unknown one.
  have shorter : leNat (slice image 2 2) ≤ leNat (slice bytes 2 2) := (torn.slice 2 2).leNat_le
  have narrow : leNat (slice image 2 2) ≤ maxEntryLength E image[eventTagOffset]? := by
    rcases torn.getElem? eventTagOffset with kept | lost
    · rw [kept, tagField]; omega
    · rw [lost, maxEntryLength_zero]
      exact le_trans (le_trans shorter width) (maxEntryLength_le _)
  have refused : decode (E := E) image = .error (.checksumMismatch (leNat (slice image 4 8))
      (UInt32.ofNat (leNat (slice image (entryHeaderSize + leNat (slice image 2 2)) 4)))
      (Hashing.crc32c (image.take (entryHeaderSize + leNat (slice image 2 2))))) := by
    simp only [decode]
    rw [if_neg (by simp only [entryHeaderSize, entryMetaSize, crcSize] at *; omega),
      if_neg (not_not.mpr magic), if_neg (by omega), if_neg (by omega), if_pos fails]
  exact ⟨_, _, _, by rw [decode_append rest (by simp [refused]), refused]⟩

end

end Melin
