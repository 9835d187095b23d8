import Melin.Examples.CounterEvent
import Melin.Journal.WriterSteps
import Melin.Replication.InputBatch

/-! Input batches and the entries they carry: what is packed decodes, and what decodes was checked. -/

namespace Melin

open Lib

structure WireSlot where
  sequence : Nat
  timestampNs : UInt64
  keyHash : UInt64
  tag : UInt8
  payload : Bytes
  shippedCrc : UInt32
  inRange : sequence < 2 ^ 64
  counted : entryMetaSize + payload.length < 2 ^ 16

namespace WireSlot

def fields (wire : WireSlot) : List Bytes :=
  [leBytes 2 (entryMetaSize + wire.payload.length), leBytes 8 wire.sequence,
    leBytes 8 wire.timestampNs.toNat, leBytes 8 wire.keyHash.toNat, [wire.tag], wire.payload]

def body (wire : WireSlot) : Bytes := wire.fields.flatten

def bytes (wire : WireSlot) : Bytes := wire.body ++ leBytes 4 wire.shippedCrc.toNat

theorem magic_body (wire : WireSlot) : leBytes 2 entryMagic ++ wire.body
    = (entryFields wire.sequence wire.timestampNs wire.keyHash wire.tag wire.payload).flatten := rfl

def header (wire : WireSlot) : Bytes := (wire.fields.take 5).flatten

@[simp] theorem header_length (wire : WireSlot) : wire.header.length = slotHeaderLen := by
  simp [header, fields, slotHeaderLen]

theorem body_eq (wire : WireSlot) : wire.body = wire.header ++ wire.payload := by
  simp [body, header, fields]

theorem field (wire : WireSlot) (back : Bytes) (index : Nat) {start count : Nat} {content : Bytes}
    (present : (wire.fields ++ [leBytes 4 wire.shippedCrc.toNat])[index]? = some content)
    (place : ((wire.fields ++ [leBytes 4 wire.shippedCrc.toNat]).take index).flatten.length = start)
    (width : content.length = count) : slice (wire.bytes ++ back) start count = content := by
  have packed : wire.bytes = (wire.fields ++ [leBytes 4 wire.shippedCrc.toNat]).flatten := by
    simp [bytes, body]
  rw [packed]
  exact slice_flatten _ back index present place width

theorem exists_bytes {rest : Bytes} {size : Nat} (counts : leNat (slice rest 0 2) = entryMetaSize + size)
    (whole : slotHeaderLen + size + crcSize ≤ rest.length) :
    ∃ (wire : WireSlot) (back : Bytes), rest = wire.bytes ++ back := by
  simp only [slotHeaderLen, crcSize] at whole
  have lengthBound := leNat_lt (slice rest 0 2)
  rw [slice_length (by omega), counts] at lengthBound
  have sequenceBound := leNat_lt (slice rest 2 8)
  rw [slice_length (by omega)] at sequenceBound
  have crcBound := leNat_lt (slice rest (27 + size) 4)
  rw [slice_length (by omega)] at crcBound
  have width : (slice rest 27 size).length = size := slice_length (by omega)
  refine ⟨{ sequence := leNat (slice rest 2 8), timestampNs := UInt64.ofNat (leNat (slice rest 10 8))
            keyHash := UInt64.ofNat (leNat (slice rest 18 8)), tag := rest.getD 26 0
            payload := slice rest 27 size
            shippedCrc := UInt32.ofNat (leNat (slice rest (27 + size) 4))
            inRange := sequenceBound, counted := by rwa [width] },
    rest.drop (27 + size + 4), ?_⟩
  -- Every field is the window it was read from, so the windows side by side are the slot.
  have packed : windows rest 0 [2, 8, 8, 8, 1, size, 4]
      = [leBytes 2 (entryMetaSize + size), leBytes 8 (leNat (slice rest 2 8)),
        leBytes 8 (UInt64.ofNat (leNat (slice rest 10 8))).toNat,
        leBytes 8 (UInt64.ofNat (leNat (slice rest 18 8))).toNat, [rest.getD 26 0],
        slice rest 27 size, leBytes 4 (UInt32.ofNat (leNat (slice rest (27 + size) 4))).toNat] := by
    rw [← counts, leBytes_slice (by omega), leBytes_slice (by omega), leBytes_ofNat_slice (by omega),
      leBytes_ofNat_slice (by omega), slice_one (by omega), UInt32.toNat_ofNat_of_lt' crcBound,
      leBytes_slice (by omega)]
    rfl
  have joined := flatten_windows rest 0 [2, 8, 8, 8, 1, size, 4]
  rw [packed] at joined
  have total : [2, 8, 8, 8, 1, size, 4].sum = 27 + size + 4 := by
    simp only [List.sum_cons, List.sum_nil]
    omega
  rw [total] at joined
  conv_lhs => rw [← List.take_append_drop (27 + size + 4) rest]
  rw [show rest.take (27 + size + 4) = slice rest 0 (27 + size + 4) from rfl, ← joined]
  simp [bytes, body, fields, width]

section

variable {E : Type} [AppEvent E] [Hashing]

def check (wire : WireSlot) : Except InputBatchError (InputSlot E) :=
  match decodeEvent (E := E) wire.tag wire.payload with
  | .error err => .error (refused wire.sequence wire.body wire.shippedCrc (.undecodable err))
  | .ok event =>
    match encode wire.sequence wire.timestampNs wire.keyHash event maxEntrySize with
    | .error err => .error (refused wire.sequence wire.body wire.shippedCrc (.unencodable err))
    | .ok reencoded =>
      let reencodedCrc := UInt32.ofNat (leNat (reencoded.drop (reencoded.length - crcSize)))
      if reencodedCrc ≠ wire.shippedCrc then
        if receivedCrc wire.body ≠ wire.shippedCrc then
          .error (.corrupted wire.sequence wire.shippedCrc (receivedCrc wire.body))
        else .error (.notRoundTrip wire.sequence wire.shippedCrc reencodedCrc)
      else
        .ok { connectionId := 0, requestId := 0, keyHash := wire.keyHash, sequence := wire.sequence
              timestampNs := wire.timestampNs, event }

theorem decodeSlot_bytes (wire : WireSlot) (back : Bytes) :
    decodeSlot (E := E) (wire.bytes ++ back) = wire.check.map fun slot => (slot, back) := by
  have lengthField : slice (wire.bytes ++ back) 0 2 = leBytes 2 (entryMetaSize + wire.payload.length) :=
    wire.field back 0 rfl rfl (by simp)
  have sequenceField : slice (wire.bytes ++ back) 2 8 = leBytes 8 wire.sequence :=
    wire.field back 1 rfl (by simp [fields]) (by simp)
  have timestampField : slice (wire.bytes ++ back) 10 8 = leBytes 8 wire.timestampNs.toNat :=
    wire.field back 2 rfl (by simp [fields]) (by simp)
  have keyHashField : slice (wire.bytes ++ back) 18 8 = leBytes 8 wire.keyHash.toNat :=
    wire.field back 3 rfl (by simp [fields]) (by simp)
  have lengthEq : leNat (leBytes 2 (entryMetaSize + wire.payload.length))
      = entryMetaSize + wire.payload.length := leNat_leBytes 2 _ wire.counted
  have sequenceEq : leNat (leBytes 8 wire.sequence) = wire.sequence := leNat_leBytes 8 _ wire.inRange
  have timestampEq : UInt64.ofNat (leNat (leBytes 8 wire.timestampNs.toNat)) = wire.timestampNs := by
    rw [leNat_leBytes 8 _ wire.timestampNs.toNat_lt, UInt64.ofNat_toNat]
  have keyHashEq : UInt64.ofNat (leNat (leBytes 8 wire.keyHash.toNat)) = wire.keyHash := by
    rw [leNat_leBytes 8 _ wire.keyHash.toNat_lt, UInt64.ofNat_toNat]
  have tagEq : (wire.bytes ++ back).getD 26 0 = wire.tag := by
    simp [bytes, body, fields, List.getD_eq_getElem?_getD, List.getElem?_append]
  have behind : (wire.bytes ++ back).drop slotHeaderLen
      = wire.payload ++ (leBytes 4 wire.shippedCrc.toNat ++ back) := by
    rw [bytes, body_eq, ← header_length wire]
    simp only [List.append_assoc, List.drop_left]
  have front : (wire.bytes ++ back).take (slotHeaderLen + wire.payload.length) = wire.body := by
    rw [bytes, ← header_length wire, ← List.length_append, ← body_eq, List.append_assoc,
      List.take_left]
  have crcEq : UInt32.ofNat (leNat (slice (wire.payload ++ (leBytes 4 wire.shippedCrc.toNat ++ back))
      wire.payload.length crcSize)) = wire.shippedCrc := by
    have whole := slice_front (leBytes 4 wire.shippedCrc.toNat) back
    rw [leBytes_length] at whole
    rw [← Nat.add_zero wire.payload.length, slice_append_right, crcSize, whole, ofNat_leNat_crc]
  have long : slotHeaderLen + wire.payload.length + crcSize ≤ (wire.bytes ++ back).length := by
    simp only [bytes, body_eq, List.length_append, header_length, leBytes_length, crcSize]
    omega
  have rest : (wire.payload ++ (leBytes 4 wire.shippedCrc.toNat ++ back)).drop
      (wire.payload.length + crcSize) = back := by
    simp [← List.drop_drop, crcSize]
  rw [decodeSlot, if_neg (by omega)]
  simp only [lengthField, lengthEq, sequenceField, sequenceEq, timestampField, timestampEq,
    keyHashField, keyHashEq, tagEq, behind, front, crcEq, rest, Nat.add_sub_cancel_left,
    List.take_left]
  rw [if_neg (by omega), if_neg (by simp [crcSize])]
  rw [check]
  cases decodeEvent (E := E) wire.tag wire.payload with
  | error err => rfl
  | ok event =>
    dsimp only
    cases encode wire.sequence wire.timestampNs wire.keyHash event maxEntrySize with
    | error err => rfl
    | ok reencoded =>
      dsimp only
      split_ifs <;> rfl

theorem decodeSlot_cases (rest : Bytes) :
    (∃ reason, decodeSlot (E := E) rest = .error (.framing reason)) ∨
      ∃ (wire : WireSlot) (back : Bytes), rest = wire.bytes ++ back := by
  -- What passes the three framing checks is as long as its length field says.
  by_cases short : rest.length < slotHeaderLen
  · exact .inl ⟨_, by rw [decodeSlot, if_pos short]⟩
  by_cases narrow : leNat (slice rest 0 2) < entryMetaSize
  · exact .inl ⟨_, by rw [decodeSlot, if_neg short]; simp only [if_pos narrow]; rfl⟩
  by_cases cut : (rest.drop slotHeaderLen).length < leNat (slice rest 0 2) - entryMetaSize + crcSize
  · exact .inl ⟨_, by rw [decodeSlot, if_neg short]; simp only [if_neg narrow, if_pos cut]; rfl⟩
  refine .inr (@exists_bytes rest (leNat (slice rest 0 2) - entryMetaSize) (by omega) ?_)
  rw [List.length_drop] at cut
  omega

structure Carries (wire : WireSlot) (slot : InputSlot E) : Prop where
  fromNoClient : slot.connectionId = 0 ∧ slot.requestId = 0
  sequence : slot.sequence = wire.sequence
  timestampNs : slot.timestampNs = wire.timestampNs
  keyHash : slot.keyHash = wire.keyHash
  event : decodeEvent wire.tag wire.payload = .ok slot.event
  /-- Encoded again, it is an entry with the checksum shipped. -/
  reencoded : ∃ body, Hashing.crc32c body = wire.shippedCrc ∧
    encode slot.sequence slot.timestampNs slot.keyHash slot.event maxEntrySize
      = .ok (body ++ leBytes 4 wire.shippedCrc.toNat)

theorem reencodedCrc_eq {sequence room : Nat} {timestampNs keyHash : UInt64} {event : JournalEvent E}
    {entry : Bytes} (encoded : encode sequence timestampNs keyHash event room = .ok entry) :
    ∃ body, entry = body ++ leBytes 4 (Hashing.crc32c body).toNat ∧
      UInt32.ofNat (leNat (entry.drop (entry.length - crcSize))) = Hashing.crc32c body := by
  obtain ⟨tag, payload, -, -, rfl⟩ := encode_eq_ok encoded
  refine ⟨_, rfl, ?_⟩
  rw [List.length_append, leBytes_length, crcSize, Nat.add_sub_cancel, List.drop_left,
    ofNat_leNat_crc]

theorem check_eq_ok {wire : WireSlot} {slot : InputSlot E} :
    wire.check = .ok slot ↔ wire.Carries slot := by
  constructor
  · intro passes
    rw [check] at passes
    cases decoded : decodeEvent (E := E) wire.tag wire.payload with
    | error err => simp [decoded] at passes
    | ok event =>
      simp only [decoded] at passes
      cases encoded : encode wire.sequence wire.timestampNs wire.keyHash event maxEntrySize with
      | error err => simp [encoded] at passes
      | ok entry =>
        obtain ⟨body, packed, crc⟩ := reencodedCrc_eq encoded
        simp only [encoded, crc] at passes
        split_ifs at passes with differs
        have same := not_not.mp differs
        obtain rfl := Except.ok.inj passes
        rw [packed, same] at encoded
        exact ⟨⟨rfl, rfl⟩, rfl, rfl, rfl, decoded, body, same, encoded⟩
  · rintro ⟨⟨noConnection, noRequest⟩, sequence, timestampNs, keyHash, decoded, body, same, encoded⟩
    obtain ⟨connectionId, requestId, _, _, _, event⟩ := slot
    dsimp only at *
    subst noConnection noRequest sequence timestampNs keyHash
    have trailer : UInt32.ofNat (leNat ((body ++ leBytes 4 wire.shippedCrc.toNat).drop
        ((body ++ leBytes 4 wire.shippedCrc.toNat).length - crcSize))) = wire.shippedCrc := by
      rw [List.length_append, leBytes_length, crcSize, Nat.add_sub_cancel, List.drop_left,
        ofNat_leNat_crc]
    simp only [check, decoded, encoded, trailer, ne_eq, not_true_eq_false, if_false]

def Intact (wire : WireSlot) : Prop := receivedCrc wire.body = wire.shippedCrc

theorem check_eq_error {wire : WireSlot} {err : InputBatchError}
    (refuses : wire.check (E := E) = .error err) :
    err = .corrupted wire.sequence wire.shippedCrc (receivedCrc wire.body) ∧ ¬ wire.Intact ∨
      wire.Intact ∧ ((∃ fault, err = .malformed wire.sequence fault) ∨
        ∃ reencodedCrc, err = .notRoundTrip wire.sequence wire.shippedCrc reencodedCrc) := by
  -- A slot that was no entry is judged by its bytes alone, whatever was wrong with it.
  have judged : ∀ fault, err = refused wire.sequence wire.body wire.shippedCrc fault →
      err = .corrupted wire.sequence wire.shippedCrc (receivedCrc wire.body) ∧ ¬ wire.Intact ∨
        wire.Intact ∧ ((∃ fault, err = .malformed wire.sequence fault) ∨
          ∃ reencodedCrc, err = .notRoundTrip wire.sequence wire.shippedCrc reencodedCrc) := by
    rintro fault rfl
    rw [refused]
    split_ifs with damaged
    · exact .inl ⟨rfl, damaged⟩
    · exact .inr ⟨not_not.mp damaged, .inl ⟨fault, rfl⟩⟩
  rw [check] at refuses
  cases decoded : decodeEvent (E := E) wire.tag wire.payload with
  | error reason =>
    simp only [decoded, Except.error.injEq] at refuses
    exact judged _ refuses.symm
  | ok event =>
    simp only [decoded] at refuses
    cases encoded : encode wire.sequence wire.timestampNs wire.keyHash event maxEntrySize with
    | error reason =>
      simp only [encoded, Except.error.injEq] at refuses
      exact judged _ refuses.symm
    | ok entry =>
      simp only [encoded] at refuses
      split_ifs at refuses with differs damaged
      · exact .inl ⟨(Except.error.inj refuses).symm, damaged⟩
      · exact .inr ⟨not_not.mp damaged, .inr ⟨_, (Except.error.inj refuses).symm⟩⟩

end

end WireSlot

section

variable {E : Type} [AppEvent E] [Hashing]

def wireBytes (wires : List WireSlot) : Bytes := wires.flatMap (·.bytes)

variable {count : Nat} {err : InputBatchError} {payload : Bytes}

theorem decodeSlots_eq_ok {rest : Bytes} {slots : List (InputSlot E)} :
    decodeSlots count rest = .ok slots ↔
      ∃ wires, wires.length = count ∧ rest = wireBytes wires ∧
        List.Forall₂ WireSlot.Carries wires slots := by
  induction count generalizing rest slots with
  | zero =>
    rw [decodeSlots]
    constructor
    · intro decoded
      split_ifs at decoded with left
      obtain rfl := Except.ok.inj decoded
      exact ⟨[], rfl, not_not.mp left, .nil⟩
    · rintro ⟨wires, none, rfl, carry⟩
      obtain rfl := List.length_eq_zero_iff.mp none
      cases carry
      rfl
  | succ count ih =>
    rw [decodeSlots]
    constructor
    · intro decoded
      obtain ⟨reason, framing⟩ | ⟨wire, back, rfl⟩ := WireSlot.decodeSlot_cases (E := E) rest
      · rw [framing] at decoded
        cases decoded
      · rw [wire.decodeSlot_bytes] at decoded
        cases checked : wire.check (E := E) with
        | error err =>
          rw [checked] at decoded
          cases decoded
        | ok slot =>
          simp only [checked, Except.map, bind, Except.bind] at decoded
          cases later : decodeSlots (E := E) count back with
          | error err => simp [later] at decoded
          | ok others =>
            simp only [later, pure, Except.pure, Except.ok.injEq] at decoded
            subst decoded
            obtain ⟨wires, rfl, rfl, carry⟩ := ih.mp later
            exact ⟨wire :: wires, rfl, rfl, .cons (WireSlot.check_eq_ok.mp checked) carry⟩
    · rintro ⟨wires, length, rfl, carry⟩
      cases carry with
      | nil => cases length
      | @cons wire slot wires slots first carry =>
        have later := ih.mpr ⟨wires, Nat.succ.inj length, rfl, carry⟩
        rw [show wireBytes (wire :: wires) = wire.bytes ++ wireBytes wires from rfl,
          wire.decodeSlot_bytes, WireSlot.check_eq_ok.mpr first]
        simp only [Except.map, bind, Except.bind, later]
        rfl

theorem decodeSlots_eq_error {rest : Bytes} (refuses : decodeSlots (E := E) count rest = .error err) :
    
    (∃ reason, err = .framing reason) ∨
      ∃ (front : List WireSlot) (wire : WireSlot) (back : Bytes),
        rest = wireBytes front ++ wire.bytes ++ back ∧ wire.check (E := E) = .error err := by
  induction count generalizing rest with
  | zero =>
    rw [decodeSlots] at refuses
    split_ifs at refuses
    exact .inl ⟨_, (Except.error.inj refuses).symm⟩
  | succ count ih =>
    rw [decodeSlots] at refuses
    obtain ⟨reason, framing⟩ | ⟨wire, back, rfl⟩ := WireSlot.decodeSlot_cases (E := E) rest
    · rw [framing] at refuses
      exact .inl ⟨reason, (Except.error.inj refuses).symm⟩
    · rw [wire.decodeSlot_bytes] at refuses
      cases checked : wire.check (E := E) with
      | error reason =>
        rw [checked] at refuses
        obtain rfl : reason = err := Except.error.inj refuses
        exact .inr ⟨[], wire, back, rfl, checked⟩
      | ok slot =>
        simp only [checked, Except.map, bind, Except.bind] at refuses
        cases later : decodeSlots (E := E) count back with
        | ok others => simp [later, pure, Except.pure] at refuses
        | error reason =>
          simp only [later, Except.error.injEq] at refuses
          subst refuses
          -- The slot in front passed, so the one that did not lies behind it.
          obtain framing | ⟨front, failed, rest, rfl, check⟩ := ih later
          · exact .inl framing
          · refine .inr ⟨wire :: front, failed, rest, ?_, check⟩
            simp [wireBytes]

theorem tryDecodeInputBatch_eq_ok {slots : List (InputSlot E)} :
    tryDecodeInputBatch payload = .ok slots ↔
      ∃ wires, wires.length < 2 ^ 16 ∧
        payload = msgInputBatch :: (leBytes 2 wires.length ++ wireBytes wires) ∧
        List.Forall₂ WireSlot.Carries wires slots := by
  constructor
  · intro decoded
    cases payload with
    | nil => cases decoded
    | cons tag rest =>
      simp only [tryDecodeInputBatch] at decoded
      split_ifs at decoded with other short
      obtain rfl := not_not.mp other
      obtain ⟨wires, count, bytes, carry⟩ := decodeSlots_eq_ok.mp decoded
      have inside : 1 + 2 ≤ (msgInputBatch :: rest).length := by omega
      have countBound := leNat_lt (slice (msgInputBatch :: rest) 1 2)
      rw [slice_length inside, ← count] at countBound
      refine ⟨wires, countBound, ?_, carry⟩
      rw [← bytes, count, leBytes_slice inside]
      simp [slice]
  · rintro ⟨wires, few, rfl, carry⟩
    have count : leNat (slice (msgInputBatch :: (leBytes 2 wires.length ++ wireBytes wires)) 1 2)
        = wires.length := by
      rw [slice, List.drop_succ_cons, List.drop_zero, List.take_left' (leBytes_length 2 _),
        leNat_leBytes 2 _ few]
    have rest : (msgInputBatch :: (leBytes 2 wires.length ++ wireBytes wires)).drop 3
        = wireBytes wires := by
      rw [List.drop_succ_cons, List.drop_left' (leBytes_length 2 _)]
    rw [tryDecodeInputBatch, if_neg (by simp), if_neg (by simp), count, rest]
    exact decodeSlots_eq_ok.mpr ⟨wires, rfl, rfl, carry⟩

theorem tryDecodeInputBatch_eq_error (refuses : tryDecodeInputBatch (E := E) payload = .error err) :
    (∃ tag, err = .notInputBatch tag) ∨ (∃ reason, err = .framing reason) ∨
      ∃ (front : List WireSlot) (wire : WireSlot) (back : Bytes),
        payload.drop 3 = wireBytes front ++ wire.bytes ++ back ∧
        wire.check (E := E) = .error err := by
  cases payload with
  | nil => exact .inr (.inl ⟨_, (Except.error.inj refuses).symm⟩)
  | cons tag rest =>
    simp only [tryDecodeInputBatch] at refuses
    split_ifs at refuses with other short
    · exact .inl ⟨_, (Except.error.inj refuses).symm⟩
    · exact .inr (.inl ⟨_, (Except.error.inj refuses).symm⟩)
    · exact .inr (decodeSlots_eq_error refuses)

def WrittenEntry.slot (written : WrittenEntry E) : InputSlot E :=
  { connectionId := 0, requestId := 0, keyHash := written.entry.keyHash
    sequence := written.entry.sequence, timestampNs := written.entry.timestampNs
    event := written.entry.event }

theorem WrittenEntry.exists_wire
    (inverse : ∀ event : E, AppEvent.decode (AppEvent.encode event) = .ok event)
    (written : WrittenEntry E) :
    ∃ wire : WireSlot, written.bytes = leBytes 2 entryMagic ++ wire.bytes ∧ wire.Intact ∧
      wire.Carries written.slot := by
  obtain ⟨tag, payload, framed, short, packed⟩ := encode_eq_ok written.encoded
  refine ⟨{ sequence := written.entry.sequence, timestampNs := written.entry.timestampNs
            keyHash := written.entry.keyHash, tag, payload
            shippedCrc := Hashing.crc32c (entryFields written.entry.sequence
              written.entry.timestampNs written.entry.keyHash tag payload).flatten
            inRange := written.inRange, counted := short }, ?_, rfl, ?_⟩
  · rw [packed, WireSlot.bytes, ← List.append_assoc, WireSlot.magic_body]
  · refine ⟨⟨rfl, rfl⟩, rfl, rfl, rfl, decodeEvent_encodeEvent inverse framed, _, rfl, ?_⟩
    rw [← packed]
    exact written.encoded

theorem packEntries_bytesOf
    (inverse : ∀ event : E, AppEvent.decode (AppEvent.encode event) = .ok event) (front : Bytes)
    (written : List (WrittenEntry E)) (buf : Bytes) (few : count + written.length ≤ 0xFFFF) :
    packEntries E (front ++ bytesOf written) front.length count buf
      = .ok (count + written.length, buf ++ written.flatMap (·.bytes.drop entryMagicSize)) := by
  -- One entry is decoded per round, and the place moves to the next.
  induction written generalizing front count buf with
  | nil =>
    rw [packEntries, if_pos (by simp [bytesOf])]
    simp
  | cons first written ih =>
    have width := (encode_length_le first.encoded).1
    have here : (front ++ bytesOf (first :: written)).drop front.length
        = first.bytes ++ bytesOf written := by
      rw [List.drop_left]
      rfl
    have some : ¬ (front ++ bytesOf (first :: written)).length ≤ front.length := by
      simp only [entryFramingSize, entryHeaderSize] at width
      simp only [bytesOf, List.flatMap_cons, List.length_append]
      omega
    have later := ih (front ++ first.bytes) (buf ++ first.bytes.drop entryMagicSize)
      (show count + 1 + written.length ≤ 0xFFFF by simp only [List.length_cons] at few; omega)
    have regrouped : front ++ first.bytes ++ bytesOf written = front ++ bytesOf (first :: written) := by
      rw [List.append_assoc]
      rfl
    have decodes := decode_encode inverse first.inRange first.encoded (bytesOf written)
    rw [← here] at decodes
    rw [packEntries, if_neg some]
    dsimp only
    split
    · rename_i failed
      rw [decodes] at failed
      cases failed
    · rename_i decoded found
      rw [decodes] at found
      obtain rfl := Except.ok.inj found
      rw [if_neg (by simp only [List.length_cons] at few; omega), here, List.take_left]
      rw [regrouped, List.length_append] at later
      rw [later, List.flatMap_cons, List.length_cons, ← List.append_assoc]
      congr 2
      omega

def InputBatchError.blamedSlot : InputBatchError → Option Nat
  | .malformed sequence _ | .notRoundTrip sequence _ _ => some sequence
  | .notInputBatch _ | .framing _ | .corrupted .. => none

theorem exists_blamed {sequence : Nat} (refuses : tryDecodeInputBatch (E := E) payload = .error err)
    (blames : err.blamedSlot = some sequence) :
    ∃ (front : List WireSlot) (wire : WireSlot) (back : Bytes),
      payload.drop 3 = wireBytes front ++ wire.bytes ++ back ∧ wire.sequence = sequence ∧
      wire.Intact ∧ wire.check (E := E) = .error err := by
  obtain ⟨tag, rfl⟩ | ⟨reason, rfl⟩ | ⟨front, wire, back, here, check⟩ :=
    tryDecodeInputBatch_eq_error refuses
  · cases blames
  · cases blames
  · obtain ⟨rfl, -⟩ | ⟨intact, ⟨fault, rfl⟩ | ⟨reencodedCrc, rfl⟩⟩ := WireSlot.check_eq_error check
    · cases blames
    · exact ⟨front, wire, back, here, Option.some.inj blames, intact, check⟩
    · exact ⟨front, wire, back, here, Option.some.inj blames, intact, check⟩

theorem WireSlot.check_congr {wire other : WireSlot} (same : wire.bytes = other.bytes) :
    wire.check (E := E) = other.check := by
  have decoded := wire.decodeSlot_bytes (E := E) []
  rw [same, other.decodeSlot_bytes] at decoded
  cases first : wire.check (E := E) <;> cases second : other.check (E := E) <;>
    simp_all [Except.map]

/-- Packed entries make one frame, whose payload is their count and the slots. -/
theorem encodeInputBatchFromJournal_eq
    (inverse : ∀ event : E, AppEvent.decode (AppEvent.encode event) = .ok event)
    (written : List (WrittenEntry E)) (buf : Bytes) (few : written.length ≤ 0xFFFF) :
    encodeInputBatchFromJournal E (bytesOf written) buf
      = (buf ++ frame (msgInputBatch :: (leBytes 2 written.length
          ++ written.flatMap (·.bytes.drop entryMagicSize))), .ok written.length) := by
  have packed := packEntries_bytesOf inverse [] written initInputBatch
    (show 0 + written.length ≤ 0xFFFF by omega)
  rw [List.nil_append, List.length_nil, Nat.zero_add] at packed
  rw [encodeInputBatchFromJournal, packed]
  dsimp only
  -- The header that was reserved is the one that is filled in.
  have slots : (initInputBatch ++ written.flatMap (·.bytes.drop entryMagicSize)).drop frameHeaderLen
      = written.flatMap (·.bytes.drop entryMagicSize) := by
    rw [initInputBatch, List.drop_left' (List.length_replicate ..)]
  have width : (initInputBatch ++ written.flatMap (·.bytes.drop entryMagicSize)).length - 4
      = (msgInputBatch :: (leBytes 2 written.length
          ++ written.flatMap (·.bytes.drop entryMagicSize))).length := by
    simp only [initInputBatch, frameHeaderLen, List.length_append, List.length_replicate,
      List.length_cons, leBytes_length]
    omega
  rw [finalizeInputBatch, slots, width, frame]
  simp only [List.append_assoc, List.cons_append, List.nil_append]

theorem packed_length_lt (written : List (WrittenEntry E)) (few : written.length ≤ 0xFFFF) :
    (msgInputBatch :: (leBytes 2 written.length
      ++ written.flatMap (·.bytes.drop entryMagicSize))).length < 2 ^ 32 := by
  have each : (written.flatMap (·.bytes.drop entryMagicSize)).length ≤ written.length * maxEntrySize := by
    rw [List.length_flatMap]
    have bound : ∀ width ∈ written.map fun entry => (entry.bytes.drop entryMagicSize).length,
        width ≤ maxEntrySize := by
      intro width among
      obtain ⟨entry, -, rfl⟩ := List.mem_map.mp among
      rw [List.length_drop]
      exact (Nat.sub_le _ _).trans (encode_length_le_room entry.encoded)
    have total := List.sum_le_card_nsmul _ _ bound
    rwa [List.length_map, smul_eq_mul] at total
  have most : written.length * maxEntrySize ≤ 0xFFFF * maxEntrySize := Nat.mul_le_mul_right _ few
  simp only [maxEntrySize] at each most
  simp only [List.length_cons, List.length_append, leBytes_length]
  omega

theorem exists_wires
    (inverse : ∀ event : E, AppEvent.decode (AppEvent.encode event) = .ok event)
    (written : List (WrittenEntry E)) :
    ∃ wires, wires.length = written.length ∧
      written.flatMap (·.bytes.drop entryMagicSize) = wireBytes wires ∧
      List.Forall₂ WireSlot.Carries wires (written.map WrittenEntry.slot) := by
  induction written with
  | nil => exact ⟨[], rfl, rfl, .nil⟩
  | cons first written ih =>
    obtain ⟨wire, bytes, -, carries⟩ := first.exists_wire inverse
    obtain ⟨wires, length, packed, carry⟩ := ih
    refine ⟨wire :: wires, by rw [List.length_cons, List.length_cons, length], ?_,
      .cons carries carry⟩
    rw [List.flatMap_cons, packed, bytes, entryMagicSize, List.drop_left' (leBytes_length 2 _)]
    rfl

/-- CRC32C takes the entry a slot was decoded to for the one that was received. -/
def WireSlot.Mistaken (wire : WireSlot) (slot : InputSlot E) : Prop :=
  ∃ body, encode slot.sequence slot.timestampNs slot.keyHash slot.event maxEntrySize
      = .ok (body ++ leBytes 4 wire.shippedCrc.toNat) ∧
    body ≠ leBytes 2 entryMagic ++ wire.body ∧
    Hashing.crc32c body = Hashing.crc32c (leBytes 2 entryMagic ++ wire.body)

theorem WireSlot.Carries.exact {wire : WireSlot} {slot : InputSlot E} (carries : wire.Carries slot)
    (intact : wire.Intact) (told : ¬ wire.Mistaken slot) :
    encode slot.sequence slot.timestampNs slot.keyHash slot.event maxEntrySize
      = .ok (leBytes 2 entryMagic ++ wire.bytes) := by
  obtain ⟨body, crc, encoded⟩ := carries.reencoded
  by_cases same : body = leBytes 2 entryMagic ++ wire.body
  · rw [encoded, same, WireSlot.bytes, List.append_assoc]
  · exact absurd ⟨body, encoded, same, crc.trans intact.symm⟩ told

/--
Input batches carry journal entries faithfully.

A run of entries that the count can name is packed into a frame that decodes to exactly those
entries, each of which encodes back to its bytes. Any payload that decodes is a count and exactly that
many slots, each decoded to what its fields say and with a re-encoding of the checksum shipped; where
the slot matches that checksum too, the re-encoding is the slot. Only an intact slot is ever blamed on
the sender, so a frame none of whose intact slots is foreign to what was sent blames nobody.
-/
theorem input_batches_carry_entries
    (inverse : ∀ event : E, AppEvent.decode (AppEvent.encode event) = .ok event) :
    (∀ (written : List (WrittenEntry E)) (buf : Bytes), written.length ≤ 0xFFFF →
      ∃ payload, payload.length < 2 ^ 32 ∧
        encodeInputBatchFromJournal E (bytesOf written) buf
          = (buf ++ frame payload, .ok written.length) ∧
        tryDecodeInputBatch payload = .ok (written.map WrittenEntry.slot) ∧
        ∀ entry ∈ written, encode entry.slot.sequence entry.slot.timestampNs entry.slot.keyHash
          entry.slot.event maxEntrySize = .ok entry.bytes) ∧
    ∀ payload : Bytes,
      (∀ slots : List (InputSlot E), tryDecodeInputBatch payload = .ok slots →
        ∃ wires, wires.length < 2 ^ 16 ∧
          payload = msgInputBatch :: (leBytes 2 wires.length ++ wireBytes wires) ∧
          List.Forall₂ (fun wire slot => wire.Carries slot ∧
            (wire.Intact → ¬ wire.Mistaken slot →
              encode slot.sequence slot.timestampNs slot.keyHash slot.event maxEntrySize
                = .ok (leBytes 2 entryMagic ++ wire.bytes))) wires slots) ∧
      ∀ err, tryDecodeInputBatch (E := E) payload = .error err →
        (∀ sequence, err.blamedSlot = some sequence →
          ∃ (front : List WireSlot) (wire : WireSlot) (back : Bytes),
            payload.drop 3 = wireBytes front ++ wire.bytes ++ back ∧ wire.sequence = sequence ∧
            wire.Intact) ∧
        ∀ sent : List (WrittenEntry E),
          (∀ (front : List WireSlot) (wire : WireSlot) (back : Bytes),
            payload.drop 3 = wireBytes front ++ wire.bytes ++ back → wire.Intact →
            ∃ entry ∈ sent, entry.bytes = leBytes 2 entryMagic ++ wire.bytes) →
          err.blamedSlot = none := by
  refine ⟨fun written buf few => ?_, fun payload => ⟨fun slots decoded => ?_, fun err refuses =>
    ⟨fun sequence blames => ?_, fun sent detects => ?_⟩⟩⟩
  · obtain ⟨wires, length, packed, carry⟩ := exists_wires inverse written
    refine ⟨_, packed_length_lt written few, encodeInputBatchFromJournal_eq inverse written buf few,
      tryDecodeInputBatch_eq_ok.mpr ⟨wires, by omega, by rw [length, packed], carry⟩,
      fun entry _ => entry.encoded⟩
  · obtain ⟨wires, few, made, carry⟩ := tryDecodeInputBatch_eq_ok.mp decoded
    exact ⟨wires, few, made, carry.imp fun wire slot carries => ⟨carries, carries.exact⟩⟩
  · obtain ⟨front, wire, back, here, named, intact, -⟩ := exists_blamed refuses blames
    exact ⟨front, wire, back, here, named, intact⟩
  · -- A blamed slot would be one of the entries sent, and those pass the check.
    by_contra blamed
    obtain ⟨sequence, blames⟩ := Option.ne_none_iff_exists'.mp blamed
    obtain ⟨front, wire, back, here, -, intact, fails⟩ := exists_blamed refuses blames
    obtain ⟨entry, -, bytes⟩ := detects front wire back here intact
    obtain ⟨other, same, -, carries⟩ := entry.exists_wire inverse
    have passes := WireSlot.check_eq_ok.mpr carries
    rw [← WireSlot.check_congr (List.append_cancel_left (bytes.symm.trans same)), fails] at passes
    cases passes

end

def thirdIncrement : WrittenEntry CounterEvent :=
  .write { sequence := 3, timestampNs := 5, keyHash := 9, event := .app (.increment 7) } (by decide) rfl

/-- One increment is packed and decoded, and its payload is blamed on nobody. -/
theorem input_batches_carry_entries_increment :
    ∃ payload, encodeInputBatchFromJournal CounterEvent (bytesOf [thirdIncrement]) []
        = ([] ++ frame payload, .ok 1) ∧
      tryDecodeInputBatch payload = .ok [thirdIncrement.slot] := by
  obtain ⟨payload, -, packed, decoded, -⟩ :=
    (input_batches_carry_entries (E := CounterEvent) LawfulAppEvent.decode_encode).1
      [thirdIncrement] [] (by decide)
  exact ⟨payload, packed, decoded⟩

/-- A tick whose payload goes on behind its clock, with the checksum of the tick alone. -/
def overlongTick : Bytes :=
  match encode (E := CounterEvent) 3 5 9 (.tick 7) maxEntrySize with
  | .ok entry =>
    [msgInputBatch] ++ leBytes 2 1 ++ leBytes 2 18 ++ slice entry 4 33 ++ [1] ++ slice entry 37 4
  | .error _ => []

/-- A slot that is no entry is decoded, as the entry its checksum was taken of. -/
theorem input_batch_decodes_overlong :
    (tryDecodeInputBatch (E := CounterEvent) overlongTick).toOption
        = some [{ connectionId := 0, requestId := 0, keyHash := 9, sequence := 3, timestampNs := 5
                  event := .tick 7 }] ∧
      (encode (E := CounterEvent) 3 5 9 (.tick 7) maxEntrySize).toOption
        ≠ some (leBytes 2 entryMagic ++ overlongTick.drop 3) := by
  decide +kernel

end Melin
