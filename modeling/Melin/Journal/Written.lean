import Melin.Journal.Scan

/-! Entries as the encoder writes them, and what a scan makes of a run of them. -/

namespace Melin

open Lib

structure WrittenEntry (E : Type) [AppEvent E] [Hashing] where
  entry : JournalEntry E
  bytes : Bytes
  inRange : entry.sequence < 2 ^ 64
  encoded : encode entry.sequence entry.timestampNs entry.keyHash entry.event maxEntrySize
    = .ok bytes

def expectedSequence (startingSequence : Nat) : Option Nat → Nat
  | none => startingSequence
  | some last => last + 1

def Consecutive (start : Nat) (sequences : List Nat) : Prop :=
  sequences = List.range' start sequences.length

instance (start : Nat) (sequences : List Nat) : Decidable (Consecutive start sequences) :=
  inferInstanceAs (Decidable (_ = _))

theorem consecutive_nil (start : Nat) : Consecutive start [] := rfl

variable {start sequence : Nat} {sequences : List Nat}

theorem consecutive_cons :
    Consecutive start (sequence :: sequences)
      ↔ sequence = start ∧ Consecutive (start + 1) sequences := by
  simp [Consecutive, List.range'_succ]

theorem consecutive_append {front back : List Nat} :
    Consecutive start (front ++ back)
      ↔ Consecutive start front ∧ Consecutive (start + front.length) back := by
  induction front generalizing start with
  | nil => simp [Consecutive]
  | cons sequence front ih =>
    simp only [List.cons_append, consecutive_cons, ih, List.length_cons, and_assoc]
    rw [show start + 1 + front.length = start + (front.length + 1) by omega]

theorem Consecutive.mem_bounds (counts : Consecutive start sequences)
    (member : sequence ∈ sequences) :
    start ≤ sequence ∧ sequence < start + sequences.length := by
  rw [counts, List.mem_range'_1] at member
  exact member

theorem Consecutive.pairwise (counts : Consecutive start sequences) :
    sequences.Pairwise (· < ·) := by
  rw [counts]
  exact List.pairwise_lt_range' _

theorem zeroMagic_of_magic {bytes : Bytes} (magic : leNat (slice bytes 0 2) = entryMagic) :
    zeroMagic bytes = false := by
  match bytes with
  | [] => rfl
  | [_] => rfl
  | first :: second :: rest =>
    simp only [slice, List.drop_zero, List.take_succ_cons, List.take_zero, leNat] at magic
    simp only [zeroMagic, Bool.and_eq_false_imp, beq_iff_eq, beq_eq_false_iff_ne]
    rintro rfl rfl
    simp [entryMagic] at magic

theorem checkSequence_eq_ok {startingSequence : Nat} {lastSequence : Option Nat} :
    JournalReader.checkSequence startingSequence lastSequence sequence = .ok ()
      ↔ sequence = expectedSequence startingSequence lastSequence := by
  cases lastSequence with
  | none => simp [JournalReader.checkSequence, expectedSequence]
  | some last =>
    simp only [JournalReader.checkSequence, expectedSequence]
    split_ifs <;> simp <;> omega

theorem Place.rest_advance {E : Type} {place : Place} {record : Record E} {rest : Bytes}
    (bytes : place.rest = record.raw ++ rest) : (place.advance record).rest = rest := by
  have dropped := congrArg (List.drop record.raw.length) bytes
  simpa [Place.rest, Place.advance, List.drop_drop] using dropped

theorem Place.rest_advanceAll {E : Type} {place : Place} {records : List (Record E)} {rest : Bytes}
    (bytes : place.rest = records.flatMap (·.raw) ++ rest) :
    (place.advanceAll records).rest = rest := by
  induction records generalizing place with
  | nil => simpa [Place.advanceAll] using bytes
  | cons record records ih =>
    simp only [List.flatMap_cons, List.append_assoc] at bytes
    exact ih (Place.rest_advance bytes)

theorem Place.advanceAll_segment {E : Type} (place : Place) (records : List (Record E)) :
    (place.advanceAll records).kind = place.kind ∧
      (place.advanceAll records).startingSequence = place.startingSequence := by
  induction records generalizing place with
  | nil => exact ⟨rfl, rfl⟩
  | cons record records ih => exact ih (place.advance record)

theorem Place.expectedSequence_advanceAll {E : Type} (place : Place) (records : List (Record E))
    (continues : Consecutive (expectedSequence place.startingSequence place.lastSequence)
      (records.map (·.entry.sequence))) :
    expectedSequence (place.advanceAll records).startingSequence
        (place.advanceAll records).lastSequence
      = expectedSequence place.startingSequence place.lastSequence + records.length := by
  induction records generalizing place with
  | nil => rfl
  | cons record records ih =>
    simp only [List.map_cons, consecutive_cons] at continues
    have one : expectedSequence (place.advance record).startingSequence
        (place.advance record).lastSequence
          = expectedSequence place.startingSequence place.lastSequence + 1 := by
      simp [Place.advance, expectedSequence, continues.1]
    have rest := ih (place.advance record) (by rw [one]; exact continues.2)
    rw [one] at rest
    simp only [Place.advanceAll, List.foldl_cons, List.length_cons] at rest ⊢
    omega

section

variable {E : Type} [AppEvent E] [Hashing]

def WrittenEntry.record (written : WrittenEntry E) : Record E :=
  { entry := written.entry, raw := written.bytes }

def recordsOf (entries : List (WrittenEntry E)) : List (Record E) := entries.map (·.record)

def bytesOf (entries : List (WrittenEntry E)) : Bytes := entries.flatMap (·.bytes)

def sequencesOf (entries : List (WrittenEntry E)) : List Nat := entries.map (·.entry.sequence)

theorem recordsOf_raw (entries : List (WrittenEntry E)) :
    (recordsOf entries).flatMap (·.raw) = bytesOf entries := by
  simp [recordsOf, bytesOf, List.flatMap_map, WrittenEntry.record]

theorem recordsOf_sequences (entries : List (WrittenEntry E)) :
    (recordsOf entries).map (·.entry.sequence) = sequencesOf entries := by
  simp [recordsOf, sequencesOf, WrittenEntry.record]

theorem recordsOf_entries (entries : List (WrittenEntry E)) :
    (recordsOf entries).map (·.entry) = entries.map (·.entry) := by
  simp [recordsOf, WrittenEntry.record, Function.comp_def]

theorem encode_ok [LawfulAppEvent E] {event : JournalEvent E} (journaled : event.isShutdown = false)
    (sequence : Nat) (timestampNs keyHash : UInt64) :
    ∃ bytes, encode sequence timestampNs keyHash event maxEntrySize = .ok bytes := by
  have fits := LawfulAppEvent.entrySize_le (E := E)
  simp only [entrySize, entryFramingSize, entryHeaderSize, entryMetaSize, crcSize,
    transportPayloadSize, maxEntrySize] at fits
  -- Framing an event succeeds, and leaves it short enough for the length field.
  have framed : ∃ tag payload, encodeEvent sequence event maxEntrySize = .ok (tag, payload) ∧
      payload.length ≤ 1055 := by
    cases event with
    | tick nowNs => exact ⟨_, _, rfl, by simp⟩
    | epochBump epoch => exact ⟨_, _, rfl, by simp⟩
    | ackPolicyChange change => exact ⟨_, _, rfl, by simp⟩
    | shutdown => simp [JournalEvent.isShutdown] at journaled
    | app event =>
      have width := LawfulAppEvent.encodedSize_le event
      have length := LawfulAppEvent.encode_length event
      refine ⟨tagApp, AppEvent.encode event, ?_, by omega⟩
      simp only [encodeEvent]
      rw [if_neg (by omega), if_neg (by
        simp only [maxEntrySize, entryHeaderSize, entryMetaSize, crcSize]; omega),
        if_neg (by omega)]
  obtain ⟨tag, payload, framed, short⟩ := framed
  rw [encode, if_neg (by decide), framed]
  simp only [bind, Except.bind]
  rw [if_neg (by simp only [entryMetaSize]; omega)]
  exact ⟨_, rfl⟩

def entryBytes (entry : JournalEntry E) : Bytes :=
  match encode entry.sequence entry.timestampNs entry.keyHash entry.event maxEntrySize with
  | .ok bytes => bytes
  | .error _ => []

def WrittenEntry.write [LawfulAppEvent E] (entry : JournalEntry E)
    (inRange : entry.sequence < 2 ^ 64) (journaled : entry.event.isShutdown = false) :
    WrittenEntry E where
  entry := entry
  bytes := entryBytes entry
  inRange := inRange
  encoded := by
    obtain ⟨bytes, encoded⟩ := encode_ok journaled entry.sequence entry.timestampNs entry.keyHash
    simp only [entryBytes, encoded]

theorem WrittenEntry.framing_le (written : WrittenEntry E) :
    entryFramingSize ≤ written.bytes.length := by
  obtain ⟨tag, -, -, -, metadata, size⟩ := encode_frame written.encoded
  rw [size, entryFramingSize]
  omega

theorem headOf_of_decode {bytes : Bytes} {decoded : DecodedEntry E} (found : decode bytes = .ok decoded) :
    headOf bytes = .entry decoded := by
  have magic := (decode_eq_ok found).magic
  have inside := (decode_eq_ok found).inside
  have framing := (decode_eq_ok found).framing_le
  have nonempty : bytes ≠ [] := by
    intro empty
    rw [empty, List.length_nil] at inside
    simp only [entryFramingSize, entryHeaderSize] at framing
    omega
  rw [headOf, if_neg nonempty, zeroMagic_of_magic magic, if_neg Bool.false_ne_true, found]

theorem WrittenEntry.headOf [LawfulAppEvent E] (written : WrittenEntry E) (rest : Bytes) :
    Melin.headOf (written.bytes ++ rest)
      = .entry { consumed := written.bytes.length, entry := written.entry } := by
  exact headOf_of_decode
    (decode_encode LawfulAppEvent.decode_encode written.inRange written.encoded rest)

variable {place : Place}

theorem Place.next_written [LawfulAppEvent E] {written : WrittenEntry E} {rest : Bytes}
    (bytes : place.rest = written.bytes ++ rest)
    (continues : written.entry.sequence
      = expectedSequence place.startingSequence place.lastSequence) :
    place.next = .record written.record := by
  simp only [Place.next, bytes, written.headOf rest, checkSequence_eq_ok.mpr continues,
    List.take_left, WrittenEntry.record]

theorem Place.scan_written [LawfulAppEvent E] {entries : List (WrittenEntry E)} {rest : Bytes}
    (bytes : place.rest = bytesOf entries ++ rest)
    (continues : Consecutive (expectedSequence place.startingSequence place.lastSequence)
      (sequencesOf entries)) :
    place.scan = (recordsOf entries ++ ((place.advanceAll (recordsOf entries)).scan (E := E)).1,
      ((place.advanceAll (recordsOf entries)).scan (E := E)).2) := by
  induction entries generalizing place with
  | nil => simp [recordsOf, Place.advanceAll]
  | cons written entries ih =>
    simp only [bytesOf, List.flatMap_cons, List.append_assoc] at bytes
    simp only [sequencesOf, List.map_cons, consecutive_cons] at continues
    rw [Place.scan_record (Place.next_written bytes continues.1),
      ih (Place.rest_advance (show place.rest = written.record.raw ++ _ from bytes))]
    · rfl
    · -- The sequence expected next is one past the entry just read.
      simpa [Place.advance, expectedSequence, WrittenEntry.record, sequencesOf, continues.1]
        using continues.2

theorem headOf_zeros (zeros : Nat) :
    ∃ cause, headOf (E := E) (List.replicate zeros 0) = .stop cause := by
  match zeros with
  | 0 => exact ⟨none, rfl⟩
  | 1 =>
    have cut : decode (E := E) [0] = .error .truncatedEntry :=
      decode_short (by decide)
    exact ⟨some .truncatedEntry, by simp [headOf, zeroMagic, cut, isTornShape]⟩
  | zeros + 2 => exact ⟨none, by simp [headOf, List.replicate_succ, zeroMagic]⟩

theorem Place.scan_zeros {zeros : Nat} (bytes : place.rest = List.replicate zeros 0) :
    place.scan (E := E) = ([], .ok none) := by
  obtain ⟨cause, head⟩ := headOf_zeros (E := E) zeros
  have clean : ∀ reach, firstNonzero (place.rest.drop reach) = none := by
    intro reach
    rw [firstNonzero_eq_none, bytes]
    simp
  have none : ∀ reach, lastNonzero (place.rest.take reach) = none := by
    intro reach
    rw [lastNonzero_eq_none, bytes]
    simp
  apply Place.scan_stop
  simp only [Place.next, bytes ▸ head, Place.verdict, clean, none, Option.map_none]

end

end Melin
