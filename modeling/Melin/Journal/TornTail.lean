import Melin.Examples.CounterJournal

/-! What a crash leaves of an unsynced write, and what a reader of the live segment makes of it. -/

namespace Melin

open Lib

theorem Place.verdict_ok {place : Place} (live : place.kind = .live) (cause : Option JournalError)
    {image : Bytes} {zeros : Nat} (bytes : place.rest = image ++ List.replicate zeros 0)
    (bounded : image.length ≤ maxUnsyncedBytes) : ∃ tornTail, place.verdict cause = .ok tornTail := by
  have clean : firstNonzero (place.rest.drop maxUnsyncedBytes) = none := by
    rw [firstNonzero_eq_none, bytes, List.drop_append, List.drop_eq_nil_of_le bounded]
    simp
  simp only [Place.verdict, live, JournalReader.unsyncedReach, clean]
  exact ⟨_, rfl⟩

section

variable {E : Type} [AppEvent E] [Hashing]

/-- No entry that lost bytes but kept its magic happens to satisfy its own checksum. -/
def TornEntriesFail : List (WrittenEntry E) → Bytes → Prop
  | [], _ => True
  | written :: entries, image =>
    (image.take written.bytes.length ≠ written.bytes →
      leNat (slice image 0 2) = entryMagic → FailsOwnCrc (image.take written.bytes.length)) ∧
    TornEntriesFail entries (image.drop written.bytes.length)

theorem headOf_torn {written : WrittenEntry E} {image : Bytes} (torn : Torn written.bytes image)
    (fails : leNat (slice image 0 2) = entryMagic → FailsOwnCrc image) (rest : Bytes) :
    ∃ cause, headOf (E := E) (image ++ rest) = .stop cause := by
  have framing := written.framing_le
  have size := torn.length_eq
  simp only [entryFramingSize, entryHeaderSize, entryMetaSize, crcSize] at framing
  have nonempty : image ++ rest ≠ [] := by
    intro empty
    simp only [List.append_eq_nil_iff] at empty
    simp [empty.1] at size
    omega
  rw [headOf, if_neg nonempty]
  cases zero : zeroMagic (image ++ rest) with
  | true => exact ⟨none, by simp⟩
  | false =>
    rw [if_neg Bool.false_ne_true]
    by_cases magic : leNat (slice image 0 2) = entryMagic
    · -- The magic survived, so the entry is refused by its checksum.
      obtain ⟨found, expected, actual, refused⟩ :=
        decode_torn written.encoded torn magic (fails magic) rest
      exact ⟨some (.checksumMismatch found expected actual), by simp [refused, isTornShape]⟩
    · -- A magic that lost one byte is no magic, and reads as the shape of a torn write.
      have front : slice (image ++ rest) 0 2 = slice image 0 2 := slice_append_left (by omega)
      have refused : decode (E := E) (image ++ rest) = .error (.corruptEntry 0 "bad entry magic") := by
        rw [decode, if_neg (by simp [entryHeaderSize, crcSize]; omega), front, if_pos magic]
      exact ⟨_, by simp [refused, isTornShape, front, magic]; rfl⟩

theorem Place.scan_stops {place : Place} (live : place.kind = .live) {image : Bytes} {zeros : Nat}
    (bytes : place.rest = image ++ List.replicate zeros 0)
    (bounded : image.length ≤ maxUnsyncedBytes) {cause : Option JournalError}
    (head : headOf (E := E) place.rest = .stop cause) :
    ∃ tornTail, place.scan (E := E) = ([], .ok tornTail) := by
  obtain ⟨tornTail, verdict⟩ := Place.verdict_ok live cause bytes bounded
  exact ⟨tornTail, Place.scan_stop (by simp only [Place.next, head, verdict])⟩

/--
A scan of a torn suffix finds the entries up to the first one that lost a byte.

The induction is on the entries: each is either whole, or the one the scan stops at.
-/
theorem Place.scan_torn [LawfulAppEvent E] {place : Place} (live : place.kind = .live)
    {entries : List (WrittenEntry E)} {image : Bytes} {zeros : Nat}
    (bytes : place.rest = image ++ List.replicate zeros 0)
    (continues : Consecutive (expectedSequence place.startingSequence place.lastSequence)
      (sequencesOf entries))
    (torn : Torn (bytesOf entries) image) (fails : TornEntriesFail entries image)
    (bounded : image.length ≤ maxUnsyncedBytes) :
    ∃ kept tornTail, kept <+: entries ∧ place.scan (E := E) = (recordsOf kept, .ok tornTail) := by
  induction entries generalizing place image with
  | nil =>
    have empty : image = [] := List.length_eq_zero_iff.mp (by simpa [bytesOf] using torn.length_eq)
    obtain ⟨cause, head⟩ := headOf_zeros (E := E) zeros
    obtain ⟨tornTail, scanned⟩ := Place.scan_stops live bytes bounded
      (show headOf place.rest = .stop cause by rw [bytes, empty, List.nil_append, head])
    exact ⟨[], tornTail, List.nil_prefix, scanned⟩
  | cons written entries ih =>
    obtain ⟨first, others, rfl, tornFirst, tornOthers⟩ :=
      Torn.append_split (show Torn (written.bytes ++ bytesOf entries) image from torn)
    have size := tornFirst.length_eq
    have framing := written.framing_le
    simp only [entryFramingSize, entryHeaderSize] at framing
    simp only [TornEntriesFail, ← size, List.take_left, List.drop_left] at fails
    rw [slice_append_left (show 0 + 2 ≤ first.length by omega)] at fails
    by_cases whole : first = written.bytes
    · -- The entry is whole, so the scan goes on behind it.
      subst whole
      simp only [sequencesOf, List.map_cons, consecutive_cons] at continues
      simp only [List.append_assoc] at bytes
      simp only [List.length_append] at bounded
      have behind : (place.advance written.record).rest = others ++ List.replicate zeros 0 :=
        Place.rest_advance (show place.rest = written.record.raw ++ _ from bytes)
      have expected : expectedSequence (place.advance written.record).startingSequence
          (place.advance written.record).lastSequence
            = expectedSequence place.startingSequence place.lastSequence + 1 := by
        simp [Place.advance, WrittenEntry.record, expectedSequence, continues.1]
      obtain ⟨kept, tornTail, front, scanned⟩ :=
        ih (show (place.advance written.record).kind = .live from live) behind
          (by rw [expected]; exact continues.2) tornOthers fails.2 (by omega)
      refine ⟨written :: kept, tornTail, (List.cons_prefix_cons).mpr ⟨rfl, front⟩, ?_⟩
      rw [Place.scan_record (Place.next_written bytes continues.1), scanned]
      rfl
    · -- This is the entry that lost a byte.
      obtain ⟨cause, head⟩ := headOf_torn tornFirst (fails.1 whole)
        (others ++ List.replicate zeros 0)
      obtain ⟨tornTail, scanned⟩ := Place.scan_stops live bytes bounded
        (show headOf place.rest = .stop cause by rw [bytes, List.append_assoc, head])
      exact ⟨[], tornTail, List.nil_prefix, scanned⟩

/--
Whatever a crash leaves of one unsynced drain, the live segment reads back cleanly.

Every synced entry comes first, then some of the unsynced ones in order, then the end.
No read schedule and no pattern of lost bytes makes it an error.
-/
theorem readAll_after_crash [LawfulAppEvent E] {header : Bytes} {info : FileHeaderInfo}
    (accepted : decodeFileHeader (header.take fileHeaderSize) = .ok info)
    (sector : header.length = info.sectorSize) (synced unsynced : List (WrittenEntry E))
    (consecutive : Consecutive info.startingSequence (sequencesOf (synced ++ unsynced)))
    (oneDrain : (bytesOf unsynced).length ≤ maxUnsyncedBytes) {image : Bytes}
    (torn : Torn (bytesOf unsynced) image) (fails : TornEntriesFail unsynced image)
    (zeros : Nat) (path : SegmentPath) (grants : Nat → Nat) :
    ∃ reader after kept,
      JournalReader.openSegment (header ++ bytesOf synced ++ image ++ List.replicate zeros 0)
        grants path .live = .ok reader ∧
      kept <+: unsynced ∧
      reader.readAll = ((synced ++ kept).map (·.entry), .ok after) := by
  generalize contentEq : header ++ bytesOf synced ++ image ++ List.replicate zeros 0 = content
  have sectors := sectorSize_of_decodeFileHeader accepted
  have long : ¬ content.length < fileHeaderSize := by
    simp only [← contentEq, List.length_append, fileHeaderSize]
    omega
  have headed : segmentHeader content = .ok info := by
    rw [segmentHeader, if_neg long, ← contentEq]
    simp only [List.append_assoc]
    rw [List.take_append_of_le_length (by simp only [fileHeaderSize]; omega), accepted]
  have opened := JournalReader.openSegment_spec content grants path .live
  rw [headed] at opened
  obtain ⟨reader, openEq, tracks, placeEq, -⟩ := opened
  -- Behind the header lie the synced entries, then what the crash left of the others.
  have behind : reader.place.rest = bytesOf synced ++ (image ++ List.replicate zeros 0) := by
    rw [placeEq, ← contentEq]
    simp [Place.rest, startPlace, ← sector]
  simp only [sequencesOf, List.map_append, consecutive_append] at consecutive
  have starts : expectedSequence reader.place.startingSequence reader.place.lastSequence
      = info.startingSequence := by rw [placeEq]; rfl
  have first := Place.scan_written behind (by rw [starts]; exact consecutive.1)
  have between : (reader.place.advanceAll (recordsOf synced)).rest
      = image ++ List.replicate zeros 0 :=
    Place.rest_advanceAll (by rw [recordsOf_raw, behind])
  have expected := Place.expectedSequence_advanceAll reader.place (recordsOf synced)
    (by rw [starts, recordsOf_sequences]; exact consecutive.1)
  obtain ⟨kept, tornTail, front, second⟩ := Place.scan_torn
    (by rw [(Place.advanceAll_segment _ _).1, placeEq]; rfl) between
    (by rw [expected, starts]; simpa [sequencesOf, recordsOf] using consecutive.2) torn fails
    (by rw [torn.length_eq]; exact oneDrain)
  rw [second] at first
  obtain ⟨after, read, -⟩ := JournalReader.readAll_eq tracks first
  refine ⟨reader, after, kept, openEq, front, ?_⟩
  rw [read, List.map_append, List.map_append, recordsOf_entries, recordsOf_entries]

end

def sampleSynced : WrittenEntry CounterEvent :=
  .write { sequence := 1, timestampNs := 5, keyHash := 9, event := .app (.increment 7) }
    sampleArchived.startFits (@rfl Bool false)

def sampleUnsynced : WrittenEntry CounterEvent :=
  .write { sequence := 2, timestampNs := 6, keyHash := 9, event := .app (.increment 8) }
    (by decide) rfl

def sampleImage : Bytes :=
  sampleUnsynced.bytes.take 24 ++ List.replicate (sampleUnsynced.bytes.length - 24) 0

/-- The half-written increment is dropped or not, and the synced one is read either way. -/
theorem readAll_after_crash_increment :
    ∃ reader after kept,
      JournalReader.openSegment
        (encodeFileHeader entryOffset 1 .zero (some 0) ++ bytesOf [sampleSynced] ++ sampleImage
          ++ List.replicate 100 0) (fun _ => 3) .live .live = .ok reader ∧
      kept <+: [sampleUnsynced] ∧
      reader.readAll = (([sampleSynced] ++ kept).map (·.entry), .ok after) := by
  have known : entryOffset = 512 ∨ entryOffset = 4096 := .inr rfl
  have accepted := decodeFileHeader_encodeFileHeader .zero [] known
    (show 1 < 2 ^ 64 by decide) (show ∀ entries ∈ some 0, entries < 2 ^ 64 by simp)
  rw [List.append_nil] at accepted
  have torn : Torn (bytesOf [sampleUnsynced]) sampleImage := by
    rw [bytesOf, List.flatMap_singleton]
    exact Torn.cut _ 24
  exact readAll_after_crash accepted (encodeFileHeader_length known) [sampleSynced]
    [sampleUnsynced] (by decide) (by decide +kernel) torn
    ⟨fun _ _ => by decide +kernel, trivial⟩ 100 .live (fun _ => 3)

end Melin
