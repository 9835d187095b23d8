import Melin.Examples.CounterJournal
import Melin.Journal.RawScannerLaws

/-! The raw scanner against the reader: the same entries, in any batches behind any sequence. -/

namespace Melin

open Lib

namespace RawJournalScanner

theorem skipLoop_spec (target fuel : Nat) {scanner : RawJournalScanner} {rest : Bytes}
    (tracks : scanner.Tracks rest) (enough : rest.length < fuel) :
    Took scanner (skipLoop target fuel scanner) rest
      ((rawEntries rest).takeWhile (·.sequence ≤ target)) := by
  induction fuel generalizing scanner rest with
  | zero => omega
  | succ fuel ih =>
    obtain ⟨headed, headedEq, headedTracks, headedContent, peeked⟩ := tracks.peek
    -- Where no entry is left, or it is behind the sequence, nothing is skipped.
    have stops : ∀ {other : RawJournalScanner}, other.Tracks rest →
        other.file.content = scanner.file.content →
        (rawEntries rest).takeWhile (·.sequence ≤ target) = [] →
        Took scanner other rest ((rawEntries rest).takeWhile (·.sequence ≤ target)) := by
      intro other otherTracks otherContent empty
      rw [empty]
      exact .none otherTracks otherContent
    have nothing : rawHead rest = none →
        (rawEntries rest).takeWhile (·.sequence ≤ target) = [] := by
      intro none
      rw [rawEntries_none none, List.takeWhile_nil]
    rw [skipLoop, headedEq]
    rcases peeked with ⟨short, noHead⟩ | ⟨header, magicEq, sequenceEq, totalEq, long⟩
    · simp only [if_pos short]
      exact stops headedTracks headedContent (nothing noHead)
    simp only [if_neg header, magicEq, sequenceEq, totalEq]
    cases zero : zeroMagic rest with
    | true => exact stops headedTracks headedContent (nothing (by simp [rawHead, zero]))
    | false =>
      simp only [Bool.false_eq_true, if_false]
      obtain ⟨filled, filledEq, filledTracks, filledContent, taken⟩ := headedTracks.take long zero
      rw [filledEq]
      have content : filled.file.content = scanner.file.content := filledContent.trans headedContent
      rcases taken with ⟨short, noHead⟩ | ⟨whole, head, front, behind⟩
      · simp only [if_pos short]
        split_ifs
        · exact stops headedTracks headedContent (nothing noHead)
        · exact stops filledTracks content (nothing noHead)
      · have unfolded := rawEntries_some head
        simp only [if_neg whole]
        by_cases past : rawSequence rest > target
        · simp only [if_pos past]
          refine stops headedTracks headedContent ?_
          rw [unfolded, List.takeWhile_cons_of_neg (by simpa using past)]
        · simp only [if_neg past]
          have shrinks := rawHead_shrinks head
          have later := ih behind (by simp only at shrinks; omega)
          rw [unfolded, List.takeWhile_cons_of_pos (by simpa using past)]
          exact Took.cons head later content

theorem Tracks.skipToAfter {scanner : RawJournalScanner} {rest : Bytes}
    (tracks : scanner.Tracks rest) (target : Nat) :
    ∃ left, (scanner.skipToAfter target).Tracks left ∧
      rawEntries left = (rawEntries rest).dropWhile (·.sequence ≤ target) := by
  have took := skipLoop_spec target (scanner.file.content.length + 1) tracks
    (Nat.lt_succ_of_le tracks.inside)
  refine ⟨_, took.tracks, took.left.trans ?_⟩
  conv_lhs =>
    arg 2
    rw [← List.takeWhile_append_dropWhile (p := (·.sequence ≤ target)) (l := rawEntries rest)]
  exact List.drop_left

def readBatches : List (Nat × Option Nat) → RawJournalScanner → List (Bytes × Option Nat)
  | [], _ => []
  | (maxBytes, stopAfter) :: calls, scanner =>
    let (scanner, batch) := scanner.readRawBatchInner maxBytes stopAfter
    batch :: readBatches calls scanner

end RawJournalScanner

structure IsBatch (maxBytes : Nat) (stopAfter : Option Nat) (batch left : List RawEntry) : Prop where
  notPast : ∀ entry ∈ batch, ∀ stop ∈ stopAfter, entry.sequence ≤ stop
  small : (rawBytes batch).length ≤ maxBytes ∨ batch.length ≤ 1
  exhausted : batch = [] → ∀ entry ∈ left, ∃ stop ∈ stopAfter, stop < entry.sequence

inductive Batches : List RawEntry → List (Nat × Option Nat) → List (Bytes × Option Nat) → Prop where
  | nil (left : List RawEntry) : Batches left [] []
  | cons {batch left : List RawEntry} {maxBytes : Nat} {stopAfter : Option Nat}
      {calls : List (Nat × Option Nat)} {results : List (Bytes × Option Nat)}
      (isBatch : IsBatch maxBytes stopAfter batch left) (more : Batches left calls results) :
      Batches (batch ++ left) ((maxBytes, stopAfter) :: calls)
        ((rawBytes batch, batch.getLast?.map (·.sequence)) :: results)

theorem batchOf_length_le (maxBytes : Nat) (stopAfter : Option Nat) {size : Nat}
    (fits : size ≤ maxBytes) (entries : List RawEntry) :
    size + (rawBytes (batchOf maxBytes stopAfter size true entries)).length ≤ maxBytes := by
  induction entries generalizing size with
  | nil => simpa [batchOf, rawBytes] using fits
  | cons entry entries ih =>
    simp only [batchOf]
    split_ifs with past full
    · simpa [rawBytes] using fits
    · simpa [rawBytes] using fits
    · have later := @ih (size + entry.raw.length) (by simpa using full)
      simp only [rawBytes, List.flatMap_cons, List.length_append] at later ⊢
      omega

variable {maxBytes : Nat} {stopAfter : Option Nat} {left : List RawEntry}

theorem batchOf_of_lt {size : Nat} (full : maxBytes < size) (stopAfter : Option Nat)
    (entries : List RawEntry) : batchOf maxBytes stopAfter size true entries = [] := by
  cases entries with
  | nil => rfl
  | cons entry entries =>
    simp only [batchOf]
    rw [if_pos (show True ∧ maxBytes < size + entry.raw.length from ⟨trivial, by omega⟩), ite_self]

theorem isBatch_batchOf (maxBytes : Nat) (stopAfter : Option Nat) {entries : List RawEntry}
    (ascending : entries.Pairwise (·.sequence < ·.sequence)) :
    IsBatch maxBytes stopAfter (batchOf maxBytes stopAfter 0 false entries)
      (entries.drop (batchOf maxBytes stopAfter 0 false entries).length) := by
  refine ⟨fun entry member stop isStop => ?_, ?_, fun empty entry member => ?_⟩
  · obtain rfl := Option.mem_def.mp isStop
    exact le_of_mem_batchOf member
  · cases entries with
    | nil => exact .inr (Nat.zero_le _)
    | cons first entries =>
      simp only [batchOf, Bool.false_eq_true, false_and, if_false]
      split_ifs with past
      · exact .inr (Nat.zero_le _)
      · by_cases single : maxBytes < first.raw.length
        · rw [batchOf_of_lt (by simpa using single)]
          exact .inr (by simp)
        · refine .inl ?_
          have later := batchOf_length_le maxBytes stopAfter (Nat.le_of_not_lt single) entries
          simpa [rawBytes] using later
  · cases entries with
    | nil => simp at member
    | cons first entries =>
      rw [empty, List.length_nil, List.drop_zero] at member
      simp only [batchOf, Bool.false_eq_true, false_and, if_false] at empty
      split_ifs at empty with past
      cases stopAfter with
      | none => simp at past
      | some stop =>
        have behind : stop < first.sequence := by simpa using past
        refine ⟨stop, rfl, ?_⟩
        rcases List.mem_cons.mp member with rfl | later
        · exact behind
        · exact behind.trans ((List.pairwise_cons.mp ascending).1 entry later)

theorem RawJournalScanner.Tracks.readBatches {scanner : RawJournalScanner} {rest : Bytes}
    (tracks : scanner.Tracks rest)
    (ascending : (rawEntries rest).Pairwise (·.sequence < ·.sequence))
    (calls : List (Nat × Option Nat)) :
    Batches (rawEntries rest) calls (scanner.readBatches calls) := by
  induction calls generalizing scanner rest with
  | nil => exact .nil _
  | cons call calls ih =>
    obtain ⟨maxBytes, stopAfter⟩ := call
    obtain ⟨after, batch, batchEq, run, took⟩ := tracks.readRawBatchInner maxBytes stopAfter
    have isBatch := isBatch_batchOf maxBytes stopAfter ascending
    rw [batchEq] at isBatch
    obtain ⟨left, split⟩ := batchOf_isPrefix maxBytes stopAfter 0 false (rawEntries rest)
    rw [batchEq] at split
    have more := ih took.tracks (by
      rw [took.left]
      exact ascending.sublist (List.drop_sublist ..))
    rw [took.left, ← split, List.drop_left] at more
    rw [← split, List.drop_left] at isBatch
    rw [RawJournalScanner.readBatches, run, ← split]
    exact .cons isBatch more

def within (stopAfter : Option Nat) (sequence : Nat) : Bool := stopAfter.all (sequence ≤ ·)

theorem IsBatch.within {batch : List RawEntry} (isBatch : IsBatch maxBytes stopAfter batch left)
    {entry : RawEntry} (member : entry ∈ batch) :
    within stopAfter entry.sequence = true := by
  cases stopAfter with
  | none => rfl
  | some stop => simpa [Melin.within] using isBatch.notPast entry member stop rfl

theorem IsBatch.not_within (isBatch : IsBatch maxBytes stopAfter [] left) :
    left.filter (Melin.within stopAfter ·.sequence) = [] := by
  refine List.filter_eq_nil_iff.mpr fun entry member => ?_
  obtain ⟨stop, isStop, past⟩ := isBatch.exhausted rfl entry member
  obtain rfl := Option.mem_def.mp isStop
  simpa [Melin.within] using past

theorem Batches.flatMap_isPrefix {calls : List (Nat × Option Nat)}
    {results : List (Bytes × Option Nat)} (batches : Batches left calls results)
    (oneStop : ∀ call ∈ calls, call.2 = stopAfter) :
    ∃ taken, taken <+: left.filter (within stopAfter ·.sequence) ∧
      results.flatMap (·.1) = rawBytes taken ∧
      ((∃ result ∈ results, result.2 = none) → taken = left.filter (within stopAfter ·.sequence)) := by
  induction batches with
  | nil left => exact ⟨[], List.nil_prefix, rfl, by simp⟩
  | @cons batch left maxBytes stop calls results isBatch more ih =>
    obtain rfl : stop = stopAfter := oneStop _ (List.mem_cons_self ..)
    obtain ⟨taken, isPrefix, bytes, all⟩ := ih fun call member =>
      oneStop call (List.mem_cons_of_mem _ member)
    have split : (batch ++ left).filter (within stop ·.sequence)
        = batch ++ left.filter (within stop ·.sequence) := by
      rw [List.filter_append, List.filter_eq_self.mpr fun entry member => isBatch.within member]
    rw [split]
    refine ⟨batch ++ taken, (List.prefix_append_right_inj _).mpr isPrefix, ?_, ?_⟩
    · rw [List.flatMap_cons, bytes, rawBytes, rawBytes, rawBytes, List.flatMap_append]
    · rintro ⟨result, member, none⟩
      rcases List.mem_cons.mp member with rfl | later
      · obtain rfl : batch = [] := by simpa using none
        rw [isBatch.not_within] at isPrefix ⊢
        rw [List.prefix_nil.mp isPrefix]
      · rw [all ⟨result, later, none⟩]

theorem dropWhile_eq_filter {entries : List RawEntry}
    (ascending : entries.Pairwise (·.sequence < ·.sequence)) (target : Nat) :
    entries.dropWhile (·.sequence ≤ target) = entries.filter (target < ·.sequence) := by
  induction entries with
  | nil => rfl
  | cons entry entries ih =>
    obtain ⟨first, rest⟩ := List.pairwise_cons.mp ascending
    by_cases early : entry.sequence ≤ target
    · rw [List.dropWhile_cons_of_pos (by simpa using early),
        List.filter_cons_of_neg (by simpa using early), ih rest]
    · rw [List.dropWhile_cons_of_neg (by simpa using early), List.filter_eq_self.mpr]
      intro other member
      rcases List.mem_cons.mp member with rfl | later
      · simpa using early
      · have := first other later
        simp only [decide_eq_true_eq]
        omega

section

variable {E : Type} [AppEvent E] [Hashing]

def Record.rawEntry (record : Record E) : RawEntry :=
  { sequence := record.entry.sequence, raw := record.raw }

/-- Where entries end without a torn tail there is nothing but zeros. -/
theorem Place.rest_zeros_of_next {place : Place} (found : place.next (E := E) = .stop none) :
    place.rest = List.replicate place.rest.length 0 := by
  rw [List.eq_replicate_iff]
  refine ⟨rfl, fun byte member => ?_⟩
  simp only [Place.next] at found
  split at found
  · split at found <;> cases found
  · simp only [Place.verdict] at found
    split at found
    · cases found
    · rename_i clean
      split at clean
      · cases clean
      · rename_i beyond
        simp only [Except.ok.injEq] at clean
        subst clean
        simp only [Next.stop.injEq, Option.map_eq_none_iff] at found
        rw [← List.take_append_drop (JournalReader.unsyncedReach place.kind) place.rest] at member
        rcases List.mem_append.mp member with early | late
        · exact lastNonzero_eq_none.mp found byte early
        · exact firstNonzero_eq_none.mp beyond byte late
  · cases found

/-- A scan that ends without a torn tail has records, and then nothing but zeros. -/
theorem Place.scan_untorn (place : Place) (clean : (place.scan (E := E)).2 = .ok none) :
    (∃ zeros, place.rest
        = (place.scan (E := E)).1.flatMap (·.raw) ++ List.replicate zeros 0) ∧
      (∀ record ∈ (place.scan (E := E)).1,
        decode record.raw = .ok { consumed := record.raw.length, entry := record.entry }) ∧
      rawEntries place.rest = (place.scan (E := E)).1.map (·.rawEntry) := by
  induction place using Place.scan.induct (E := E) with
  | case1 place record found records verdict scanned ih =>
    rw [Place.scan_record found] at clean ⊢
    obtain ⟨⟨zeros, behind⟩, decoded, entries⟩ := ih clean
    obtain ⟨decodes, raw, -⟩ := Place.next_record found
    have bytes : place.rest = record.raw ++ place.rest.drop record.raw.length := by
      conv_lhs => rw [← List.take_append_drop record.raw.length place.rest, ← raw]
    rw [Place.rest_advance bytes] at behind entries
    refine ⟨⟨zeros, ?_⟩, ?_, ?_⟩
    · rw [List.flatMap_cons, List.append_assoc, ← behind]
      exact bytes
    · rintro other (_ | ⟨_, later⟩)
      · have alone := decode_take_consumed decodes []
        rwa [List.append_nil, ← raw] at alone
      · exact decoded other later
    · have head := rawHead_of_decode decodes
      rw [← raw] at head
      rw [rawEntries_some head, List.map_cons, entries]
      rfl
  | case2 place tornTail found =>
    rw [Place.scan_stop found] at clean ⊢
    obtain rfl : tornTail = none := by simpa using clean
    have zeros := Place.rest_zeros_of_next found
    refine ⟨⟨place.rest.length, zeros⟩, by simp, ?_⟩
    rw [zeros, rawEntries_zeros]
    rfl
  | case3 place err found =>
    rw [Place.scan_fail found] at clean
    cases clean

/--
The raw scanner returns exactly the bytes of the entries that the reader finds behind a sequence.

Whatever the limits, the stops and the reads are, every batch is whole entries off the front of
what is left; calls with one stop return no more than what is up to it, and all of it before nothing.
-/
theorem raw_scanner_agrees_with_reader {content : Bytes} {readGrants : Nat → Nat} {path : SegmentPath}
    {kind : SegmentKind} {reader ended : JournalReader} {entries : List (JournalEntry E)}
    (opened : JournalReader.openSegment content readGrants path kind = .ok reader)
    (read : reader.readAll = (entries, .ok ended)) (untorn : ended.tornTail = none) :
    ∃ records : List (Record E), records.map (·.entry) = entries ∧
      (∀ record ∈ records,
        decode record.raw = .ok { consumed := record.raw.length, entry := record.entry }) ∧
      (∃ zeros, content.drop reader.sectorSize
        = records.flatMap (·.raw) ++ List.replicate zeros 0) ∧
      ∀ (target : Nat) (calls : List (Nat × Option Nat)) (grants : Nat → Nat),
        ∃ scanner, RawJournalScanner.openSegment content grants = .ok scanner ∧
          let above := (records.filter (target < ·.entry.sequence)).map (·.rawEntry)
          let results := (scanner.skipToAfter target).readBatches calls
          Batches above calls results ∧
          ∀ stopAfter, (∀ call ∈ calls, call.2 = stopAfter) →
            ∃ taken, taken <+: above.filter (within stopAfter ·.sequence) ∧
              results.flatMap (·.1) = rawBytes taken ∧
              ((∃ result ∈ results, result.2 = none) →
                taken = above.filter (within stopAfter ·.sequence)) := by
  -- What the reader collected is what a scan of the bytes finds.
  have openedSpec := JournalReader.openSegment_spec content readGrants path kind
  cases header : segmentHeader content with
  | error err =>
    rw [header] at openedSpec
    cases openedSpec.symm.trans opened
  | ok info =>
  rw [header] at openedSpec
  obtain ⟨found, foundEq, tracks, placeEq, infoEq⟩ := openedSpec
  obtain rfl : found = reader := Except.ok.inj (foundEq.symm.trans opened)
  have collected := JournalReader.readAll_map (E := E) tracks
  rw [read, placeEq] at collected
  obtain ⟨entriesEq, ending⟩ := Prod.mk.inj collected
  have clean : ((startPlace content path kind info).scan (E := E)).2 = .ok none := by
    cases verdict : ((startPlace content path kind info).scan (E := E)).2 with
    | error err =>
      rw [verdict] at ending
      cases ending
    | ok tornTail =>
      rw [verdict] at ending
      have same := congrArg SegmentEnd.tornTail (Except.ok.inj ending)
      rw [show tornTail = none from same.symm.trans untorn]
  obtain ⟨zeros, decoded, rawEq⟩ := Place.scan_untorn _ clean
  have rest : (startPlace content path kind info).rest = content.drop info.sectorSize := rfl
  have sector : found.sectorSize = info.sectorSize := by rw [← infoEq]; rfl
  rw [rest] at zeros rawEq
  refine ⟨_, entriesEq.symm, decoded, by rw [sector]; exact zeros, fun target calls grants => ?_⟩
  have scannerSpec := RawJournalScanner.openSegment_spec content grants
  rw [header] at scannerSpec
  obtain ⟨scanner, scannerEq, scannerTracks, -⟩ := scannerSpec
  obtain ⟨left, leftTracks, leftEq⟩ := scannerTracks.skipToAfter target
  have ascending : (rawEntries (content.drop info.sectorSize)).Pairwise
      (·.sequence < ·.sequence) := by
    rw [rawEq, List.pairwise_map]
    exact List.pairwise_map.mp
      ((startPlace content path kind info).scan_consecutive (E := E)).pairwise
  rw [dropWhile_eq_filter ascending, rawEq, List.filter_map] at leftEq
  have batches := leftTracks.readBatches (by
    rw [leftEq, ← List.filter_map, ← rawEq]
    exact ascending.filter _) calls
  rw [leftEq] at batches
  exact ⟨scanner, scannerEq, batches, fun stopAfter => batches.flatMap_isPrefix⟩

end

/-- The sample's first segment, with zeros behind it, read in two batches of at most ten bytes. -/
theorem raw_scanner_agrees_sample :
    ∃ records : List (Record CounterEvent),
      records.map (·.entry) = sampleArchived.entries.map (·.entry) ∧
      ∀ grants, ∃ scanner,
        RawJournalScanner.openSegment (sampleArchived.bytes ++ [0, 0, 0]) grants = .ok scanner ∧
        Batches ((records.filter (0 < ·.entry.sequence)).map (·.rawEntry)) [(10, none), (10, none)]
          ((scanner.skipToAfter 0).readBatches [(10, none), (10, none)]) := by
  have ran : (match JournalReader.openSegment (sampleArchived.bytes ++ [0, 0, 0]) (fun _ => 4096)
        .live .live with
      | .ok reader =>
        match reader.readAll (E := CounterEvent) with
        | (entries, .ok ended) => some (entries, ended.tornTail)
        | (_, .error _) => none
      | .error _ => none) = some (sampleArchived.entries.map (·.entry), none) := by decide +kernel
  split at ran
  · rename_i reader opened
    split at ran
    · rename_i entries ended read
      obtain ⟨rfl, untorn⟩ := Prod.mk.inj (Option.some.inj ran)
      obtain ⟨records, same, -, -, batches⟩ := raw_scanner_agrees_with_reader opened read untorn
      refine ⟨records, same, fun grants => ?_⟩
      obtain ⟨scanner, scannerEq, taken, -⟩ := batches 0 [(10, none), (10, none)] grants
      exact ⟨scanner, scannerEq, taken⟩
    · cases ran
  · cases ran

end Melin
