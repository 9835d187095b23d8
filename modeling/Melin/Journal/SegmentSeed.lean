import Melin.Journal.RawAgreement
import Melin.Journal.ReaderVerdict

/-! Segment seeds: the prefix that is shipped, and what the check of a received one lets through. -/

namespace Melin

open Lib

section

variable {E : Type} [AppEvent E] [Hashing]

theorem EntryRun.rawEntries_eq {start : Nat} {bytes rest : Bytes} {entries : List (JournalEntry E)}
    (run : EntryRun start bytes entries rest) :
    ∃ raws : List RawEntry, rawEntries bytes = raws ++ rawEntries rest ∧
      raws.map (·.sequence) = entries.map (·.sequence) ∧ bytes = rawBytes raws ++ rest ∧
      Consecutive start (raws.map (·.sequence)) := by
  induction run with
  | nil next bytes => exact ⟨[], rfl, rfl, rfl, rfl⟩
  | @cons next bytes rest decoded entries found numbered more ih =>
    obtain ⟨raws, entriesEq, sequences, bytesEq, consecutive⟩ := ih
    have head := rawHead_of_decode found
    have inside := (decode_eq_ok found).inside
    have width : (bytes.take decoded.consumed).length = decoded.consumed := by
      rw [List.length_take, Nat.min_eq_left inside]
    refine ⟨{ sequence := decoded.entry.sequence, raw := bytes.take decoded.consumed } :: raws,
      ?_, ?_, ?_, ?_⟩
    · rw [rawEntries_some head, width, entriesEq, List.cons_append]
    · rw [List.map_cons, List.map_cons, sequences]
    · rw [rawBytes, List.flatMap_cons, List.append_assoc]
      change bytes = bytes.take decoded.consumed ++ (rawBytes raws ++ rest)
      rw [← bytesEq, List.take_append_drop]
    · rw [List.map_cons, consecutive_cons]
      exact ⟨numbered, consecutive⟩

end

theorem batchOf_eq_nil_iff {maxBytes stop : Nat} {entries : List RawEntry} :
    batchOf maxBytes (some stop) 0 false entries = [] ↔
      entries.takeWhile (·.sequence ≤ stop) = [] := by
  cases entries with
  | nil => simp [batchOf]
  | cons entry entries =>
    by_cases past : stop < entry.sequence
    · simp [batchOf, past]
    · simp [batchOf, past, Nat.le_of_not_lt past]

theorem takeWhile_batchOf (maxBytes stop size : Nat) (any : Bool) (entries : List RawEntry) :
    entries.takeWhile (·.sequence ≤ stop)
      = batchOf maxBytes (some stop) size any entries
        ++ (entries.drop (batchOf maxBytes (some stop) size any entries).length).takeWhile
          (·.sequence ≤ stop) := by
  induction entries generalizing size any with
  | nil => simp [batchOf]
  | cons entry entries ih =>
    simp only [batchOf]
    split_ifs with past full
    · simp
    · simp
    · have early : entry.sequence ≤ stop := by simpa using past
      rw [List.takeWhile_cons_of_pos (by simpa using early), List.length_cons, List.drop_succ_cons,
        List.cons_append, ← ih]

theorem countLoop_spec (throughSeq : Nat) {fuel : Nat} {scanner : RawJournalScanner} {rest : Bytes}
    (tracks : scanner.Tracks rest) (enough : (rawEntries rest).length < fuel) (bytes last : Nat) :
    ∃ after, countLoop throughSeq fuel scanner bytes last
        = (after, bytes + (rawBytes ((rawEntries rest).takeWhile (·.sequence ≤ throughSeq))).length,
          (((rawEntries rest).takeWhile (·.sequence ≤ throughSeq)).getLast?.map
            (·.sequence)).getD last) ∧
      ∃ left, after.Tracks left ∧
        rawEntries left = (rawEntries rest).dropWhile (·.sequence ≤ throughSeq) := by
  induction fuel generalizing scanner rest bytes last with
  | zero => omega
  | succ fuel ih =>
    obtain ⟨after, batch, batchEq, run, took⟩ := tracks.readRawBatchInner (2 ^ 20) (some throughSeq)
    have split := takeWhile_batchOf (2 ^ 20) throughSeq 0 false (rawEntries rest)
    have whole := List.takeWhile_append_dropWhile (p := (·.sequence ≤ throughSeq)) (l := rawEntries rest)
    rw [batchEq] at split
    rw [countLoop, RawJournalScanner.readRawBatchUntil, run]
    rcases List.eq_nil_or_concat' batch with none | ⟨before, final, isLast⟩
    · -- Nothing up to the sequence is left.
      have nothing := batchOf_eq_nil_iff.mp (batchEq.trans none)
      rw [nothing, List.nil_append] at whole
      refine ⟨after, ?_, _, took.tracks, ?_⟩
      · simp [none, nothing, rawBytes]
      · rw [took.left, whole, none]
        rfl
    · have more : rawEntries rest = batch ++ (rawEntries rest).drop batch.length := by
        obtain ⟨others, isPrefix⟩ :=
          batchOf_isPrefix (2 ^ 20) (some throughSeq) 0 false (rawEntries rest)
        rw [batchEq] at isPrefix
        rw [← isPrefix, List.drop_left]
      have shorter : ((rawEntries rest).drop batch.length).length < fuel := by
        have length := congrArg List.length more
        have nonempty : 0 < batch.length := by simp [isLast]
        rw [List.length_append] at length
        omega
      obtain ⟨ended, counted, left, leftTracks, leftEq⟩ := ih took.tracks (by
        rw [took.left]
        exact shorter) (bytes + (rawBytes batch).length) final.sequence
      rw [took.left] at counted leftEq
      refine ⟨ended, ?_, left, leftTracks, ?_⟩
      · have last : batch.getLast? = some final := by simp [isLast]
        rw [last]
        simp only [Option.map_some]
        rw [counted, split, rawBytes, rawBytes, rawBytes, List.flatMap_append, List.length_append,
          Nat.add_assoc, List.getLast?_append, last]
        cases ((List.drop batch.length (rawEntries rest)).takeWhile
          (·.sequence ≤ throughSeq)).getLast? <;> rfl
      · -- Both sides are what is behind the batch and the entries taken behind it.
        rw [leftEq]
        have behind := List.takeWhile_append_dropWhile (p := (·.sequence ≤ throughSeq))
          (l := (rawEntries rest).drop batch.length)
        rw [split, List.append_assoc] at whole
        conv_rhs at whole => rw [more, ← behind]
        exact (List.append_cancel_left (List.append_cancel_left whole)).symm

theorem RawJournalScanner.Tracks.readRawBatch_isSome {scanner : RawJournalScanner} {rest : Bytes}
    (tracks : scanner.Tracks rest) (maxBytes : Nat) :
    (scanner.readRawBatch maxBytes).2.2.isSome = true ↔ rawEntries rest ≠ [] := by
  obtain ⟨after, batch, batchEq, run, -⟩ := tracks.readRawBatchInner maxBytes none
  rw [RawJournalScanner.readRawBatch, run, ← batchEq]
  cases rawEntries rest with
  | nil => simp [batchOf]
  | cons entry entries => simp [batchOf, List.getLast?_cons]

section

variable [Hashing]

/-- The check accepts exactly these files: what it looks at are the length fields and the numbers. -/
theorem verifySegmentPrefix_eq_ok {content : Bytes} {grants : Nat → Nat} {throughSeq expectedLen : Nat} :
    verifySegmentPrefix content grants throughSeq expectedLen = .ok () ↔
      ∃ info, segmentHeader content = .ok info ∧
        (∀ raw ∈ rawEntries (content.drop info.sectorSize), raw.sequence ≤ throughSeq) ∧
        ((rawEntries (content.drop info.sectorSize)).getLast?.map (·.sequence)).getD
          (info.startingSequence - 1) = throughSeq ∧
        entryOffset + (rawBytes (rawEntries (content.drop info.sectorSize))).length
          = expectedLen := by
  have opened := RawJournalScanner.openSegment_spec content grants
  rw [verifySegmentPrefix, show readHeaderInfo content = segmentHeader content from rfl]
  cases header : segmentHeader content with
  | error err => simp [bind, Except.bind]
  | ok info =>
    rw [header] at opened
    obtain ⟨scanner, openEq, tracks, -⟩ := opened
    have enough : (rawEntries (content.drop info.sectorSize)).length < content.length + 1 := by
      have bound := rawEntries_length_le (content.drop info.sectorSize)
      rw [List.length_drop] at bound
      omega
    obtain ⟨after, counted, left, leftTracks, leftEq⟩ := countLoop_spec throughSeq
      tracks enough entryOffset (info.startingSequence - 1)
    have behind := leftTracks.readRawBatch_isSome 256
    rw [leftEq] at behind
    simp only [openEq, bind, Except.bind, counted, Except.ok.injEq, exists_eq_left']
    -- Nothing comes next behind those counted exactly when all were counted.
    by_cases all : ∀ raw ∈ rawEntries (content.drop info.sectorSize), raw.sequence ≤ throughSeq
    · have every : (rawEntries (content.drop info.sectorSize)).takeWhile (·.sequence ≤ throughSeq)
          = rawEntries (content.drop info.sectorSize) :=
        List.takeWhile_eq_self_iff.mpr (by simpa using all)
      have none : (after.readRawBatch 256).2.2.isSome = false := by
        rw [← Bool.not_eq_true, behind, not_not, List.dropWhile_eq_nil_iff]
        simpa using all
      rw [every, none, if_neg Bool.false_ne_true]
      split_ifs with last length
      · simp [last]
      · simp [length]
      · exact ⟨fun _ => ⟨all, not_not.mp last, not_not.mp length⟩, fun _ => rfl⟩
    · have some : (after.readRawBatch 256).2.2.isSome = true := by
        rw [behind, Ne, List.dropWhile_eq_nil_iff]
        simpa using all
      rw [some, if_pos rfl]
      split_ifs <;> simp [all]

variable {E : Type} [AppEvent E]

theorem Consecutive.entryRun {start : Nat} {entries : List (WrittenEntry E)}
    (counts : Consecutive start (sequencesOf entries))
    (inverse : ∀ event : E, AppEvent.decode (AppEvent.encode event) = .ok event) (rest : Bytes) :
    EntryRun start (bytesOf entries ++ rest) (entries.map (·.entry)) rest := by
  induction entries generalizing start with
  | nil => exact .nil start rest
  | cons written entries ih =>
    obtain ⟨first, others⟩ := consecutive_cons.mp counts
    rw [bytesOf, List.flatMap_cons, List.append_assoc]
    refine .cons (decode_encode inverse written.inRange written.encoded _) first ?_
    rw [List.drop_left]
    exact ih others

theorem readSegmentPrefix_eq {content rest : Bytes} {info : FileHeaderInfo}
    {entries : List (JournalEntry E)} {last : JournalEntry E}
    (header : segmentHeader content = .ok info) (sector : info.sectorSize = entryOffset)
    (positive : 0 < info.startingSequence)
    (run : EntryRun info.startingSequence (content.drop info.sectorSize) (entries ++ [last]) rest)
    (late : ∀ raw, rawHead rest = some raw → last.sequence < raw.sequence) (grants : Nat → Nat) :
    readSegmentPrefix content grants last.sequence
      = .ok (some (content.take (content.length - rest.length))) := by
  obtain ⟨raws, rawsEq, sequences, bytesEq, consecutive⟩ := run.rawEntries_eq
  -- The last one found by its length field is the last entry, and the others come before it.
  obtain ⟨front, final, rfl⟩ : ∃ front final, raws = front ++ [final] := by
    rcases List.eq_nil_or_concat' raws with none | some
    · simp [none] at sequences
    · exact some
  rw [List.map_append, List.map_append] at sequences
  obtain ⟨-, finalEq⟩ := List.append_inj' sequences rfl
  have finalEq : final.sequence = last.sequence := by simpa using finalEq
  rw [List.map_append, consecutive_append] at consecutive
  obtain ⟨counts, lastCounts⟩ := consecutive
  have number : final.sequence = info.startingSequence + front.length := by
    rw [List.map_singleton, consecutive_cons, List.length_map] at lastCounts
    exact lastCounts.1
  have early : ∀ other ∈ front, other.sequence < last.sequence := by
    intro other member
    have bounds := counts.mem_bounds (List.mem_map_of_mem member)
    rw [List.length_map] at bounds
    omega
  have first : ∀ other ∈ (rawEntries rest).head?, last.sequence < other.sequence := by
    intro other isFirst
    cases head : rawHead rest with
    | none => simp [rawEntries_none head] at isFirst
    | some raw =>
      rw [rawEntries_some head, List.head?_cons, Option.mem_some_iff] at isFirst
      exact isFirst ▸ late raw head
  have opened := RawJournalScanner.openSegment_spec content grants
  rw [header] at opened
  obtain ⟨scanner, openEq, tracks, -⟩ := opened
  have enough : front.length < content.length + 1 := by
    have bound := rawEntries_length_le (content.drop info.sectorSize)
    rw [rawsEq, List.length_append, List.length_append, List.length_drop] at bound
    omega
  have taken := prefixLoop_spec tracks (by rw [rawsEq, List.append_assoc]; rfl) early finalEq first
    enough (content.take entryOffset)
  have whole : content = content.take entryOffset ++ (rawBytes (front ++ [final]) ++ rest) := by
    rw [← bytesEq, sector, List.take_append_drop]
  have long : ¬ content.length < entryOffset := by
    intro short
    have empty : content.drop info.sectorSize = [] := by
      rw [sector]
      exact List.drop_eq_nil_of_le short.le
    rw [empty, rawEntries_none rfl] at rawsEq
    simp at rawsEq
  have notHeader : last.sequence ≠ info.startingSequence - 1 := by omega
  rw [readSegmentPrefix, show readHeaderInfo content = segmentHeader content from rfl, header]
  simp only [bind, Except.bind, if_neg long, if_neg notHeader, openEq, taken]
  rw [← List.append_assoc] at whole
  have cut : (content.take entryOffset ++ rawBytes (front ++ [final]) ++ rest).take
      ((content.take entryOffset ++ rawBytes (front ++ [final]) ++ rest).length - rest.length)
      = content.take entryOffset ++ rawBytes (front ++ [final]) := by
    rw [@List.length_append _ _ rest, Nat.add_sub_cancel, List.take_left]
  rw [← whole] at cut
  rw [cut]
  rfl

end

def sampleEntryBytes (sequence : Nat) : Bytes :=
  match encode sequence 5 9 (.app (CounterEvent.increment 7)) maxEntrySize with
  | .ok bytes => bytes
  | .error _ => []

def sampleSmallHeader : Bytes := encodeFileHeader 512 1 .zero (some 0) ++ sampleEntryBytes 1

def sampleGapSeed : Bytes :=
  encodeFileHeader entryOffset 1 .zero (some 0) ++ sampleEntryBytes 1 ++ sampleEntryBytes 3 ++ [7]

end Melin
