import Melin.Examples.CounterJournal

/-! What a reader's calls return, from the bytes of the segment alone. -/

namespace Melin

open Lib

section

variable {E : Type} [AppEvent E] [Hashing]

inductive EntryRun : Nat → Bytes → List (JournalEntry E) → Bytes → Prop where
  | nil (next : Nat) (bytes : Bytes) : EntryRun next bytes [] bytes
  | cons {next : Nat} {bytes rest : Bytes} {decoded : DecodedEntry E}
      {entries : List (JournalEntry E)} (found : decode bytes = .ok decoded)
      (numbered : decoded.entry.sequence = next)
      (more : EntryRun (next + 1) (bytes.drop decoded.consumed) entries rest) :
      EntryRun next bytes (decoded.entry :: entries) rest

structure LongestRun (start : Nat) (bytes : Bytes) (entries : List (JournalEntry E)) (rest : Bytes) :
    Prop where
  run : EntryRun start bytes entries rest
  longest : ∀ decoded : DecodedEntry E, decode rest = .ok decoded →
    decoded.entry.sequence ≠ start + entries.length

variable (E) in
/-- Bytes an interrupted write can have left: cut short, or with a wrong checksum or magic. -/
def TornShape (bytes : Bytes) : Prop :=
  decode (E := E) bytes = .error .truncatedEntry ∨
    (∃ sequence expected actual,
      decode (E := E) bytes = .error (.checksumMismatch sequence expected actual)) ∨
    leNat (slice bytes 0 2) ≠ entryMagic

variable (E) in
/-- Where entries may end: at such bytes, with zeros beyond the reach of an unsynced write. -/
def CleanEnd (kind : SegmentKind) (rest : Bytes) : Prop :=
  (rest = [] ∨ zeroMagic rest = true ∨ TornShape E rest) ∧
    ∀ byte ∈ rest.drop (JournalReader.unsyncedReach kind), byte = 0

def JournalReader.callAfter : Nat → JournalReader → Except JournalError (Option (JournalEntry E))
  | 0, reader => reader.nextEntry.2
  | calls + 1, reader => callAfter calls (reader.nextEntry (E := E)).1

variable {bytes : Bytes}

theorem decode_of_magic (magic : leNat (slice bytes 0 2) ≠ entryMagic) :
    ∃ err, decode (E := E) bytes = .error err ∧ isTornShape bytes err = true := by
  rw [decode, if_pos magic]
  split
  · exact ⟨_, rfl, rfl⟩
  · exact ⟨_, rfl, by simp [isTornShape, magic]⟩

theorem tornShape_iff :
    TornShape E bytes ↔ ∃ err, decode (E := E) bytes = .error err ∧ isTornShape bytes err = true := by
  constructor
  · rintro (cut | ⟨sequence, expected, actual, crc⟩ | magic)
    · exact ⟨_, cut, rfl⟩
    · exact ⟨_, crc, rfl⟩
    · exact decode_of_magic magic
  · rintro ⟨err, failed, torn⟩
    cases err with
    | truncatedEntry => exact .inl failed
    | checksumMismatch => exact .inr (.inl ⟨_, _, _, failed⟩)
    | corruptEntry =>
      simp only [isTornShape, Bool.or_eq_true, decide_eq_true_eq, bne_iff_ne] at torn
      rcases torn with short | magic
      · exact .inl (decode_short (by simp only [entryHeaderSize, crcSize]; omega))
      · exact .inr (.inr magic)
    | _ => cases torn

theorem headOf_stop_iff :
    (∃ cause, headOf (E := E) bytes = .stop cause) ↔
      bytes = [] ∨ zeroMagic bytes = true ∨ TornShape E bytes := by
  rw [headOf, tornShape_iff]
  split_ifs with empty zero
  · simp [empty]
  · simp [zero]
  · simp only [empty, zero, false_or]
    cases decode (E := E) bytes with
    | ok decoded => simp
    | error err => cases shape : isTornShape bytes err <;> simp [shape]

theorem Place.next_stop_iff {place : Place} :
    (∃ tornTail, place.next (E := E) = .stop tornTail) ↔ CleanEnd E place.kind place.rest := by
  rw [CleanEnd, ← headOf_stop_iff, ← firstNonzero_eq_none, Place.next]
  cases head : headOf (E := E) place.rest with
  | entry decoded =>
    dsimp only
    cases JournalReader.checkSequence place.startingSequence place.lastSequence
      decoded.entry.sequence <;> simp
  | corrupt err => simp
  | stop cause =>
    simp only [Place.verdict]
    cases beyond : firstNonzero (place.rest.drop (JournalReader.unsyncedReach place.kind)) <;> simp

theorem Place.ne_expected_of_next {place : Place}
    (none : ∀ record : Record E, place.next ≠ .record record) (decoded : DecodedEntry E)
    (found : decode place.rest = .ok decoded) :
    decoded.entry.sequence ≠ expectedSequence place.startingSequence place.lastSequence := by
  intro expected
  refine none { entry := decoded.entry, raw := place.rest.take decoded.consumed } ?_
  simp only [Place.next, headOf_of_decode found, checkSequence_eq_ok.mpr expected]

/-- A scan finds the longest run of entries, and ends cleanly exactly where entries may end. -/
theorem Place.scan_longestRun (place : Place) :
    ∃ rest, LongestRun (expectedSequence place.startingSequence place.lastSequence) place.rest
        ((place.scan (E := E)).1.map (·.entry)) rest ∧
      ((∃ tornTail, (place.scan (E := E)).2 = .ok tornTail) ↔ CleanEnd E place.kind rest) := by
  induction place using Place.scan.induct (E := E) with
  | case1 place record found records verdict scanned ih =>
    obtain ⟨rest, ⟨run, longest⟩, ends⟩ := ih
    obtain ⟨decodes, raw, continues⟩ := Place.next_record found
    have numbered := checkSequence_eq_ok.mp continues
    have behind : (place.advance record).rest = place.rest.drop record.raw.length := by
      rw [Place.rest, Place.rest, List.drop_drop]
      rfl
    have next : expectedSequence (place.advance record).startingSequence
        (place.advance record).lastSequence
        = expectedSequence place.startingSequence place.lastSequence + 1 := by
      rw [← numbered]
      rfl
    rw [next] at run longest
    rw [behind] at run
    rw [Place.scan_record found]
    refine ⟨rest, ⟨.cons decodes numbered run, fun decoded later => ?_⟩, ends⟩
    have differs := longest decoded later
    rw [List.map_cons, List.length_cons]
    omega
  | case2 place tornTail found =>
    rw [Place.scan_stop found]
    refine ⟨place.rest, ⟨.nil _ _, Place.ne_expected_of_next (by simp [found])⟩, ?_⟩
    rw [← Place.next_stop_iff, found]
    simp
  | case3 place err found =>
    rw [Place.scan_fail found]
    refine ⟨place.rest, ⟨.nil _ _, Place.ne_expected_of_next (by simp [found])⟩, ?_⟩
    rw [← Place.next_stop_iff, found]
    simp

def verdictOf : Except JournalError (Option TornTail) →
    Except JournalError (Option (JournalEntry E))
  | .ok _ => .ok none
  | .error err => .error err

namespace JournalReader

variable {reader : JournalReader}

theorem callAfter_ended (ended : reader.ended = true) (calls : Nat) :
    reader.callAfter (E := E) calls = .ok none := by
  have stays : reader.nextEntry (E := E) = (reader, .ok none) := by
    rw [nextEntry, if_pos ended]
  induction calls with
  | zero => rw [callAfter, stays]
  | succ calls ih => rw [callAfter, stays, ih]

theorem callAfter_fail (tracks : reader.Tracks) {err : JournalError}
    (fails : reader.place.next (E := E) = .fail err) (calls : Nat) :
    reader.callAfter (E := E) calls = .error err := by
  induction calls generalizing reader with
  | zero =>
    have step := nextEntry_spec (E := E) tracks
    rw [fails] at step
    obtain ⟨after, run, -, -⟩ := step
    rw [callAfter, run]
  | succ calls ih =>
    have step := nextEntry_spec (E := E) tracks
    rw [fails] at step
    obtain ⟨after, run, afterTracks, afterPlace⟩ := step
    rw [callAfter, run]
    exact ih afterTracks (by rw [afterPlace, fails])

/-- A reader's calls return what a scan of the bytes finds, and its verdict from then on. -/
theorem callAfter_eq (tracks : reader.Tracks) (calls : Nat) :
    reader.callAfter (E := E) calls =
      match ((reader.place.scan (E := E)).1.map (·.entry))[calls]? with
      | some entry => .ok (some entry)
      | none => verdictOf (reader.place.scan (E := E)).2 := by
  generalize placeEq : reader.place = place
  induction place using Place.scan.induct (E := E) generalizing reader calls with
  | case1 place record found records verdict scanned ih =>
    have step := nextEntry_spec (E := E) tracks
    rw [placeEq, found] at step
    obtain ⟨after, run, afterTracks, afterPlace⟩ := step
    rw [Place.scan_record found]
    cases calls with
    | zero => rw [callAfter, run, List.map_cons, List.getElem?_cons_zero]
    | succ calls =>
      rw [callAfter, run, List.map_cons, List.getElem?_cons_succ]
      exact ih afterTracks calls afterPlace
  | case2 place tornTail found =>
    have step := nextEntry_spec (E := E) tracks
    rw [placeEq, found] at step
    obtain ⟨after, run, -, ended⟩ := step
    rw [Place.scan_stop found]
    cases calls with
    | zero => rw [callAfter, run]; rfl
    | succ calls => rw [callAfter, run, callAfter_ended ended]; rfl
  | case3 place err found =>
    rw [Place.scan_fail found, callAfter_fail tracks (by rw [placeEq, found])]
    rfl

theorem callAfter_openSegment {content : Bytes} {info : FileHeaderInfo}
    (header : segmentHeader content = .ok info) (grants : Nat → Nat) (path : SegmentPath)
    (kind : SegmentKind) :
    ∃ reader, openSegment content grants path kind = .ok reader ∧
      ∀ calls, reader.callAfter (E := E) calls =
        match (((startPlace content path kind info).scan (E := E)).1.map (·.entry))[calls]? with
        | some entry => .ok (some entry)
        | none => verdictOf ((startPlace content path kind info).scan (E := E)).2 := by
  have opened := openSegment_spec content grants path kind
  rw [header] at opened
  obtain ⟨reader, opens, tracks, placeEq, -⟩ := opened
  exact ⟨reader, opens, fun calls => placeEq ▸ callAfter_eq tracks calls⟩

end JournalReader

theorem LongestRun.unique {start : Nat} {rest rest' : Bytes}
    {entries entries' : List (JournalEntry E)} (longest : LongestRun start bytes entries rest)
    (longest' : LongestRun start bytes entries' rest') : entries = entries' ∧ rest = rest' := by
  obtain ⟨run, stops⟩ := longest
  obtain ⟨run', stops'⟩ := longest'
  induction run generalizing entries' with
  | nil next bytes =>
    cases run' with
    | nil => exact ⟨rfl, rfl⟩
    | cons found numbered => exact absurd numbered (stops _ found)
  | @cons next bytes rest decoded entries found numbered more ih =>
    cases run' with
    | nil => exact absurd numbered (stops' _ found)
    | @cons _ _ _ decoded' entries' found' numbered' more' =>
      obtain rfl : decoded = decoded' := Except.ok.inj (found.symm.trans found')
      have shifted : ∀ others : List (JournalEntry E),
          next + (decoded.entry :: others).length = next + 1 + others.length := fun others => by
        rw [List.length_cons]
        omega
      obtain ⟨rfl, rfl⟩ := ih (shifted entries ▸ stops) more' (shifted entries' ▸ stops')
      exact ⟨rfl, rfl⟩

theorem EntryRun.reads {content : Bytes} {info : FileHeaderInfo} {entries : List (JournalEntry E)}
    {zeros : Nat} (header : segmentHeader content = .ok info)
    (run : EntryRun info.startingSequence (content.drop info.sectorSize) entries
      (List.replicate zeros 0)) (grants : Nat → Nat) (path : SegmentPath) (kind : SegmentKind) :
    ∃ reader, JournalReader.openSegment content grants path kind = .ok reader ∧
      ∀ calls, reader.callAfter calls = .ok entries[calls]? := by
  have stop := headOf_stop_iff.mp (headOf_zeros (E := E) zeros)
  -- No entry starts among zeros, so the run is the longest.
  have none : ∀ decoded : DecodedEntry E, decode (List.replicate zeros 0) ≠ .ok decoded := by
    intro decoded found
    obtain ⟨cause, head⟩ := headOf_zeros (E := E) zeros
    rw [headOf_of_decode found] at head
    cases head
  obtain ⟨rest, longest, ends⟩ := (startPlace content path kind info).scan_longestRun (E := E)
  obtain ⟨same, rfl⟩ := longest.unique ⟨run, fun decoded found => absurd found (none decoded)⟩
  obtain ⟨tornTail, ended⟩ := ends.mpr ⟨stop, fun byte member =>
    List.eq_of_mem_replicate (List.mem_of_mem_drop member)⟩
  obtain ⟨reader, opens, calls⟩ :=
    JournalReader.callAfter_openSegment (E := E) header grants path kind
  refine ⟨reader, opens, fun count => ?_⟩
  rw [calls, same, ended]
  cases entries[count]? <;> rfl

/--
What a reader's calls return depends on the file's bytes only.

They return the longest run of entries, and from then on one verdict: the end where the entries may
end, and an error anywhere else.
-/
theorem reader_verdict_from_bytes {content : Bytes} {info : FileHeaderInfo}
    (header : segmentHeader content = .ok info) (path : SegmentPath) (kind : SegmentKind) :
    ∃ (entries : List (JournalEntry E)) (rest : Bytes)
      (verdict : Except JournalError (Option (JournalEntry E))),
      LongestRun info.startingSequence (content.drop info.sectorSize) entries rest ∧
      (CleanEnd E kind rest → verdict = .ok none) ∧
      (¬ CleanEnd E kind rest → ∃ err, verdict = .error err) ∧
      ∀ grants, ∃ reader, JournalReader.openSegment content grants path kind = .ok reader ∧
        ∀ calls, reader.callAfter calls =
          match entries[calls]? with
          | some entry => .ok (some entry)
          | none => verdict := by
  obtain ⟨rest, longest, ends⟩ := (startPlace content path kind info).scan_longestRun (E := E)
  refine ⟨_, rest, verdictOf ((startPlace content path kind info).scan (E := E)).2, longest, ?_, ?_,
    fun grants => ?_⟩
  · intro clean
    obtain ⟨tornTail, ended⟩ := ends.mpr clean
    rw [ended]
    rfl
  · intro unclean
    cases scanned : ((startPlace content path kind info).scan (E := E)).2 with
    | ok tornTail => exact absurd (ends.mp ⟨tornTail, scanned⟩) unclean
    | error err => exact ⟨err, rfl⟩
  · exact JournalReader.callAfter_openSegment header grants path kind

end

/-- An archived segment without entries and with a stray byte behind its header is never accepted. -/
theorem reader_verdict_stray_byte :
    ∃ err, ∀ grants, ∃ reader, JournalReader.openSegment (sampleOpening.header ++ [1]) grants
        (.archive 1) .archived = .ok reader ∧
      ∀ calls, reader.callAfter (E := CounterEvent) calls = .error err := by
  obtain ⟨entries, rest, verdict, ⟨run, -⟩, -, unclean, reads⟩ := reader_verdict_from_bytes
    (E := CounterEvent) (sampleOpening.segmentHeader_eq [1]) (.archive 1) .archived
  have behind : (sampleOpening.header ++ [1]).drop sampleOpening.info.sectorSize = [1] :=
    List.drop_left' sampleOpening.header_length
  rw [behind] at run
  cases run with
  | cons found => cases (decode_short (by decide)).symm.trans found
  | nil =>
    obtain ⟨err, rfl⟩ := unclean fun clean => absurd (clean.2 1 (by decide)) (by decide)
    exact ⟨err, reads⟩

end Melin
