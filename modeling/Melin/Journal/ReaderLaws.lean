import Melin.Journal.Scan

/-! The buffered reader reads what the segment holds, however its reads are cut. -/

namespace Melin

open Lib

namespace JournalReader

/--
The tail scan finds what one look at all the bytes would find.

The scan reads in pieces, so the loop is followed from any offset it can stand at.
-/
theorem scanTailLoop_eq (reach : Nat) {capacity : Nat} (room : 0 < capacity) (fuel : Nat)
    (file : ByteFile) (offset : Nat) (lastWithin : Option Nat)
    (enough : file.content.length - offset ≤ fuel) :
    ∃ calls, scanTailLoop reach capacity fuel file offset lastWithin =
      ({ file with calls },
        ((lastNonzero ((file.content.drop offset).take (reach - offset))).map (offset + ·)).or
          lastWithin,
        (firstNonzero ((file.content.drop offset).drop (reach - offset))).map
          (offset + (reach - offset) + ·)) := by
  induction fuel generalizing file offset lastWithin with
  | zero =>
    -- No bytes are left to look at.
    have done : file.content.drop offset = [] := List.drop_eq_nil_of_le (by omega)
    exact ⟨file.calls, by simp [scanTailLoop, done, lastNonzero, firstNonzero]⟩
  | succ fuel ih =>
    unfold scanTailLoop
    by_cases inside : offset < file.content.length
    · rw [if_pos inside]
      obtain ⟨chunk, nonempty, cut, read⟩ := file.readAt_eq
        (show 0 < min (file.content.length - offset) capacity by omega) inside
      simp only [read, if_neg (Nat.pos_iff_ne_zero.mp nonempty)]
      -- The bytes before the reach and those behind it are each cut where the chunk ends.
      have before : (file.content.drop offset).take (reach - offset)
          = chunk.take (min (reach - offset) chunk.length)
            ++ (file.content.drop (offset + chunk.length)).take (reach - (offset + chunk.length)) := by
        rw [cut, List.take_append, ← List.take_eq_take_min, Nat.sub_sub]
      have behind : (file.content.drop offset).drop (reach - offset)
          = chunk.drop (min (reach - offset) chunk.length)
            ++ (file.content.drop (offset + chunk.length)).drop (reach - (offset + chunk.length)) := by
        rw [cut, List.drop_append, ← List.drop_eq_drop_min, Nat.sub_sub]
      rw [before, behind, lastNonzero_append, firstNonzero_append]
      cases found : firstNonzero (chunk.drop (min (reach - offset) chunk.length)) with
      | some index =>
        -- A hit in this chunk means the reach ends inside it, so nothing before it is missed.
        have short : reach - offset < chunk.length := by
          by_contra long
          rw [Nat.min_eq_right (by omega), List.drop_length] at found
          simp [firstNonzero] at found
        have none : reach - (offset + chunk.length) = 0 := by omega
        refine ⟨file.calls + 1, ?_⟩
        simp [none, lastNonzero, Nat.min_eq_left (Nat.le_of_lt short), Nat.add_assoc]
      | none =>
        obtain ⟨calls, done⟩ := ih { file with calls := file.calls + 1 } (offset + chunk.length)
          (((lastNonzero (chunk.take (min (reach - offset) chunk.length))).map (offset + ·)).or
            lastWithin) (by simp only; omega)
        refine ⟨calls, ?_⟩
        simp only [done, Option.map_or, Option.map_map, Option.none_or, Option.or_assoc]
        -- Either the reach ends inside this chunk, or the whole chunk lies before it.
        rcases Nat.lt_or_ge (reach - offset) chunk.length with short | long
        · have none : reach - (offset + chunk.length) = 0 := by omega
          have sum : ∀ index, offset + (reach - offset) + (chunk.length - (reach - offset) + index)
              = offset + chunk.length + index := by omega
          simp [none, lastNonzero, Nat.min_eq_left (Nat.le_of_lt short), Function.comp_def, sum]
        · have sum : ∀ index, offset + (reach - offset) + index
              = offset + chunk.length + (reach - (offset + chunk.length)) + index := by omega
          simp [Nat.min_eq_right long, Function.comp_def, Nat.add_assoc, sum]
    · rw [if_neg inside]
      have done : file.content.drop offset = [] := List.drop_eq_nil_of_le (by omega)
      exact ⟨file.calls, by simp [done, lastNonzero, firstNonzero]⟩

def place (reader : JournalReader) : Place :=
  { content := reader.file.content, kind := reader.kind, path := reader.path,
    startingSequence := reader.startingSequence, lastSequence := reader.lastSequence,
    offset := reader.validFileEnd, chain := reader.chain }

/-- The buffer and the file together hold exactly the bytes behind the last valid entry. -/
structure Tracks (reader : JournalReader) : Prop where
  bytes : reader.window ++ reader.file.unread = reader.place.rest
  fits : reader.held.length ≤ reader.capacity
  room : 0 < reader.capacity
  reading : reader.ended = false
  untorn : reader.tornTail = none

variable {reader : JournalReader}

theorem endOfEntries_spec (tracks : reader.Tracks) (cause : Option JournalError) :
    match reader.place.verdict cause with
    | .error err => (reader.endOfEntries cause).2 = .error err ∧
        (reader.endOfEntries cause).1.Tracks ∧ (reader.endOfEntries cause).1.place = reader.place
    | .ok tornTail => (reader.endOfEntries cause).2 = .ok () ∧
        (reader.endOfEntries cause).1.segmentEnd = reader.place.segmentEnd tornTail ∧
        (reader.endOfEntries cause).1.ended = true := by
  obtain ⟨-, -, room, reading, untorn⟩ := tracks
  obtain ⟨calls, scanned⟩ := scanTailLoop_eq
    (reader.validFileEnd + unsyncedReach reader.kind) room
    (reader.file.content.length - reader.validFileEnd) reader.file reader.validFileEnd none le_rfl
  simp only [Nat.add_sub_cancel_left, Option.or_none] at scanned
  have rest : reader.place.rest = reader.file.content.drop reader.validFileEnd := rfl
  simp only [Place.verdict, endOfEntries, scanTail, scanned, rest]
  -- Both sides look for a nonzero byte behind the reach of an unsynced write.
  cases beyond : firstNonzero ((reader.file.content.drop reader.validFileEnd).drop
      (unsyncedReach reader.kind)) with
  | some index =>
    simp only [place, beyond, Option.map_some, Nat.add_assoc, true_and, and_true]
    exact ⟨rfl, Nat.zero_le _, room, reading, untorn⟩
  | none =>
    simp only [place, beyond, Option.map_none, segmentEnd, Place.segmentEnd, untorn,
      Option.or_none, Option.map_map, true_and, and_true]
    congr 2
    funext index
    simp only [Function.comp_apply, TornTail.mk.injEq, true_and]
    omega

theorem two_le_of_zeroMagic {bytes : Bytes} (zero : zeroMagic bytes = true) :
    2 ≤ bytes.length := by
  match bytes, zero with
  | first :: second :: rest, _ => simp

theorem zeroMagic_append {front : Bytes} (back : Bytes) (two : 2 ≤ front.length) :
    zeroMagic (front ++ back) = zeroMagic front := by
  match front, two with
  | first :: second :: _, _ => rfl

theorem isTornShape_append {front : Bytes} (back : Bytes) (err : JournalError)
    (two : 2 ≤ front.length) : isTornShape (front ++ back) err = isTornShape front err := by
  have window : slice (front ++ back) 0 2 = slice front 0 2 := slice_append_left (by omega)
  have long : ¬ front.length + back.length < 2 := by omega
  have short : ¬ front.length < 2 := by omega
  cases err <;> simp [isTornShape, window, long, short]

theorem Tracks.fillBuffer (tracks : reader.Tracks) :
    reader.fillBuffer.Tracks ∧ reader.fillBuffer.place = reader.place ∧
      (reader.fillBuffer.window = [] ↔ reader.place.rest = []) := by
  simp only [JournalReader.fillBuffer]
  split
  · rename_i unconsumed
    refine ⟨tracks, rfl, ?_⟩
    have held : reader.window ≠ [] := by simp [window]; omega
    simp [← tracks.bytes, held]
  · rename_i consumed
    have empty : reader.window = [] := List.drop_eq_nil_of_le (by omega)
    have unread : reader.file.unread = reader.place.rest := by
      have bytes := tracks.bytes
      rwa [empty, List.nil_append] at bytes
    refine ⟨⟨?_, reader.file.read_length_le _, tracks.room, tracks.reading, tracks.untorn⟩,
      rfl, ?_⟩
    · simp only [window, List.drop_zero]
      rw [ByteFile.read_append_unread, unread]
      rfl
    · simp only [window, List.drop_zero]
      rw [ByteFile.read_eq_nil _ tracks.room, unread]

theorem Tracks.tryExtendBuffer (tracks : reader.Tracks) :
    ∃ chunk, reader.tryExtendBuffer.2.Tracks ∧ reader.tryExtendBuffer.2.place = reader.place ∧
      reader.tryExtendBuffer.2.window = reader.window ++ chunk ∧
      reader.file.unread = chunk ++ reader.tryExtendBuffer.2.file.unread ∧
      reader.tryExtendBuffer.1 = (decide (0 < chunk.length)) ∧
      (chunk = [] ↔ reader.file.unread = []) := by
  have held : reader.window.length ≤ reader.capacity := by
    have fits := tracks.fits
    simp only [window, List.length_drop]
    omega
  have room := tracks.room
  -- The buffer is doubled when the partial entry fills it, so there is always room to read into.
  generalize capacityEq : (if reader.window.length = reader.capacity then reader.capacity * 2
    else reader.capacity) = capacity
  have free : reader.window.length < capacity := by
    rw [← capacityEq]
    split <;> omega
  have more := reader.file.read_append_unread (capacity - reader.window.length)
  have bound := reader.file.read_length_le (capacity - reader.window.length)
  refine ⟨(reader.file.read (capacity - reader.window.length)).1, ?_⟩
  simp only [JournalReader.tryExtendBuffer, capacityEq]
  refine ⟨⟨?_, ?_, by simp only; omega, tracks.reading, tracks.untorn⟩, rfl, rfl, more.symm,
    trivial, reader.file.read_eq_nil (by omega)⟩
  · have bytes := tracks.bytes
    rw [← more, ← List.append_assoc] at bytes
    exact bytes
  · simp only [List.length_append]
    omega

section

variable {E : Type} [AppEvent E] [Hashing]

theorem two_le_of_decode {buf : Bytes} (whole : decode (E := E) buf ≠ .error .truncatedEntry) :
    2 ≤ buf.length := by
  by_contra short
  exact whole (decode_short (by simp only [entryHeaderSize, crcSize]; omega))

/--
Decoding with refills gives what decoding all the bytes at once would give.

The refills stop as soon as the entry is whole, or when the file has nothing more to give.
-/
theorem decodeExtending_spec (fuel : Nat) (reader : JournalReader) (tracks : reader.Tracks)
    (starts : zeroMagic reader.window = false) (enough : reader.file.unread.length < fuel) :
    ∃ after result, decodeExtending (E := E) fuel reader = (after, result) ∧
      after.Tracks ∧ after.place = reader.place ∧
      match result with
      | none => zeroMagic reader.place.rest = true
      | some decoded => zeroMagic reader.place.rest = false ∧ decode reader.place.rest = decoded ∧
          (∀ err, decoded = .error err →
            isTornShape after.window err = isTornShape reader.place.rest err) ∧
          ∀ entry, decoded = .ok entry →
            after.window.take entry.consumed = reader.place.rest.take entry.consumed := by
  induction fuel generalizing reader with
  | zero => omega
  | succ fuel ih =>
    have bytes := tracks.bytes
    by_cases cut : decode (E := E) reader.window = .error .truncatedEntry
    · -- The entry is cut short: read more, or learn that there is no more.
      obtain ⟨chunk, afterTracks, afterPlace, afterWindow, unread, got, atEnd⟩ :=
        tracks.tryExtendBuffer
      cases chunk with
      | nil =>
        -- At the end of the file the window is everything there is.
        have rest : reader.window = reader.place.rest := by
          rw [← bytes, atEnd.mp rfl, List.append_nil]
        have same : reader.tryExtendBuffer.2.window = reader.place.rest := by
          rw [afterWindow, List.append_nil, rest]
        refine ⟨reader.tryExtendBuffer.2, some (.error .truncatedEntry), ?_, afterTracks,
          afterPlace, ?_⟩
        · rw [decodeExtending, cut]
          simp only [List.length_nil, lt_irrefl, decide_false] at got
          generalize reader.tryExtendBuffer = extended at got
          obtain ⟨more, after⟩ := extended
          subst got
          rfl
        · exact ⟨rest ▸ starts, rest ▸ cut, fun err _ => by rw [same], by simp⟩
      | cons byte chunk =>
        have more : reader.tryExtendBuffer = (true, reader.tryExtendBuffer.2) := by
          rw [← Prod.eta reader.tryExtendBuffer, got]
          simp
        rw [decodeExtending, cut, more]
        cases magic : zeroMagic reader.tryExtendBuffer.2.window with
        | true =>
          -- Two zero bytes at the front stay at the front of everything behind the place.
          refine ⟨reader.tryExtendBuffer.2, none, by simp [magic], afterTracks, afterPlace, ?_⟩
          rw [← afterPlace, ← afterTracks.bytes, zeroMagic_append _ (two_le_of_zeroMagic magic),
            magic]
        | false =>
          have less : reader.tryExtendBuffer.2.file.unread.length < fuel := by
            rw [unread] at enough
            simp only [List.length_append, List.length_cons] at enough
            omega
          obtain ⟨after, result, run, tracked, placed, meaning⟩ :=
            ih reader.tryExtendBuffer.2 afterTracks magic less
          refine ⟨after, result, by simpa [magic] using run, tracked, placed.trans afterPlace, ?_⟩
          rwa [afterPlace] at meaning
    · -- The entry is whole, so what follows the window cannot change it.
      have two := two_le_of_decode cut
      refine ⟨reader, some (decode reader.window), ?_, tracks, rfl, ?_, ?_, ?_, ?_⟩
      · rw [decodeExtending]
        split
        · rename_i truncated
          exact absurd truncated cut
        · rfl
      · rw [← bytes, zeroMagic_append _ two, starts]
      · rw [← bytes, decode_append _ cut]
      · intro err _
        rw [← bytes, isTornShape_append _ _ two]
      · intro entry found
        rw [← bytes, List.take_append_of_le_length (decode_eq_ok found).inside]

/-- A read from a place came out the way the bytes behind the place call for. -/
def Reads (place : Place) (run : JournalReader × Except JournalError (Option (JournalEntry E))) :
    Next E → Prop
  | .record record => ∃ after, run = (after, .ok (some record.entry)) ∧ after.Tracks ∧
      after.place = place.advance record
  | .stop tornTail => ∃ after, run = (after, .ok none) ∧
      after.segmentEnd = place.segmentEnd tornTail ∧ after.ended = true
  | .fail err => ∃ after, run = (after, .error err) ∧ after.Tracks ∧ after.place = place

variable {reader : JournalReader}

theorem Tracks.stop (tracks : reader.Tracks) {cause : Option JournalError}
    (head : headOf (E := E) reader.place.rest = .stop cause) :
    Reads (E := E) reader.place (reader.stop cause) reader.place.next := by
  have ending := endOfEntries_spec tracks cause
  simp only [Place.next, head]
  cases verdict : reader.place.verdict cause with
  | error err =>
    simp only [verdict] at ending ⊢
    exact ⟨(reader.endOfEntries cause).1, by simp only [JournalReader.stop, ending.1, Except.map],
      ending.2⟩
  | ok tornTail =>
    simp only [verdict] at ending ⊢
    exact ⟨(reader.endOfEntries cause).1, by simp only [JournalReader.stop, ending.1, Except.map],
      ending.2⟩

theorem Tracks.validateAndAdvance (tracks : reader.Tracks) {decoded : DecodedEntry E}
    (head : headOf (E := E) reader.place.rest = .entry decoded)
    (window : reader.window.take decoded.consumed = reader.place.rest.take decoded.consumed) :
    Reads (E := E) reader.place
      ((reader.validateAndAdvance decoded).1, (reader.validateAndAdvance decoded).2.map some)
      reader.place.next := by
  simp only [Place.next, head, JournalReader.validateAndAdvance]
  cases continues : checkSequence reader.startingSequence reader.lastSequence
      decoded.entry.sequence with
  | error err =>
    simp only [place, continues]
    exact ⟨reader, rfl, tracks, rfl⟩
  | ok done =>
    simp only [place, continues]
    have inside : decoded.consumed ≤ reader.place.rest.length :=
      (decode_eq_ok (headOf_entry head)).inside
    have width : (reader.place.rest.take decoded.consumed).length = decoded.consumed := by
      simp only [List.length_take]
      omega
    have held : decoded.consumed ≤ reader.window.length := by
      rw [← window, List.length_take] at width
      omega
    refine ⟨_, rfl, ⟨?_, tracks.fits, tracks.room, tracks.reading, tracks.untorn⟩, ?_⟩
    · -- What is left of the window still runs on into the unread part of the file.
      show reader.held.drop (reader.pos + decoded.consumed) ++ reader.file.unread
        = reader.file.content.drop (reader.validFileEnd + decoded.consumed)
      have bytes := congrArg (List.drop decoded.consumed) tracks.bytes
      rw [List.drop_append_of_le_length held] at bytes
      simpa only [JournalReader.window, Place.rest, place, List.drop_drop] using bytes
    · simp only [place] at width
      simp only [place, Place.advance, window, width]

theorem nextEntry_eq {reader : JournalReader} (reading : reader.ended = false) :
    reader.nextEntry (E := E) =
      if reader.fillBuffer.window = [] then reader.fillBuffer.stop none
      else if zeroMagic reader.fillBuffer.window then reader.fillBuffer.stop none
      else
        match decodeExtending (E := E) (reader.fillBuffer.file.unread.length + 1)
            reader.fillBuffer with
        | (reader, none) => reader.stop none
        | (reader, some (.ok decoded)) =>
          ((reader.validateAndAdvance decoded).1, (reader.validateAndAdvance decoded).2.map some)
        | (reader, some (.error err)) =>
          if isTornShape reader.window err then reader.stop (some err) else (reader, .error err) :=
  if_neg (by simp [reading])

/--
One read does what the bytes behind the place call for.

The reader that comes back stands at the place that follows, so the step can be repeated.
-/
theorem nextEntry_spec {reader : JournalReader} (tracks : reader.Tracks) :
    Reads (E := E) reader.place reader.nextEntry reader.place.next := by
  obtain ⟨filled, filledPlace, atEnd⟩ := tracks.fillBuffer
  rw [nextEntry_eq tracks.reading, ← filledPlace]
  rw [← filledPlace] at atEnd
  by_cases empty : reader.fillBuffer.window = []
  · -- The end of the file, exactly between two entries.
    rw [if_pos empty]
    exact filled.stop (by simp [headOf, atEnd.mp empty])
  rw [if_neg empty]
  have more : reader.fillBuffer.place.rest ≠ [] := fun done => empty (atEnd.mpr done)
  cases magic : zeroMagic reader.fillBuffer.window with
  | true =>
    have zero : zeroMagic reader.fillBuffer.place.rest = true := by
      rw [← filled.bytes, zeroMagic_append _ (two_le_of_zeroMagic magic), magic]
    exact filled.stop (by simp [headOf, zero])
  | false =>
    obtain ⟨after, result, run, afterTracks, afterPlace, meaning⟩ := decodeExtending_spec (E := E)
      (reader.fillBuffer.file.unread.length + 1) reader.fillBuffer filled magic (by omega)
    rw [if_neg Bool.false_ne_true, run, ← afterPlace]
    rw [← afterPlace] at meaning more
    cases result with
    | none => exact afterTracks.stop (by simp [headOf, show zeroMagic _ = true from meaning])
    | some result => cases result with
    | ok decoded =>
      obtain ⟨nonzero, decodes, -, window⟩ := meaning
      exact afterTracks.validateAndAdvance (by simp [headOf, more, nonzero, decodes])
        (window decoded rfl)
    | error err =>
      obtain ⟨nonzero, decodes, shape, -⟩ := meaning
      simp only [shape err rfl]
      split
      · rename_i torn
        exact afterTracks.stop (by simp [headOf, more, nonzero, decodes, torn])
      · rename_i corrupt
        have fails : after.place.next (E := E) = .fail err := by
          simp [Place.next, headOf, more, nonzero, decodes, corrupt]
        rw [fails]
        exact ⟨after, rfl, afterTracks, rfl⟩

/-- A consumer's loop visits exactly what the segment holds, however the reads were cut. -/
theorem forEachEntryLoop_eq {σ ε : Type} (lift : JournalError → ε)
    (body : SegmentChain → JournalEntry E → σ → σ × Except ε Unit) (fuel : Nat)
    (reader : JournalReader) (tracks : reader.Tracks) (state : σ)
    (enough : reader.place.rest.length < fuel) :
    Prod.map id (Except.map segmentEnd) (forEachEntryLoop lift body fuel reader state)
      = reader.place.visit lift body state := by
  induction fuel generalizing reader state with
  | zero => omega
  | succ fuel ih =>
    have step := nextEntry_spec (E := E) tracks
    rw [Place.visit_eq, forEachEntryLoop]
    cases next : reader.place.next (E := E) with
    | fail err =>
      rw [next] at step
      obtain ⟨after, run, -, -⟩ := step
      simp only [run]
      rfl
    | stop tornTail =>
      rw [next] at step
      obtain ⟨after, run, ending, -⟩ := step
      simp only [run, Prod.map, Except.map, ending, id]
    | record record =>
      rw [next] at step
      obtain ⟨after, run, afterTracks, afterPlace⟩ := step
      have shrinks := Place.rest_advance_lt next
      have chain : after.chain = reader.place.chain.absorb record.raw :=
        congrArg Place.chain afterPlace
      simp only [run, chain]
      -- The consumer may stop the loop; otherwise it goes on from the place behind the record.
      generalize body (reader.place.chain.absorb record.raw) record.entry state = handled
      obtain ⟨after', result⟩ := handled
      cases result with
      | error err => rfl
      | ok done => rw [ih after afterTracks _ (by rw [afterPlace]; omega), afterPlace]

theorem forEachEntry_eq {σ ε : Type} (lift : JournalError → ε)
    (body : SegmentChain → JournalEntry E → σ → σ × Except ε Unit) (tracks : reader.Tracks)
    (state : σ) :
    Prod.map id (Except.map segmentEnd) (reader.forEachEntry lift body state)
      = reader.place.visit lift body state := by
  apply forEachEntryLoop_eq lift body _ reader tracks
  simp only [place, Place.rest, List.length_drop]
  omega

theorem readAll_map (tracks : reader.Tracks) :
    Prod.map id (Except.map segmentEnd) (reader.readAll (E := E))
      = ((reader.place.scan (E := E)).1.map (·.entry), (reader.place.scan (E := E)).2.map
          (reader.place.advanceAll (reader.place.scan (E := E)).1).segmentEnd) := by
  have collect : ∀ (found : List (Record E)) (chain : SegmentChain) (before : List (JournalEntry E)),
      visitRecords (ε := JournalError) (fun _ entry entries => (entries ++ [entry], .ok ())) chain
        found before = (before ++ found.map (·.entry), .ok ()) := by
    intro found
    induction found with
    | nil => simp [visitRecords]
    | cons record found ih => simp [visitRecords, ih]
  rw [readAll, forEachEntry_eq id _ tracks []]
  simp only [Place.visit, collect, List.nil_append]
  cases (reader.place.scan (E := E)).2 <;> rfl

theorem readAll_eq (tracks : reader.Tracks) {records : List (Record E)} {tornTail : Option TornTail}
    (scanned : reader.place.scan = (records, .ok tornTail)) :
    ∃ after, reader.readAll = (records.map (·.entry), .ok after) ∧
      after.segmentEnd = (reader.place.advanceAll records).segmentEnd tornTail := by
  have collected := readAll_map (E := E) tracks
  rw [scanned] at collected
  generalize reader.readAll (E := E) = run at collected ⊢
  obtain ⟨entries, result⟩ := run
  cases result with
  | error err => simp [Prod.map, Except.map] at collected
  | ok after =>
    simp only [Prod.map, id, Except.map, Prod.mk.injEq, Except.ok.injEq] at collected
    exact ⟨after, by rw [collected.1], collected.2⟩

theorem openSegment_spec (content : Bytes) (grants : Nat → Nat) (path : SegmentPath)
    (kind : SegmentKind) :
    match segmentHeader content with
    | .error err => openSegment content grants path kind = .error err
    | .ok info => ∃ reader, openSegment content grants path kind = .ok reader ∧
        reader.Tracks ∧ reader.place = startPlace content path kind info ∧
        reader.headerInfo = info := by
  simp only [segmentHeader, openSegment]
  split_ifs with short
  · rfl
  · cases header : decodeFileHeader (content.take fileHeaderSize) with
    | error err => rfl
    | ok info =>
      -- The buffer is empty, and the file stands where the entries begin.
      exact ⟨_, rfl, ⟨rfl, Nat.zero_le _, by simp [initialBufSize], rfl, rfl⟩, rfl, rfl⟩

end

end JournalReader

end Melin
