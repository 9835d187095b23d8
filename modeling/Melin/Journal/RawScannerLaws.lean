import Melin.Journal.RawScanner
import Melin.Journal.WrittenSegment

/-! What the raw scanner finds, read off a segment's bytes at once. -/

namespace Melin

open Lib

structure RawEntry where
  sequence : Nat
  raw : Bytes

def rawHead (bytes : Bytes) : Option RawEntry :=
  if bytes.length < entryHeaderSize then none
  else if zeroMagic bytes then none
  else if bytes.length < rawTotal bytes then none
  else some { sequence := rawSequence bytes, raw := bytes.take (rawTotal bytes) }

variable {bytes : Bytes} {entry : RawEntry}

theorem rawHead_eq_some :
    rawHead bytes = some entry ↔ (entryHeaderSize ≤ bytes.length ∧ zeroMagic bytes = false ∧
      rawTotal bytes ≤ bytes.length) ∧
      entry = { sequence := rawSequence bytes, raw := bytes.take (rawTotal bytes) } := by
  unfold rawHead
  split_ifs with short zero cut
  · simp [Nat.not_le.mpr short]
  · simp [zero]
  · simp [Nat.not_le.mpr cut]
  · simp only [Option.some.injEq, Nat.le_of_not_lt short, Nat.le_of_not_lt cut,
      Bool.eq_false_iff.mpr zero, true_and, eq_comm]

theorem rawHead_shrinks (found : rawHead bytes = some entry) :
    (bytes.drop entry.raw.length).length < bytes.length := by
  obtain ⟨⟨header, -, inside⟩, rfl⟩ := rawHead_eq_some.mp found
  simp only [rawTotal, entryHeaderSize, List.length_take, List.length_drop] at *
  omega

def rawEntries (bytes : Bytes) : List RawEntry :=
  match _found : rawHead bytes with
  | none => []
  | some entry => entry :: rawEntries (bytes.drop entry.raw.length)
termination_by bytes.length
decreasing_by exact rawHead_shrinks _found

theorem rawEntries_none (found : rawHead bytes = none) : rawEntries bytes = [] := by
  rw [rawEntries]
  split <;> rename_i head <;> rw [found] at head
  simp at head

theorem rawEntries_some (found : rawHead bytes = some entry) :
    rawEntries bytes = entry :: rawEntries (bytes.drop entry.raw.length) := by
  rw [rawEntries]
  split <;> rename_i head <;> rw [found] at head <;> simp_all

theorem rawEntries_length_le (bytes : Bytes) : (rawEntries bytes).length ≤ bytes.length := by
  induction bytes using rawEntries.induct with
  | case1 bytes none => simp [rawEntries_none none]
  | case2 bytes entry found ih =>
    have shrinks := rawHead_shrinks found
    rw [rawEntries_some found, List.length_cons]
    omega

def rawBytes (entries : List RawEntry) : Bytes := entries.flatMap (·.raw)

def batchOf (maxBytes : Nat) (stopAfter : Option Nat) : Nat → Bool → List RawEntry → List RawEntry
  | _, _, [] => []
  | size, any, entry :: entries =>
    if stopAfter.any (entry.sequence > ·) then []
    else if any ∧ size + entry.raw.length > maxBytes then []
    else entry :: batchOf maxBytes stopAfter (size + entry.raw.length) true entries

theorem batchOf_isPrefix (maxBytes : Nat) (stopAfter : Option Nat) (size : Nat) (any : Bool)
    (entries : List RawEntry) : batchOf maxBytes stopAfter size any entries <+: entries := by
  induction entries generalizing size any with
  | nil => exact List.prefix_rfl
  | cons entry entries ih =>
    simp only [batchOf]
    split_ifs
    · exact List.nil_prefix
    · exact List.nil_prefix
    · exact List.cons_prefix_cons.mpr ⟨rfl, ih _ _⟩

theorem le_of_mem_batchOf {maxBytes stop size : Nat} {any : Bool} {entries : List RawEntry}
    (member : entry ∈ batchOf maxBytes (some stop) size any entries) :
    entry.sequence ≤ stop := by
  induction entries generalizing size any with
  | nil => simp [batchOf] at member
  | cons first entries ih =>
    simp only [batchOf] at member
    split_ifs at member with past full
    · simp at member
    · simp at member
    · rcases List.mem_cons.mp member with rfl | later
      · simpa using past
      · exact ih later

theorem rawEntries_zeros (zeros : Nat) : rawEntries (List.replicate zeros 0) = [] := by
  apply rawEntries_none
  by_cases short : zeros < entryHeaderSize
  · simp [rawHead, short]
  · obtain ⟨more, rfl⟩ : ∃ more, zeros = more + 2 :=
      ⟨zeros - 2, by simp only [entryHeaderSize] at short; omega⟩
    simp [rawHead, zeroMagic, List.replicate_succ]

namespace RawJournalScanner

/-- The buffer and the file together hold the bytes that are left. -/
structure Tracks (scanner : RawJournalScanner) (rest : Bytes) : Prop where
  bytes : scanner.window ++ scanner.file.unread = rest
  fits : scanner.held.length ≤ scanner.capacity
  inside : rest.length ≤ scanner.file.content.length

variable {scanner : RawJournalScanner} {rest : Bytes}

/-- Filling the buffer keeps the scanner on its bytes, and falls short only at their end. -/
theorem ensureLoop_spec (needed fuel : Nat) (tracks : scanner.Tracks rest)
    (enough : scanner.file.unread.length < fuel) :
    (ensureLoop needed fuel scanner).Tracks rest ∧
      (ensureLoop needed fuel scanner).file.content = scanner.file.content ∧
      (needed ≤ (ensureLoop needed fuel scanner).window.length ∨
        (ensureLoop needed fuel scanner).window = rest) := by
  induction fuel generalizing scanner with
  | zero => omega
  | succ fuel ih =>
    rw [ensureLoop]
    by_cases short : scanner.window.length < needed
    · simp only [if_pos short]
      generalize capacityEq : (if scanner.capacity < needed then needed else scanner.capacity)
        = capacity
      have free : scanner.window.length < capacity := by
        rw [← capacityEq]
        split <;> omega
      have more := scanner.file.read_append_unread (capacity - scanner.window.length)
      have bound := scanner.file.read_length_le (capacity - scanner.window.length)
      have atEnd := scanner.file.read_eq_nil (show 0 < capacity - scanner.window.length by omega)
      have content := scanner.file.read_content (capacity - scanner.window.length)
      generalize scanner.file.read (capacity - scanner.window.length) = read at more bound atEnd content
      obtain ⟨chunk, file⟩ := read
      simp only at more bound atEnd content ⊢
      have after : Tracks { held := scanner.window ++ chunk, pos := 0, capacity, file } rest := by
        refine ⟨?_, ?_, ?_⟩
        · rw [window, List.drop_zero, List.append_assoc, more]
          exact tracks.bytes
        · simp only [List.length_append]
          omega
        · rw [content]
          exact tracks.inside
      by_cases done : chunk.length = 0
      · simp only [if_pos done]
        have empty := List.length_eq_zero_iff.mp done
        refine ⟨after, content, .inr ?_⟩
        have bytes := tracks.bytes
        rw [atEnd.mp empty, List.append_nil] at bytes
        rw [window, List.drop_zero, empty, List.append_nil, bytes]
      · simp only [if_neg done]
        have width := congrArg List.length more
        rw [List.length_append] at width
        obtain ⟨tracked, same, full⟩ := ih after (by simp only; omega)
        exact ⟨tracked, same.trans content, full⟩
    · simp only [if_neg short]
      exact ⟨tracks, trivial, .inl (Nat.le_of_not_lt short)⟩

theorem Tracks.ensureAvailable (tracks : scanner.Tracks rest) (needed : Nat) :
    (scanner.ensureAvailable needed).Tracks rest ∧
      (scanner.ensureAvailable needed).file.content = scanner.file.content ∧
      (needed ≤ (scanner.ensureAvailable needed).window.length ∨
        (scanner.ensureAvailable needed).window = rest) :=
  ensureLoop_spec needed _ tracks (Nat.lt_succ_self _)

theorem Tracks.header (tracks : scanner.Tracks rest)
    (long : entryHeaderSize ≤ scanner.window.length) :
    entryHeaderSize ≤ rest.length ∧ zeroMagic scanner.window = zeroMagic rest ∧
      rawSequence scanner.window = rawSequence rest ∧ rawTotal scanner.window = rawTotal rest := by
  simp only [entryHeaderSize] at long ⊢
  rw [← tracks.bytes, List.length_append]
  refine ⟨by omega, (JournalReader.zeroMagic_append _ (by omega)).symm, ?_, ?_⟩
  · rw [rawSequence, rawSequence, slice_append_left (by omega)]
  · rw [rawTotal, rawTotal, slice_append_left (by omega)]

theorem Tracks.advance (tracks : scanner.Tracks rest) {total : Nat}
    (inside : total ≤ scanner.window.length) :
    Tracks { scanner with pos := scanner.pos + total } (rest.drop total) := by
  refine ⟨?_, tracks.fits, ?_⟩
  · rw [← tracks.bytes, List.drop_append_of_le_length inside]
    simp [window, List.drop_drop]
  · rw [List.length_drop]
    exact (Nat.sub_le ..).trans tracks.inside

structure Took (scanner after : RawJournalScanner) (rest : Bytes) (batch : List RawEntry) :
    Prop where
  content : after.file.content = scanner.file.content
  tracks : after.Tracks (rest.drop (rawBytes batch).length)
  left : rawEntries (rest.drop (rawBytes batch).length) = (rawEntries rest).drop batch.length

theorem Took.none {after : RawJournalScanner} (tracks : after.Tracks rest)
    (content : after.file.content = scanner.file.content) : Took scanner after rest [] :=
  ⟨content, by simpa [rawBytes] using tracks, by simp [rawBytes]⟩

theorem Took.cons {scanner between after : RawJournalScanner} {rest : Bytes} {entry : RawEntry}
    {batch : List RawEntry} (found : rawHead rest = some entry)
    (took : Took between after (rest.drop entry.raw.length) batch)
    (content : between.file.content = scanner.file.content) :
    Took scanner after rest (entry :: batch) := by
  have bytes : rest.drop (rawBytes (entry :: batch)).length
      = (rest.drop entry.raw.length).drop (rawBytes batch).length := by
    rw [List.drop_drop, rawBytes, List.flatMap_cons, List.length_append]
    rfl
  refine ⟨took.content.trans content, ?_, ?_⟩
  · rw [bytes]
    exact took.tracks
  · rw [bytes, took.left, rawEntries_some found]
    rfl

theorem Tracks.peek (tracks : scanner.Tracks rest) :
    ∃ after, scanner.ensureAvailable entryHeaderSize = after ∧ after.Tracks rest ∧
      after.file.content = scanner.file.content ∧
      (after.window.length < entryHeaderSize ∧ rawHead rest = Option.none ∨
        ¬ after.window.length < entryHeaderSize ∧ zeroMagic after.window = zeroMagic rest ∧
          rawSequence after.window = rawSequence rest ∧ rawTotal after.window = rawTotal rest ∧
          entryHeaderSize ≤ rest.length) := by
  obtain ⟨headed, content, full⟩ := tracks.ensureAvailable entryHeaderSize
  refine ⟨_, rfl, headed, content, ?_⟩
  by_cases short : (scanner.ensureAvailable entryHeaderSize).window.length < entryHeaderSize
  · have whole := full.resolve_left (Nat.not_le.mpr short)
    exact .inl ⟨short, by rw [rawHead, if_pos (whole ▸ short)]⟩
  · obtain ⟨long, magicEq, sequenceEq, totalEq⟩ := headed.header (Nat.le_of_not_lt short)
    exact .inr ⟨short, magicEq, sequenceEq, totalEq, long⟩

theorem Tracks.take (tracks : scanner.Tracks rest) (long : entryHeaderSize ≤ rest.length)
    (nonzero : zeroMagic rest = false) :
    ∃ after, scanner.ensureAvailable (rawTotal rest) = after ∧ after.Tracks rest ∧
      after.file.content = scanner.file.content ∧
      (after.window.length < rawTotal rest ∧ rawHead rest = Option.none ∨
        ¬ after.window.length < rawTotal rest ∧
          rawHead rest = some { sequence := rawSequence rest, raw := rest.take (rawTotal rest) } ∧
          after.window.take (rawTotal rest) = rest.take (rawTotal rest) ∧
          Tracks { after with pos := after.pos + rawTotal rest }
            (rest.drop (rest.take (rawTotal rest)).length)) := by
  obtain ⟨filled, content, full⟩ := tracks.ensureAvailable (rawTotal rest)
  refine ⟨_, rfl, filled, content, ?_⟩
  generalize scanner.ensureAvailable (rawTotal rest) = after at filled content full
  by_cases short : after.window.length < rawTotal rest
  · have whole := full.resolve_left (Nat.not_le.mpr short)
    refine .inl ⟨short, ?_⟩
    rw [rawHead, if_neg (Nat.not_lt.mpr long), nonzero, if_neg Bool.false_ne_true,
      if_pos (whole ▸ short)]
  · have inside : rawTotal rest ≤ after.window.length := Nat.le_of_not_lt short
    have front : after.window.take (rawTotal rest) = rest.take (rawTotal rest) := by
      rw [← List.take_append_of_le_length inside, filled.bytes]
    have wide : rawTotal rest ≤ rest.length := by
      have width := congrArg List.length filled.bytes
      rw [List.length_append] at width
      omega
    refine .inr ⟨short, rawHead_eq_some.mpr ⟨⟨long, nonzero, wide⟩, rfl⟩, front, ?_⟩
    rw [List.length_take, min_eq_left wide]
    exact filled.advance inside

theorem readRawBatchLoop_spec (maxBytes : Nat) (stopAfter : Option Nat) (fuel : Nat)
    (tracks : scanner.Tracks rest) (enough : rest.length < fuel) (out : Bytes) (endSeq : Option Nat) :
    
    ∃ after batch, batchOf maxBytes stopAfter out.length endSeq.isSome (rawEntries rest) = batch ∧
      readRawBatchLoop maxBytes stopAfter fuel scanner out endSeq
        = (after, out ++ rawBytes batch, (batch.getLast?.map (·.sequence)).or endSeq) ∧
      Took scanner after rest batch := by
  induction fuel generalizing scanner rest out endSeq with
  | zero => omega
  | succ fuel ih =>
    obtain ⟨headed, headedEq, headedTracks, headedContent, peeked⟩ := tracks.peek
    -- A batch that takes nothing leaves everything.
    have stops : ∀ {other : RawJournalScanner}, other.Tracks rest →
        other.file.content = scanner.file.content →
        batchOf maxBytes stopAfter out.length endSeq.isSome (rawEntries rest) = [] →
        ∃ after batch, batchOf maxBytes stopAfter out.length endSeq.isSome (rawEntries rest) = batch ∧
          (other, out, endSeq)
            = (after, out ++ rawBytes batch, (batch.getLast?.map (·.sequence)).or endSeq) ∧
          Took scanner after rest batch :=
      fun otherTracks otherContent empty =>
        ⟨_, [], empty, by simp [rawBytes], .none otherTracks otherContent⟩
    have nothing : rawHead rest = none →
        batchOf maxBytes stopAfter out.length endSeq.isSome (rawEntries rest) = [] := by
      intro none
      rw [rawEntries_none none, batchOf]
    rw [readRawBatchLoop, headedEq]
    rcases peeked with ⟨short, noHead⟩ | ⟨header, magicEq, sequenceEq, totalEq, long⟩
    · simp only [if_pos short]
      exact stops headedTracks headedContent (nothing noHead)
    simp only [if_neg header, magicEq, sequenceEq, totalEq]
    cases zero : zeroMagic rest with
    | true => exact stops headedTracks headedContent (nothing (by simp [rawHead, zero]))
    | false =>
      simp only [Bool.false_eq_true, if_false]
      obtain ⟨filled, filledEq, filledTracks, filledContent, taken⟩ := headedTracks.take long zero
      rw [filledEq]
      have content : filled.file.content = scanner.file.content := filledContent.trans headedContent
      rcases taken with ⟨short, noHead⟩ | ⟨whole, head, front, behind⟩
      · -- Whatever stops the loop here, no entry is left.
        have empty := nothing noHead
        split_ifs
        · exact stops headedTracks headedContent empty
        · exact stops headedTracks headedContent empty
        · exact stops filledTracks content empty
      · have width : (rest.take (rawTotal rest)).length = rawTotal rest := by
          have wide := (rawHead_eq_some.mp head).1.2.2
          rw [List.length_take, min_eq_left wide]
        have unfolded := rawEntries_some head
        simp only [if_neg whole, front]
        by_cases past : stopAfter.any (rawSequence rest > ·)
        · simp only [if_pos past]
          exact stops headedTracks headedContent (by rw [unfolded, batchOf, if_pos past])
        simp only [if_neg past]
        by_cases full : endSeq.isSome ∧ out.length + rawTotal rest > maxBytes
        · simp only [if_pos full]
          exact stops headedTracks headedContent (by
            rw [unfolded, batchOf, if_neg past, width, if_pos full])
        simp only [if_neg full]
        have shrinks := rawHead_shrinks head
        obtain ⟨after, batch, batchEq, run, took⟩ := ih behind (by simp only at shrinks; omega)
          (out ++ rest.take (rawTotal rest)) (some (rawSequence rest))
        refine ⟨after, _ :: batch, ?_, ?_, Took.cons head took content⟩
        · rw [unfolded, batchOf, if_neg past, width, if_neg full, ← batchEq, List.length_append, width]
          rfl
        · rw [run]
          simp only [rawBytes, List.flatMap_cons, List.append_assoc]
          cases last : batch.getLast? <;> simp [List.getLast?_cons, last]

theorem Tracks.readRawBatchInner (tracks : scanner.Tracks rest) (maxBytes : Nat)
    (stopAfter : Option Nat) :
    ∃ after batch, batchOf maxBytes stopAfter 0 false (rawEntries rest) = batch ∧
      scanner.readRawBatchInner maxBytes stopAfter
        = (after, rawBytes batch, batch.getLast?.map (·.sequence)) ∧
      Took scanner after rest batch := by
  obtain ⟨after, batch, batchEq, run, took⟩ := readRawBatchLoop_spec maxBytes stopAfter
    (scanner.file.content.length + 1) tracks (Nat.lt_succ_of_le tracks.inside) [] none
  rw [Option.or_none, List.nil_append] at run
  exact ⟨after, batch, batchEq, run, took⟩

section

variable [Hashing]

theorem openSegment_spec (content : Bytes) (grants : Nat → Nat) :
    match segmentHeader content with
    | .error err => openSegment content grants = .error err
    | .ok info => ∃ scanner, openSegment content grants = .ok scanner ∧
        scanner.Tracks (content.drop info.sectorSize) ∧ scanner.file.content = content := by
  simp only [segmentHeader, openSegment]
  split_ifs with short
  · rfl
  · cases header : decodeFileHeader (content.take fileHeaderSize) with
    | error err => rfl
    | ok info =>
      exact ⟨_, rfl, ⟨rfl, Nat.zero_le _, by rw [List.length_drop]; exact Nat.sub_le ..⟩, rfl⟩

end

end RawJournalScanner

section

variable {E : Type} [AppEvent E] [Hashing]

theorem rawHead_of_decode {bytes : Bytes} {decoded : DecodedEntry E}
    (decodes : decode bytes = .ok decoded) :
    rawHead bytes = some { sequence := decoded.entry.sequence, raw := bytes.take decoded.consumed } := by
  have held := decode_eq_ok decodes
  have total : rawTotal bytes = decoded.consumed := held.consumed.symm
  have inside := held.inside
  have framing := held.framing_le
  refine rawHead_eq_some.mpr ⟨⟨?_, zeroMagic_of_magic held.magic, total ▸ inside⟩, ?_⟩
  · simp only [entryFramingSize] at framing
    omega
  · rw [total, held.sequence, rawSequence]

def WrittenEntry.rawEntry (written : WrittenEntry E) : RawEntry :=
  { sequence := written.entry.sequence, raw := written.bytes }

theorem rawEntries_written [LawfulAppEvent E] (entries : List (WrittenEntry E)) (rest : Bytes) :
    rawEntries (bytesOf entries ++ rest) = entries.map (·.rawEntry) ++ rawEntries rest := by
  induction entries with
  | nil => rfl
  | cons written entries ih =>
    have head : rawHead (bytesOf (written :: entries) ++ rest) = some written.rawEntry := by
      rw [bytesOf, List.flatMap_cons, List.append_assoc,
        rawHead_of_decode (decode_encode LawfulAppEvent.decode_encode written.inRange
          written.encoded _), List.take_left]
      rfl
    rw [rawEntries_some head, List.map_cons, List.cons_append, ← ih]
    congr 2
    rw [bytesOf, List.flatMap_cons, List.append_assoc]
    exact List.drop_left

omit [AppEvent E] [Hashing] in
theorem prefixLoop_spec {seq fuel : Nat} {scanner : RawJournalScanner} {rest : Bytes}
    (tracks : scanner.Tracks rest) {front back : List RawEntry} {entry : RawEntry}
    (entries : rawEntries rest = front ++ entry :: back) (early : ∀ other ∈ front, other.sequence < seq)
    (here : entry.sequence = seq) (late : ∀ other ∈ back.head?, seq < other.sequence)
    (enough : front.length < fuel) (out : Bytes) :
    prefixLoop seq fuel scanner out = some (out ++ rawBytes (front ++ [entry])) := by
  induction fuel generalizing scanner rest front out with
  | zero => omega
  | succ fuel ih =>
    obtain ⟨after, batch, batchEq, run, took⟩ := tracks.readRawBatchInner (2 ^ 20) (some seq)
    rw [entries] at batchEq
    have notPast : ∀ other ∈ batch, other.sequence ≤ seq :=
      fun other member => le_of_mem_batchOf (batchEq ▸ member)
    have nonempty : batch ≠ [] := by
      rw [← batchEq]
      cases front with
      | nil => simp [batchOf, here]
      | cons first front => simp [batchOf, (early first (by simp)).le]
    obtain ⟨others, split⟩ : ∃ others, front ++ entry :: back = batch ++ others := by
      obtain ⟨others, split⟩ := batchOf_isPrefix (2 ^ 20) (some seq) 0 false (front ++ entry :: back)
      exact ⟨others, by rw [← split, batchEq]⟩
    -- A batch that ends before the entry is appended, and the loop goes on behind it.
    have goesOn : ∀ later, front = batch ++ later →
        prefixLoop seq (fuel + 1) scanner out = some (out ++ rawBytes (front ++ [entry])) := by
      intro later frontEq
      obtain ⟨before, last, batchLast⟩ := List.eq_nil_or_concat' batch |>.resolve_left nonempty
      have lastEarly : last.sequence ≠ seq :=
        (early last (by rw [frontEq, batchLast]; simp)).ne
      have left := took.left
      rw [entries, frontEq, List.append_assoc, List.drop_left] at left
      have shorter : later.length < fuel := by
        have width := congrArg List.length frontEq
        rw [List.length_append] at width
        have := List.length_pos_iff.mpr nonempty
        omega
      have rest := ih took.tracks left (fun other member => early other (by simp [frontEq, member]))
        shorter (out ++ rawBytes batch)
      rw [prefixLoop, RawJournalScanner.readRawBatchUntil, run]
      simp only [batchLast, List.getLast?_append, List.getLast?_singleton, Option.some_or,
        Option.map_some, if_neg lastEarly]
      rw [← batchLast, rest, frontEq]
      simp [rawBytes]
    rcases List.append_eq_append_iff.mp split with ⟨more, batchIs, behind⟩ | ⟨later, frontEq, -⟩
    · cases more with
      | nil => exact goesOn [] (by simpa using batchIs.symm)
      | cons first more =>
        obtain ⟨rfl, backEq⟩ := List.cons.inj behind
        -- Nothing behind the entry is in the batch, so the entry is its last.
        have noMore : more = [] := by
          cases more with
          | nil => rfl
          | cons other more =>
            have past := late other (by simp [backEq])
            have within := notPast other (by simp [batchIs])
            omega
        subst noMore
        rw [prefixLoop, RawJournalScanner.readRawBatchUntil, run]
        simp [batchIs, here]
    · exact goesOn later frontEq

omit [AppEvent E] [Hashing] in
theorem prefixLoop_eq_none {seq : Nat} (fuel : Nat) {scanner : RawJournalScanner} {rest : Bytes}
    (tracks : scanner.Tracks rest) (absent : ∀ entry ∈ rawEntries rest, entry.sequence ≠ seq)
    (out : Bytes) : prefixLoop seq fuel scanner out = none := by
  induction fuel generalizing scanner rest out with
  | zero => rfl
  | succ fuel ih =>
    obtain ⟨after, batch, batchEq, run, took⟩ := tracks.readRawBatchInner (2 ^ 20) (some seq)
    rw [prefixLoop, RawJournalScanner.readRawBatchUntil, run]
    cases last : batch.getLast? with
    | none => rfl
    | some entry =>
      -- The batch ends with an entry of another sequence, and so does everything behind it.
      have inBatch : entry ∈ batchOf (2 ^ 20) (some seq) 0 false (rawEntries rest) :=
        batchEq ▸ List.mem_of_getLast? last
      have other := absent entry ((batchOf_isPrefix ..).subset inBatch)
      simp only [Option.map_some, if_neg other]
      refine ih took.tracks (fun later member => absent later ?_) _
      rw [took.left] at member
      exact List.mem_of_mem_drop member

omit [AppEvent E] in
theorem chainValueLoop_eq (seq fuel : Nat) (scanner : RawJournalScanner) {chain before : SegmentChain}
    {out : Bytes} (behind : ∀ buf, before.absorb buf = chain.absorb (out ++ buf)) :
    chainValueLoop seq fuel scanner before
      = match prefixLoop seq fuel scanner out with
        | some bytes => .value (chain.absorb bytes).value
        | none => .beyondTip := by
  induction fuel generalizing scanner before out with
  | zero => rfl
  | succ fuel ih =>
    rw [chainValueLoop, prefixLoop]
    split
    · rename_i after buf last read
      split
      · rw [behind]
      · exact ih after fun more => by
          rw [SegmentChain.absorb_append, behind, List.append_assoc]
    · rfl

theorem length_le_bytesOf (entries : List (WrittenEntry E)) :
    entries.length ≤ (bytesOf entries).length := by
  induction entries with
  | nil => exact Nat.zero_le _
  | cons written entries ih =>
    have framing := written.framing_le
    simp only [entryFramingSize, entryHeaderSize] at framing
    simp only [bytesOf, List.flatMap_cons, List.length_append, List.length_cons] at ih ⊢
    omega

theorem WrittenSegment.sequence_bounds {written : WrittenSegment E}
    {front back : List (WrittenEntry E)} {entry : WrittenEntry E}
    (split : written.entries = front ++ entry :: back) :
    (∀ other ∈ front, other.entry.sequence < entry.entry.sequence) ∧
      ∀ other ∈ back, entry.entry.sequence < other.entry.sequence := by
  have consecutive := written.consecutive
  rw [sequencesOf, split, List.map_append, consecutive_append, List.map_cons, consecutive_cons,
    List.length_map] at consecutive
  obtain ⟨frontCount, entryIs, backCount⟩ := consecutive
  refine ⟨fun other member => ?_, fun other member => ?_⟩
  · have bounds := frontCount.mem_bounds (List.mem_map_of_mem member)
    rw [List.length_map] at bounds
    omega
  · have bounds := backCount.mem_bounds (List.mem_map_of_mem member)
    omega

theorem chainValueAt_written [LawfulAppEvent E] (written : WrittenSegment E)
    {front back : List (WrittenEntry E)} {entry : WrittenEntry E}
    (split : written.entries = front ++ entry :: back) (zeros : Nat) (grants : Nat → Nat) :
    chainValueAt (written.bytes ++ List.replicate zeros 0) grants entry.entry.sequence
      = .ok (.value ((SegmentChain.new written.anchorHash).absorb
          (bytesOf (front ++ [entry]))).value) := by
  have header := (written.readsFrom zeros .live .live).1
  have opened := RawJournalScanner.openSegment_spec (written.bytes ++ List.replicate zeros 0) grants
  rw [header] at opened
  obtain ⟨scanner, openEq, tracks, -⟩ := opened
  have behind : (written.bytes ++ List.replicate zeros 0).drop written.segment.info.sectorSize
      = bytesOf written.entries ++ List.replicate zeros 0 := written.drop_header _
  have entries : rawEntries ((written.bytes ++ List.replicate zeros 0).drop
      written.segment.info.sectorSize)
        = front.map (·.rawEntry) ++ entry.rawEntry :: back.map (·.rawEntry) := by
    rw [behind, rawEntries_written, rawEntries_zeros, List.append_nil, split, List.map_append,
      List.map_cons]
  obtain ⟨early, late⟩ := WrittenSegment.sequence_bounds split
  have inside : (front.map (·.rawEntry)).length
      < (written.bytes ++ List.replicate zeros 0).length + 1 := by
    have count := length_le_bytesOf written.entries
    simp only [split, List.length_append, List.length_cons] at count
    simp only [List.length_map, List.length_append, WrittenSegment.bytes, split]
    omega
  have taken := prefixLoop_spec tracks entries (by simpa [WrittenEntry.rawEntry] using early) rfl
    (fun other isFirst => by
      rw [List.head?_map] at isFirst
      obtain ⟨written, isHead, rfl⟩ := Option.map_eq_some_iff.mp isFirst
      exact late written (List.mem_of_mem_head? isHead)) inside []
  have nothing : ∀ buf, (SegmentChain.new written.anchorHash).absorb buf
      = (SegmentChain.new written.anchorHash).absorb ([] ++ buf) := fun _ => rfl
  have value := chainValueLoop_eq entry.rawEntry.sequence
    ((written.bytes ++ List.replicate zeros 0).length + 1) scanner nothing
  rw [taken] at value
  have bytes : rawBytes (front.map (·.rawEntry) ++ [entry.rawEntry]) = bytesOf (front ++ [entry]) := by
    simp [rawBytes, bytesOf, List.flatMap_map, WrittenEntry.rawEntry]
  rw [List.nil_append, bytes] at value
  have header' : readHeaderInfo (written.bytes ++ List.replicate zeros 0) = .ok written.segment.info :=
    header
  rw [chainValueAt, header', openEq]
  exact congrArg (fun found => Except.ok found) value

end

end Melin
