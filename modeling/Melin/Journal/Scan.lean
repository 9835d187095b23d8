import Melin.Journal.CodecLaws
import Melin.Journal.Reader

/-! What a segment holds, read off its bytes at once: the reader's meaning without its buffer. -/

namespace Melin

open Lib

structure Record (E : Type) where
  entry : JournalEntry E
  raw : Bytes

structure Place where
  content : Bytes
  kind : SegmentKind
  path : SegmentPath
  startingSequence : Nat
  lastSequence : Option Nat
  offset : Nat
  chain : SegmentChain

def Place.rest (place : Place) : Bytes := place.content.drop place.offset

def Place.advance {E : Type} (place : Place) (record : Record E) : Place :=
  { place with
    lastSequence := some record.entry.sequence
    offset := place.offset + record.raw.length
    chain := place.chain.absorb record.raw }

def Place.advanceAll {E : Type} (place : Place) (records : List (Record E)) : Place :=
  records.foldl Place.advance place

/-- What the bytes at a place show to be there. -/
inductive Head (E : Type) where
  | entry (decoded : DecodedEntry E)
  | stop (cause : Option JournalError)
  | corrupt (err : JournalError)

inductive Next (E : Type) where
  | record (record : Record E)
  | stop (tornTail : Option TornTail)
  | fail (err : JournalError)

/-- Decide from everything behind a stop whether it is the end of the segment. -/
def Place.verdict (place : Place) (cause : Option JournalError) :
    Except JournalError (Option TornTail) :=
  let reach := JournalReader.unsyncedReach place.kind
  match firstNonzero (place.rest.drop reach) with
  | some index =>
    .error (.unrecoverableTail place.path place.offset place.lastSequence
      (place.offset + (reach + index)) cause)
  | none =>
    .ok ((lastNonzero (place.rest.take reach)).map fun index =>
      { offset := place.offset, len := index + 1 })

def startPlace (content : Bytes) (path : SegmentPath) (kind : SegmentKind) (info : FileHeaderInfo) :
    Place :=
  { content, kind, path, startingSequence := info.startingSequence, lastSequence := none,
    offset := info.sectorSize, chain := .new info.anchorHash }

section

variable {E : Type} [AppEvent E] [Hashing]

def segmentHeader (content : Bytes) : Except JournalError FileHeaderInfo :=
  if content.length < fileHeaderSize then
    .error (.io .unexpectedEof "failed to fill whole buffer")
  else decodeFileHeader (content.take fileHeaderSize)

theorem segmentHeader_eq_ok {content : Bytes} {info : FileHeaderInfo} :
    segmentHeader content = .ok info ↔ fileHeaderSize ≤ content.length ∧
      decodeFileHeader (content.take fileHeaderSize) = .ok info := by
  rw [segmentHeader]
  split
  · rename_i short
    simp [Nat.not_le.mpr short]
  · rename_i long
    simp [Nat.le_of_not_lt long]

def headOf (bytes : Bytes) : Head E :=
  if bytes = [] then .stop none
  else if zeroMagic bytes then .stop none
  else
    match decode bytes with
    | .ok decoded => .entry decoded
    | .error err => if isTornShape bytes err then .stop (some err) else .corrupt err

def Place.next (place : Place) : Next E :=
  match headOf place.rest with
  | .entry decoded =>
    match JournalReader.checkSequence place.startingSequence place.lastSequence
        decoded.entry.sequence with
    | .error err => .fail err
    | .ok () => .record { entry := decoded.entry, raw := place.rest.take decoded.consumed }
  | .stop cause =>
    match place.verdict cause with
    | .error err => .fail err
    | .ok tornTail => .stop tornTail
  | .corrupt err => .fail err

theorem headOf_entry {bytes : Bytes} {decoded : DecodedEntry E}
    (found : headOf bytes = .entry decoded) : decode bytes = .ok decoded := by
  simp only [headOf] at found
  split_ifs at found
  split at found
  · rename_i result decodes
    simp only [Head.entry.injEq] at found
    rw [decodes, found]
  · split_ifs at found

variable {place : Place} {record : Record E}

theorem Place.next_record (found : place.next = .record record) :
    decode place.rest = .ok { consumed := record.raw.length, entry := record.entry } ∧
      record.raw = place.rest.take record.raw.length ∧
      JournalReader.checkSequence place.startingSequence place.lastSequence
        record.entry.sequence = .ok () := by
  simp only [next] at found
  split at found
  · rename_i decoded head
    split at found
    · simp at found
    · rename_i continues
      simp only [Next.record.injEq] at found
      subst found
      have decodes := headOf_entry head
      have width : (place.rest.take decoded.consumed).length = decoded.consumed := by
        have inside := (decode_eq_ok decodes).inside
        simp only [List.length_take]
        omega
      simp only [width]
      exact ⟨decodes, trivial, continues⟩
  · split at found <;> simp at found
  · simp at found

theorem Place.rest_advance_lt (found : place.next = .record record) :
    (place.advance record).rest.length < place.rest.length := by
  obtain ⟨decodes, -, -⟩ := next_record found
  have held := decode_eq_ok decodes
  have framing := held.framing_le
  have inside := held.inside
  simp only [rest, advance, List.length_drop, entryFramingSize, entryHeaderSize] at *
  omega

def Place.scan (place : Place) : List (Record E) × Except JournalError (Option TornTail) :=
  match _found : place.next (E := E) with
  | .record record =>
    let (records, verdict) := (place.advance record).scan
    (record :: records, verdict)
  | .stop tornTail => ([], .ok tornTail)
  | .fail err => ([], .error err)
termination_by place.rest.length
decreasing_by exact rest_advance_lt _found

theorem Place.scan_record (found : place.next = .record record) :
    place.scan = (record :: ((place.advance record).scan (E := E)).1,
      ((place.advance record).scan (E := E)).2) := by
  rw [scan]
  split <;> rename_i next <;> rw [found] at next <;> simp_all

theorem Place.scan_stop {tornTail : Option TornTail} (found : place.next (E := E) = .stop tornTail) :
    place.scan (E := E) = ([], .ok tornTail) := by
  rw [scan]
  split <;> rename_i next <;> rw [found] at next <;> simp_all

theorem Place.scan_fail {err : JournalError} (found : place.next (E := E) = .fail err) :
    place.scan (E := E) = ([], .error err) := by
  rw [scan]
  split <;> rename_i next <;> rw [found] at next <;> simp_all

def visitRecords {σ ε : Type} (body : SegmentChain → JournalEntry E → σ → σ × Except ε Unit) :
    SegmentChain → List (Record E) → σ → σ × Except ε Unit
  | _, [], state => (state, .ok ())
  | chain, record :: records, state =>
    match body (chain.absorb record.raw) record.entry state with
    | (state, .error err) => (state, .error err)
    | (state, .ok ()) => visitRecords body (chain.absorb record.raw) records state

end

def Place.segmentEnd (place : Place) (tornTail : Option TornTail) : SegmentEnd :=
  { lastSequence := place.lastSequence, validFileEnd := place.offset, chain := place.chain,
    tornTail }

def Place.visit {E σ ε : Type} [AppEvent E] [Hashing] (place : Place) (lift : JournalError → ε)
    (body : SegmentChain → JournalEntry E → σ → σ × Except ε Unit) (state : σ) :
    σ × Except ε SegmentEnd :=
  match visitRecords body place.chain (place.scan (E := E)).1 state with
  | (state, .error err) => (state, .error err)
  | (state, .ok ()) =>
    match (place.scan (E := E)).2 with
    | .error err => (state, .error (lift err))
    | .ok tornTail =>
      (state, .ok ((place.advanceAll (place.scan (E := E)).1).segmentEnd tornTail))

theorem Place.visit_ok {E σ ε : Type} [AppEvent E] [Hashing] {place : Place}
    (lift : JournalError → ε) {body : SegmentChain → JournalEntry E → σ → σ × Except ε Unit}
    {state after : σ} {records : List (Record E)} {tornTail : Option TornTail}
    (scanned : place.scan = (records, .ok tornTail))
    (visited : visitRecords body place.chain records state = (after, .ok ())) :
    place.visit lift body state
      = (after, .ok ((place.advanceAll records).segmentEnd tornTail)) := by
  simp only [visit, scanned, visited]

theorem Place.visit_eq {E σ ε : Type} [AppEvent E] [Hashing] (place : Place)
    (lift : JournalError → ε) (body : SegmentChain → JournalEntry E → σ → σ × Except ε Unit)
    (state : σ) :
    place.visit lift body state =
      match place.next (E := E) with
      | .record record =>
        match body (place.chain.absorb record.raw) record.entry state with
        | (state, .error err) => (state, .error err)
        | (state, .ok ()) => (place.advance record).visit lift body state
      | .stop tornTail => (state, .ok (place.segmentEnd tornTail))
      | .fail err => (state, .error (lift err)) := by
  cases next : place.next (E := E) with
  | record record =>
    simp only [visit, scan_record next, visitRecords, advanceAll, List.foldl_cons]
    -- The consumer sees the record first, and either stops there or goes on.
    generalize body (place.chain.absorb record.raw) record.entry state = handled
    obtain ⟨after, result⟩ := handled
    cases result <;> rfl
  | stop tornTail => simp [visit, scan_stop next, visitRecords, advanceAll]
  | fail err => simp [visit, scan_fail next, visitRecords]

end Melin
