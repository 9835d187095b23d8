import Melin.Journal.ReaderLaws
import Melin.Journal.Written

/-! A segment as it reads back: its header and its records, and how segments link up. -/

namespace Melin

open Lib

theorem Place.scan_consecutive {E : Type} [AppEvent E] [Hashing] (place : Place) :
    Consecutive (expectedSequence place.startingSequence place.lastSequence)
      ((place.scan (E := E)).1.map (·.entry.sequence)) := by
  induction place using Place.scan.induct (E := E) with
  | case1 place record found records verdict scanned ih =>
    -- The record carries the expected sequence, and the next one is expected behind it.
    have continues := checkSequence_eq_ok.mp (Place.next_record found).2.2
    rw [Place.scan_record found]
    simp only [List.map_cons, consecutive_cons]
    refine ⟨continues, ?_⟩
    rw [← continues]
    exact ih
  | case2 place tornTail found =>
    rw [Place.scan_stop found]
    rfl
  | case3 place err found =>
    rw [Place.scan_fail found]
    rfl

theorem Place.scan_sequence_lt {E : Type} [AppEvent E] [Hashing] (place : Place) :
    ∀ record ∈ (place.scan (E := E)).1, record.entry.sequence < 2 ^ 64 := by
  induction place using Place.scan.induct (E := E) with
  | case1 place record found records verdict scanned ih =>
    rw [Place.scan_record found]
    rintro other (_ | ⟨_, later⟩)
    · exact (decode_eq_ok (Place.next_record found).1).sequence_lt
    · exact ih other later
  | case2 place tornTail found => simp [Place.scan_stop found]
  | case3 place err found => simp [Place.scan_fail found]

theorem Place.scan_raw_prefix {E : Type} [AppEvent E] [Hashing] (place : Place) :
    (place.scan (E := E)).1.flatMap (·.raw) <+: place.rest := by
  induction place using Place.scan.induct (E := E) with
  | case1 place record found records verdict scanned ih =>
    have raw := (Place.next_record found).2.1
    have rest : place.rest = record.raw ++ (place.advance record).rest := by
      rw [Place.advance, Place.rest, Place.rest, ← List.drop_drop]
      change place.rest = record.raw ++ place.rest.drop record.raw.length
      conv_lhs => rw [← List.take_append_drop record.raw.length place.rest, ← raw]
    rw [Place.scan_record found, List.flatMap_cons, rest]
    exact (List.prefix_append_right_inj _).mpr ih
  | case2 place tornTail found => simp [Place.scan_stop found]
  | case3 place err found => simp [Place.scan_fail found]

theorem Place.next_record_congr {E : Type} [AppEvent E] [Hashing] {place : Place}
    {record : Record E} (found : place.next = .record record) (kind : SegmentKind)
    (path : SegmentPath) : Place.next { place with kind, path } = .record record := by
  obtain ⟨decodes, raw, continues⟩ := Place.next_record found
  have head : headOf place.rest
      = .entry { consumed := record.raw.length, entry := record.entry } := by
    unfold Place.next at found
    split at found
    · rename_i decoded head
      rw [head, Head.entry.injEq]
      exact Except.ok.inj ((headOf_entry head).symm.trans decodes)
    · split at found <;> simp at found
    · simp at found
  have sameRest : Place.rest { place with kind, path } = place.rest := rfl
  simp only [Place.next, sameRest, head, continues, ← raw]

theorem Place.scan_records_congr {E : Type} [AppEvent E] [Hashing] (place : Place)
    (kind : SegmentKind) (path : SegmentPath) :
    (Place.scan (E := E) { place with kind, path }).1 = (place.scan (E := E)).1 := by
  induction place using Place.scan.induct (E := E) with
  | case1 place record found records verdict scanned ih =>
    rw [Place.scan_record found, Place.scan_record (Place.next_record_congr found kind path)]
    exact congrArg (record :: ·) ih
  | case2 place tornTail found =>
    rw [Place.scan_stop found]
    cases other : Place.next (E := E) { place with kind, path } with
    | record record =>
      -- A record there would be one here.
      have here := Place.next_record_congr other place.kind place.path
      rw [show ({ place with kind := place.kind, path := place.path } : Place) = place from rfl,
        found] at here
      simp at here
    | stop tornTail => rw [Place.scan_stop other]
    | fail err => rw [Place.scan_fail other]
  | case3 place err found =>
    rw [Place.scan_fail found]
    cases other : Place.next (E := E) { place with kind, path } with
    | record record =>
      have here := Place.next_record_congr other place.kind place.path
      rw [show ({ place with kind := place.kind, path := place.path } : Place) = place from rfl,
        found] at here
      simp at here
    | stop tornTail => rw [Place.scan_stop other]
    | fail err => rw [Place.scan_fail other]

structure Segment (E : Type) where
  info : FileHeaderInfo
  records : List (Record E)
  consecutive : Consecutive info.startingSequence (records.map (·.entry.sequence))
  inRange : ∀ record ∈ records, record.entry.sequence < 2 ^ 64

namespace Segment

variable {E : Type}

def entries (segment : Segment E) : List (JournalEntry E) := segment.records.map (·.entry)

def next (segment : Segment E) : Nat := segment.info.startingSequence + segment.records.length

def chainAfter (segment : Segment E) (count : Nat) : SegmentChain :=
  (segment.records.take count).foldl (fun chain record => chain.absorb record.raw)
    (.new segment.info.anchorHash)

def tail [Hashing] (segment : Segment E) : Digest :=
  (segment.chainAfter segment.records.length).value

/-- A segment's header carries on where the one before it ended. -/
structure Links [Hashing] (before after : Segment E) : Prop where
  start : after.info.startingSequence = before.next
  anchor : after.info.anchorHash = before.tail
  genesis : after.info.genesisEntries = before.info.genesisEntries

def ReadsFrom [AppEvent E] [Hashing] (segment : Segment E) (content : Bytes) (path : SegmentPath)
    (kind : SegmentKind) : Prop :=
  segmentHeader content = .ok segment.info ∧
    ∃ tornTail, (startPlace content path kind segment.info).scan = (segment.records, .ok tornTail)

theorem exists_readsFrom [AppEvent E] [Hashing] {content : Bytes} {path : SegmentPath}
    {kind : SegmentKind} {info : FileHeaderInfo} {records : List (Record E)}
    {tornTail : Option TornTail} (header : segmentHeader content = .ok info)
    (scanned : (startPlace content path kind info).scan = (records, .ok tornTail)) :
    ∃ segment : Segment E, segment.info = info ∧ segment.records = records ∧
      segment.ReadsFrom content path kind := by
  have consecutive := Place.scan_consecutive (E := E) (startPlace content path kind info)
  have inRange := Place.scan_sequence_lt (E := E) (startPlace content path kind info)
  rw [scanned] at consecutive inRange
  exact ⟨⟨info, records, consecutive, inRange⟩, rfl, rfl, header, tornTail, scanned⟩

def endPlace (segment : Segment E) (content : Bytes) (path : SegmentPath) (kind : SegmentKind) :
    Place :=
  (startPlace content path kind segment.info).advanceAll segment.records

theorem endPlace_chain (segment : Segment E) (content : Bytes) (path : SegmentPath)
    (kind : SegmentKind) :
    (segment.endPlace content path kind).chain = segment.chainAfter segment.records.length := by
  have absorbed : ∀ (records : List (Record E)) (place : Place),
      (place.advanceAll records).chain
        = records.foldl (fun chain record => chain.absorb record.raw) place.chain := by
    intro records
    induction records with
    | nil => intro place; rfl
    | cons record records ih => intro place; exact ih (place.advance record)
  rw [endPlace, absorbed, chainAfter, List.take_length]
  rfl

theorem endPlace_offset (segment : Segment E) (content : Bytes) (path : SegmentPath)
    (kind : SegmentKind) :
    (segment.endPlace content path kind).offset
      = segment.info.sectorSize + (segment.records.flatMap (·.raw)).length := by
  have moved : ∀ (records : List (Record E)) (place : Place),
      (place.advanceAll records).offset = place.offset + (records.flatMap (·.raw)).length := by
    intro records
    induction records with
    | nil => intro place; simp [Place.advanceAll]
    | cons record records ih =>
      intro place
      have later := ih (place.advance record)
      simp only [Place.advanceAll, Place.advance, List.foldl_cons, List.flatMap_cons,
        List.length_append] at later ⊢
      omega
  exact moved segment.records _

theorem expectedSequence_endPlace (segment : Segment E) (content : Bytes) (path : SegmentPath)
    (kind : SegmentKind) :
    expectedSequence segment.info.startingSequence (segment.endPlace content path kind).lastSequence
      = segment.next := by
  have moved := Place.expectedSequence_advanceAll (startPlace content path kind segment.info)
    segment.records segment.consecutive
  rw [(Place.advanceAll_segment _ _).2] at moved
  exact moved

theorem nextStart_endPlace (segment : Segment E) (content : Bytes) (path : SegmentPath)
    (kind : SegmentKind) (tornTail : Option TornTail) :
    nextStart segment.info ((segment.endPlace content path kind).segmentEnd tornTail)
      = segment.next := by
  rw [← segment.expectedSequence_endPlace content path kind]
  simp only [nextStart, Place.segmentEnd]
  cases (segment.endPlace content path kind).lastSequence <;> rfl

theorem lastSequence_endPlace (segment : Segment E) (content : Bytes) (path : SegmentPath)
    (kind : SegmentKind) :
    (segment.endPlace content path kind).lastSequence
      = if segment.records = [] then none else some (segment.next - 1) := by
  have counted := segment.expectedSequence_endPlace content path kind
  split
  · rename_i empty
    simp [endPlace, empty, Place.advanceAll, startPlace]
  · rename_i nonempty
    -- The last record set it, and it is one before the sequence that comes next.
    have isSome : ∀ (records : List (Record E)) (place : Place), records ≠ [] →
        ∃ last, (place.advanceAll records).lastSequence = some last := by
      intro records
      induction records with
      | nil => intro _ absurdly; exact absurd rfl absurdly
      | cons record records ih =>
        intro place _
        by_cases more : records = []
        · subst more
          exact ⟨_, rfl⟩
        · exact ih (place.advance record) more
    obtain ⟨last, isLast⟩ := isSome segment.records (startPlace content path kind segment.info)
      nonempty
    have lastEq : (segment.endPlace content path kind).lastSequence = some last := isLast
    rw [lastEq] at counted ⊢
    simp only [expectedSequence] at counted
    rw [← counted]
    rfl

variable [Hashing]

theorem value_chainAfter_zero (segment : Segment E) :
    (segment.chainAfter 0).value = segment.info.anchorHash := rfl

theorem endPlace_chain_value (segment : Segment E) (content : Bytes) (path : SegmentPath)
    (kind : SegmentKind) : (segment.endPlace content path kind).chain.value = segment.tail := by
  rw [endPlace_chain, tail]

/-- Segments in the order of their sequences: an equal boundary has an equal chain value. -/
def Precedes (before after : Segment E) : Prop :=
  before.next ≤ after.info.startingSequence ∧
    (before.next = after.info.startingSequence → after.info.anchorHash = before.tail)

theorem Links.precedes {before after : Segment E} (links : before.Links after) :
    before.Precedes after :=
  ⟨links.start.ge, fun _ => links.anchor⟩

theorem Precedes.trans {first second third : Segment E} (front : first.Precedes second)
    (back : second.Precedes third) : first.Precedes third := by
  have forward : second.info.startingSequence ≤ second.next := Nat.le_add_right _ _
  refine ⟨by have := front.1; have := back.1; omega, fun meet => ?_⟩
  have low := front.1
  have high := back.1
  -- Nothing lies between the two ends, so the middle segment has no records.
  have empty : second.records = [] := by
    have shut : second.next = second.info.startingSequence := by omega
    simpa [next] using shut
  have through : second.tail = second.info.anchorHash := by
    rw [tail, empty, List.length_nil, value_chainAfter_zero]
  rw [back.2 (by omega), through, front.2 (by omega)]

instance : Trans (Precedes (E := E)) Precedes Precedes := ⟨Precedes.trans⟩

def Covers (segment : Segment E) (position : Nat) : Prop :=
  segment.info.startingSequence ≤ position + 1 ∧ position + 1 ≤ segment.next

def valueAt (segment : Segment E) (position : Nat) : Digest :=
  (segment.chainAfter (position + 1 - segment.info.startingSequence)).value

variable {position : Nat}

theorem exists_record {segment : Segment E} (covers : segment.Covers position)
    (inside : segment.info.startingSequence ≤ position) :
    ∃ front record back, segment.records = front ++ record :: back ∧
      (∀ early ∈ front, early.entry.sequence < position) ∧ record.entry.sequence = position ∧
      segment.valueAt position = ((front ++ [record]).foldl
        (fun chain record => chain.absorb record.raw)
        (SegmentChain.new segment.info.anchorHash)).value := by
  have reach := covers.2
  rw [next] at reach
  have within : position - segment.info.startingSequence < segment.records.length := by omega
  obtain ⟨front, record, back, split, width⟩ : ∃ front record back,
      segment.records = front ++ record :: back ∧
        segment.info.startingSequence + front.length = position :=
    ⟨segment.records.take (position - segment.info.startingSequence), _, _, by
      rw [← List.drop_eq_getElem_cons within, List.take_append_drop], by
      rw [List.length_take]; omega⟩
  have counts := segment.consecutive
  rw [split, List.map_append, consecutive_append, List.map_cons, consecutive_cons,
    List.length_map, width] at counts
  refine ⟨front, record, back, split, fun early member => ?_, counts.2.1, ?_⟩
  · have bounds := counts.1.mem_bounds (List.mem_map_of_mem member)
    rw [List.length_map, width] at bounds
    exact bounds.2
  · have count : position + 1 - segment.info.startingSequence = (front ++ [record]).length := by
      rw [List.length_append, List.length_singleton]
      omega
    rw [valueAt, chainAfter, count, split, List.append_cons front record back, List.take_left]

theorem valueAt_end {segment : Segment E} (atEnd : position + 1 = segment.next) :
    segment.valueAt position = segment.tail := by
  have all : position + 1 - segment.info.startingSequence = segment.records.length := by
    rw [atEnd, next, Nat.add_sub_cancel_left]
  rw [valueAt, all, tail]

theorem Precedes.valueAt_eq {before after : Segment E} (precedes : before.Precedes after)
    (inBefore : before.Covers position) (inAfter : after.Covers position) :
    before.valueAt position = after.valueAt position := by
  obtain ⟨ordered, meets⟩ := precedes
  have startsAt : after.info.startingSequence = position + 1 := by
    have := inBefore.2
    have := inAfter.1
    omega
  have endsAt : position + 1 = before.next := by
    have := inBefore.2
    omega
  rw [valueAt_end endsAt, valueAt, startsAt, Nat.sub_self, value_chainAfter_zero,
    meets (by omega)]

theorem valueAt_unique {segments : List (Segment E)} (linked : segments.IsChain Links)
    {one other : Segment E} (oneIn : one ∈ segments) (otherIn : other ∈ segments)
    (oneCovers : one.Covers position) (otherCovers : other.Covers position) :
    one.valueAt position = other.valueAt position := by
  have ordered : segments.Pairwise Precedes :=
    List.isChain_iff_pairwise.mp (linked.imp fun _ _ links => links.precedes)
  have agree := ordered.imp (S := fun before after : Segment E => before.Covers position →
    after.Covers position → before.valueAt position = after.valueAt position)
    fun precedes => precedes.valueAt_eq
  by_cases same : one = other
  · rw [same]
  · have symmetric : Std.Symm fun before after : Segment E => before.Covers position →
        after.Covers position → before.valueAt position = after.valueAt position :=
      ⟨fun _ _ agree inOne inOther => (agree inOther inOne).symm⟩
    exact agree.forall oneIn otherIn same oneCovers otherCovers

end Segment

section

variable {E : Type}

def entriesOf (segments : List (Segment E)) : List (JournalEntry E) :=
  segments.flatMap (·.entries)

variable {segments : List (Segment E)} {last : Segment E}

theorem sequence_lt_of_mem_entriesOf {entry : JournalEntry E} (member : entry ∈ entriesOf segments) :
    entry.sequence < 2 ^ 64 := by
  obtain ⟨segment, -, inSegment⟩ := List.mem_flatMap.mp member
  obtain ⟨record, isRecord, rfl⟩ := List.mem_map.mp inSegment
  exact segment.inRange record isRecord

theorem entriesOf_snoc (segments : List (Segment E)) (last : Segment E) :
    entriesOf (segments ++ [last]) = entriesOf segments ++ last.entries := by
  simp [entriesOf]

variable [Hashing]

theorem consecutive_entriesOf {first : Segment E}
    (links : (first :: segments).IsChain Segment.Links) :
    Consecutive first.info.startingSequence
      ((entriesOf (first :: segments)).map (·.sequence)) := by
  induction segments generalizing first with
  | nil =>
    rw [entriesOf, List.flatMap_singleton, Segment.entries, List.map_map]
    exact first.consecutive
  | cons second segments ih =>
    -- The others count on from where the first one ends.
    obtain ⟨link, others⟩ := List.isChain_cons_cons.mp links
    have later := ih others
    rw [link.start, Segment.next] at later
    have split : entriesOf (first :: second :: segments)
        = first.entries ++ entriesOf (second :: segments) := rfl
    rw [split, List.map_append, consecutive_append, List.length_map]
    refine ⟨?_, ?_⟩
    · rw [Segment.entries, List.map_map]
      exact first.consecutive
    · rwa [Segment.entries, List.length_map]

theorem next_le_of_links {first : Segment E} (links : (first :: segments).IsChain Segment.Links) :
    ∀ segment ∈ first :: segments, segment.next
      ≤ first.info.startingSequence + (entriesOf (first :: segments)).length := by
  induction segments generalizing first with
  | nil =>
    rintro segment (_ | ⟨_, ⟨⟩⟩)
    simp [entriesOf, Segment.entries, Segment.next]
  | cons second segments ih =>
    obtain ⟨link, others⟩ := List.isChain_cons_cons.mp links
    have split : (entriesOf (first :: second :: segments)).length
        = first.records.length + (entriesOf (second :: segments)).length := by
      simp [entriesOf, Segment.entries]
    rw [split]
    rintro segment (_ | ⟨_, later⟩)
    · rw [Segment.next]
      omega
    · have reach := ih others segment later
      have start : second.info.startingSequence
          = first.info.startingSequence + first.records.length := link.start
      omega

structure Linked (segments : List (Segment E)) : Prop where
  links : segments.IsChain Segment.Links
  starts : ∀ first ∈ segments.head?, first.info.startingSequence = 1

theorem Linked.front {front back : List (Segment E)} (linked : Linked (front ++ back)) :
    Linked front := by
  refine ⟨(List.isChain_append.mp linked.links).1, fun first isFirst => linked.starts first ?_⟩
  simp [List.head?_append, Option.mem_def.mp isFirst]

theorem Linked.snoc {front : List (Segment E)} {fresh : Segment E}
    (linked : Linked (front ++ [last])) (links : last.Links fresh) :
    Linked (front ++ [last] ++ [fresh]) := by
  refine ⟨List.isChain_append.mpr ⟨linked.links, .singleton _, ?_⟩, fun first isFirst => ?_⟩
  · intro before isLast after isFirst
    rw [List.getLast?_append, List.getLast?_singleton] at isLast
    obtain rfl : last = before := by simpa using isLast
    obtain rfl : fresh = after := by simpa using isFirst
    exact links
  · refine linked.starts first ?_
    rwa [List.head?_append_of_ne_nil _ (by simp)] at isFirst

theorem Linked.resume {front tail : List (Segment E)} (linked : Linked (front ++ [last]))
    (links : tail.IsChain Segment.Links) (same : ∀ first ∈ tail.head?, first.info = last.info) :
    Linked (front ++ tail) := by
  obtain ⟨whole, starts⟩ := linked
  obtain ⟨frontLinks, -, joined⟩ := List.isChain_append.mp whole
  refine ⟨List.isChain_append.mpr ⟨frontLinks, links, ?_⟩, fun first isFirst => ?_⟩
  · intro before isLast after isFirst
    obtain ⟨start, anchor, genesis⟩ := joined before isLast last rfl
    rw [← same after isFirst] at start anchor genesis
    exact ⟨start, anchor, genesis⟩
  · cases front with
    | nil =>
      rw [same first isFirst]
      exact starts last rfl
    | cons head front => exact starts first isFirst

theorem Linked.replaceLast {front : List (Segment E)} {other : Segment E}
    (linked : Linked (front ++ [last])) (same : other.info = last.info) :
    Linked (front ++ [other]) :=
  linked.resume (.singleton _) fun _ isFirst => Option.mem_some_iff.mp isFirst ▸ same

theorem Linked.next_last {front : List (Segment E)} (linked : Linked (front ++ [last])) :
    last.info.startingSequence = (entriesOf front).length + 1 := by
  induction front using List.reverseRecOn generalizing last with
  | nil => simpa [entriesOf] using linked.starts last rfl
  | append_singleton front before ih =>
    -- The segment before the last one ends at the count up to it, and the last one starts there.
    have starts := ih linked.front
    have link : before.Links last := by
      have whole := linked.links
      rw [List.append_assoc] at whole
      exact (List.isChain_append.mp whole).2.1.rel
    rw [link.start, Segment.next, starts, entriesOf_snoc, List.length_append, Segment.entries,
      List.length_map]
    omega

theorem Linked.consecutive (linked : Linked segments) :
    Consecutive 1 ((entriesOf segments).map (·.sequence)) := by
  induction segments using List.reverseRecOn with
  | nil => rfl
  | append_singleton front last ih =>
    rw [entriesOf_snoc, List.map_append, consecutive_append, List.length_map]
    refine ⟨ih linked.front, ?_⟩
    rw [Nat.add_comm, ← linked.next_last]
    rw [Segment.entries, List.map_map]
    exact last.consecutive

theorem Linked.position_le (history : Linked segments) {segment : Segment E}
    (member : segment ∈ segments) {position : Nat} (covers : segment.Covers position) :
    position ≤ (entriesOf segments).length := by
  -- Up to the segment that has the position, the entries reach it.
  obtain ⟨front, back, rfl⟩ := List.append_of_mem member
  have upTo : Linked (front ++ [segment]) :=
    Linked.front (show Linked ((front ++ [segment]) ++ back) by simpa using history)
  have starts := upTo.next_last
  have reach := covers.2
  simp only [Segment.next, starts] at reach
  simp only [entriesOf, List.flatMap_append, List.flatMap_cons, List.length_append,
    Segment.entries, List.length_map] at reach ⊢
  omega

theorem Linked.length_lt (history : Linked segments) :
    (entriesOf segments).length < 2 ^ 64 := by
  rcases Nat.eq_zero_or_pos (entriesOf segments).length with none | some
  · rw [none]
    decide
  · -- The last entry carries the count as its sequence.
    have last : (entriesOf segments).length ∈ (entriesOf segments).map (·.sequence) := by
      rw [history.consecutive, List.mem_range'_1, List.length_map]
      omega
    obtain ⟨entry, member, carries⟩ := List.mem_map.mp last
    rw [← carries]
    exact sequence_lt_of_mem_entriesOf member

end

end Melin
