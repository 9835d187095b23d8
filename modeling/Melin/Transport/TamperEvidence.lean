import Melin.Examples.Counter
import Melin.Examples.CounterJournal
import Melin.Transport.FileWalk

/-! Tampering with a journal's files, and how far recovery replays before it refuses them. -/

namespace Melin

open Lib

section

variable {A E R : Type} [Application A E R] [Hashing]

theorem replayEntry_covered {snapshot : SnapshotSource} {entry : JournalEntry E}
    (covered : entry.sequence ≤ snapSequenceOf snapshot) (chain : SegmentChain)
    (replay : Replay A E) :
    (replayEntry snapshot chain entry replay).1.dispatched = replay.dispatched := by
  have advanced : (replayEntry.advance entry replay (snapSequenceOf snapshot)).dispatched
      = replay.dispatched := by
    simp [replayEntry.advance, Nat.not_lt.mpr covered]
  simp only [replayEntry]
  split
  · split
    · rfl
    · exact advanced
  · exact advanced

theorem visitRecords_covered {snapshot : SnapshotSource} {records : List (Record E)}
    (covered : ∀ record ∈ records, record.entry.sequence ≤ snapSequenceOf snapshot)
    (chain : SegmentChain) (replay : Replay A E) :
    (visitRecords (replayEntry snapshot) chain records replay).1.dispatched
      = replay.dispatched := by
  induction records generalizing chain replay with
  | nil => rfl
  | cons record records ih =>
    obtain ⟨here, later⟩ := List.forall_mem_cons.mp covered
    have same := replayEntry_covered here (chain.absorb record.raw) replay
    simp only [visitRecords]
    rcases handled : replayEntry snapshot (chain.absorb record.raw) record.entry replay with
      ⟨after, err | ⟨⟩⟩
    · rw [handled] at same
      exact same
    · rw [handled] at same
      exact (ih later _ after).trans same

theorem visitRecords_mismatch {taken : SnapshotHeader} {front : List (Record E)}
    {record : Record E} (back : List (Record E))
    (covered : ∀ record ∈ front, record.entry.sequence < taken.sequence)
    (anchor : record.entry.sequence = taken.sequence) (chain : SegmentChain)
    (differs : ((front ++ [record]).foldl (fun chain record => chain.absorb record.raw) chain).value
      ≠ taken.chainHash) (replay : Replay A E) :
    ∃ after err, visitRecords (replayEntry (some taken)) chain (front ++ record :: back) replay
        = (after, .error err) ∧ after.dispatched = replay.dispatched := by
  induction front generalizing chain replay with
  | nil =>
    have refused : replayEntry (some taken) (chain.absorb record.raw) record.entry replay
        = (replay, .error (.snapshotChainMismatch taken.sequence taken.chainHash
            (chain.absorb record.raw).value)) := by
      simp only [replayEntry, Option.map_some, snapSequenceOf, Option.getD_some]
      exact if_pos ⟨anchor, differs⟩
    simp only [List.nil_append, visitRecords, refused]
    exact ⟨replay, _, rfl, rfl⟩
  | cons first front ih =>
    obtain ⟨early, later⟩ := List.forall_mem_cons.mp covered
    have holds : AnchorHolds (some taken) (chain.absorb first.raw) first.entry.sequence := by
      rintro other ⟨⟩ same
      omega
    have passes := replayEntry_of_anchorHolds holds replay
    have same := replayEntry_covered (show first.entry.sequence ≤ snapSequenceOf (some taken) from
      early.le) (chain.absorb first.raw) replay
    rw [passes] at same
    obtain ⟨after, err, refused, unchanged⟩ := ih later (chain.absorb first.raw) differs
      (replayEntry.advance first.entry replay (snapSequenceOf (some taken)))
    simp only [List.cons_append, visitRecords, passes]
    exact ⟨after, err, refused, unchanged.trans same⟩

end

section

variable {E : Type} [Hashing]

def Segment.bytes (segment : Segment E) : Bytes := segment.records.flatMap (·.raw)

def Segment.chainInput (segment : Segment E) : Bytes :=
  segment.bytes ++ segment.info.anchorHash.bytes

variable {segment : Segment E}

theorem Segment.tail_eq (some : segment.records ≠ []) :
    segment.tail = Hashing.blake3 segment.chainInput := by
  rw [Segment.tail, Segment.chainAfter, List.take_length,
    SegmentChain.foldl_absorb (·.raw) some]
  rfl

theorem exchanged_breaks {one other : Segment E} (precedes : one.next ≤ other.info.startingSequence)
    (differ : one.records ≠ [] ∨ other.records ≠ [] ∨
      one.info.startingSequence ≠ other.info.startingSequence)
    {prior : Segment E} (behind : other.next ≤ prior.next) : ¬ prior.Links one := by
  intro links
  have starts := links.start
  simp only [Segment.next] at precedes behind starts
  simp only [← List.length_pos_iff] at differ
  omega

variable [AppEvent E]

structure StoredSegment (E : Type) [AppEvent E] [Hashing] where
  source : SegmentSource
  segment : Segment E
  reads : segment.ReadsFrom source.content source.path source.kind

def sourcesOf (stored : List (StoredSegment E)) : List SegmentSource := stored.map (·.source)

def segmentsOf (stored : List (StoredSegment E)) : List (Segment E) := stored.map (·.segment)

theorem ReadAs.getLast {front : List SegmentSource} {last : SegmentSource}
    {segments : List (Segment E)} (files : ReadAs (front ++ [last]) segments) :
    ∃ segment ∈ segments.getLast?, segment.ReadsFrom last.content last.path last.kind := by
  induction front generalizing segments with
  | nil =>
    obtain _ | ⟨file, others⟩ := files
    cases others
    exact ⟨_, rfl, file⟩
  | cons first front ih =>
    obtain _ | ⟨file, others⟩ := files
    obtain ⟨segment, isLast, lastFile⟩ := ih others
    refine ⟨segment, ?_, lastFile⟩
    rw [Option.mem_def] at isLast ⊢
    rw [List.getLast?_cons, isLast, Option.getD_some]

/--
Files as tampering with a lineage leaves them.

The count is of the files up to the tampered one: one that is missing is not among them.
-/
inductive Tampered : List (StoredSegment E) → List SegmentSource → Nat → Prop where
  /-- The bytes of the entries of a segment that others follow were changed. -/
  | modified {before after : List (StoredSegment E)} {stored next : StoredSegment E}
      {content : Bytes} (header : segmentHeader content = .ok stored.segment.info)
      (differs : slice content stored.segment.info.sectorSize stored.segment.bytes.length
        ≠ stored.segment.bytes) :
      Tampered (before ++ stored :: next :: after)
        (sourcesOf before ++ { stored.source with content } :: sourcesOf (next :: after))
        (before.length + 1)
  /-- A segment with entries, between two others, was removed. -/
  | removed {before after : List (StoredSegment E)} {prior stored next : StoredSegment E}
      (some : stored.segment.records ≠ []) :
      Tampered (before ++ prior :: stored :: next :: after)
        (sourcesOf (before ++ prior :: next :: after)) (before.length + 1)
  /-- Two segments were exchanged, of which one has entries, or which start apart. -/
  | exchanged {before between after : List (StoredSegment E)} {one other : StoredSegment E}
      (differ : one.segment.records ≠ [] ∨ other.segment.records ≠ [] ∨
        one.segment.info.startingSequence ≠ other.segment.info.startingSequence) :
      Tampered (before ++ one :: between ++ other :: after)
        (sourcesOf before ++ { one.source with content := other.source.content } ::
          sourcesOf between ++ { other.source with content := one.source.content } ::
          sourcesOf after)
        (before.length + 1)

def NoCollision (strings : List Bytes) : Prop :=
  ∀ one ∈ strings, ∀ other ∈ strings, Hashing.blake3 one = Hashing.blake3 other → one = other

/-- The strings that the tail values of readable files are digests of. -/
def chainInputs (E : Type) [AppEvent E] (sources : List SegmentSource) : List Bytes :=
  sources.flatMap fun source =>
    match segmentHeader source.content with
    | .error _ => []
    | .ok info =>
      let records := ((startPlace source.content source.path source.kind info).scan (E := E)).1
      if records.isEmpty then [] else [records.flatMap (·.raw) ++ info.anchorHash.bytes]

theorem chainInputs_cons {source : SegmentSource}
    (reads : segment.ReadsFrom source.content source.path source.kind)
    (sources : List SegmentSource) :
    chainInputs E (source :: sources)
      = (if segment.records.isEmpty then [] else [segment.chainInput]) ++ chainInputs E sources := by
  obtain ⟨header, tornTail, scanned⟩ := reads
  simp only [chainInputs, List.flatMap_cons, header, scanned]
  rfl

theorem chainInput_mem {sources : List SegmentSource} {source : SegmentSource}
    (member : source ∈ sources) (reads : segment.ReadsFrom source.content source.path source.kind)
    (some : segment.records ≠ []) : segment.chainInput ∈ chainInputs E sources := by
  obtain ⟨front, back, rfl⟩ := List.append_of_mem member
  have here := chainInputs_cons reads back
  rw [if_neg (by simpa using some)] at here
  have whole : chainInputs E (front ++ source :: back)
      = chainInputs E front ++ chainInputs E (source :: back) := List.flatMap_append
  rw [whole, here]
  exact List.mem_append_right _ List.mem_cons_self

theorem NoCollision.of_subset {sources others : List SegmentSource}
    (noCollision : NoCollision (chainInputs E sources)) (inside : others ⊆ sources) :
    NoCollision (chainInputs E others) := by
  have inputs : chainInputs E others ⊆ chainInputs E sources := by
    intro input isInput
    obtain ⟨source, member, ofSource⟩ := List.mem_flatMap.mp isInput
    exact List.mem_flatMap.mpr ⟨source, inside member, ofSource⟩
  exact fun one isOne other isOther => noCollision one (inputs isOne) other (inputs isOther)

/-- A modified segment that still reads back ends elsewhere, or with another value. -/
theorem modified_breaks {stored : StoredSegment E} {content : Bytes} {next : Segment E}
    (reads : segment.ReadsFrom content stored.source.path stored.source.kind)
    (header : segmentHeader content = .ok stored.segment.info)
    (differs : slice content stored.segment.info.sectorSize stored.segment.bytes.length
      ≠ stored.segment.bytes)
    (noCollision : NoCollision (chainInputs E [stored.source, { stored.source with content }]))
    (links : stored.segment.Links next) : ¬ segment.Links next := by
  intro alsoLinks
  have info : segment.info = stored.segment.info := Except.ok.inj (reads.1.symm.trans header)
  have count : segment.records.length = stored.segment.records.length := by
    have ends := alsoLinks.start.symm.trans links.start
    rw [Segment.next, Segment.next, info] at ends
    omega
  -- As many records with the same tail value have the same bytes.
  have same : segment.bytes = stored.segment.bytes := by
    by_cases none : stored.segment.records = []
    · have alsoNone : segment.records = [] := by
        rw [← List.length_eq_zero_iff, count, none, List.length_nil]
      rw [Segment.bytes, Segment.bytes, none, alsoNone]
    · have some : segment.records ≠ [] := by
        rw [← List.length_pos_iff, count, List.length_pos_iff]
        exact none
      have digest := alsoLinks.anchor.symm.trans links.anchor
      rw [Segment.tail_eq some, Segment.tail_eq none] at digest
      have input := noCollision segment.chainInput
        (chainInput_mem (show { stored.source with content } ∈ _ by simp) reads some)
        stored.segment.chainInput (chainInput_mem (by simp) stored.reads none) digest
      rw [Segment.chainInput, Segment.chainInput, info] at input
      exact List.append_cancel_right input
  -- The records were cut from where the entries of the original lay.
  obtain ⟨-, tornTail, scanned⟩ := reads
  have front := Place.scan_raw_prefix (E := E)
    (startPlace content stored.source.path stored.source.kind segment.info)
  rw [scanned] at front
  change segment.bytes <+: content.drop segment.info.sectorSize at front
  rw [same, info] at front
  exact differs (List.prefix_iff_eq_take.mp front).symm

theorem ordered_of_links {stored : List (StoredSegment E)}
    (links : (segmentsOf stored).IsChain Segment.Links) :
    (segmentsOf stored).Pairwise Segment.Precedes :=
  List.isChain_iff_pairwise.mp (links.imp fun _ _ link => link.precedes)

section

variable {A R : Type} [Application A E R]

def FailsWithin (outcome : Replay A E × Except JournaledAppError Opening)
    (sources : List SegmentSource) : Prop :=
  (∃ err, outcome.2 = .error err) ∧ outcome.1.dispatched.Sublist (entriesIn E sources)

theorem FailsWithin.mono {outcome : Replay A E × Except JournaledAppError Opening}
    {sources others : List SegmentSource} (fails : FailsWithin outcome sources)
    (inside : (entriesIn E sources).Sublist (entriesIn E others)) : FailsWithin outcome others :=
  ⟨fails.1, fails.2.trans inside⟩

variable {dir : JournalDir} {before after : List (StoredSegment E)} {taken : SnapshotHeader}

theorem recoverRead_refuses (app : A) (snapshot : SnapshotSource) (reads : ReadSchedule)
    {front rest : List SegmentSource} {file : SegmentSource}
    (files : dir.sources = front ++ file :: rest) {segment : Segment E}
    (header : segmentHeader file.content = .ok segment.info)
    (unlinked : ∀ segments : List (Segment E), ReadAs front segments →
      ∃ prior ∈ segments.getLast?, ¬ prior.Links segment) :
    FailsWithin (recoverRead app snapshot reads dir) front := by
  have start : (startWalk app snapshot : Walk A E).links.Behind (none : Option (Segment E)) :=
    ⟨rfl, rfl, rfl⟩
  obtain ⟨seen, seenIn, dispatched⟩ := walkFiles_dispatched snapshot front
    (startWalk app snapshot : Walk A E)
  have whole := walkFiles_append snapshot front (file :: rest) (startWalk app snapshot : Walk A E)
  rw [← files] at whole
  rcases walked : walkFiles snapshot front (startWalk app snapshot) with ⟨walk, err | ⟨⟩⟩
  · -- The files before it were refused already.
    rw [walked] at whole dispatched
    obtain ⟨replayEq, failed⟩ := recoverRead_walkFiles app snapshot reads dir whole
    refine ⟨⟨err, failed⟩, ?_⟩
    rw [replayEq, dispatched]
    exact seenIn
  · obtain ⟨segments, files, -, behind⟩ := walkFiles_ok start walked
    obtain ⟨prior, isLast, breaks⟩ := unlinked segments files
    rw [Option.mem_def.mp isLast] at behind
    obtain ⟨err, refused⟩ := walkFile_breaks snapshot behind header
      (by rw [Option.some_or, recoveryFollows_some]; exact breaks)
    rw [walked] at whole dispatched
    simp only [walkFiles, refused] at whole
    obtain ⟨replayEq, failed⟩ := recoverRead_walkFiles app snapshot reads dir whole
    refine ⟨⟨err, failed⟩, ?_⟩
    rw [replayEq, dispatched]
    exact seenIn

theorem recoverRead_modified (app : A) (snapshot : SnapshotSource) (reads : ReadSchedule)
    {stored next : StoredSegment E} {content : Bytes} (links : stored.segment.Links next.segment)
    (files : dir.sources
      = sourcesOf before ++ { stored.source with content } :: sourcesOf (next :: after))
    (header : segmentHeader content = .ok stored.segment.info)
    (differs : slice content stored.segment.info.sectorSize stored.segment.bytes.length
      ≠ stored.segment.bytes)
    (noCollision : NoCollision (chainInputs E [stored.source, { stored.source with content }])) :
    FailsWithin (recoverRead app snapshot reads dir)
      (sourcesOf before ++ [{ stored.source with content }]) := by
  have split : dir.sources = (sourcesOf before ++ [{ stored.source with content }])
      ++ next.source :: sourcesOf after := by
    simpa [sourcesOf] using files
  refine recoverRead_refuses app snapshot reads split next.reads.1 fun segments read => ?_
  obtain ⟨segment, isLast, file⟩ := read.getLast
  exact ⟨segment, isLast, modified_breaks file header differs noCollision links⟩

theorem recoverRead_removed (app : A) (snapshot : SnapshotSource) (reads : ReadSchedule)
    {prior stored next : StoredSegment E} (front : prior.segment.Links stored.segment)
    (back : stored.segment.Links next.segment) (some : stored.segment.records ≠ [])
    (files : dir.sources = sourcesOf (before ++ prior :: next :: after)) :
    FailsWithin (recoverRead app snapshot reads dir) (sourcesOf before ++ [prior.source]) := by
  have split : dir.sources
      = (sourcesOf before ++ [prior.source]) ++ next.source :: sourcesOf after := by
    simpa [sourcesOf] using files
  refine recoverRead_refuses app snapshot reads split next.reads.1 fun segments read => ?_
  obtain ⟨segment, isLast, file⟩ := read.getLast
  refine ⟨segment, isLast, fun links => ?_⟩
  -- The next segment starts behind the records of the missing one.
  rw [file.unique prior.reads] at links
  have starts := links.start.symm.trans back.start
  have counted := List.length_pos_iff.mpr some
  simp only [Segment.next, front.start] at starts
  omega

theorem recoverRead_exchanged (app : A) (snapshot : SnapshotSource) (reads : ReadSchedule)
    {between : List (StoredSegment E)} {one other : StoredSegment E}
    (ordered : (segmentsOf (one :: between ++ [other])).Pairwise Segment.Precedes)
    (differ : one.segment.records ≠ [] ∨ other.segment.records ≠ [] ∨
      one.segment.info.startingSequence ≠ other.segment.info.startingSequence)
    (files : dir.sources
      = sourcesOf before ++ { one.source with content := other.source.content } ::
          sourcesOf between ++ { other.source with content := one.source.content } ::
          sourcesOf after) :
    FailsWithin (recoverRead app snapshot reads dir)
      (sourcesOf before ++ [{ one.source with content := other.source.content }]) := by
  simp only [segmentsOf, List.cons_append, List.map_cons, List.map_append, List.map_nil,
    List.pairwise_cons, List.pairwise_append] at ordered
  obtain ⟨oneBefore, betweenOrdered, -, betweenBefore⟩ := ordered
  have oneOther := (oneBefore other.segment (by simp)).1
  cases between with
  | nil =>
    have split : dir.sources
        = (sourcesOf before ++ [{ one.source with content := other.source.content }])
          ++ { other.source with content := one.source.content } :: sourcesOf after := by
      simpa [sourcesOf] using files
    refine recoverRead_refuses app snapshot reads split one.reads.1 fun segments read => ?_
    obtain ⟨segment, isLast, file⟩ := read.getLast
    refine ⟨segment, isLast, exchanged_breaks oneOther differ ?_⟩
    rw [file.unique other.reads]
  | cons second between =>
    by_cases links : other.segment.Links second.segment
    · -- Everything from the second segment to the other one is empty.
      have shut : ∀ middle ∈ second :: between,
          middle.segment.records = [] ∧ other.segment.next = middle.segment.next := by
        intro middle member
        have starts := links.start
        have above : second.segment.info.startingSequence
            ≤ middle.segment.info.startingSequence := by
          rcases List.mem_cons.mp member with rfl | later
          · exact le_rfl
          · have precedes := ((List.pairwise_cons.mp betweenOrdered).1 _
              (List.mem_map_of_mem later)).1
            simp only [Segment.next] at precedes
            omega
        have below := (betweenBefore _ (List.mem_map_of_mem member) other.segment (by simp)).1
        simp only [Segment.next] at starts below ⊢
        rw [← List.length_eq_zero_iff]
        omega
      obtain ⟨front, last, isLast⟩ := List.eq_nil_or_concat' (second :: between) |>.resolve_left
        (List.cons_ne_nil _ _)
      have split : dir.sources
          = (sourcesOf before ++ { one.source with content := other.source.content } ::
              sourcesOf front ++ [last.source])
            ++ { other.source with content := one.source.content } :: sourcesOf after := by
        rw [files, isLast]
        simp [sourcesOf]
      have refused : FailsWithin (recoverRead app snapshot reads dir) _ :=
        recoverRead_refuses app snapshot reads split one.reads.1 fun segments read => by
          obtain ⟨segment, isLastSegment, file⟩ := read.getLast
          refine ⟨segment, isLastSegment, exchanged_breaks oneOther differ ?_⟩
          rw [file.unique last.reads]
          exact (shut last (by simp [isLast])).2.le
      refine refused.mono ?_
      have none : entriesIn E (sourcesOf (second :: between)) = [] := by
        refine List.flatMap_eq_nil_iff.mpr fun source member => ?_
        obtain ⟨middle, isMiddle, rfl⟩ := List.mem_map.mp member
        rw [middle.reads.entries_eq, Segment.entries, (shut middle isMiddle).1, List.map_nil]
      rw [isLast] at none
      simp only [entriesIn, sourcesOf, List.map_append, List.map_cons, List.map_nil,
        List.flatMap_append, List.flatMap_cons, List.flatMap_nil, List.append_nil,
        List.append_eq_nil_iff] at none ⊢
      simp [none.1, none.2]
    · have split : dir.sources
          = (sourcesOf before ++ [{ one.source with content := other.source.content }])
            ++ second.source :: (sourcesOf between
              ++ { other.source with content := one.source.content } :: sourcesOf after) := by
        simpa [sourcesOf] using files
      refine recoverRead_refuses app snapshot reads split second.reads.1 fun segments read => ?_
      obtain ⟨segment, isLast, file⟩ := read.getLast
      refine ⟨segment, isLast, ?_⟩
      rw [file.unique other.reads]
      exact links

theorem walkFile_covered (stored : StoredSegment E) (covered : stored.segment.next ≤ taken.sequence)
    (walk : Walk A E) :
    (walkFile (some taken) stored.source walk).1.replay.dispatched = walk.replay.dispatched := by
  rcases walkFile_replay (some taken) stored.source walk with same | ⟨info, header, replayed⟩
  · rw [same]
  · obtain ⟨isInfo, tornTail, scanned⟩ := stored.reads
    obtain rfl := Except.ok.inj (isInfo.symm.trans header)
    rw [replayed, scanned]
    refine visitRecords_covered (fun record member => ?_) _ _
    have bounds := stored.segment.consecutive.mem_bounds (List.mem_map_of_mem member)
    rw [List.length_map] at bounds
    rw [Segment.next] at covered
    exact (bounds.2.trans_le covered).le

theorem walkFile_mismatch (stored : StoredSegment E) (covers : stored.segment.Covers taken.sequence)
    (differs : stored.segment.valueAt taken.sequence ≠ taken.chainHash) (walk : Walk A E) :
    ∃ after err, walkFile (some taken) stored.source walk = (after, .error err) ∧
      after.replay.dispatched = walk.replay.dispatched := by
  obtain ⟨header, tornTail, scanned⟩ := stored.reads
  unfold walkFile walkBytes
  simp only [header]
  cases verifySegmentLink stored.source.path.number stored.segment.info walk.prevTailHash
      walk.expectedStart (snapSequenceOf (some taken) + 1) walk.archivedGenesisEntries with
  | error err => exact ⟨_, err, rfl, rfl⟩
  | ok linked =>
    cases boundary : verifyBoundarySnapshotAnchor stored.segment.info (some taken) with
    | error err => exact ⟨_, err, rfl, rfl⟩
    | ok anchored =>
      -- Behind the boundary check, the snapshot's own entry is one of the segment's.
      have inside : stored.segment.info.startingSequence ≤ taken.sequence := by
        by_contra atStart
        have starts : taken.sequence + 1 = stored.segment.info.startingSequence := by
          have := covers.1
          omega
        have anchor : stored.segment.info.anchorHash ≠ taken.chainHash := by
          rwa [Segment.valueAt, starts, Nat.sub_self, Segment.value_chainAfter_zero] at differs
        rw [verifyBoundarySnapshotAnchor, if_pos ⟨starts, anchor⟩] at boundary
        cases boundary
      obtain ⟨front, record, back, split, covered, isAnchor, value⟩ :=
        Segment.exists_record covers inside
      rw [value] at differs
      obtain ⟨after, err, refused, unchanged⟩ := visitRecords_mismatch back covered isAnchor
        (.new stored.segment.info.anchorHash) differs walk.replay
      rw [← split] at refused
      have visited : visitRecords (replayEntry (some taken)) (startPlace stored.source.content
          stored.source.path stored.source.kind stored.segment.info).chain stored.segment.records
          walk.replay = (after, .error err) := refused
      simp only [Place.visit, scanned, visited]
      exact ⟨_, err, rfl, unchanged⟩

theorem walkFiles_mismatch {stored : List (StoredSegment E)}
    (ordered : (segmentsOf stored).Pairwise Segment.Precedes)
    (covered : ∃ segment ∈ segmentsOf stored, segment.Covers taken.sequence)
    (differs : ∀ segment ∈ segmentsOf stored, segment.Covers taken.sequence →
      segment.valueAt taken.sequence ≠ taken.chainHash)
    (walk : Walk A E) :
    ∃ after err, walkFiles (some taken) (sourcesOf stored) walk = (after, .error err) ∧
      after.replay.dispatched = walk.replay.dispatched := by
  induction stored generalizing walk with
  | nil =>
    obtain ⟨segment, member, -⟩ := covered
    cases member
  | cons first stored ih =>
    obtain ⟨firstBefore, ordered⟩ := List.pairwise_cons.mp ordered
    obtain ⟨firstDiffers, differs⟩ := List.forall_mem_cons.mp differs
    simp only [sourcesOf, List.map_cons, walkFiles]
    by_cases here : first.segment.Covers taken.sequence
    · obtain ⟨after, err, refused, unchanged⟩ := walkFile_mismatch first here (firstDiffers here)
        walk
      exact ⟨after, err, by rw [refused], unchanged⟩
    · -- A later segment has the position, so the first one ends before it.
      obtain ⟨segment, member, covers⟩ := covered
      have later : segment ∈ segmentsOf stored := by
        rcases List.mem_cons.mp member with rfl | later
        · exact absurd covers here
        · exact later
      have ends : first.segment.next ≤ taken.sequence := by
        have precedes : first.segment.next ≤ segment.info.startingSequence :=
          (firstBefore segment later).1
        have starts := covers.1
        have forward : first.segment.info.startingSequence ≤ first.segment.next :=
          Nat.le_add_right _ _
        simp only [Segment.Covers, not_and_or] at here
        omega
      have same := walkFile_covered first ends walk
      rcases walked : walkFile (some taken) first.source walk with ⟨middle, err | ⟨⟩⟩
      · rw [walked] at same
        exact ⟨middle, err, rfl, same⟩
      · rw [walked] at same
        obtain ⟨after, err, refused, unchanged⟩ := ih ordered ⟨segment, later, covers⟩ differs middle
        exact ⟨after, err, refused, unchanged.trans same⟩

/--
Recovery refuses a tampered journal before it dispatches anything behind the tampered segment.

A snapshot whose chain value is not the journal's at its position is refused before any dispatch.
-/
theorem recoverRead_tamper_evident {lineage : List (StoredSegment E)}
    (links : (segmentsOf lineage).IsChain Segment.Links) (app : A) (reads : ReadSchedule) :
    (∀ (snapshot : SnapshotSource) (dir : JournalDir) (reach : Nat),
      Tampered lineage dir.sources reach →
      NoCollision (chainInputs E (sourcesOf lineage ++ dir.sources)) →
      FailsWithin (recoverRead app snapshot reads dir) (dir.sources.take reach)) ∧
    ∀ (taken : SnapshotHeader) (dir : JournalDir), dir.sources = sourcesOf lineage →
      ∀ segment ∈ segmentsOf lineage, segment.Covers taken.sequence →
      taken.chainHash ≠ segment.valueAt taken.sequence →
      FailsWithin (recoverRead app (some taken) reads dir) [] := by
  constructor
  · intro snapshot dir reach tampered noCollision
    generalize isSources : dir.sources = sources at tampered noCollision ⊢
    cases tampered with
    | @modified before after stored next content header differs =>
      have link : stored.segment.Links next.segment := by
        simp only [segmentsOf, List.map_append, List.map_cons, List.isChain_append,
          List.isChain_cons_cons] at links
        exact links.2.1.1
      have apart := noCollision.of_subset (show [stored.source, { stored.source with content }]
        ⊆ _ by simp [sourcesOf])
      have fails := recoverRead_modified app snapshot reads link isSources header differs apart
      rwa [show (sourcesOf before ++ { stored.source with content } ::
          sourcesOf (next :: after)).take (before.length + 1)
            = sourcesOf before ++ [{ stored.source with content }] by
        simp [sourcesOf, List.take_append]]
    | @removed before after prior stored next some =>
      have linked : prior.segment.Links stored.segment ∧ stored.segment.Links next.segment := by
        simp only [segmentsOf, List.map_append, List.map_cons, List.isChain_append,
          List.isChain_cons_cons] at links
        exact ⟨links.2.1.1, links.2.1.2.1⟩
      have fails := recoverRead_removed app snapshot reads linked.1 linked.2 some isSources
      rwa [show (sourcesOf (before ++ prior :: next :: after)).take (before.length + 1)
            = sourcesOf before ++ [prior.source] by
        simp [sourcesOf, List.take_append]]
    | @exchanged before between after one other differ =>
      have ordered : (segmentsOf (one :: between ++ [other])).Pairwise Segment.Precedes := by
        refine (ordered_of_links links).sublist ?_
        simp [segmentsOf]
      have fails := recoverRead_exchanged app snapshot reads ordered differ isSources
      rwa [show (sourcesOf before ++ { one.source with content := other.source.content } ::
          sourcesOf between ++ { other.source with content := one.source.content } ::
          sourcesOf after).take (before.length + 1)
            = sourcesOf before ++ [{ one.source with content := other.source.content }] by
        simp [sourcesOf, List.take_append]]
  · intro taken dir sources segment member covers differs
    have ordered := ordered_of_links links
    obtain ⟨after, err, refused, unchanged⟩ := walkFiles_mismatch ordered
      ⟨segment, member, covers⟩ (fun other isOther otherCovers => by
        rw [Segment.valueAt_unique links isOther member otherCovers covers]
        exact differs.symm) (startWalk app (some taken) : Walk A E)
    rw [← sources] at refused
    obtain ⟨replayEq, failed⟩ := recoverRead_walkFiles app (some taken) reads dir refused
    refine ⟨⟨err, failed⟩, ?_⟩
    rw [replayEq, unchanged]
    exact .slnil

end

end

def WrittenSegment.stored {E : Type} [AppEvent E] [LawfulAppEvent E] [Hashing]
    (written : WrittenSegment E) (zeros : Nat) (path : SegmentPath) (kind : SegmentKind) :
    StoredSegment E where
  source := { path, kind, content := written.bytes ++ List.replicate zeros 0 }
  segment := written.segment
  reads := written.readsFrom zeros path kind

def sampleLineage : List (StoredSegment CounterEvent) :=
  [sampleOpening.stored 0 (.archive 1) .archived, sampleArchived.stored 0 (.archive 2) .archived,
    sampleBetween.stored 7 .live .live]

def sampleLineageDir : JournalDir where
  archives := [(1, sampleOpening.bytes ++ List.replicate 0 0),
    (2, sampleArchived.bytes ++ List.replicate 0 0)]
  live := some (sampleBetween.bytes ++ List.replicate 7 0)
  ascending := by simp

def sampleRemovedDir : JournalDir where
  archives := [(1, sampleOpening.bytes ++ List.replicate 0 0)]
  live := some (sampleBetween.bytes ++ List.replicate 7 0)
  ascending := by simp

def sampleForeignSnapshot : SnapshotHeader where
  appVersion := 1
  sequence := 0
  chainHash := ⟨List.replicate 32 1, by simp⟩
  lineage := .genesis
  genesisEntries := some 0
  tickWatermark := none
  len := 0

/-- The increment's segment is missed, and so is the anchor the snapshot records. -/
theorem recoverRead_tamper_evident_sample :
    FailsWithin (recoverRead (⟨0⟩ : Counter) none (fun _ _ => 1) sampleRemovedDir)
        (sampleRemovedDir.sources.take 1) ∧
      FailsWithin (recoverRead (⟨0⟩ : Counter) (some sampleForeignSnapshot) (fun _ _ => 1)
        sampleLineageDir) [] := by
  have links : (segmentsOf sampleLineage).IsChain Segment.Links := by
    simpa [segmentsOf, sampleLineage, WrittenSegment.stored]
      using ⟨sampleOpening_links, sampleArchived_links_between⟩
  have evident := recoverRead_tamper_evident links (⟨0⟩ : Counter) fun _ _ => 1
  have tampered : Tampered sampleLineage sampleRemovedDir.sources 1 :=
    @Tampered.removed CounterEvent _ _ [] [] _ _ _ (by
      simp [WrittenSegment.stored, WrittenSegment.segment, recordsOf, sampleArchived])
  -- Only one segment has entries, so only one string is hashed.
  have noCollision : NoCollision (chainInputs CounterEvent
      (sourcesOf sampleLineage ++ sampleRemovedDir.sources)) := by
    have inputs : chainInputs CounterEvent (sourcesOf sampleLineage ++ sampleRemovedDir.sources)
        = [sampleArchived.segment.chainInput] := by
      let opening := sampleOpening.stored 0 (.archive 1) .archived
      let archived := sampleArchived.stored 0 (.archive 2) .archived
      let between := sampleBetween.stored 7 .live .live
      rw [show sourcesOf sampleLineage ++ sampleRemovedDir.sources
          = [opening.source, archived.source, between.source, opening.source, between.source]
          from rfl, chainInputs_cons opening.reads, chainInputs_cons archived.reads,
        chainInputs_cons between.reads, chainInputs_cons opening.reads,
        chainInputs_cons between.reads]
      rfl
    rw [inputs]
    rintro one isOne other isOther -
    rw [List.mem_singleton.mp isOne, List.mem_singleton.mp isOther]
  refine ⟨evident.1 none sampleRemovedDir 1 tampered noCollision, ?_⟩
  refine evident.2 sampleForeignSnapshot sampleLineageDir rfl sampleOpening.segment (by
    simp [segmentsOf, sampleLineage, WrittenSegment.stored]) ⟨by decide, by
      rw [WrittenSegment.segment_next]; decide⟩ ?_
  rw [Segment.valueAt]
  decide

def sampleGapLineage : List (StoredSegment CounterEvent) :=
  [sampleArchived.stored 0 (.archive 1) .archived, sampleBetween.stored 0 (.archive 2) .archived,
    sampleLive.stored 5 .live .live]

theorem sampleGap_ascending :
    [(1, sampleArchived.bytes ++ List.replicate 0 0)].Pairwise (·.1 < ·.1) := by simp

def sampleGapDir : JournalDir where
  archives := [(1, sampleArchived.bytes ++ List.replicate 0 0)]
  live := some (sampleLive.bytes ++ List.replicate 5 0)
  ascending := sampleGap_ascending

/-- Recovery does not miss the empty segment, and replays what follows it. -/
theorem recoverRead_misses_empty :
    (segmentsOf sampleGapLineage).IsChain Segment.Links ∧
      sampleGapDir.sources = sourcesOf (sampleGapLineage.eraseIdx 1) ∧
      (∃ opening, (recoverRead (⟨0⟩ : Counter) none (fun _ _ => 1) sampleGapDir).2
        = .ok opening) ∧
      (recoverRead (⟨0⟩ : Counter) none (fun _ _ => 1) sampleGapDir).1.dispatched.map (·.sequence)
        = [1, 2] := by
  have holds : sampleGapDir.Holds [sampleArchived.segment] (some sampleLive.segment) :=
    ⟨.cons (sampleArchived.readsFrom 0 (.archive 1) .archived) .nil,
      .some (sampleLive.readsFrom 5 .live .live),
      ⟨by simpa using sampleArchived_links, by rintro first ⟨⟩; rfl⟩, by simp⟩
  have fits : TakenFrom [sampleArchived.segment, sampleLive.segment] none := by rintro taken ⟨⟩
  have read := recoverRead_linked holds fits (fun _ _ => 1) (⟨0⟩ : Counter)
  refine ⟨?_, rfl, ⟨_, by rw [read]⟩, ?_⟩
  · simpa [segmentsOf, sampleGapLineage, WrittenSegment.stored]
      using ⟨sampleArchived_links_between, sampleBetween_links⟩
  · rw [read]
    rfl

end Melin
