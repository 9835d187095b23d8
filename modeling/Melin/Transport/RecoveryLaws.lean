import Melin.Journal.Segment
import Melin.Transport.Recovery

/-! What recovery makes of a well-formed journal, with and without a snapshot. -/

namespace Melin

open Lib

section

variable {A E R : Type} [Application A E R] [AppEvent E] [Hashing]

def walkBytes (snapshot : SnapshotSource) (path : SegmentPath) (kind : SegmentKind) (index : Nat)
    (content : Bytes) (walk : Walk A E) :
    Replay A E × Except JournaledAppError (FileHeaderInfo × SegmentEnd) :=
  match segmentHeader content with
  | .error err => (walk.replay, .error (.journal err))
  | .ok info =>
    match verifySegmentLink index info walk.prevTailHash walk.expectedStart
        (snapSequenceOf snapshot + 1) walk.archivedGenesisEntries with
    | .error err => (walk.replay, .error err)
    | .ok () =>
      match verifyBoundarySnapshotAnchor info snapshot with
      | .error err => (walk.replay, .error err)
      | .ok () =>
        Prod.map id (Except.map (Prod.mk info))
          ((startPlace content path kind info).visit .journal (replayEntry snapshot) walk.replay)

theorem walkSegment_eq (snapshot : SnapshotSource) (reads : ReadSchedule) (path : SegmentPath)
    (kind : SegmentKind) (index : Nat) (content : Bytes) (walk : Walk A E) :
    walkSegment snapshot reads path kind index content walk
      = walkBytes snapshot path kind index content walk := by
  have opened := JournalReader.openSegment_spec content (reads path) path kind
  unfold walkSegment walkBytes
  cases header : segmentHeader content with
  | error err =>
    rw [header] at opened
    simp only [opened]
  | ok info =>
    rw [header] at opened
    obtain ⟨reader, openEq, tracks, placeEq, infoEq⟩ := opened
    simp only [openEq, infoEq]
    cases verifySegmentLink index info walk.prevTailHash walk.expectedStart
        (snapSequenceOf snapshot + 1) walk.archivedGenesisEntries with
    | error err => rfl
    | ok linked =>
      cases verifyBoundarySnapshotAnchor info snapshot with
      | error err => rfl
      | ok anchored =>
        have visited := JournalReader.forEachEntry_eq .journal (replayEntry snapshot) tracks
          walk.replay
        rw [placeEq] at visited
        simp only [← visited, replaySegment]
        generalize reader.forEachEntry .journal (replayEntry snapshot) walk.replay = run
        obtain ⟨replay, err | after⟩ := run <;> rfl

end

theorem checkAnchorReached_ok {snapshot : SnapshotSource} {reach : Nat}
    (reached : snapSequenceOf snapshot ≤ reach) : checkAnchorReached snapshot reach = .ok () := by
  rw [checkAnchorReached, if_neg]
  rintro ⟨-, -, short⟩
  omega

section

variable {A E R : Type} [Application A E R]

def Replay.at (state : NodeState A) (dispatched : List (JournalEntry E)) : Replay A E :=
  { app := state.app, clock := .settled state.watermark, lineage := state.lineage, dispatched }

def entriesBehind (position : Nat) (entries : List (JournalEntry E)) : List (JournalEntry E) :=
  entries.filter (position < ·.sequence)

theorem entriesBehind_append (position : Nat) (front back : List (JournalEntry E)) :
    entriesBehind position (front ++ back)
      = entriesBehind position front ++ entriesBehind position back :=
  List.filter_append ..

theorem entriesBehind_eq_drop {entries : List (JournalEntry E)} {start : Nat}
    (consecutive : Consecutive (start + 1) (entries.map (·.sequence))) (count : Nat) :
    entriesBehind (start + count) entries = entries.drop count := by
  induction entries generalizing start count with
  | nil => simp [entriesBehind]
  | cons entry entries ih =>
    simp only [List.map_cons, consecutive_cons] at consecutive
    obtain ⟨first, rest⟩ := consecutive
    cases count with
    | zero =>
      have later := ih rest 0
      have kept : entriesBehind (start + 0) (entry :: entries)
          = entry :: entriesBehind (start + 1 + 0) entries := by
        simp only [entriesBehind, Nat.add_zero]
        rw [List.filter_cons_of_pos (by simp [first])]
        congr 1
        refine List.filter_congr fun other member => ?_
        have counted : other.sequence
            ∈ List.range' (start + 1 + 1) (entries.map (·.sequence)).length := by
          rw [← rest]
          exact List.mem_map_of_mem member
        rw [List.mem_range'_1] at counted
        simp only [decide_eq_decide]
        omega
      rw [kept, later]
      rfl
    | succ count =>
      rw [entriesBehind, List.filter_cons_of_neg (by simp [first])]
      rw [show start + (count + 1) = start + 1 + count by omega]
      exact ih rest count

theorem replayEntry.advance_at (position : Nat) (entry : JournalEntry E) (state : NodeState A)
    (dispatched : List (JournalEntry E)) :
    replayEntry.advance entry (.at state dispatched) position
      = .at (state.steps (entriesBehind position [entry]))
          (dispatched ++ entriesBehind position [entry]) := by
  by_cases behind : position < entry.sequence
  · simp [replayEntry.advance, behind, Nat.ne_of_gt behind, entriesBehind, NodeState.steps,
      NodeState.step, Replay.at, ReplayClock.running] <;> rfl
  · simp [replayEntry.advance, behind, entriesBehind, NodeState.steps, Replay.at,
      ReplayClock.atAnchor]

variable [Hashing]

def AnchorHolds (snapshot : SnapshotSource) (chain : SegmentChain) (sequence : Nat) : Prop :=
  ∀ taken ∈ snapshot, sequence = taken.sequence → chain.value = taken.chainHash

variable {snapshot : SnapshotSource} {segments done archived : List (Segment E)}
  {segment : Segment E}

theorem replayEntry_of_anchorHolds {chain : SegmentChain} {entry : JournalEntry E}
    (holds : AnchorHolds snapshot chain entry.sequence) (replay : Replay A E) :
    replayEntry snapshot chain entry replay
      = (replayEntry.advance entry replay (snapSequenceOf snapshot), .ok ()) := by
  cases snapshot with
  | none => rfl
  | some taken =>
    have fits : ¬ (entry.sequence = taken.sequence ∧ chain.value ≠ taken.chainHash) :=
      fun ⟨same, differs⟩ => differs (holds taken rfl same)
    exact if_neg fits

def AnchorHoldsAll (snapshot : SnapshotSource) :
    SegmentChain → List (Record E) → Prop
  | _, [] => True
  | chain, record :: records =>
    AnchorHolds snapshot (chain.absorb record.raw) record.entry.sequence ∧
      AnchorHoldsAll snapshot (chain.absorb record.raw) records

theorem visitRecords_replayEntry {chain : SegmentChain} {records : List (Record E)}
    (holds : AnchorHoldsAll snapshot chain records) (state : NodeState A)
    (dispatched : List (JournalEntry E)) :
    visitRecords (replayEntry snapshot) chain records (.at state dispatched)
      = (.at (state.steps (entriesBehind (snapSequenceOf snapshot) (records.map (·.entry))))
          (dispatched ++ entriesBehind (snapSequenceOf snapshot) (records.map (·.entry))),
        .ok ()) := by
  induction records generalizing chain state dispatched with
  | nil => simp [visitRecords, entriesBehind, NodeState.steps]
  | cons record records ih =>
    simp only [visitRecords, replayEntry_of_anchorHolds holds.1, replayEntry.advance_at]
    rw [ih holds.2, List.map_cons,
      show record.entry :: records.map (·.entry) = [record.entry] ++ records.map (·.entry) from rfl,
      entriesBehind_append, List.append_assoc, NodeState.steps, NodeState.steps,
      ← List.foldl_append]
    rfl

/-- A snapshot a node took at a position of the history, and recorded its clock in. -/
def TakenFrom (segments : List (Segment E)) (snapshot : SnapshotSource) : Prop :=
  ∀ taken ∈ snapshot, taken.tickWatermark.isSome ∧
    ∃ segment ∈ segments, segment.Covers taken.sequence ∧
      taken.chainHash = segment.valueAt taken.sequence

theorem TakenFrom.anchorHoldsAll (fits : TakenFrom segments snapshot)
    (links : segments.IsChain Segment.Links) (member : segment ∈ segments) :
    AnchorHoldsAll snapshot (.new segment.info.anchorHash) segment.records := by
  -- Along the records, the chain is the segment's own after as many of them.
  have along : ∀ front rest, segment.records = front ++ rest →
      AnchorHoldsAll snapshot (segment.chainAfter front.length) rest := by
    intro front rest split
    induction rest generalizing front with
    | nil => trivial
    | cons record rest ih =>
      have counted := segment.consecutive
      rw [split, List.map_append, consecutive_append, List.map_cons, consecutive_cons,
        List.length_map] at counted
      have absorbed : (segment.chainAfter front.length).absorb record.raw
          = segment.chainAfter (front ++ [record]).length := by
        have longer : segment.records = (front ++ [record]) ++ rest := by simp [split]
        rw [Segment.chainAfter, Segment.chainAfter, longer, List.take_left, List.append_assoc,
          List.take_left, List.foldl_append]
        rfl
      refine ⟨fun taken isTaken same => ?_, ?_⟩
      · obtain ⟨-, holder, holderIn, covers, valueEq⟩ := fits taken isTaken
        have here : segment.Covers taken.sequence := by
          have width := congrArg List.length split
          simp only [List.length_append, List.length_cons] at width
          rw [Segment.Covers, Segment.next, ← same, counted.2.1]
          omega
        rw [valueEq, Segment.valueAt_unique links holderIn member covers here, Segment.valueAt,
          absorbed, ← same, counted.2.1, List.length_append, List.length_singleton]
        congr 2
        omega
      · rw [absorbed]
        exact ih _ (by simp [split])
  exact along [] segment.records rfl

theorem TakenFrom.verifyBoundary (fits : TakenFrom segments snapshot)
    (links : segments.IsChain Segment.Links) (member : segment ∈ segments) :
    verifyBoundarySnapshotAnchor segment.info snapshot = .ok () := by
  cases snapshot with
  | none => rfl
  | some taken =>
    obtain ⟨-, holder, holderIn, covers, valueEq⟩ := fits taken rfl
    rw [verifyBoundarySnapshotAnchor, if_neg]
    rintro ⟨boundary, differs⟩
    have here : segment.Covers taken.sequence := by
      rw [Segment.Covers, Segment.next]
      omega
    apply differs
    rw [valueEq, Segment.valueAt_unique links holderIn member covers here, Segment.valueAt,
      boundary, Nat.sub_self, Segment.value_chainAfter_zero]

def startState (app : A) (snapshot : SnapshotSource) : NodeState A :=
  match snapshot with
  | none => .genesis app
  | some taken =>
    { app, watermark := taken.resumeTickWatermark none, lineage := taken.lineage }

def walkAfter (snapshot : SnapshotSource) (state : NodeState A) (done : List (Segment E)) :
    Walk A E :=
  let replayed := entriesBehind (snapSequenceOf snapshot) (entriesOf done)
  { replay := .at (state.steps replayed) replayed
    prevTailHash := done.getLast?.map (·.tail)
    expectedStart := done.getLast?.map (·.next)
    lastSeqSeen := max (snapSequenceOf snapshot) (entriesOf done).length
    journalMaxSeq := (entriesOf done).length
    archivedGenesisEntries := done.getLast?.map (·.info.genesisEntries) }

theorem startWalk_eq (app : A) (fits : TakenFrom segments snapshot) :
    startWalk app snapshot = walkAfter snapshot (startState app snapshot) [] := by
  cases snapshot with
  | none => rfl
  | some taken =>
    simp [startWalk, walkAfter, startState, ReplayClock.fromSnapshot, (fits taken rfl).1, entriesOf,
      entriesBehind, Replay.at, NodeState.steps]

theorem Linked.verifySegmentLink (linked : Linked (done ++ [segment])) (index : Nat)
    (snapshot : SnapshotSource) (state : NodeState A) :
    Melin.verifySegmentLink index segment.info (walkAfter snapshot state done).prevTailHash
      (walkAfter snapshot state done).expectedStart (snapSequenceOf snapshot + 1)
      (walkAfter snapshot state done).archivedGenesisEntries = .ok () := by
  rcases List.eq_nil_or_concat' done with rfl | ⟨front, before, rfl⟩
  · have first := linked.starts segment rfl
    simp [walkAfter, Melin.verifySegmentLink, first, pure, Except.pure]
  · have link : before.Links segment := by
      have whole := linked.links
      rw [List.append_assoc] at whole
      exact (List.isChain_append.mp whole).2.1.rel
    simp [walkAfter, Melin.verifySegmentLink, link.start, link.anchor, link.genesis, pure,
      Except.pure]

theorem TakenFrom.sequence_le (fits : TakenFrom segments snapshot) (history : Linked segments) :
    snapSequenceOf snapshot ≤ (entriesOf segments).length := by
  cases snapshot with
  | none => exact Nat.zero_le _
  | some taken =>
    obtain ⟨-, segment, member, covers, -⟩ := fits taken rfl
    exact history.position_le member covers

theorem walkAfter_pass (linked : Linked (done ++ [segment])) (snapshot : SnapshotSource)
    (state : NodeState A) (content : Bytes) (path : SegmentPath) (kind : SegmentKind)
    (tornTail : Option TornTail) :
    (walkAfter snapshot state done).pass (walkAfter snapshot state (done ++ [segment])).replay
        segment.info ((segment.endPlace content path kind).segmentEnd tornTail)
      = walkAfter snapshot state (done ++ [segment]) := by
  have starts := linked.next_last
  have last := segment.lastSequence_endPlace content path kind
  have next := segment.expectedSequence_endPlace content path kind
  have tail := segment.endPlace_chain_value content path kind
  have count : (entriesOf (done ++ [segment])).length
      = (entriesOf done).length + segment.records.length := by
    simp [entriesOf_snoc, Segment.entries]
  simp only [Walk.pass, walkAfter, Place.segmentEnd, nextStart, reachAfter, count, tail,
    List.getLast?_concat, Option.map_some, last] at next ⊢
  -- A segment without records moves no sequence; another one ends with its last record.
  split_ifs at next ⊢ with empty
  · simp [Segment.next, empty, starts]
  · have some : 0 < segment.records.length := List.length_pos_iff.mpr empty
    simp only [Segment.next, expectedSequence, starts, Walk.mk.injEq, true_and, and_true,
      Option.some.injEq] at next ⊢
    omega

variable [AppEvent E]

theorem walkSegment_linked (fits : TakenFrom segments snapshot) (history : Linked segments)
    (soFar : done ++ [segment] <+: segments) {content : Bytes} {path : SegmentPath}
    {kind : SegmentKind} (file : segment.ReadsFrom content path kind) (reads : ReadSchedule)
    (index : Nat) (state : NodeState A) :
    ∃ tornTail, walkSegment snapshot reads path kind index content (walkAfter snapshot state done)
      = ((walkAfter snapshot state (done ++ [segment])).replay,
          .ok (segment.info, (segment.endPlace content path kind).segmentEnd tornTail)) := by
  obtain ⟨header, tornTail, scanned⟩ := file
  obtain ⟨later, rfl⟩ := soFar
  have member : segment ∈ done ++ [segment] ++ later := by simp
  -- Behind the header, the records are the segment's, and the chain starts from its anchor.
  have replayed := visitRecords_replayEntry (fits.anchorHoldsAll history.links member)
    (state.steps (entriesBehind (snapSequenceOf snapshot) (entriesOf done)))
    (entriesBehind (snapSequenceOf snapshot) (entriesOf done))
  have visited := Place.visit_ok JournaledAppError.journal scanned replayed
  refine ⟨tornTail, ?_⟩
  rw [walkSegment_eq, walkBytes]
  simp only [header, history.front.verifySegmentLink index snapshot state,
    fits.verifyBoundary history.links member]
  rw [show (walkAfter snapshot state done).replay = .at _ _ from rfl, visited]
  simp only [walkAfter, entriesOf_snoc, entriesBehind_append, NodeState.steps, List.foldl_append]
  rfl

theorem walkArchives_linked (fits : TakenFrom segments snapshot) (history : Linked segments)
    (reads : ReadSchedule) (state : NodeState A) {archives : List (Nat × Bytes)}
    (files : List.Forall₂ (fun file segment =>
      segment.ReadsFrom file.2 (.archive file.1) .archived) archives archived)
    (soFar : done ++ archived <+: segments) :
    walkArchives snapshot reads archives (walkAfter snapshot state done)
      = (walkAfter snapshot state (done ++ archived), .ok ()) := by
  induction files generalizing done with
  | nil => simp [walkArchives]
  | @cons archive segment archives archived file _ ih =>
    have more : done ++ [segment] ++ archived <+: segments := by simpa using soFar
    have here : done ++ [segment] <+: segments := (List.prefix_append ..).trans more
    obtain ⟨tornTail, walked⟩ := walkSegment_linked fits history here file reads archive.1 state
    have linked : Linked (done ++ [segment]) := by
      obtain ⟨later, rfl⟩ := here
      exact history.front
    rw [walkArchives, walked]
    simp only [walkAfter_pass linked]
    rw [ih more]
    simp

structure JournalDir.Holds (dir : JournalDir) (archived : List (Segment E))
    (live : Option (Segment E)) : Prop where
  archives : List.Forall₂ (fun file segment =>
    segment.ReadsFrom file.2 (.archive file.1) .archived) dir.archives archived
  liveFile : Option.Rel (fun content segment => segment.ReadsFrom content .live .live) dir.live live
  linked : Linked (archived ++ live.toList)
  nonempty : archived ++ live.toList ≠ []

def openingOf (archived : List (Segment E)) : Option (Segment E) → Opening
  | none =>
    .create ((entriesOf archived).length + 1) ((archived.getLast?.map (·.tail)).getD .zero)
      ((archived.getLast?.map (·.info.genesisEntries)).getD none)
  | some segment =>
    .append (entriesOf (archived ++ [segment])).length
      (segment.info.sectorSize + (segment.records.flatMap (·.raw)).length)

theorem recoverRead_linked {dir : JournalDir} {live : Option (Segment E)}
    (holds : dir.Holds archived live) (fits : TakenFrom (archived ++ live.toList) snapshot)
    (reads : ReadSchedule) (app : A) :
    recoverRead app snapshot reads dir
      = ((walkAfter snapshot (startState app snapshot) (archived ++ live.toList)).replay,
          .ok (openingOf archived live)) := by
  have reached := fits.sequence_le holds.linked
  have walked := walkArchives_linked fits holds.linked reads (startState app snapshot)
    holds.archives (show [] ++ archived <+: archived ++ live.toList from List.prefix_append ..)
  rw [recoverRead, startWalk_eq app fits, walked]
  have liveHolds := holds.liveFile
  cases liveEq : dir.live with
  | none =>
    rw [liveEq] at liveHolds
    cases liveHolds
    -- Some archive was walked, or there would be no history at all.
    have someArchive : dir.archives ≠ [] := by
      intro none
      have := holds.archives
      rw [none] at this
      cases this
      exact holds.nonempty rfl
    simp only [Option.toList_none, List.append_nil] at reached
    simp only [walkLive, liveEq, if_neg someArchive, Option.toList_none, List.append_nil,
      List.nil_append, checkAnchorReached_ok (show snapSequenceOf snapshot
        ≤ (walkAfter snapshot (startState app snapshot) archived).journalMaxSeq from reached)]
    simp [walkAfter, openingOf, max_eq_right reached, bind, Except.bind, pure, Except.pure]
  | some content =>
    rw [liveEq] at liveHolds
    obtain ⟨file⟩ := liveHolds
    rename_i segment
    obtain ⟨tornTail, read⟩ := walkSegment_linked fits holds.linked (List.prefix_refl _) file reads
      0 (startState app snapshot)
    have passed := walkAfter_pass holds.linked snapshot (startState app snapshot) content .live .live
      tornTail
    have reach := congrArg Walk.journalMaxSeq passed
    have starts := holds.linked.next_last
    simp only [Walk.pass] at reach
    simp only [walkLive, liveEq, Option.toList_some, List.nil_append, read, reach,
      checkAnchorReached_ok (show snapSequenceOf snapshot ≤ (walkAfter snapshot
        (startState app snapshot) (archived ++ [segment])).journalMaxSeq from reached)]
    have last := segment.lastSequence_endPlace content .live .live
    simp only [Place.segmentEnd, last, openingOf, segment.endPlace_offset, entriesOf_snoc,
      List.length_append, Segment.entries, List.length_map, Segment.next, starts]
    split_ifs with empty
    · simp [empty, bind, Except.bind, pure, Except.pure]
    · have some : 0 < segment.records.length := List.length_pos_iff.mpr empty
      simp only [bind, Except.bind, pure, Except.pure]
      congr 3
      omega

theorem recoverRead_none {dir : JournalDir} {live : Option (Segment E)}
    (holds : dir.Holds archived live) (reads : ReadSchedule) (app : A) :
    recoverRead app none reads dir
      = (.at ((NodeState.genesis app).steps (entriesOf (archived ++ live.toList)))
          (entriesOf (archived ++ live.toList)), .ok (openingOf archived live)) := by
  have all : entriesBehind (snapSequenceOf none) (entriesOf (archived ++ live.toList))
      = entriesOf (archived ++ live.toList) := by
    rw [show snapSequenceOf none = 0 + 0 from rfl, entriesBehind_eq_drop holds.linked.consecutive 0,
      List.drop_zero]
  rw [recoverRead_linked holds (by rintro taken ⟨⟩), walkAfter, all]
  rfl

end

end Melin
