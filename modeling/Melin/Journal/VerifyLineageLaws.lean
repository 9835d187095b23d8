import Melin.Journal.SegmentWalk

/-! What the offline audit accepts. -/

namespace Melin

open Lib

section

variable {E : Type}

theorem visitRecords_count (records : List (Record E)) (chain : SegmentChain) (audit : Audit) :
    visitRecords (ε := JournalError) (fun _ entry audit => (audit.count entry, .ok ())) chain records
      audit = ((records.map (·.entry)).foldl Audit.count audit, .ok ()) := by
  induction records generalizing chain audit with
  | nil => rfl
  | cons record records ih =>
    simp only [visitRecords, List.map_cons, List.foldl_cons]
    exact ih _ _

theorem foldl_count (entries : List (JournalEntry E)) (audit : Audit) :
    (entries.foldl Audit.count audit).lastSequence
        = (entries.getLast?.map (·.sequence)).or audit.lastSequence ∧
      (entries.foldl Audit.count audit).lineageStart = audit.lineageStart := by
  induction entries using List.reverseRecOn with
  | nil => exact ⟨rfl, rfl⟩
  | append_singleton front last ih =>
    rw [List.foldl_append, List.getLast?_concat]
    exact ⟨rfl, ih.2⟩

variable [Hashing]

structure Segment.Chains (before after : Segment E) : Prop where
  start : after.info.startingSequence = before.next
  anchor : after.info.anchorHash = before.tail

structure Audit.Behind (audit : Audit) (before : Option (Segment E)) : Prop where
  tail : audit.prevTail = before.map (·.tail)
  start : audit.expectedStart = before.map (·.next)

theorem Audit.checkLink_ok_iff {audit : Audit} {before : Option (Segment E)}
    (behind : audit.Behind before) (index : Nat) (segment : Segment E) :
    audit.checkLink index segment.info = .ok () ↔ ∀ prior ∈ before, prior.Chains segment := by
  rw [Audit.checkLink, behind.tail, behind.start]
  cases before with
  | none => simp [pure, Except.pure]
  | some prior =>
    simp only [Option.map_some, Option.mem_def, Option.some.injEq, forall_eq']
    by_cases anchor : prior.tail = segment.info.anchorHash
    · by_cases start : segment.info.startingSequence = prior.next
      · simp only [anchor, start, ne_eq, not_true_eq_false, if_false, pure, Except.pure, true_iff]
        exact ⟨start, anchor.symm⟩
      · simp only [anchor, start, ne_eq, not_true_eq_false, not_false_eq_true, if_true, if_false,
          throw, throwThe, MonadExceptOf.throw, bind, Except.bind, pure, Except.pure, reduceCtorEq,
          false_iff]
        exact fun chains => start chains.start
    · simp only [anchor, ne_eq, not_false_eq_true, if_true, throw, throwThe, MonadExceptOf.throw,
        bind, Except.bind, reduceCtorEq, false_iff]
      exact fun chains => anchor chains.anchor.symm

variable [AppEvent E]

def Audit.passed (audit : Audit) (index : Nat) (source : SegmentSource) (info : FileHeaderInfo)
    (records : List (Record E)) (ending : SegmentEnd) : Audit :=
  let counted := (records.map (·.entry)).foldl Audit.count
    (if index = 0 then { audit with lineageStart := info.startingSequence } else audit)
  { counted with
    liveTornTail := if source.kind = .live then ending.tornTail else counted.liveTornTail
    prevTail := some ending.chain.value
    tailChainHash := some ending.chain.value
    expectedStart := some (nextStart info ending) }

def verifyBytes (index : Nat) (source : SegmentSource) (audit : Audit) :
    Except JournalError Audit :=
  match segmentHeader source.content with
  | .error err => .error err
  | .ok info => do
    audit.checkLink index info
    match (startPlace source.content source.path source.kind info).scan (E := E) with
    | (_, .error err) => .error err
    | (records, .ok tornTail) =>
      .ok (audit.passed index source info records
        (((startPlace source.content source.path source.kind info).advanceAll records).segmentEnd
          tornTail))

theorem verifySegment_eq (reads : ReadSchedule) (index : Nat) (source : SegmentSource)
    (audit : Audit) :
    verifySegment E reads index source audit = verifyBytes (E := E) index source audit := by
  have opened := JournalReader.openSegment_spec source.content (reads source.path) source.path
    source.kind
  unfold verifySegment verifyBytes
  cases header : segmentHeader source.content with
  | error err =>
    rw [header] at opened
    simp only [opened, bind, Except.bind]
  | ok info =>
    rw [header] at opened
    obtain ⟨reader, openEq, tracks, placeEq, infoEq⟩ := opened
    -- The oldest segment's start is noted before the link is checked, which does not read it.
    have same : (if index = 0 then { audit with lineageStart := info.startingSequence }
        else audit).checkLink index info = audit.checkLink index info := by
      split <;> rfl
    simp only [openEq, infoEq, bind, Except.bind, same]
    cases audit.checkLink index info with
    | error err => rfl
    | ok linked =>
      have visited := JournalReader.forEachEntry_eq id
        (fun _ (entry : JournalEntry E) (audit : Audit) => (audit.count entry, .ok ())) tracks
        (if index = 0 then { audit with lineageStart := info.startingSequence } else audit)
      rw [placeEq, Place.visit, visitRecords_count] at visited
      generalize reader.forEachEntry id
        (fun _ (entry : JournalEntry E) (audit : Audit) => (audit.count entry, .ok ()))
        (if index = 0 then { audit with lineageStart := info.startingSequence } else audit)
          = run at visited ⊢
      cases scanned : (startPlace source.content source.path source.kind info).scan (E := E) with
      | mk records verdict =>
        simp only [scanned] at visited ⊢
        obtain ⟨counted, err | after⟩ := run <;> cases verdict <;>
          simp only [Prod.map, Except.map, Prod.mk.injEq, Except.ok.injEq, Except.error.injEq,
            reduceCtorEq, and_false] at visited
        · rw [visited.2]
          rfl
        · obtain ⟨countedEq, endEq⟩ := visited
          have tornEq := congrArg SegmentEnd.tornTail endEq
          have chainEq := congrArg SegmentEnd.chain endEq
          simp only [JournalReader.segmentEnd] at tornEq chainEq
          simp only [id] at countedEq
          simp only [pure, Except.pure, Audit.passed, countedEq, tornEq, chainEq, endEq]

theorem verifyBytes_of_readsFrom {source : SegmentSource} {segment : Segment E}
    (file : segment.ReadsFrom source.content source.path source.kind) (index : Nat)
    (audit : Audit) :
    ∃ after : Audit, after.Behind (some segment) ∧ verifyBytes (E := E) index source audit
      = (audit.checkLink index segment.info).bind fun _ => .ok after := by
  obtain ⟨header, tornTail, scanned⟩ := file
  refine ⟨audit.passed index source segment.info segment.records
    ((segment.endPlace source.content source.path source.kind).segmentEnd tornTail), ⟨?_, ?_⟩, ?_⟩
  · simp [Audit.passed, Place.segmentEnd, segment.endPlace_chain, Segment.tail]
  · have next := segment.expectedSequence_endPlace source.content source.path source.kind
    simp only [Audit.passed, Place.segmentEnd, nextStart, Option.map_some, ← next]
    cases (segment.endPlace source.content source.path source.kind).lastSequence <;> rfl
  · simp only [verifyBytes, header, scanned]
    rfl

theorem walkSources_verifyBytes {sources : List SegmentSource} {segments : List (Segment E)}
    (files : ReadAs sources segments) {index : Nat} {audit after : Audit}
    (walked : walkSources (verifyBytes (E := E)) index sources audit = .ok after) :
    after.lastSequence = ((entriesOf segments).getLast?.map (·.sequence)).or audit.lastSequence ∧
      after.lineageStart = if index = 0 then
        (segments.head?.map (·.info.startingSequence)).getD audit.lineageStart
        else audit.lineageStart := by
  induction files generalizing index audit with
  | nil =>
    cases walked
    exact ⟨rfl, by simp⟩
  | @cons source segment sources segments file _ ih =>
    obtain ⟨header, tornTail, scanned⟩ := file
    rw [walkSources] at walked
    simp only [verifyBytes, header, scanned, bind, Except.bind] at walked
    cases linked : audit.checkLink index segment.info with
    | error err => simp [linked] at walked
    | ok done =>
      simp only [linked] at walked
      obtain ⟨lastEq, startEq⟩ := ih walked
      have counted := foldl_count (segment.records.map (·.entry))
        (if index = 0 then { audit with lineageStart := segment.info.startingSequence } else audit)
      rw [lastEq, startEq, if_neg (Nat.succ_ne_zero index)]
      rw [show entriesOf (segment :: segments) = segment.entries ++ entriesOf segments from rfl,
        List.getLast?_append, Option.map_or, Option.or_assoc]
      simp only [Audit.passed, counted]
      split <;> exact ⟨rfl, rfl⟩

theorem verifyBytes_unreadable {source : SegmentSource} (unreadable : ∀ segment : Segment E,
      ¬ segment.ReadsFrom source.content source.path source.kind) (index : Nat) (audit : Audit) :
    ∃ err, verifyBytes (E := E) index source audit = .error err := by
  unfold verifyBytes
  cases header : segmentHeader source.content with
  | error err => exact ⟨err, rfl⟩
  | ok info =>
    obtain ⟨records, err, scanned⟩ := segment_unreadable header unreadable
    simp only [scanned]
    cases audit.checkLink index info with
    | error refused => exact ⟨refused, rfl⟩
    | ok linked => exact ⟨err, rfl⟩

theorem verifySegments_eq_walkSources (reads : ReadSchedule) (index : Nat)
    (sources : List SegmentSource) (audit : Audit) :
    verifySegments E reads index sources audit
      = walkSources (verifyBytes (E := E)) index sources audit := by
  induction sources generalizing index audit with
  | nil => rfl
  | cons source sources ih =>
    rw [verifySegments, walkSources, verifySegment_eq]
    congr 1
    funext after
    exact ih (index + 1) after

theorem audit_checksLinks : ChecksLinks (E := E) (verifyBytes (E := E)) Audit.Behind
    (fun before segment => ∀ prior ∈ before, prior.Chains segment) where
  follows index source audit before segment behind file follows := by
    obtain ⟨after, afterBehind, verified⟩ := verifyBytes_of_readsFrom file index audit
    rw [(audit.checkLink_ok_iff behind index segment).mpr follows] at verified
    exact ⟨after, verified, afterBehind⟩
  breaks index source audit before segment behind file breaks := by
    obtain ⟨after, -, verified⟩ := verifyBytes_of_readsFrom file index audit
    cases linked : audit.checkLink index segment.info with
    | ok done => exact absurd ((audit.checkLink_ok_iff behind index segment).mp linked) breaks
    | error err =>
      rw [linked] at verified
      exact ⟨err, verified⟩
  unreadable index _ audit unreadable := verifyBytes_unreadable unreadable index audit

theorem verifyLineage_report {reads : ReadSchedule} {dir : JournalDir} {report : LineageReport}
    (verified : verifyLineage E reads dir = .ok report) {segments : List (Segment E)}
    (files : ReadAs dir.sources segments) :
    report.lastSequence = (entriesOf segments).getLast?.map (·.sequence) ∧
      ∀ first ∈ segments.head?, report.lineageStart = first.info.startingSequence := by
  simp only [verifyLineage, verifySegments_eq_walkSources, bind, Except.bind] at verified
  split at verified
  · cases verified
  split at verified
  · cases verified
  rename_i walked
  cases verified
  obtain ⟨lastEq, startEq⟩ := walkSources_verifyBytes files walked
  refine ⟨by simpa [Audit.start] using lastEq, fun first isFirst => ?_⟩
  rw [startEq, if_pos rfl, isFirst]
  rfl

theorem verifyLineage_ok_iff (reads : ReadSchedule) (dir : JournalDir) :
    (∃ report, verifyLineage E reads dir = .ok report) ↔
      dir.sources ≠ [] ∧ ∃ segments : List (Segment E), ReadAs dir.sources segments ∧
        segments.IsChain Segment.Chains := by
  have start : Audit.start.Behind (none : Option (Segment E)) := ⟨rfl, rfl⟩
  have walked := audit_checksLinks.walkSources_ok_iff 0 dir.sources start
  rw [← verifySegments_eq_walkSources reads] at walked
  have chain : ∀ segments : List (Segment E),
      FollowsAll (fun before segment => ∀ prior ∈ before, prior.Chains segment) none segments
        ↔ segments.IsChain Segment.Chains := by
    rintro (_ | ⟨first, segments⟩)
    · simp [FollowsAll]
    · have carries : ∀ prior segment : Segment E,
          (∀ other ∈ some prior, other.Chains segment) ↔ prior.Chains segment := by simp
      rw [FollowsAll, followsAll_iff carries]
      simp
  simp only [chain] at walked
  rw [← walked]
  -- The report only restates what the walk ended with.
  unfold verifyLineage
  by_cases empty : dir.sources = []
  · simp [empty, throw, throwThe, MonadExceptOf.throw, bind, Except.bind]
  · simp only [pure, Except.pure, bind, Except.bind, ne_eq, empty, not_false_eq_true, true_and,
      if_false]
    cases verifySegments E reads 0 dir.sources .start <;> simp

end

end Melin
