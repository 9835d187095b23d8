import Melin.Examples.CounterJournal
import Melin.Journal.VerifyLineageLaws
import Melin.Transport.FileWalk
import Melin.Transport.WriterRun

/-! The offline audit against recovery's own checks of the same journal. -/

namespace Melin

open Lib

section

variable {E : Type} [Hashing]

def Segment.SameGenesis (before after : Segment E) : Prop :=
  after.info.genesisEntries = before.info.genesisEntries

theorem Segment.links_iff {before after : Segment E} :
    before.Links after ↔ before.Chains after ∧ before.SameGenesis after :=
  ⟨fun links => ⟨⟨links.start, links.anchor⟩, links.genesis⟩,
    fun ⟨chains, genesis⟩ => ⟨chains.start, chains.anchor, genesis⟩⟩

theorem isChain_links {segments : List (Segment E)} (chains : segments.IsChain Segment.Chains)
    (same : segments.IsChain Segment.SameGenesis) : segments.IsChain Segment.Links := by
  induction segments with
  | nil => exact .nil
  | cons first segments ih =>
    cases segments with
    | nil => exact .singleton first
    | cons second segments =>
      rw [List.isChain_cons_cons] at chains same ⊢
      exact ⟨Segment.links_iff.mpr ⟨chains.1, same.1⟩, ih chains.2 same.2⟩

variable [AppEvent E]

def checkBytes (historyFloor : Nat) (_ : Nat) (source : SegmentSource) (state : LinkState) :
    Except JournaledAppError LinkState :=
  match segmentHeader source.content with
  | .error err => .error (.journal err)
  | .ok info => do
    verifySegmentLink source.path.number info state.prevTailHash state.expectedStart historyFloor
      state.genesisEntries
    match (startPlace source.content source.path source.kind info).scan (E := E) with
    | (_, .error err) => .error (.journal err)
    | (records, .ok tornTail) =>
      let ending := ((startPlace source.content source.path source.kind info).advanceAll
        records).segmentEnd tornTail
      .ok { prevTailHash := some ending.chain.value, expectedStart := some (nextStart info ending)
            genesisEntries := some info.genesisEntries }

def recoveryChecks (historyFloor : Nat) (dir : JournalDir) : Except JournaledAppError LinkState :=
  if dir.sources = [] then
    .error (.io .notFound "no live journal and no archives — nothing to recover")
  else walkSources (checkBytes (E := E) historyFloor) 0 dir.sources
    { prevTailHash := none, expectedStart := none, genesisEntries := none }

theorem recovery_checksLinks (historyFloor : Nat) :
    ChecksLinks (E := E) (checkBytes (E := E) historyFloor) LinkState.Behind
      (RecoveryFollows historyFloor) := by
  -- A segment that reads back passes exactly when it passes the link check.
  have ofReads : ∀ (index : Nat) (source : SegmentSource) (state : LinkState) (segment : Segment E),
      segment.ReadsFrom source.content source.path source.kind →
      ∃ after : LinkState, after.Behind (some segment) ∧
        checkBytes (E := E) historyFloor index source state
          = (verifySegmentLink source.path.number segment.info state.prevTailHash
              state.expectedStart historyFloor state.genesisEntries).bind fun _ => .ok after := by
    intro index source state segment ⟨header, tornTail, scanned⟩
    refine ⟨{ prevTailHash := some segment.tail, expectedStart := some segment.next
              genesisEntries := some segment.info.genesisEntries }, ⟨rfl, rfl, rfl⟩, ?_⟩
    simp only [checkBytes, header, scanned,
      ← segment.nextStart_endPlace source.content source.path source.kind tornTail,
      ← segment.endPlace_chain_value source.content source.path source.kind]
    rfl
  constructor
  · intro index source state before segment behind file follows
    obtain ⟨after, afterBehind, checked⟩ := ofReads index source state segment file
    rw [(verifySegmentLink_ok_iff behind _ historyFloor segment).mpr follows] at checked
    exact ⟨after, checked, afterBehind⟩
  · intro index source state before segment behind file breaks
    obtain ⟨after, -, checked⟩ := ofReads index source state segment file
    cases linked : verifySegmentLink source.path.number segment.info state.prevTailHash
        state.expectedStart historyFloor state.genesisEntries with
    | ok done => exact absurd ((verifySegmentLink_ok_iff behind _ _ segment).mp linked) breaks
    | error err =>
      rw [linked] at checked
      exact ⟨err, checked⟩
  · intro index source state unreadable
    unfold checkBytes
    cases header : segmentHeader source.content with
    | error err => exact ⟨.journal err, rfl⟩
    | ok info =>
      obtain ⟨records, err, scanned⟩ := segment_unreadable header unreadable
      simp only [scanned]
      cases verifySegmentLink source.path.number info state.prevTailHash state.expectedStart
          historyFloor state.genesisEntries with
      | error refused => exact ⟨refused, rfl⟩
      | ok linked => exact ⟨.journal err, rfl⟩

theorem recoveryChecks_ok_iff (historyFloor : Nat) (dir : JournalDir) :
    (∃ state, recoveryChecks (E := E) historyFloor dir = .ok state) ↔
      dir.sources ≠ [] ∧ ∃ segments : List (Segment E), ReadAs dir.sources segments ∧
        segments.IsChain Segment.Links ∧
        ∀ first ∈ segments.head?, first.info.startingSequence ≤ historyFloor := by
  have start : LinkState.Behind { prevTailHash := none, expectedStart := none
                                  genesisEntries := none } (none : Option (Segment E)) :=
    ⟨rfl, rfl, rfl⟩
  have links : ∀ prior segment : Segment E,
      RecoveryFollows historyFloor (some prior) segment ↔ prior.Links segment :=
    fun _ _ => recoveryFollows_some
  have chain : ∀ segments : List (Segment E),
      FollowsAll (RecoveryFollows historyFloor) none segments ↔ segments.IsChain Segment.Links ∧
        ∀ first ∈ segments.head?, first.info.startingSequence ≤ historyFloor := by
    rintro (_ | ⟨first, segments⟩)
    · simp [FollowsAll]
    · rw [FollowsAll, followsAll_iff links, and_comm]
      refine and_congr_right fun _ => ⟨?_, fun floor => ⟨by rintro prior ⟨⟩, fun _ => ?_⟩⟩
      · rintro follows other ⟨⟩
        exact follows.floor rfl
      · exact floor first rfl
  have walked := (recovery_checksLinks historyFloor).walkSources_ok_iff 0 dir.sources start
  simp only [chain] at walked
  rw [← walked]
  unfold recoveryChecks
  by_cases empty : dir.sources = []
  · simp [empty]
  · simp only [ne_eq, empty, not_false_eq_true, true_and, if_false]

section

variable {A R : Type} [Application A E R]

theorem links_of_recoverRead {app : A} {snapshot : SnapshotSource} {reads : ReadSchedule}
    {dir : JournalDir} {opening : Opening}
    (accepted : (recoverRead app snapshot reads dir).2 = .ok opening) :
    dir.sources ≠ [] ∧ ∃ segments : List (Segment E), ReadAs dir.sources segments ∧
      segments.IsChain Segment.Links := by
  constructor
  · intro empty
    have noArchives : dir.archives = [] := by
      have none := (List.append_eq_nil_iff.mp empty).1
      simpa using none
    have noLive : dir.live = none := by
      have none := (List.append_eq_nil_iff.mp empty).2
      simpa using none
    simp [recoverRead, noArchives, noLive, walkArchives, walkLive] at accepted
  · cases walked : walkFiles snapshot dir.sources (startWalk app snapshot) with
    | mk walk result =>
      have read := (recoverRead_walkFiles app snapshot reads dir walked).2
      cases result with
      | error err => cases accepted.symm.trans read
      | ok done =>
        -- The walk starts behind no segment.
        have start : (startWalk app snapshot : Walk A E).links.Behind
            (none : Option (Segment E)) := ⟨rfl, rfl, rfl⟩
        obtain ⟨segments, files, follows, -⟩ := walkFiles_ok start walked
        refine ⟨segments, files, ?_⟩
        cases segments with
        | nil => exact .nil
        | cons first segments => exact (followsAll_iff fun _ _ => recoveryFollows_some).mp follows.2

end

/--
The audit agrees with recovery's own checks on a journal exactly when it has no genesis to miss.

The audit never compares genesis lengths: it accepts neighbours that carry one another on in chain
and sequence and record different ones, which recovery's link check refuses.
-/
theorem verifyLineage_agrees_iff (reads : ReadSchedule) (dir : JournalDir) :
    ((∃ report, verifyLineage E reads dir = .ok report) ↔
        ∃ historyFloor state, recoveryChecks (E := E) historyFloor dir = .ok state) ↔
      ∀ segments : List (Segment E), ReadAs dir.sources segments →
        segments.IsChain Segment.Chains → segments.IsChain Segment.SameGenesis := by
  have recovers : (∃ historyFloor state, recoveryChecks (E := E) historyFloor dir = .ok state) ↔
      dir.sources ≠ [] ∧ ∃ segments : List (Segment E), ReadAs dir.sources segments ∧
        segments.IsChain Segment.Links := by
    simp only [recoveryChecks_ok_iff, exists_and_left, and_congr_right_iff]
    refine fun _ => ⟨fun ⟨_, segments, files, links, _⟩ => ⟨segments, files, links⟩, ?_⟩
    -- Some floor lies above any start.
    rintro ⟨segments, files, links⟩
    cases segments with
    | nil => exact ⟨0, [], files, links, by simp⟩
    | cons first segments =>
      exact ⟨first.info.startingSequence, first :: segments, files, links,
        by rintro other ⟨⟩; exact le_rfl⟩
  rw [verifyLineage_ok_iff, recovers]
  constructor
  · intro agree segments files chains
    by_cases empty : dir.sources = []
    · rw [empty] at files
      cases files
      exact .nil
    · -- The audit accepts, so recovery does, and it read the same segments.
      obtain ⟨-, others, otherFiles, links⟩ := agree.mp ⟨empty, segments, files, chains⟩
      rw [files.unique otherFiles]
      exact links.imp fun _ _ link => (Segment.links_iff.mp link).2
  · intro same
    constructor
    · rintro ⟨nonempty, segments, files, chains⟩
      exact ⟨nonempty, segments, files, isChain_links chains (same segments files chains)⟩
    · rintro ⟨nonempty, segments, files, links⟩
      exact ⟨nonempty, segments, files, links.imp fun _ _ link => (Segment.links_iff.mp link).1⟩

end

def sampleForeign : WrittenSegment CounterEvent :=
  { sampleLive with genesisEntries := some 1, genesisFits := by simp }

def sampleMixedDir : JournalDir where
  archives := [(1, sampleArchived.bytes ++ List.replicate 0 0)]
  live := some (sampleForeign.bytes ++ List.replicate 5 0)
  ascending := by simp

/-- The audit accepts the mixed directory, and recovery refuses it from any floor on. -/
theorem verifyLineage_accepts_mixed :
    ¬ ((∃ report, verifyLineage CounterEvent (fun _ _ => 1) sampleMixedDir = .ok report) ↔
        ∃ historyFloor state, recoveryChecks (E := CounterEvent) historyFloor sampleMixedDir
          = .ok state) := by
  have files : ReadAs sampleMixedDir.sources [sampleArchived.segment, sampleForeign.segment] :=
    .cons (sampleArchived.readsFrom 0 (.archive 1) .archived)
      (.cons (sampleForeign.readsFrom 5 .live .live) .nil)
  have chains : sampleArchived.segment.Chains sampleForeign.segment :=
    ⟨sampleArchived_links.start, sampleArchived_links.anchor⟩
  have accepted : ∃ report, verifyLineage CounterEvent (fun _ _ => 1) sampleMixedDir
      = .ok report := by
    rw [verifyLineage_ok_iff]
    refine ⟨by simp [sampleMixedDir, JournalDir.sources], _, files, ?_⟩
    simpa using chains
  intro agree
  obtain ⟨historyFloor, state, checked⟩ := agree.mp accepted
  obtain ⟨-, others, otherFiles, linked, -⟩ := (recoveryChecks_ok_iff _ _).mp ⟨state, checked⟩
  rw [← files.unique otherFiles, List.isChain_cons_cons] at linked
  -- Their genesis lengths are zero and one.
  exact absurd linked.1.genesis (by decide)

section

variable {A E R : Type} [Application A E R] [AppEvent E] [LawfulAppEvent E] [Hashing]

/-- Every run of the journal writer leaves a directory that the audit accepts, to its last entry. -/
theorem run_audited {fs : Fs NodeFile} (blank : Blank fs) (salt : Digest) (prealloc : Prealloc)
    (app : A) (ops : List (WriterOp E)) (journalable : ∀ op ∈ ops, op.Journalable)
    (fits : (ops.map (·.appends)).sum + 1 < 2 ^ 64) (reads : ReadSchedule) :
    ∃ (start state : WriterState E) (report : LineageReport),
      WriterState.create fs salt prealloc = .ok start ∧ start.run app ops = .ok state ∧
      state.written.map (·.appended) = flushedBy ops ∧
      verifyLineage E reads (journalDir state.fs) = .ok report ∧
      report.lastSequence = state.written.getLast?.map (·.entry.sequence) ∧
      report.lineageStart = 1 := by
  obtain ⟨start, state, archived, file, live, pending, created, ran, holds, flushed, -⟩ :=
    WriterState.run_holds blank salt prealloc app ops journalable fits
  obtain ⟨archives, liveFile, linked, -⟩ := holds.disk.journalDir holds.linked
  have files : ReadAs (journalDir state.fs).sources ((archived ++ [live]).map (·.segment)) := by
    rw [List.map_append]
    refine List.rel_append (List.forall₂_map_left_iff.mpr archives) ?_
    cases found : (journalDir state.fs).live with
    | none => rw [found] at liveFile; cases liveFile
    | some content =>
      rw [found] at liveFile
      cases liveFile with
      | some read => exact .cons read .nil
  obtain ⟨report, verified⟩ := (verifyLineage_ok_iff (E := E) reads (journalDir state.fs)).mpr
    ⟨fun none => by simp [none, ReadAs] at files, _, files,
      holds.linked.links.imp fun _ _ link => (Segment.links_iff.mp link).1⟩
  obtain ⟨last, first⟩ := verifyLineage_report verified files
  refine ⟨start, state, report, created, ran, flushed, verified, ?_, ?_⟩
  · rw [last, ← stampsOf_entries, ← holds.written, List.getLast?_map, Option.map_map]
    rfl
  · have some : ((archived ++ [live]).map (·.segment)).head?.isSome := by simp
    obtain ⟨segment, isFirst⟩ := Option.isSome_iff_exists.mp some
    rw [first segment isFirst, holds.linked.starts segment isFirst]

end

theorem run_audited_sample :
    ∃ (start state : WriterState CounterEvent) (report : LineageReport),
      WriterState.create emptyFs .zero samplePrealloc = .ok start ∧
      start.run (⟨0⟩ : Counter) sampleOps = .ok state ∧ state.written.length = 2 ∧
      verifyLineage CounterEvent (fun _ _ => 0) (journalDir state.fs) = .ok report ∧
      report.lineageStart = 1 := by
  obtain ⟨start, state, report, created, ran, flushed, verified, -, first⟩ :=
    run_audited emptyFs_blank .zero samplePrealloc (⟨0⟩ : Counter) sampleOps
    (by simp [sampleOps, WriterOp.Journalable, JournalEvent.isShutdown]) (by decide) fun _ _ => 0
  refine ⟨start, state, report, created, ran, ?_, verified, first⟩
  rw [← List.length_map, flushed]
  rfl

end Melin
