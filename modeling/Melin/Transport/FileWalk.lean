import Melin.Journal.SegmentWalk
import Melin.Transport.RecoveryLaws

/-! Recovery's walk, said over the list of a journal's files. -/

namespace Melin

open Lib

/-- What recovery's checks carry from segment to segment. -/
structure LinkState where
  prevTailHash : Option Digest
  expectedStart : Option Nat
  genesisEntries : Option (Option Nat)

def SegmentPath.number : SegmentPath → Nat
  | .archive index => index
  | .live => 0

section

variable {E : Type} [Hashing]

structure LinkState.Behind (state : LinkState) (before : Option (Segment E)) : Prop where
  tail : state.prevTailHash = before.map (·.tail)
  start : state.expectedStart = before.map (·.next)
  genesis : state.genesisEntries = before.map (·.info.genesisEntries)

structure RecoveryFollows (historyFloor : Nat) (before : Option (Segment E)) (segment : Segment E) :
    Prop where
  links : ∀ prior ∈ before, prior.Links segment
  floor : before = none → segment.info.startingSequence ≤ historyFloor

theorem recoveryFollows_some {historyFloor : Nat} {prior segment : Segment E} :
    RecoveryFollows historyFloor (some prior) segment ↔ prior.Links segment :=
  ⟨fun follows => follows.links prior rfl,
    fun links => ⟨by rintro other ⟨⟩; exact links, by simp⟩⟩

theorem verifySegmentLink_ok_iff {state : LinkState} {before : Option (Segment E)}
    (behind : state.Behind before) (index historyFloor : Nat) (segment : Segment E) :
    verifySegmentLink index segment.info state.prevTailHash state.expectedStart historyFloor
      state.genesisEntries = .ok () ↔ RecoveryFollows historyFloor before segment := by
  unfold verifySegmentLink
  rw [behind.tail, behind.start, behind.genesis]
  cases before with
  | none =>
    by_cases early : segment.info.startingSequence ≤ historyFloor
    · simp only [Option.map_none, Nat.not_lt.mpr early, if_false, pure, Except.pure, true_iff]
      exact ⟨by rintro prior ⟨⟩, fun _ => early⟩
    · simp only [Option.map_none, Nat.lt_of_not_le early, if_true, throw, throwThe,
        MonadExceptOf.throw, pure, Except.pure, reduceCtorEq, false_iff]
      exact fun follows => early (follows.floor rfl)
  | some prior =>
    rw [recoveryFollows_some]
    by_cases genesis : prior.info.genesisEntries = segment.info.genesisEntries
    · by_cases anchor : prior.tail = segment.info.anchorHash
      · by_cases start : segment.info.startingSequence = prior.next
        · simp only [Option.map_some, genesis, anchor, start, ne_eq, not_true_eq_false, if_false,
            pure, Except.pure, bind, Except.bind, true_iff]
          exact ⟨start, anchor.symm, genesis.symm⟩
        · simp only [Option.map_some, genesis, anchor, start, ne_eq, not_true_eq_false,
            not_false_eq_true, if_true, if_false, throw, throwThe, MonadExceptOf.throw, pure,
            Except.pure, bind, Except.bind, reduceCtorEq, false_iff]
          exact fun links => start links.start
      · simp only [Option.map_some, genesis, anchor, ne_eq, not_true_eq_false, not_false_eq_true,
          if_true, if_false, throw, throwThe, MonadExceptOf.throw, pure, Except.pure, bind,
          Except.bind, reduceCtorEq, false_iff]
        exact fun links => anchor links.anchor.symm
    · simp only [Option.map_some, genesis, ne_eq, not_false_eq_true, if_true, throw, throwThe,
        MonadExceptOf.throw, bind, Except.bind, reduceCtorEq, false_iff]
      exact fun links => genesis links.genesis.symm

end

section

variable {A E R : Type} [Application A E R] [Hashing]

theorem visitRecords_dispatched (snapshot : SnapshotSource) (chain : SegmentChain)
    (records : List (Record E)) (replay : Replay A E) :
    ∃ seen, seen.Sublist (records.map (·.entry)) ∧
      (visitRecords (replayEntry snapshot) chain records replay).1.dispatched
        = replay.dispatched ++ seen := by
  induction records generalizing chain replay with
  | nil => exact ⟨[], .slnil, (List.append_nil _).symm⟩
  | cons record records ih =>
    -- One entry is refused, skipped or dispatched.
    have one : ∃ seen, seen.Sublist [record.entry] ∧
        (replayEntry snapshot (chain.absorb record.raw) record.entry replay).1.dispatched
          = replay.dispatched ++ seen := by
      have advanced : ∃ seen, seen.Sublist [record.entry] ∧
          (replayEntry.advance record.entry replay (snapSequenceOf snapshot)).dispatched
            = replay.dispatched ++ seen := by
        by_cases behind : record.entry.sequence > snapSequenceOf snapshot
        · exact ⟨[record.entry], .refl _, by simp [replayEntry.advance, behind]⟩
        · exact ⟨[], List.nil_sublist _, by simp [replayEntry.advance, behind]⟩
      simp only [replayEntry]
      split
      · split
        · exact ⟨[], List.nil_sublist _, (List.append_nil _).symm⟩
        · exact advanced
      · exact advanced
    obtain ⟨front, frontIn, frontSeen⟩ := one
    simp only [visitRecords, List.map_cons]
    rcases handled : replayEntry snapshot (chain.absorb record.raw) record.entry replay with
      ⟨after, err | ⟨⟩⟩
    · rw [handled] at frontSeen
      exact ⟨front, frontIn.trans (List.singleton_sublist.mpr List.mem_cons_self), frontSeen⟩
    · rw [handled] at frontSeen
      obtain ⟨back, backIn, backSeen⟩ := ih (chain.absorb record.raw) after
      refine ⟨front ++ back, frontIn.append backIn, ?_⟩
      rw [backSeen, frontSeen, List.append_assoc]

end

section

variable {A E R : Type} [Application A E R] [AppEvent E] [Hashing]

def Walk.links (walk : Walk A E) : LinkState :=
  { prevTailHash := walk.prevTailHash, expectedStart := walk.expectedStart
    genesisEntries := walk.archivedGenesisEntries }

def walkFile (snapshot : SnapshotSource) (source : SegmentSource) (walk : Walk A E) :
    Walk A E × Except JournaledAppError Unit :=
  match walkBytes snapshot source.path source.kind source.path.number source.content walk with
  | (replay, .error err) => ({ walk with replay }, .error err)
  | (replay, .ok (header, ending)) => (walk.pass replay header ending, .ok ())

def walkFiles (snapshot : SnapshotSource) :
    List SegmentSource → Walk A E → Walk A E × Except JournaledAppError Unit
  | [], walk => (walk, .ok ())
  | source :: sources, walk =>
    match walkFile snapshot source walk with
    | (walk, .error err) => (walk, .error err)
    | (walk, .ok ()) => walkFiles snapshot sources walk

theorem walkFiles_append (snapshot : SnapshotSource) (front back : List SegmentSource)
    (walk : Walk A E) :
    walkFiles snapshot (front ++ back) walk =
      match walkFiles snapshot front walk with
      | (walk, .error err) => (walk, .error err)
      | (walk, .ok ()) => walkFiles snapshot back walk := by
  induction front generalizing walk with
  | nil => rfl
  | cons source front ih =>
    simp only [List.cons_append, walkFiles]
    obtain ⟨after, err | ⟨⟩⟩ := walkFile snapshot source walk
    · rfl
    · exact ih after

theorem walkArchives_eq_walkFiles (snapshot : SnapshotSource) (reads : ReadSchedule)
    (archives : List (Nat × Bytes)) (walk : Walk A E) :
    walkArchives snapshot reads archives walk = walkFiles snapshot
      (archives.map fun (index, content) => ⟨.archive index, .archived, content⟩) walk := by
  induction archives generalizing walk with
  | nil => rfl
  | cons archive archives ih =>
    obtain ⟨index, content⟩ := archive
    simp only [walkArchives, walkSegment_eq, List.map_cons, walkFiles, walkFile, SegmentPath.number]
    generalize walkBytes snapshot (.archive index) .archived index content walk = walked
    obtain ⟨replay, err | ⟨header, ending⟩⟩ := walked
    · rfl
    · exact ih _

variable {walk : Walk A E} {source : SegmentSource} {before : Option (Segment E)}

theorem recoverRead_walkFiles (app : A) (snapshot : SnapshotSource) (reads : ReadSchedule)
    (dir : JournalDir) {result : Except JournaledAppError Unit}
    (walked : walkFiles snapshot dir.sources (startWalk app snapshot) = (walk, result)) :
    (recoverRead app snapshot reads dir).1 = walk.replay ∧
      match result with
      | .error err => (recoverRead app snapshot reads dir).2 = .error err
      | .ok () => dir.sources ≠ [] → checkAnchorReached snapshot walk.journalMaxSeq = .ok () →
          ∃ opening, (recoverRead app snapshot reads dir).2 = .ok opening := by
  rw [JournalDir.sources, walkFiles_append] at walked
  rw [recoverRead, walkArchives_eq_walkFiles]
  generalize walkFiles snapshot (dir.archives.map fun (index, content) =>
    SegmentSource.mk (.archive index) .archived content) (startWalk app snapshot) = front at walked ⊢
  obtain ⟨behind, err | ⟨⟩⟩ := front
  · obtain ⟨rfl, rfl⟩ := Prod.mk.inj walked
    exact ⟨rfl, rfl⟩
  · cases live : dir.live with
    | none =>
      simp only [live, Option.map_none, Option.toList_none, walkFiles, Prod.mk.injEq] at walked
      obtain ⟨rfl, rfl⟩ := walked
      simp only [walkLive, live]
      split
      · rename_i empty
        exact ⟨rfl, fun nonempty => absurd (by simp [JournalDir.sources, empty, live]) nonempty⟩
      · exact ⟨rfl, fun _ reached => ⟨_, by rw [reached]; rfl⟩⟩
    | some content =>
      simp only [live, Option.map_some, Option.toList_some, walkFiles, walkFile,
        SegmentPath.number] at walked
      simp only [walkLive, live, walkSegment_eq]
      generalize walkBytes snapshot .live .live 0 content behind = last at walked ⊢
      obtain ⟨replay, err | ⟨header, ending⟩⟩ := last
      · obtain ⟨rfl, rfl⟩ := Prod.mk.inj walked
        exact ⟨rfl, rfl⟩
      · obtain ⟨rfl, rfl⟩ := Prod.mk.inj walked
        refine ⟨rfl, fun _ reached => ?_⟩
        rw [Walk.pass] at reached
        simp only [reached]
        exact ⟨_, rfl⟩

def SegmentSource.entries (E : Type) [AppEvent E] (source : SegmentSource) :
    List (JournalEntry E) :=
  match segmentHeader source.content with
  | .error _ => []
  | .ok info =>
    ((startPlace source.content source.path source.kind info).scan (E := E)).1.map (·.entry)

theorem Segment.ReadsFrom.entries_eq {segment : Segment E}
    (reads : segment.ReadsFrom source.content source.path source.kind) :
    source.entries E = segment.entries := by
  obtain ⟨header, tornTail, scanned⟩ := reads
  simp only [SegmentSource.entries, header, scanned, Segment.entries]

def entriesIn (E : Type) [AppEvent E] (sources : List SegmentSource) : List (JournalEntry E) :=
  sources.flatMap (·.entries E)

theorem walkFile_replay (snapshot : SnapshotSource) (source : SegmentSource) (walk : Walk A E) :
    (walkFile snapshot source walk).1.replay = walk.replay ∨
      ∃ info, segmentHeader source.content = .ok info ∧
        (walkFile snapshot source walk).1.replay
          = (visitRecords (replayEntry snapshot)
              (startPlace source.content source.path source.kind info).chain
              ((startPlace source.content source.path source.kind info).scan (E := E)).1
              walk.replay).1 := by
  unfold walkFile walkBytes
  cases segmentHeader source.content with
  | error err => exact .inl rfl
  | ok info =>
    simp only
    cases verifySegmentLink source.path.number info walk.prevTailHash walk.expectedStart
        (snapSequenceOf snapshot + 1) walk.archivedGenesisEntries with
    | error err => exact .inl rfl
    | ok linked =>
      cases verifyBoundarySnapshotAnchor info snapshot with
      | error err => exact .inl rfl
      | ok anchored =>
        refine .inr ⟨info, rfl, ?_⟩
        simp only [Place.visit]
        generalize visitRecords (replayEntry snapshot)
          (startPlace source.content source.path source.kind info).chain
          ((startPlace source.content source.path source.kind info).scan (E := E)).1 walk.replay
            = visited
        obtain ⟨after, err | ⟨⟩⟩ := visited
        · rfl
        · generalize ((startPlace source.content source.path source.kind info).scan (E := E)).2
            = verdict
          cases verdict <;> rfl

theorem walkFile_dispatched (snapshot : SnapshotSource) (source : SegmentSource)
    (walk : Walk A E) :
    ∃ seen, seen.Sublist (source.entries E) ∧
      (walkFile snapshot source walk).1.replay.dispatched = walk.replay.dispatched ++ seen := by
  rcases walkFile_replay snapshot source walk with same | ⟨info, header, replayed⟩
  · exact ⟨[], List.nil_sublist _, by rw [same, List.append_nil]⟩
  · obtain ⟨seen, seenIn, dispatched⟩ := visitRecords_dispatched snapshot
      (startPlace source.content source.path source.kind info).chain
      ((startPlace source.content source.path source.kind info).scan (E := E)).1 walk.replay
    refine ⟨seen, ?_, by rw [replayed, dispatched]⟩
    simpa only [SegmentSource.entries, header] using seenIn

theorem walkFiles_dispatched (snapshot : SnapshotSource) (sources : List SegmentSource)
    (walk : Walk A E) :
    ∃ seen, seen.Sublist (entriesIn E sources) ∧
      (walkFiles snapshot sources walk).1.replay.dispatched = walk.replay.dispatched ++ seen := by
  induction sources generalizing walk with
  | nil => exact ⟨[], .slnil, (List.append_nil _).symm⟩
  | cons source sources ih =>
    obtain ⟨front, frontIn, frontSeen⟩ := walkFile_dispatched snapshot source walk
    simp only [walkFiles, entriesIn, List.flatMap_cons]
    rcases walked : walkFile snapshot source walk with ⟨after, err | ⟨⟩⟩
    · rw [walked] at frontSeen
      exact ⟨front, frontIn.trans (List.sublist_append_left ..), frontSeen⟩
    · rw [walked] at frontSeen
      obtain ⟨back, backIn, backSeen⟩ := ih after
      exact ⟨front ++ back, frontIn.append backIn, by rw [backSeen, frontSeen, List.append_assoc]⟩

theorem walkFile_ok {snapshot : SnapshotSource} {after : Walk A E}
    (behind : walk.links.Behind before) (walked : walkFile snapshot source walk = (after, .ok ())) :
    ∃ segment : Segment E, segment.ReadsFrom source.content source.path source.kind ∧
      RecoveryFollows (snapSequenceOf snapshot + 1) before segment ∧
      after.links.Behind (some segment) := by
  unfold walkFile walkBytes at walked
  cases header : segmentHeader source.content with
  | error err => simp [header] at walked
  | ok info =>
    simp only [header] at walked
    cases link : verifySegmentLink source.path.number info walk.prevTailHash walk.expectedStart
        (snapSequenceOf snapshot + 1) walk.archivedGenesisEntries with
    | error err => simp [link] at walked
    | ok linked =>
      simp only [link] at walked
      cases boundary : verifyBoundarySnapshotAnchor info snapshot with
      | error err => simp [boundary] at walked
      | ok anchored =>
        simp only [boundary, Place.visit] at walked
        generalize visited : visitRecords (replayEntry snapshot)
          (startPlace source.content source.path source.kind info).chain
          ((startPlace source.content source.path source.kind info).scan (E := E)).1 walk.replay
            = visit at walked
        obtain ⟨replay, err | ⟨⟩⟩ := visit
        · simp [Prod.map, Except.map] at walked
        · cases scanned : (startPlace source.content source.path source.kind info).scan (E := E) with
          | mk records verdict =>
            cases verdict with
            | error err => simp [scanned, Prod.map, Except.map] at walked
            | ok tornTail =>
              obtain ⟨segment, rfl, rfl, reads⟩ := Segment.exists_readsFrom header scanned
              refine ⟨segment, reads, (verifySegmentLink_ok_iff behind _ _ segment).mp link, ?_⟩
              simp only [scanned, Prod.map, Except.map, id, Prod.mk.injEq, and_true] at walked
              rw [← walked]
              exact ⟨congrArg some (segment.endPlace_chain_value ..),
                congrArg some (segment.nextStart_endPlace ..), rfl⟩

theorem walkFile_breaks (snapshot : SnapshotSource) (behind : walk.links.Behind before)
    {segment : Segment E} (header : segmentHeader source.content = .ok segment.info)
    (breaks : ¬ RecoveryFollows (snapSequenceOf snapshot + 1) before segment) :
    ∃ err, walkFile snapshot source walk = (walk, .error err) := by
  unfold walkFile walkBytes
  cases link : verifySegmentLink source.path.number segment.info walk.prevTailHash
      walk.expectedStart (snapSequenceOf snapshot + 1) walk.archivedGenesisEntries with
  | error err =>
    simp only [header, link]
    exact ⟨err, rfl⟩
  | ok linked => exact absurd ((verifySegmentLink_ok_iff behind _ _ segment).mp link) breaks

theorem walkFiles_ok {snapshot : SnapshotSource} {sources : List SegmentSource} {after : Walk A E}
    (behind : walk.links.Behind before) (walked : walkFiles snapshot sources walk = (after, .ok ())) :
    
    ∃ segments : List (Segment E), ReadAs sources segments ∧
      FollowsAll (RecoveryFollows (snapSequenceOf snapshot + 1)) before segments ∧
      after.links.Behind (segments.getLast?.or before) := by
  induction sources generalizing walk before with
  | nil =>
    obtain ⟨rfl, -⟩ := Prod.mk.inj walked
    exact ⟨[], .nil, trivial, behind⟩
  | cons source sources ih =>
    rw [walkFiles] at walked
    rcases first : walkFile snapshot source walk with ⟨middle, err | ⟨⟩⟩
    · simp [first] at walked
    · rw [first] at walked
      obtain ⟨segment, file, follows, middleBehind⟩ := walkFile_ok behind first
      obtain ⟨segments, files, chain, last⟩ := ih middleBehind walked
      refine ⟨segment :: segments, .cons file files, ⟨follows, chain⟩, ?_⟩
      rw [List.getLast?_cons]
      cases tail : segments.getLast? <;> simpa [tail] using last

end

end Melin
