import Melin.Pipeline.MatchingLaws
import Melin.Pipeline.PersistBeforePublish

/-! A stopped pipeline against recovery: replaying its journal repeats what its application did. -/

namespace Melin

open Lib

inductive AppCall (E : Type) where
  | tick (nowNs : UInt64)
  | apply (event : E) (ctx : ApplyCtx)
  deriving DecidableEq, Repr

/-- An application with a record of the calls that changed it, which nothing reads. -/
structure Traced (A E : Type) where
  app : A
  calls : List (AppCall E)
  deriving DecidableEq, Repr

section

variable {A E R Q : Type}

def Traced.of (app : A) : Traced A E := { app, calls := [] }

instance [Application A E R] : Application (Traced A E) E R where
  genesis := .of Application.genesis
  apply traced event ctx :=
    let (app, reports) := Application.apply traced.app event ctx
    ({ app, calls := traced.calls ++ [.apply event ctx] }, reports)
  tick traced nowNs :=
    let (app, reports) := Application.tick traced.app nowNs
    ({ app, calls := traced.calls ++ [.tick nowNs] }, reports)
  snapshot traced := Application.snapshot traced.app
  restore bytes := (Application.restore bytes).map fun (app, rest) => (.of app, rest)
  appVersion := Application.appVersion A

instance [QueryApplication A E Q] : QueryApplication (Traced A E) E Q where
  query traced := QueryApplication.query traced.app

/-- The journal directory of a stage that started on these files, with those it wrote since. -/
def JournalStage.writtenDir (fs : Fs NodeFile) (stage : JournalStage E) : JournalDir where
  archives := (journalDir fs).archives ++ stage.disk.sealedFiles.mapIdx fun index file =>
    (nextArchiveIndex fs.table + index, (stage.disk.fs.inodes file).content)
  live := some (stage.disk.fs.inodes stage.disk.segment.file).content
  ascending := by
    refine List.pairwise_append.mpr ⟨(journalDir fs).ascending, ?_, ?_⟩
    · rw [List.pairwise_iff_getElem]
      intro first second _ _ ordered
      simpa using ordered
    · intro before isBefore after isAfter
      obtain ⟨index, member, rfl⟩ := List.mem_map.mp isBefore
      obtain ⟨later, _, rfl⟩ := List.mem_mapIdx.mp isAfter
      exact (lt_nextArchiveIndex member).trans_le (Nat.le_add_right ..)

end

section

variable {E : Type} [AppEvent E] [Hashing] {fs : Fs NodeFile} {archived : List (WrittenSegment E)}
  {inode : Nat} {live : WrittenSegment E} {pending : List (WrittenEntry E)} {writer : BufferedWriter}
  {parts : StageParts E} {stage : JournalStage E} {origin : Origin E}

theorem Finished.holdsAll (finished : Finished origin stage) :
    ∃ ledger : Ledger E, HoldsFiles stage.disk.fs stage.disk.sealedFiles ledger.archived
        stage.disk.segment ledger.live ∧
      ledger.LinkedFrom origin.opening ∧
      ledger.onDisk.map (·.entry) = origin.journal (stage.ring.take stage.core.nextRead) := by
  obtain ⟨encoded, encoder, empty, -, ⟨ledger, aligned⟩, drained⟩ := finished
  have unpoisoned : stage.poisoned = false := by
    cases poisoned : stage.poisoned with
    | true => exact absurd drained (aligned.disk.stuck poisoned)
    | false => rfl
  -- Nothing is handed over and nothing is pending, so what is encoded is on disk.
  have handed : ledger.handed = [] := by
    rw [← List.length_eq_zero_iff, ← aligned.disk.handed.length_eq, drained, List.length_nil]
  have pending : ledger.pending = [] :=
    bytesOf_eq_nil.mp (aligned.stream.batch.symm.trans empty)
  have all : ledger.entries = ledger.onDisk := by
    rw [Ledger.entries, Ledger.ahead, handed, pending, List.flatten_nil, List.append_nil,
      List.append_nil]
  have front : stage.ring.take stage.core.nextRead = encoded := by
    have known : encoded ++ [] <+: stage.ring := aligned.stands.known
    rw [List.append_nil] at known
    rw [aligned.stands.nextRead]
    exact (List.prefix_iff_eq_take.mp known).symm
  exact ⟨ledger, aligned.disk.files unpoisoned, aligned.disk.linked,
    by rw [front, ← all]; exact aligned.stream.entries⟩

variable [LawfulAppEvent E]

theorem HoldsFiles.writtenDir {ledger : Ledger E} (disk : DiskHolds fs archived inode live)
    (linked : Linked ((archived ++ [live]).map (·.segment)))
    (files : HoldsFiles stage.disk.fs stage.disk.sealedFiles ledger.archived stage.disk.segment
      ledger.live)
    (behind : ledger.LinkedFrom live.info) :
    (stage.writtenDir fs).Holds ((archived ++ ledger.archived).map (·.segment))
      (some ledger.live.segment) where
  archives := by
    rw [List.map_append]
    refine List.rel_append (disk.journalDir linked).archives (List.forall₂_map_right_iff.mpr ?_)
    refine forall₂_mapIdx files.sealedFiles _ fun index file written keeps => ?_
    obtain ⟨zeros, content⟩ := keeps.content
    rw [content]
    exact written.readsFrom zeros _ _
  liveFile := by
    obtain ⟨content, settled, zeros, rfl⟩ := files.liveFile
    simp only [JournalStage.writtenDir, settled, DurableFile.content_settled]
    exact .some (ledger.live.readsFrom zeros .live .live)
  linked := by
    rw [List.map_append] at linked
    have whole := linked.resume behind.links (by
      intro first isFirst
      rw [List.head?_map] at isFirst
      obtain ⟨written, isHead, rfl⟩ := Option.map_eq_some_iff.mp isFirst
      exact behind.first written isHead)
    simpa using whole
  nonempty := by simp

variable {A R Q : Type} [Application A E R]

theorem Finished.recoverRead_eq (disk : DiskHolds fs archived inode live)
    (linked : Linked ((archived ++ [live]).map (·.segment)))
    (finished : Finished (writer.origin live pending parts) stage) (reads : ReadSchedule) (app : A) :
    ∃ opening entries, entries = entriesOf ((archived ++ [live]).map (·.segment))
        ++ pending.map (·.entry)
        ++ journaled writer.nextSequence (stage.ring.take stage.core.nextRead) ∧
      recoverRead app none reads (stage.writtenDir fs)
        = (.at ((NodeState.genesis app).steps entries) entries, .ok opening) := by
  obtain ⟨ledger, files, behind, onDisk⟩ := finished.holdsAll
  refine ⟨_, _, ?_, recoverRead_none (files.writtenDir disk linked behind) reads app⟩
  have entriesEq (segments : List (WrittenSegment E)) : entriesOf (segments.map (·.segment))
      = (segments.flatMap (·.entries)).map (·.entry) := by
    rw [entriesOf, List.flatMap_map, List.map_flatMap]
    exact List.flatMap_congr fun written _ => written.segment_entries
  have written : (archived ++ ledger.archived).map (·.segment) ++ (some ledger.live.segment).toList
      = (archived ++ (ledger.archived ++ [ledger.live])).map (·.segment) := by simp
  have onDisk : (ledger.archived.flatMap (·.entries) ++ ledger.live.entries).map (·.entry)
      = (live.entries ++ pending).map (·.entry)
        ++ journaled writer.nextSequence (stage.ring.take stage.core.nextRead) := onDisk
  rw [written, entriesEq, entriesEq]
  simp only [List.flatMap_append, List.flatMap_singleton, List.map_append, List.append_assoc]
    at onDisk ⊢
  rw [onDisk]

variable [QueryApplication A E Q]

/--
A stopped pipeline hands back what a recovery from its journal computes, by the same calls.

Both threads stopped behind the same slots, and started behind the same journal.
-/
theorem live_run_replays (disk : DiskHolds fs archived inode live)
    (linked : Linked ((archived ++ [live]).map (·.segment)))
    (tracks : writer.Tracks inode live pending)
    (started : JournalStage.start parts writer fs = .ok stage) (sentinelLast : SentinelLast stage.fed)
    (fits : writer.nextSequence + stage.fed.length < 2 ^ 64) (app : A)
    {matching : MatchingStage (Traced A E) E R Q}
    (starts : matching.Starts ((NodeState.genesis (Traced.of app : Traced A E)).steps
      (entriesOf ((archived ++ [live]).map (·.segment)) ++ pending.map (·.entry)))
      writer.nextSequence)
    {stopped : JournalStage E} {left : BufferedWriter}
    (sequenced : runSequencer stage = (stopped, .done left))
    {answered : MatchingStage (Traced A E) E R Q} {warm : WarmApp (Traced A E)}
    (matched : runMatching matching = (answered, .done warm))
    (same : stopped.ring.take stopped.core.nextRead = answered.ring.take answered.nextRead)
    (reads : ReadSchedule) :
    ∃ replay opening,
      recoverRead (Traced.of app : Traced A E) none reads (stopped.writtenDir fs) = (replay, .ok opening) ∧
      replay.app.app = warm.app.app ∧ replay.clock.running = warm.tickWatermark ∧
      replay.app.calls = warm.app.calls := by
  have finished : Finished (writer.origin live pending parts) stopped := by
    have ran := finished_runSequencer _ (caughtUp_start disk tracks started sentinelLast fits)
    rw [sequenced] at ran
    exact ran
  have idle := idle_runMatching _ starts.idle
  rw [matched] at idle
  obtain ⟨⟨done, standing⟩, rfl⟩ := idle
  obtain ⟨opening, entries, entriesEq, recovered⟩ :=
    finished.recoverRead_eq disk linked reads (Traced.of app : Traced A E)
  have front : stopped.ring.take stopped.core.nextRead = done := by
    have known := standing.known
    rw [List.append_nil] at known
    rw [same, standing.cursor]
    exact (List.prefix_iff_eq_take.mp known).symm
  have state : (NodeState.genesis (Traced.of app : Traced A E)).steps entries
      = ((NodeState.genesis (Traced.of app : Traced A E)).steps
          (entriesOf ((archived ++ [live]).map (·.segment)) ++ pending.map (·.entry))).steps (journaled writer.nextSequence done) := by
    rw [entriesEq, front, NodeState.steps, List.foldl_append]
    rfl
  refine ⟨_, opening, recovered, ?_, ?_, ?_⟩
  · rw [standing.matched.app, ← state]
    rfl
  · rw [standing.matched.watermark, ← state]
    rfl
  · rw [standing.matched.app, ← state]
    rfl

end

def sampleMatching :
    MatchingStage (Traced Counter CounterEvent) CounterEvent CounterReport CounterQuery where
  app := .of { value := 0 }
  tickWatermark := .genesis
  nextWireSeq := 1
  nextRead := 0
  eventsProcessed := 0
  fenceState := .new 0
  ackPolicyJournaled := none
  forcedPolicy := none
  ring := sampleParts.ring
  output := { capacity := 4, slots := [], committed := 0, taken := 0 }
  durableWireSeq := 0
  activeConnections := 1
  shutdown := false
  beats := List.replicate 20 []

/-- The sample stages stop behind the same slots, and a recovery repeats the two calls of the one. -/
theorem live_run_replays_increment :
    ∃ (fs : Fs NodeFile) (stopped : JournalStage CounterEvent)
      (warm : WarmApp (Traced Counter CounterEvent)), warm.app.app = { value := 7 } ∧
      warm.app.calls = [.tick 5, .apply (.increment 7) { nowNs := 5, keyHash := 9 }] ∧
      ∃ replay opening, recoverRead (Traced.of { value := 0 } : Traced Counter CounterEvent) none
          (fun _ _ => 1) (stopped.writtenDir fs) = (replay, .ok opening) ∧
        replay.app.app = warm.app.app ∧ replay.clock.running = warm.tickWatermark ∧
        replay.app.calls = warm.app.calls := by
  have sequencerRan : (sampleStage.toOption.bind fun stage =>
      match runSequencer stage with
      | (stopped, .done _) =>
        some (stage.fed, stopped.ring.take stopped.core.nextRead)
      | _ => none) = some (sampleParts.ring, sampleParts.ring) := by decide +kernel
  have matchingRan : (match runMatching sampleMatching with
      | (answered, .done warm) => some (warm.app, answered.ring.take answered.nextRead)
      | _ => none) = some ({ app := { value := 7 }, calls := [.tick 5, .apply (.increment 7)
        { nowNs := 5, keyHash := 9 }] }, sampleParts.ring) := by decide +kernel
  obtain ⟨journal, inode, created, written, pending, holds⟩ :=
    WriterState.holds_create (E := CounterEvent) emptyFs_blank .zero samplePrealloc
  have next : journal.writer.nextSequence = 1 := by
    rw [holds.next, written, pending]
    rfl
  have fedOk : MatchFeed 1 sampleParts.ring :=
    ⟨sentinelLast_of_dropLast (by decide), by decide, by decide⟩
  cases started : JournalStage.start sampleParts journal.writer journal.fs with
  | error err =>
    simp [sampleStage, created, started, bind, Except.bind, Except.toOption] at sequencerRan
  | ok stage =>
    have isStage : sampleStage = .ok stage := by
      simp [sampleStage, created, started, bind, Except.bind]
    simp only [isStage, Except.toOption, Option.bind_some] at sequencerRan
    split at sequencerRan
    · rename_i stopped left sequenced
      split at matchingRan
      · rename_i answered warm matched
        simp only [Option.some.injEq, Prod.mk.injEq] at sequencerRan matchingRan
        obtain ⟨fed, read⟩ := sequencerRan
        obtain ⟨warmEq, taken⟩ := matchingRan
        refine ⟨journal.fs, stopped, warm, by rw [warmEq], by rw [warmEq], ?_⟩
        refine live_run_replays holds.disk holds.linked holds.tracks started
          (fed ▸ fedOk.sentinelLast) (by rw [next, fed]; exact fedOk.fits) { value := 0 }
          ⟨?_, rfl, rfl, next.symm, rfl, rfl⟩ sequenced matched (read.trans taken.symm) _
        rw [next]
        exact fedOk
      · cases matchingRan
    · cases sequencerRan

end Melin
