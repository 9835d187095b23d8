import Melin.Pipeline.SequencerRun
import Melin.Transport.WriterRun

/-! The journal stage from its start: whatever the disk thread publishes is on disk. -/

namespace Melin

open Lib

section

variable {E : Type} [AppEvent E] [Hashing] {fs : Fs NodeFile} {archived : List (WrittenSegment E)}
  {inode : Nat} {live : WrittenSegment E} {pending : List (WrittenEntry E)} {writer : BufferedWriter}
  {parts : StageParts E} {stage : JournalStage E}

def BufferedWriter.origin (writer : BufferedWriter) (live : WrittenSegment E)
    (pending : List (WrittenEntry E)) (parts : StageParts E) : Origin E where
  entries := (live.entries ++ pending).map (·.entry)
  first := writer.nextSequence
  cursors := parts.cursors
  observed := parts.cursors.fsyncState.isSome
  opening := live.info

theorem DiskHolds.holdsFiles (disk : DiskHolds fs archived inode live) {segment : SegmentFile}
    (opened : segment.At inode live) : HoldsFiles fs [] [] segment live where
  sound := disk.sound
  sealedFiles := .nil
  liveFile := by
    rw [opened.file]
    exact disk.liveFile
  writePos := opened.writePos
  genesis := opened.genesis
  path := opened.path
  distinct := by simp
  allocated := by
    simp only [List.mem_singleton, forall_eq, opened.file]
    exact disk.sound.allocated disk.liveName
  unnamed := by simp

theorem caughtUp_start (disk : DiskHolds fs archived inode live)
    (tracks : writer.Tracks inode live pending) (started : JournalStage.start parts writer fs = .ok stage)
    (sentinelLast : SentinelLast stage.fed) (fits : writer.nextSequence + stage.fed.length < 2 ^ 64) :
    CaughtUp (writer.origin live pending parts) (·.batch = []) stage := by
  obtain ⟨file, flushed, flushes, flushedDisk, flushedTracks, encoder⟩ := tracks.flush disk
  simp only [JournalStage.start, BufferedWriter.intoHalves, Prog.run_bind, flushes, Prog.run_pure,
    Except.ok.injEq] at started
  subst started
  have extended : (live.extend pending tracks.continues).entries = live.entries ++ pending := rfl
  refine ⟨[], flushed.encoder, flushedTracks.batch, ⟨sentinelLast, fits, rfl⟩,
    ⟨[], live.extend pending tracks.continues, [], []⟩, ⟨rfl, rfl, by simp [Position.upTo]⟩, ?_, ?_,
    ?_, rfl⟩
  · exact
      { handed := .nil ..
        continues := consecutive_nil _
        files := fun _ => flushedDisk.holdsFiles flushedTracks.segment
        spare := fun _ ready offered => by
          dsimp only at offered
          split at offered <;> cases offered
        request := by simp
        stuck := by simp
        history := ⟨by simp, by simp⟩
        unfailed := fun _ _ => List.not_mem_nil
        cursors := rfl
        linked := ⟨.singleton _, fun _ isFirst => Option.mem_some_iff.mp isFirst ▸ rfl⟩ }
  · have next : flushed.encoder.nextSequence = writer.nextSequence := by
      rw [encoder]
      rfl
    have ledgerNext : (live.extend pending tracks.continues).next = writer.nextSequence :=
      flushedTracks.next.symm.trans next
    exact ⟨by simp [Ledger.entries, Ledger.onDisk, Ledger.ahead, Origin.journal,
        BufferedWriter.origin, extended, journaled, Position.upTo],
      ledgerNext, next.trans ledgerNext.symm, flushedTracks.batch,
      flushedTracks.lastEncoded.trans_eq (next.trans ledgerNext.symm)⟩
  · exact flushedTracks.chain.trans (WrittenSegment.extend_chain ..)

/--
Whatever the disk thread publishes is on disk, and nothing is published behind a failure.

The slots below the published progress are synced as the entries they are journaled as, each once.
-/
theorem journal_stage_persists_before_publishing [LawfulAppEvent E]
    (disk : DiskHolds fs archived inode live) (tracks : writer.Tracks inode live pending)
    (started : JournalStage.start parts writer fs = .ok stage) (sentinelLast : SentinelLast stage.fed)
    (fits : writer.nextSequence + stage.fed.length < 2 ^ 64) :
    (∀ info files synced, .published info files synced ∈ (runSequencer stage).1.disk.history →
      info.ringProgress ≤ (runSequencer stage).1.ring.length ∧
      files.flatMap (syncedEntries synced) = (live.entries ++ pending).map (·.entry)
        ++ journaled writer.nextSequence ((runSequencer stage).1.ring.take info.ringProgress) ∧
      info.journalSeq = writer.nextSequence
        + wireSeqsTaken ((runSequencer stage).1.ring.take info.ringProgress) - 1) ∧
    (∀ before err after, (runSequencer stage).1.disk.history = before ++ .failed err :: after →
      after = []) ∧
    (runSequencer stage).1.disk.cursors
      = (runSequencer stage).1.disk.history.foldl DiskEvent.moves parts.cursors := by
  obtain ⟨-, ledger, side⟩ := stopped_runSequencer (caughtUp_start disk tracks started sentinelLast fits)
  refine ⟨fun info files synced published => ?_, side.history.failedLast, side.cursors⟩
  have covers := side.history.published info files synced published
  exact ⟨covers.progress, covers.entries, covers.journalSeq⟩

end

/-- A node's stage with an increment, a query and the sentinel in its ring, and a disk that works. -/
def sampleParts : StageParts CounterEvent where
  config :=
    { groupCommitDelay := 0, maxBatch := 64, maxJournalBytes := 0, chainHashObserved := false
      ringCapacity := 8, ringPositive := by decide }
  ring :=
    [{ connectionId := 1, requestId := 1, keyHash := 9, sequence := 0, timestampNs := 5
       event := .app (.increment 7) },
      { connectionId := 1, requestId := 2, keyHash := 9, sequence := 0, timestampNs := 6
        event := .app .getValue },
      { connectionId := 0, requestId := 0, keyHash := 0, sequence := 0, timestampNs := 0
        event := .shutdown }]
  streamMarks := none
  producers := []
  preparing := false
  cursors :=
    { inputProgress := 0, durableWireSeq := some 0, advertisedTip := none, fsyncState := none }
  rotateRequested := none
  beats := List.replicate 20 [.drain 8 false []]

def sampleStage : Except JournalError (JournalStage CounterEvent) := do
  let journal : WriterState CounterEvent ← WriterState.create emptyFs .zero samplePrealloc
  JournalStage.start sampleParts journal.writer journal.fs

/-- The sample stage publishes everything in its ring, with the increment on disk. -/
theorem journal_stage_persists_sample :
    ∃ stage, sampleStage = .ok stage ∧ (runSequencer stage).1.disk.cursors.inputProgress = 3 ∧
      ∀ info files synced, .published info files synced ∈ (runSequencer stage).1.disk.history →
        files.flatMap (syncedEntries synced)
          = journaled 1 ((runSequencer stage).1.ring.take info.ringProgress) := by
  have ran : (sampleStage.toOption.map fun stage =>
      ((runSequencer stage).1.disk.cursors.inputProgress, stage.fed)) = some (3, sampleParts.ring) := by
    decide +kernel
  obtain ⟨journal, inode, created, written, pending, holds⟩ :=
    WriterState.holds_create (E := CounterEvent) emptyFs_blank .zero samplePrealloc
  cases started : JournalStage.start sampleParts journal.writer journal.fs with
  | error err => simp [sampleStage, created, started, bind, Except.bind, Except.toOption] at ran
  | ok stage =>
    have isStage : sampleStage = .ok stage := by simp [sampleStage, created, started, bind, Except.bind]
    simp only [isStage, Except.toOption, Option.map_some, Option.some.injEq, Prod.mk.injEq] at ran
    obtain ⟨progress, fed⟩ := ran
    have next : journal.writer.nextSequence = 1 := by
      rw [holds.next, written, pending]
      rfl
    refine ⟨stage, isStage, progress, fun info files synced published => ?_⟩
    have persisted := (journal_stage_persists_before_publishing holds.disk holds.tracks started
      (fed ▸ sentinelLast_of_dropLast (by simp [sampleParts, JournalEvent.isShutdown]))
      (by rw [next, fed]; decide)).1 info files synced published
    rw [persisted.2.1, next]
    rfl

end Melin
