import Melin.Examples.Counter
import Melin.Examples.CounterJournal
import Melin.Journal.WriterLaws
import Melin.Transport.JournaledApp
import Melin.Transport.RecoveryLaws
import Melin.Transport.SnapshotLaws

/-! Recovery from a snapshot and recovery from genesis come to the same node. -/

namespace Melin

open Lib

section

variable {A E R : Type} [Application A E R]

theorem NodeState.steps_wireSeq {entries : List (JournalEntry E)} {bound : Nat}
    (inRange : ∀ entry ∈ entries, entry.sequence < bound) {state : NodeState A}
    (before : ∀ policy ∈ state.lineage.ackPolicy, policy.wireSeq < bound) :
    ∀ policy ∈ (state.steps entries).lineage.ackPolicy, policy.wireSeq < bound := by
  induction entries generalizing state with
  | nil => exact before
  | cons entry entries ih =>
    refine ih (fun later member => inRange later (List.mem_cons_of_mem _ member)) ?_
    have here := inRange entry List.mem_cons_self
    simp only [NodeState.step]
    split
    · exact before
    · rename_i event _
      cases event with
      | epoch epoch => exact before
      | ackPolicy change =>
        -- The policy in force keeps its transition, or the entry at hand is the new one.
        rintro policy known
        obtain rfl := Option.mem_some_iff.mp known
        unfold LineagePolicy.after
        split
        · rename_i current isCurrent
          split
          · exact before current isCurrent
          · exact here
        · exact here

variable [AppEvent E] [Hashing]

theorem run_openWriter {fs : Fs NodeFile} {archived : List (Segment E)} {live : Option (Segment E)}
    (holds : (journalDir fs).Holds archived live) (prealloc : Prealloc) :
    ∃ after writer, writer.nextSequence = (entriesOf (archived ++ live.toList)).length + 1 ∧
      ∀ grants, (JournaledApp.openWriter (openingOf archived live) prealloc grants).run fs
        = (after, .ok writer) := by
  have liveHolds := holds.liveFile
  cases liveEq : (journalDir fs).live with
  | none =>
    rw [liveEq] at liveHolds
    cases liveHolds
    have free : fs.table.lookup .live = none := by
      simpa [journalDir, Fs.content, Fs.file] using liveEq
    exact ⟨_, _, by simp [BufferedWriter.nextSequence, JournalEncoder.new],
      fun grants => BufferedWriter.run_createContinuing free _ _ _ prealloc⟩
  | some content =>
    rw [liveEq] at liveHolds
    obtain ⟨file⟩ := liveHolds
    rename_i segment
    obtain ⟨inode, found, contentEq⟩ : ∃ inode, fs.table.lookup .live = some inode ∧
        (fs.inodes inode).content = content := by
      simpa [journalDir, Fs.content, Fs.file] using liveEq
    obtain ⟨long, header⟩ := segmentHeader_eq_ok.mp file.1
    rw [← contentEq] at long header
    obtain ⟨after, ran, -⟩ := BufferedWriter.run_openAppend (by simp) found long header
      (entriesOf (archived ++ [segment])).length _ prealloc
    exact ⟨after, _, rfl, ran⟩

/--
Recovery from a snapshot equals full replay.

The directory holds any well-formed history: any number of archives, empty ones among them, with or
without a live segment. The snapshot is what a node saved at any position of it.
-/
theorem JournaledApp.recoverFromSnapshot_eq_recover [LawfulApplication A] {fs : Fs NodeFile}
    {archived : List (Segment E)} {live : Option (Segment E)}
    (holds : (journalDir fs).Holds archived live) (app : A) {position : Nat} {value : Digest}
    (covered : ∃ segment ∈ archived ++ live.toList,
      segment.Covers position ∧ value = segment.valueAt position)
    (genesisEntries : Option UInt64) {state : NodeState A} {file : Bytes}
    (reached : state
      = (NodeState.genesis app).steps ((entriesOf (archived ++ live.toList)).take position))
    (saved : save state.app position value state.lineage (genesisEntries.map (·.toNat))
      state.watermark = .ok file)
    (stored : fs.content .snapshot = some file) (prealloc : Prealloc)
    (reads otherReads : RecoveryReads) :
    ∃ after node, (recover app prealloc reads).run fs = (after, .ok node) ∧
      (recoverFromSnapshot prealloc otherReads).run fs = (after, .ok node) ∧
      { app := node.app, watermark := node.tickWatermark, lineage := node.recoveredLineage }
        = (NodeState.genesis app).steps (entriesOf (archived ++ live.toList)) ∧
      node.writer.nextSequence = (entriesOf (archived ++ live.toList)).length + 1 := by
  obtain ⟨after, writer, next, opens⟩ := run_openWriter holds prealloc
  have counted := holds.linked.consecutive
  have fields : SnapshotInRange position state.lineage (genesisEntries.map (·.toNat)) := by
    refine ⟨?_, ?_, ?_⟩
    · obtain ⟨segment, member, covers, -⟩ := covered
      exact Nat.lt_of_le_of_lt (holds.linked.position_le member covers) holds.linked.length_lt
    · rw [reached]
      exact NodeState.steps_wireSeq
        (fun entry member => sequence_lt_of_mem_entriesOf (List.mem_of_mem_take member))
        (by rintro policy ⟨⟩)
    · rintro entries known
      obtain ⟨genesis, -, rfl⟩ := Option.map_eq_some_iff.mp known
      exact genesis.toNat_lt
  -- The snapshot loads as it was saved, and fits the history.
  have loaded := load_save fields saved
  generalize headerEq : SnapshotHeader.mk _ position value state.lineage _ (some state.watermark) _
    = header at loaded
  have fits : TakenFrom (archived ++ live.toList) (some header) := by
    rintro taken known
    obtain rfl := Option.mem_some_iff.mp known
    subst headerEq
    exact ⟨rfl, covered⟩
  have start : startState state.app (some header) = state := by
    subst headerEq
    rfl
  have full := recoverRead_none holds reads.segments app
  have short := recoverRead_linked holds fits otherReads.segments state.app
  -- The shorter replay ends in the state behind all entries, too.
  have shortState : state.steps
      (entriesBehind (snapSequenceOf (some header)) (entriesOf (archived ++ live.toList)))
        = (NodeState.genesis app).steps (entriesOf (archived ++ live.toList)) := by
    have anchored : snapSequenceOf (some header) = 0 + position := by
      subst headerEq
      simp [snapSequenceOf]
    rw [anchored, entriesBehind_eq_drop counted position, reached, NodeState.steps,
      NodeState.steps, NodeState.steps, ← List.foldl_append, List.take_append_drop]
  refine ⟨after, { app := _, writer, recoveredLineage := _, tickWatermark := _ }, ?_, ?_, rfl,
    next⟩
  · simp only [recover, recoverInner, Prog.run, full, Prog.run_bind, Prog.run_mapError, opens,
      Except.mapError, Prog.run_pure]
    rfl
  · simp only [recoverFromSnapshot, Prog.run, stored, loaded, recoverInner, short, Prog.run_bind,
      Prog.run_mapError, opens, Except.mapError, Prog.run_pure, walkAfter, start, shortState]
    rfl

end

def sampleState : NodeState Counter :=
  (NodeState.genesis ⟨0⟩).steps (sampleArchived.entries.map (·.entry))

def sampleSnapshot : Bytes :=
  match save sampleState.app 1 sampleArchived.segment.tail sampleState.lineage (some 0)
      sampleState.watermark with
  | .ok file => file
  | .error _ => []

def sampleFs : Fs NodeFile where
  table := ((AList.singleton (.archive 1) 0).insert .live 1).insert .snapshot 2
  older := []
  inodes
    | 0 => .settled sampleArchived.bytes
    | 1 => .settled (sampleLive.bytes ++ List.replicate 10 0)
    | _ => .settled sampleSnapshot
  fresh := 3

theorem journalDir_sampleFs :
    (journalDir sampleFs).archives = [(1, sampleArchived.bytes)] ∧
      (journalDir sampleFs).live = some (sampleLive.bytes ++ List.replicate 10 0) := by
  have indexes : archiveIndexes sampleFs.table = [1] := List.mergeSort_singleton 1
  refine ⟨?_, rfl⟩
  simp only [journalDir, indexes, List.map_cons, List.map_nil]
  rfl

theorem sampleFs_holds :
    (journalDir sampleFs).Holds [sampleArchived.segment] (some sampleLive.segment) := by
  obtain ⟨archives, live⟩ := journalDir_sampleFs
  have links := sampleArchived_links
  refine ⟨?_, ?_, ⟨by simpa using links, by rintro first ⟨⟩; rfl⟩, by simp⟩
  · rw [archives]
    refine .cons ?_ .nil
    simpa using sampleArchived.readsFrom 0 (.archive 1) .archived
  · rw [live]
    exact .some (sampleLive.readsFrom 10 .live .live)

theorem save_sampleState :
    save sampleState.app 1 sampleArchived.segment.tail sampleState.lineage (some 0)
      sampleState.watermark = .ok sampleSnapshot := by
  have width := snapshotFields_length (Application.appVersion Counter) 1
    sampleArchived.segment.tail sampleState.lineage (some 0) sampleState.watermark
  rw [sampleSnapshot, save, if_neg]
  simp only [List.length_append, width, leBytes_length, Application.snapshot, headerSizeV5,
    headerSizeV4, headerSizeV3, headerSizeV2, headerSizeV1, maxSnapshotSize]
  omega

/-- An increment behind the snapshot's position, and an epoch bump at an earlier time after it. -/
theorem recoverFromSnapshot_eq_recover_counter :
    ∃ after node, (JournaledApp.recover (⟨0⟩ : Counter) ⟨100, by decide⟩
        ⟨fun _ _ => 1, fun _ => 1⟩).run sampleFs = (after, .ok node) ∧
      (JournaledApp.recoverFromSnapshot ⟨100, by decide⟩
        ⟨fun _ _ => 7, fun _ => 7⟩).run sampleFs = (after, .ok node) ∧
      { app := node.app, watermark := node.tickWatermark, lineage := node.recoveredLineage }
        = (NodeState.genesis (⟨0⟩ : Counter)).steps
            (entriesOf [sampleArchived.segment, sampleLive.segment]) ∧
      node.writer.nextSequence = 3 := by
  have position : 1 + 1 = sampleArchived.segment.next := by
    rw [WrittenSegment.segment_next]
    rfl
  have covers : sampleArchived.segment.Covers 1 := ⟨by decide, position.le⟩
  have reached : sampleState = (NodeState.genesis (⟨0⟩ : Counter)).steps
      ((entriesOf ([sampleArchived.segment] ++ (some sampleLive.segment).toList)).take 1) := by
    simp [entriesOf, WrittenSegment.segment_entries, sampleState, sampleArchived]
  have stored : sampleFs.content .snapshot = some sampleSnapshot := rfl
  exact JournaledApp.recoverFromSnapshot_eq_recover sampleFs_holds ⟨0⟩
    ⟨sampleArchived.segment, by simp, covers, (Segment.valueAt_end position).symm⟩
    (some 0) reached save_sampleState stored ⟨100, by decide⟩ ⟨fun _ _ => 1, fun _ => 1⟩
    ⟨fun _ _ => 7, fun _ => 7⟩

end Melin
