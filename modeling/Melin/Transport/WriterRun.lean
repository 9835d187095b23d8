import Melin.Examples.Counter
import Melin.Journal.WriterSteps
import Melin.Transport.JournaledApp
import Melin.Transport.RecoveryLaws

/-! Whole runs of the journal writer: appends, flushes, rotations, and reopening through recovery. -/

namespace Melin

open Lib

section

variable {E : Type} [AppEvent E] [LawfulAppEvent E] [Hashing]

theorem DiskHolds.journalDir {fs : Fs NodeFile} {archived : List (WrittenSegment E)} {inode : Nat}
    {live : WrittenSegment E} (disk : DiskHolds fs archived inode live)
    (linked : Linked ((archived ++ [live]).map (·.segment))) :
    (Melin.journalDir fs).Holds (archived.map (·.segment)) (some live.segment) := by
  refine ⟨?_, ?_, by simpa using linked, by simp⟩
  · refine List.forall₂_map_left_iff.mpr (List.forall₂_map_right_iff.mpr
      (List.Forall₂.imp (fun index written => ?_) disk.archives))
    rintro ⟨file, found, keeps⟩
    obtain ⟨zeros, content⟩ := keeps.content
    simp only [Fs.content, Fs.file, found, Option.map_some, Option.getD_some, content]
    exact written.readsFrom zeros _ _
  · obtain ⟨content, settled, zeros, rfl⟩ := disk.liveFile
    have found : fs.content .live = some (live.bytes ++ List.replicate zeros 0) := by
      simp [Fs.content, Fs.file, disk.liveName, settled]
    simp only [Melin.journalDir, found]
    exact .some (live.readsFrom zeros .live .live)

variable {A R : Type} [Application A E R]

theorem DiskHolds.recover {fs : Fs NodeFile} {archived : List (WrittenSegment E)} {inode : Nat}
    {live : WrittenSegment E} (disk : DiskHolds fs archived inode live)
    (linked : Linked ((archived ++ [live]).map (·.segment))) (app : A) (prealloc : Prealloc)
    (reads : RecoveryReads) :
    ∃ after node, (JournaledApp.recover app prealloc reads).run fs = (after, .ok node) ∧
      (recoverRead app none reads.segments (Melin.journalDir fs)).1.dispatched
        = entriesOf ((archived ++ [live]).map (·.segment)) ∧
      ({ app := node.app, watermark := node.tickWatermark, lineage := node.recoveredLineage } :
          NodeState A)
        = (NodeState.genesis app).steps (entriesOf ((archived ++ [live]).map (·.segment))) ∧
      DiskHolds after archived inode live ∧ node.writer.Tracks inode live [] := by
  have holds := disk.journalDir linked
  have segments : (archived ++ [live]).map (·.segment)
      = archived.map (·.segment) ++ (some live.segment).toList := by simp
  have read := recoverRead_none holds reads.segments app
  rw [← segments] at read
  -- The writer opens behind the last entry, which is where the zeros start.
  obtain ⟨content, settled, zeros, contentEq⟩ := disk.liveFile
  obtain ⟨long, header⟩ := segmentHeader_eq_ok.mp (live.readsFrom zeros .live .live).1
  have inodeContent : (fs.inodes inode).content = live.bytes ++ List.replicate zeros 0 := by
    rw [settled, DurableFile.content_settled, contentEq]
  rw [← inodeContent] at long header
  have validEnd : live.segment.info.sectorSize + (live.segment.records.flatMap (·.raw)).length
      = live.bytes.length := by
    rw [WrittenSegment.bytes, List.length_append, live.header_length]
    exact congrArg (maxSectorSize + ·.length) (recordsOf_raw live.entries)
  obtain ⟨after, opens, names, fresh, inodes⟩ := BufferedWriter.run_openAppend (by simp)
    disk.liveName long header (entriesOf ((archived ++ [live]).map (·.segment))).length
    live.bytes.length prealloc
  have opened : openedContent (fs.inodes inode).content live.bytes.length prealloc
      = live.bytes ++ List.replicate prealloc.chunkBytes 0 := by
    rw [inodeContent, openedContent, List.take_left, Nat.add_sub_cancel_left]
  have opening : openingOf (archived.map (·.segment)) (some live.segment)
      = .append (entriesOf ((archived ++ [live]).map (·.segment))).length live.bytes.length := by
    rw [openingOf, validEnd, segments]
    rfl
  let writer : BufferedWriter :=
    { encoder :=
        { batch := [], nextSequence := (entriesOf ((archived ++ [live]).map (·.segment))).length + 1
          startingSequence := live.startingSequence, chain := live.chain
          lastEncodedSeq := (entriesOf ((archived ++ [live]).map (·.segment))).length }
      segment :=
        { file := inode, path := .live, writePos := live.bytes.length
          allocatedEnd := live.bytes.length + prealloc.chunkBytes, prealloc, preWritten := false
          genesisEntries := live.genesisEntries }
      batchBufLen := batchBufCapacity }
  have openedWriter : (BufferedWriter.openAppend .live
      (entriesOf ((archived ++ [live]).map (·.segment))).length live.bytes.length prealloc
      reads.chain).run fs = (after, .ok writer) := by
    rw [opens reads.chain, opened, show live.segment.info = live.info from rfl,
      rebuiltChain_eq]
    rfl
  have ran : ∃ node, (JournaledApp.recover app prealloc reads).run fs = (after, .ok node) ∧
      node.writer = writer ∧
      ({ app := node.app, watermark := node.tickWatermark, lineage := node.recoveredLineage } :
          NodeState A)
        = (NodeState.genesis app).steps (entriesOf ((archived ++ [live]).map (·.segment))) := by
    refine ⟨{ app := _, writer, recoveredLineage := _, tickWatermark := _ }, ?_, rfl, rfl⟩
    simp only [JournaledApp.recover, JournaledApp.recoverInner, Prog.run, read, Prog.run_bind,
      Prog.run_mapError, opening, JournaledApp.openWriter, openedWriter, Except.mapError,
      Prog.run_pure]
    rfl
  obtain ⟨node, ran, writerEq, stateEq⟩ := ran
  have sound := Prog.sound_run (JournaledApp.recover app prealloc reads) disk.sound
  rw [ran] at sound
  have starts : live.startingSequence
      = (entriesOf (archived.map (·.segment))).length + 1 := by
    have linked := linked
    rw [List.map_append] at linked
    exact linked.next_last
  have count : (entriesOf ((archived ++ [live]).map (·.segment))).length + 1 = live.next := by
    rw [List.map_append, List.map_cons, List.map_nil, entriesOf_snoc, List.length_append,
      WrittenSegment.segment_entries, List.length_map, WrittenSegment.next, starts]
    omega
  refine ⟨after, node, ran, ?_, stateEq, ⟨sound, ?_, ?_, ?_⟩, ?_⟩
  · rw [read]
    rfl
  · refine disk.archives.frame (fun index => names _ (by simp)) fun index other found => ?_
    rw [inodes]
    exact Function.update_of_ne (disk.archive_ne found) ..
  · rw [names .live (by simp), disk.liveName]
  · exact ⟨_, by rw [inodes, Function.update_self], by rw [opened]; exact ⟨_, rfl⟩⟩
  · rw [writerEq]
    have none : Consecutive live.next (sequencesOf ([] : List (WrittenEntry E))) :=
      consecutive_nil _
    refine ⟨⟨rfl, rfl, rfl, rfl⟩, none, rfl, count, Nat.lt_succ_self _, ?_, Nat.zero_le _⟩
    rw [WrittenSegment.extend_chain]
    rfl

end

/-- An entry, and the chain value the writer had right after encoding it. -/
structure Stamped (E : Type) where
  entry : JournalEntry E
  chain : Digest

section

variable {E : Type} [AppEvent E] [Hashing]

def stampsFrom : SegmentChain → List (WrittenEntry E) → List (Stamped E)
  | _, [] => []
  | chain, written :: entries =>
    { entry := written.entry, chain := (chain.absorb written.bytes).value }
      :: stampsFrom (chain.absorb written.bytes) entries

theorem stampsFrom_append (chain : SegmentChain) (front back : List (WrittenEntry E)) :
    stampsFrom chain (front ++ back) = stampsFrom chain front
      ++ stampsFrom (front.foldl (fun chain entry => chain.absorb entry.bytes) chain) back := by
  induction front generalizing chain with
  | nil => rfl
  | cons written front ih =>
    simp only [List.cons_append, stampsFrom, ih, List.foldl_cons]

theorem stampsFrom_entries (chain : SegmentChain) (entries : List (WrittenEntry E)) :
    (stampsFrom chain entries).map (·.entry) = entries.map (·.entry) := by
  induction entries generalizing chain with
  | nil => rfl
  | cons written entries ih => simp only [stampsFrom, List.map_cons, ih]

theorem stampsFrom_length (chain : SegmentChain) (entries : List (WrittenEntry E)) :
    (stampsFrom chain entries).length = entries.length := by
  simpa using congrArg List.length (stampsFrom_entries chain entries)

theorem stampsFrom_getLast (chain : SegmentChain) (entries : List (WrittenEntry E)) :
    ((stampsFrom chain entries).getLast?.map (·.chain)).getD chain.value
      = (entries.foldl (fun chain entry => chain.absorb entry.bytes) chain).value := by
  induction entries using List.reverseRecOn with
  | nil => rfl
  | append_singleton front last => simp [stampsFrom_append, stampsFrom]

def WrittenSegment.stamps (written : WrittenSegment E) : List (Stamped E) :=
  stampsFrom (.new written.anchorHash) written.entries

end

/-- What is done with a journal: calls on its writer, the preparer's work, and a restart. -/
inductive WriterOp (E : Type) where
  | batchAppend (event : JournalEvent E) (timestampNs keyHash : UInt64)
  /-- Write the batch and force it to stable media. -/
  | flush
  /-- The preparer stages a segment for the next rotation. -/
  | stage (serial bytes window : Nat) (mode : StagingMode)
  /-- Rotate, onto the staged segment if there is one. -/
  | rotate
  /-- Close the journal, and open it again through recovery. -/
  | reopen (prealloc : Prealloc) (reads : RecoveryReads)

/-- A journal at work, with a record of what was appended to it. -/
structure WriterState (E : Type) where
  fs : Fs NodeFile
  writer : BufferedWriter
  staged : Option PreparedSegment
  /-- Entries that were flushed, which nothing reads. -/
  written : List (Stamped E)
  /-- Entries that were only encoded, which nothing reads. -/
  pending : List (Stamped E)

namespace WriterState

variable {A E R : Type} [Application A E R] [AppEvent E] [Hashing]

def create (fs : Fs NodeFile) (salt : Digest) (prealloc : Prealloc) :
    Except JournalError (WriterState E) :=
  match (BufferedWriter.create .live salt prealloc).run fs with
  | (fs, .ok writer) => .ok { fs, writer, staged := none, written := [], pending := [] }
  | (_, .error err) => .error err

def step (app : A) (state : WriterState E) :
    WriterOp E → Except JournaledAppError (WriterState E)
  | .batchAppend event timestampNs keyHash =>
    match state.writer.batchAppendWithTs event timestampNs keyHash with
    | (writer, .ok sequence) =>
      let entry := { sequence, timestampNs, keyHash, event }
      .ok { state with
        writer, pending := state.pending ++ [{ entry, chain := writer.chainHash }] }
    | (writer, .error _) => .ok { state with writer }
  | .flush =>
    match state.writer.flushBatchSync.run state.fs with
    | (fs, .ok writer) =>
      .ok { state with fs, writer, written := state.written ++ state.pending, pending := [] }
    | (_, .error err) => .error (.journal err)
  | .stage serial bytes window mode =>
    match (prepareOne serial bytes window mode).run state.fs with
    | (fs, .ok prepared) => .ok { state with fs, staged := some prepared }
    | (fs, .error _) => .ok { state with fs }
  | .rotate =>
    match (state.writer.rotateSegment state.staged).run state.fs with
    | (fs, .ok writer) =>
      .ok { fs, writer, staged := none, written := state.written ++ state.pending, pending := [] }
    | (_, .error err) => .error (.journal err)
  | .reopen prealloc reads =>
    match (JournaledApp.recover app prealloc reads).run state.fs with
    | (fs, .ok node) =>
      .ok { fs, writer := node.writer, staged := none, written := state.written, pending := [] }
    | (_, .error err) => .error err

def run (app : A) (state : WriterState E) (ops : List (WriterOp E)) :
    Except JournaledAppError (WriterState E) := ops.foldlM (step app) state

end WriterState

section

variable {E : Type} [AppEvent E] [Hashing]

def stampsOf (history : List (WrittenSegment E)) : List (Stamped E) := history.flatMap (·.stamps)

theorem stampsOf_entries (history : List (WrittenSegment E)) :
    (stampsOf history).map (·.entry) = entriesOf (history.map (·.segment)) := by
  induction history with
  | nil => rfl
  | cons written history ih =>
    simp only [stampsOf, List.flatMap_cons, List.map_append, List.map_cons, entriesOf] at ih ⊢
    rw [ih, WrittenSegment.stamps, stampsFrom_entries, WrittenSegment.segment_entries]

theorem stampsOf_tail {archived : List (WrittenSegment E)} {live : WrittenSegment E} {salt : Digest}
    (linked : Linked ((archived ++ [live]).map (·.segment)))
    (anchored : ∀ first ∈ (archived ++ [live]).head?, first.anchorHash = salt) :
    ((stampsOf (archived ++ [live])).getLast?.map (·.chain)).getD salt = live.chain.value := by
  have ends := stampsFrom_getLast (.new live.anchorHash) live.entries
  rw [show (SegmentChain.new live.anchorHash).value = live.anchorHash from rfl] at ends
  induction archived using List.reverseRecOn generalizing live with
  | nil =>
    have isSalt := anchored live rfl
    simp only [stampsOf, List.nil_append, List.flatMap_cons, List.flatMap_nil, List.append_nil]
    rw [← isSalt]
    exact ends
  | append_singleton front before ih =>
    have joined : stampsOf (front ++ [before] ++ [live]) = stampsOf (front ++ [before]) ++ live.stamps := by
      simp [stampsOf]
    rw [joined, List.getLast?_append]
    cases last : live.stamps.getLast? with
    | some stamp =>
      rw [show (stampsFrom (.new live.anchorHash) live.entries).getLast? = some stamp from last] at ends
      exact ends
    | none =>
      -- The live segment is empty, so its value is its anchor, which the one before ended with.
      rw [show (stampsFrom (.new live.anchorHash) live.entries).getLast? = none from last] at ends
      rw [List.map_append] at linked
      have link : before.segment.Links live.segment := by
        have whole := linked.links
        rw [List.map_append, List.append_assoc] at whole
        exact (List.isChain_append.mp whole).2.1.rel
      have front_ends := ih linked.front
        (fun first isFirst => anchored first (by
          rw [List.head?_append_of_ne_nil _ (by simp)]
          exact isFirst))
        (stampsFrom_getLast (.new before.anchorHash) before.entries)
      have anchor : live.anchorHash = before.chain.value := by
        rw [← before.segment_tail]
        exact link.anchor
      rw [Option.none_or, front_ends, ← anchor]
      exact ends

/-- What a journal at work is: a history on disk, and its writer behind it. -/
structure WriterState.Holds (state : WriterState E) (salt : Digest)
    (archived : List (WrittenSegment E)) (inode : Nat) (live : WrittenSegment E)
    (pending : List (WrittenEntry E)) : Prop where
  disk : DiskHolds state.fs archived inode live
  linked : Linked ((archived ++ [live]).map (·.segment))
  anchored : ∀ first ∈ (archived ++ [live]).head?, first.anchorHash = salt
  tracks : state.writer.Tracks inode live pending
  staged : ∀ ready ∈ state.staged, Staged state.fs ready
  written : state.written = stampsOf (archived ++ [live])
  encoded : state.pending = stampsFrom live.chain pending

namespace WriterState.Holds

variable {state : WriterState E} {salt : Digest} {archived : List (WrittenSegment E)} {inode : Nat}
  {live : WrittenSegment E} {pending : List (WrittenEntry E)}

theorem starts (holds : state.Holds salt archived inode live pending) :
    live.startingSequence = (stampsOf archived).length + 1 := by
  have linked := holds.linked
  rw [List.map_append] at linked
  have count := congrArg List.length (stampsOf_entries archived)
  rw [List.length_map] at count
  rw [count]
  exact linked.next_last

theorem next (holds : state.Holds salt archived inode live pending) :
    state.writer.nextSequence = state.written.length + state.pending.length + 1 := by
  have written : state.written.length = (stampsOf archived).length + live.entries.length := by
    simp [holds.written, stampsOf, WrittenSegment.stamps, stampsFrom_length]
  rw [BufferedWriter.nextSequence, holds.tracks.next, WrittenSegment.next, holds.starts, written,
    holds.encoded, stampsFrom_length]
  omega

theorem chain_written (holds : state.Holds salt archived inode live []) :
    state.writer.chainHash = (state.written.getLast?.map (·.chain)).getD salt := by
  rw [holds.written, stampsOf_tail holds.linked holds.anchored, BufferedWriter.chainHash,
    JournalEncoder.chainHash, holds.tracks.chain, WrittenSegment.extend_chain]
  rfl

theorem linked_extend (holds : state.Holds salt archived inode live pending) :
    Linked ((archived ++ [live.extend pending holds.tracks.continues]).map (·.segment)) := by
  have linked := holds.linked
  rw [List.map_append] at linked ⊢
  exact linked.replaceLast rfl

theorem anchored_extend (holds : state.Holds salt archived inode live pending) :
    ∀ first ∈ (archived ++ [live.extend pending holds.tracks.continues]).head?,
      first.anchorHash = salt := by
  have anchored := holds.anchored
  cases archived with
  | nil => simpa [WrittenSegment.extend] using anchored
  | cons first archived => simpa using anchored

theorem stampsOf_extend (holds : state.Holds salt archived inode live pending) :
    stampsOf (archived ++ [live.extend pending holds.tracks.continues])
      = state.written ++ state.pending := by
  have extended : (live.extend pending holds.tracks.continues).stamps
      = live.stamps ++ stampsFrom live.chain pending := stampsFrom_append ..
  rw [holds.written, holds.encoded]
  simp [stampsOf, extended]

theorem batchAppend [LawfulAppEvent E] (holds : state.Holds salt archived inode live pending)
    {event : JournalEvent E} (journaled : event.isShutdown = false)
    (fits : state.writer.nextSequence < 2 ^ 64) (timestampNs keyHash : UInt64) :
    ∃ writer stamp written,
      state.writer.batchAppendWithTs event timestampNs keyHash
        = (writer, .ok state.writer.nextSequence) ∧
      stamp = { entry := { sequence := state.writer.nextSequence, timestampNs, keyHash, event }
                chain := writer.chainHash } ∧
      WriterState.Holds { state with writer, pending := state.pending ++ [stamp] } salt archived
        inode live (pending ++ [written]) := by
  obtain ⟨written, after, entryEq, appends, tracks, -⟩ :=
    holds.tracks.append journaled fits timestampNs keyHash
  refine ⟨after, _, written, appends, rfl, holds.disk, holds.linked, holds.anchored, tracks,
    holds.staged, holds.written, ?_⟩
  have chain : after.encoder.chain
      = (pending.foldl (fun chain entry => chain.absorb entry.bytes) live.chain).absorb
        written.bytes := by
    rw [tracks.chain, WrittenSegment.extend_chain, List.foldl_append]
    rfl
  rw [stampsFrom_append, ← holds.encoded, stampsFrom, stampsFrom, entryEq,
    BufferedWriter.chainHash, JournalEncoder.chainHash, chain]

theorem flush (holds : state.Holds salt archived inode live pending) :
    ∃ fs writer live, state.writer.flushBatchSync.run state.fs = (fs, .ok writer) ∧
      WriterState.Holds { state with fs, writer, written := state.written ++ state.pending
                                     pending := [] } salt archived inode live [] := by
  obtain ⟨file, after, ran, disk, tracks, -⟩ := holds.tracks.flush holds.disk
  refine ⟨_, after, live.extend pending holds.tracks.continues, ran, disk, holds.linked_extend,
    holds.anchored_extend, tracks, fun ready isReady => ?_, holds.stampsOf_extend.symm, rfl⟩
  exact holds.disk.keepsStaged (holds.staged ready isReady) file

/-- Rotating writes everything that was encoded, and changes neither sequence nor chain value. -/
theorem rotate (holds : state.Holds salt archived inode live pending)
    (fits : state.writer.nextSequence < 2 ^ 64) :
    ∃ fs writer inode sealedLive fresh,
      (state.writer.rotateSegment state.staged).run state.fs = (fs, .ok writer) ∧
      WriterState.Holds { fs, writer, staged := none, written := state.written ++ state.pending
                          pending := [] } salt (archived ++ [sealedLive]) inode fresh [] ∧
      fresh.entries = [] ∧ fresh.anchorHash = state.writer.chainHash ∧
      writer.nextSequence = state.writer.nextSequence ∧
      writer.chainHash = state.writer.chainHash := by
  obtain ⟨after, writer, file, fresh, ran, freshEq, disk, tracks, -⟩ :=
    holds.tracks.rotate holds.disk fits holds.staged
  have chain := holds.tracks.chainHash
  have next : state.writer.nextSequence = (live.extend pending holds.tracks.continues).segment.next := by
    rw [WrittenSegment.segment_next, BufferedWriter.nextSequence, holds.tracks.next]
    simp [WrittenSegment.extend, WrittenSegment.next, Nat.add_assoc]
  generalize extendedEq : live.extend pending holds.tracks.continues = extended at disk chain next
  have links : extended.segment.Links fresh.segment := by
    subst freshEq
    exact ⟨next, chain, by rw [← extendedEq]; rfl⟩
  have linked := holds.linked_extend
  have anchored := holds.anchored_extend
  have stamps := holds.stampsOf_extend
  rw [extendedEq] at linked anchored stamps
  refine ⟨after, writer, file, extended, fresh, ran, ⟨disk, ?_, ?_, tracks, by simp, ?_, rfl⟩,
    by rw [freshEq]; rfl, by rw [freshEq]; rfl, ?_, ?_⟩
  · rw [List.map_append] at linked
    simpa using linked.snoc links
  · intro first isFirst
    refine anchored first ?_
    rwa [List.head?_append_of_ne_nil _ (by simp)] at isFirst
  · rw [← stamps, freshEq]
    simp [stampsOf, WrittenSegment.stamps, WrittenSegment.fresh, stampsFrom]
  · rw [BufferedWriter.nextSequence, tracks.next, freshEq]
    rfl
  · rw [tracks.chainHash, WrittenSegment.segment_tail, WrittenSegment.extend_chain, freshEq]
    rfl

theorem stage (holds : state.Holds salt archived inode live pending) (serial bytes window : Nat)
    (mode : StagingMode) :
    (∃ fs prepared, (prepareOne serial bytes window mode).run state.fs = (fs, .ok prepared) ∧
      WriterState.Holds { state with fs, staged := some prepared } salt archived inode live pending) ∨
    ∃ err, (prepareOne serial bytes window mode).run state.fs = (state.fs, .error err) := by
  cases named : state.fs.table.lookup (.staging serial) with
  | none =>
    obtain ⟨after, prepared, ran, disk, staged⟩ := holds.disk.prepareOne named bytes window mode
    refine .inl ⟨after, prepared, ran, disk, holds.linked, holds.anchored, holds.tracks, ?_,
      holds.written, holds.encoded⟩
    simpa using staged
  | some taken =>
    refine .inr ⟨ioError .alreadyExists, ?_⟩
    simp [prepareOne, Prog.run_bind, io, Prog.run_perform, Fs.step, named]

variable {A R : Type} [Application A E R]

theorem reopen [LawfulAppEvent E] (holds : state.Holds salt archived inode live pending) (app : A)
    (prealloc : Prealloc) (reads : RecoveryReads) :
    ∃ fs node, (JournaledApp.recover app prealloc reads).run state.fs = (fs, .ok node) ∧
      (recoverRead app none reads.segments (journalDir state.fs)).1.dispatched
        = state.written.map (·.entry) ∧
      ({ app := node.app, watermark := node.tickWatermark, lineage := node.recoveredLineage } :
          NodeState A)
        = (NodeState.genesis app).steps (state.written.map (·.entry)) ∧
      WriterState.Holds { fs, writer := node.writer, staged := none, written := state.written
                          pending := [] } salt archived inode live [] := by
  obtain ⟨after, node, ran, dispatched, replayed, disk, tracks⟩ :=
    holds.disk.recover holds.linked app prealloc reads
  rw [← stampsOf_entries, ← holds.written] at dispatched replayed
  exact ⟨after, node, ran, dispatched, replayed, disk, holds.linked, holds.anchored, tracks, by simp,
    holds.written, rfl⟩

end WriterState.Holds

/-- A directory without a journal in it. -/
structure Blank (fs : Fs NodeFile) : Prop where
  sound : fs.Sound
  unarchived : ∀ index, fs.table.lookup (.archive index) = none
  free : fs.table.lookup .live = none

theorem WriterState.holds_create {fs : Fs NodeFile} (blank : Blank fs) (salt : Digest)
    (prealloc : Prealloc) :
    ∃ (state : WriterState E) (inode : Nat), create fs salt prealloc = .ok state ∧
      state.written = [] ∧ state.pending = [] ∧
      state.Holds salt [] inode (.fresh 1 salt (some 0) (by decide) (by simp)) [] := by
  obtain ⟨cleaned, cleans, same⟩ := run_cleanupStagingOrphan fs
  have free : cleaned.table.lookup .live = none := by
    rw [same.names .live (by simp), blank.free]
  let after := withFile cleaned .live (.settled (freshSegment 1 salt (some 0) prealloc))
  have ran : (BufferedWriter.create .live salt prealloc).run fs = (after, .ok
      { encoder := .new 1 salt
        segment :=
          { file := cleaned.fresh, path := .live, writePos := entryOffset
            allocatedEnd := prealloc.chunkBytes, prealloc, preWritten := false
            genesisEntries := some 0 }
        batchBufLen := batchBufCapacity }) := by
    rw [BufferedWriter.create, Prog.run_bind, cleans]
    exact BufferedWriter.run_createContinuing free 1 salt (some 0) prealloc
  have sound := Prog.sound_run (BufferedWriter.create .live salt prealloc) blank.sound
  rw [ran] at sound
  have unarchived : archiveIndexes after.table = [] := by
    refine List.eq_nil_iff_forall_not_mem.mpr fun index member => ?_
    have named := mem_archiveIndexes.mp member
    rw [show after.table = cleaned.table.insert .live cleaned.fresh from rfl,
      AList.lookup_insert_ne (by simp), same.names _ (by simp), blank.unarchived] at named
    simp at named
  refine ⟨{ fs := after, writer := _, staged := none, written := [], pending := [] }, cleaned.fresh,
    by simp only [create, ran]; rfl, rfl, rfl,
    ⟨sound, ?_, AList.lookup_insert _, ⟨_, Function.update_self .., ?_⟩⟩,
    ⟨.singleton _, by simp [WrittenSegment.fresh, WrittenSegment.segment, WrittenSegment.info]⟩,
    by simp [WrittenSegment.fresh], ⟨⟨rfl, rfl, ?_, rfl⟩, consecutive_nil _, rfl, rfl,
      by simp [JournalEncoder.new], rfl, Nat.zero_le _⟩, by simp, rfl, rfl⟩
  · rw [HoldsArchives, unarchived]
    exact .nil
  · simp only [WrittenSegment.bytes, WrittenSegment.fresh, bytesOf, List.flatMap_nil, List.append_nil]
    exact ⟨_, rfl⟩
  · rw [WrittenSegment.bytes, List.length_append, WrittenSegment.header_length]
    rfl

/-- What an entry carries besides the sequence it got. -/
structure Appended (E : Type) where
  event : JournalEvent E
  timestampNs : UInt64
  keyHash : UInt64

def Stamped.appended (stamp : Stamped E) : Appended E :=
  { event := stamp.entry.event, timestampNs := stamp.entry.timestampNs
    keyHash := stamp.entry.keyHash }

namespace WriterOp

def appends : WriterOp E → Nat
  | .batchAppend .. => 1
  | .flush | .stage .. | .rotate | .reopen .. => 0

def Journalable : WriterOp E → Prop
  | .batchAppend event .. => event.isShutdown = false
  | .flush | .stage .. | .rotate | .reopen .. => True

def account : List (Appended E) × List (Appended E) → WriterOp E →
    List (Appended E) × List (Appended E)
  | (flushed, waiting), .batchAppend event timestampNs keyHash =>
    (flushed, waiting ++ [{ event, timestampNs, keyHash }])
  | (flushed, waiting), .flush | (flushed, waiting), .rotate => (flushed ++ waiting, [])
  | (flushed, waiting), .stage .. => (flushed, waiting)
  | (flushed, _), .reopen .. => (flushed, [])

end WriterOp

def flushedBy (ops : List (WriterOp E)) : List (Appended E) := (ops.foldl WriterOp.account ([], [])).1

namespace WriterState

def accounted (state : WriterState E) : List (Appended E) × List (Appended E) :=
  (state.written.map (·.appended), state.pending.map (·.appended))

def Sane (salt : Digest) (state : WriterState E) : Prop :=
  ∃ archived inode live pending, state.Holds salt archived inode live pending

variable {A R : Type} [Application A E R] [LawfulAppEvent E]

theorem sane_step {salt : Digest} {state : WriterState E} (sane : state.Sane salt) (app : A)
    {op : WriterOp E} (journalable : op.Journalable) (fits : state.writer.nextSequence < 2 ^ 64) :
    ∃ after, state.step app op = .ok after ∧ after.Sane salt ∧
      after.accounted = op.account state.accounted ∧
      after.writer.nextSequence ≤ state.writer.nextSequence + op.appends := by
  obtain ⟨archived, inode, live, pending, holds⟩ := sane
  have next := holds.next
  cases op with
  | batchAppend event timestampNs keyHash =>
    obtain ⟨writer, stamp, written, ran, rfl, after⟩ :=
      holds.batchAppend journalable fits timestampNs keyHash
    refine ⟨_, by simp only [step, ran], ⟨_, _, _, _, after⟩, ?_, ?_⟩
    · simp [accounted, WriterOp.account, Stamped.appended]
    · rw [after.next, next]
      simp [WriterOp.appends]
      omega
  | flush =>
    obtain ⟨fs, writer, extended, ran, after⟩ := holds.flush
    refine ⟨_, by simp only [step, ran], ⟨_, _, _, _, after⟩, ?_, ?_⟩
    · simp [accounted, WriterOp.account]
    · rw [after.next, next]
      simp [WriterOp.appends]
  | stage serial bytes window mode =>
    rcases holds.stage serial bytes window mode with ⟨fs, prepared, ran, after⟩ | ⟨err, ran⟩
    · exact ⟨_, by simp only [step, ran], ⟨_, _, _, _, after⟩, rfl, le_rfl⟩
    · exact ⟨_, by simp only [step, ran], ⟨_, _, _, _, holds⟩, rfl, le_rfl⟩
  | rotate =>
    obtain ⟨fs, writer, file, sealedLive, fresh, ran, after, -, -, nextEq, -⟩ := holds.rotate fits
    refine ⟨_, by simp only [step, ran], ⟨_, _, _, _, after⟩, ?_, nextEq.le⟩
    simp [accounted, WriterOp.account]
  | reopen prealloc reads =>
    obtain ⟨fs, node, ran, -, -, after⟩ := holds.reopen app prealloc reads
    refine ⟨_, by simp only [step, ran], ⟨_, _, _, _, after⟩, rfl, ?_⟩
    rw [after.next, next]
    simp [WriterOp.appends]

theorem sane_run {salt : Digest} {state : WriterState E} (sane : state.Sane salt) (app : A)
    {ops : List (WriterOp E)} (journalable : ∀ op ∈ ops, op.Journalable)
    (fits : state.writer.nextSequence + (ops.map (·.appends)).sum < 2 ^ 64) :
    ∃ after, state.run app ops = .ok after ∧ after.Sane salt ∧
      after.accounted = ops.foldl WriterOp.account state.accounted ∧
      after.writer.nextSequence < 2 ^ 64 := by
  induction ops generalizing state with
  | nil => exact ⟨state, rfl, sane, rfl, by simpa using fits⟩
  | cons op ops ih =>
    obtain ⟨opOk, opsOk⟩ := List.forall_mem_cons.mp journalable
    rw [List.map_cons, List.sum_cons] at fits
    obtain ⟨between, stepped, betweenSane, account, next⟩ := sane_step sane app opOk (by omega)
    obtain ⟨after, ran, afterSane, accounts, bound⟩ := ih betweenSane opsOk (by omega)
    refine ⟨after, ?_, afterSane, by rw [accounts, account]; rfl, bound⟩
    rw [run, List.foldlM_cons, stepped]
    exact ran

theorem run_holds {fs : Fs NodeFile} (blank : Blank fs) (salt : Digest) (prealloc : Prealloc)
    (app : A) (ops : List (WriterOp E)) (journalable : ∀ op ∈ ops, op.Journalable)
    (fits : (ops.map (·.appends)).sum + 1 < 2 ^ 64) :
    ∃ (start state : WriterState E) (archived : List (WrittenSegment E)) (inode : Nat)
      (live : WrittenSegment E) (pending : List (WrittenEntry E)),
      create fs salt prealloc = .ok start ∧ start.run app ops = .ok state ∧
      state.Holds salt archived inode live pending ∧
      state.written.map (·.appended) = flushedBy ops ∧ state.writer.nextSequence < 2 ^ 64 := by
  obtain ⟨start, inode, created, noneWritten, nonePending, startHolds⟩ :=
    holds_create (E := E) blank salt prealloc
  have startNext := startHolds.next
  rw [noneWritten, nonePending] at startNext
  obtain ⟨state, ran, ⟨archived, file, live, pending, holds⟩, accounted, bound⟩ :=
    sane_run ⟨_, _, _, _, startHolds⟩ app journalable (by
      rw [startNext]
      simpa [Nat.add_comm] using fits)
  refine ⟨start, state, archived, file, live, pending, created, ran, holds, ?_, bound⟩
  have flushed := congrArg Prod.fst accounted
  rw [WriterState.accounted, WriterState.accounted, noneWritten, nonePending] at flushed
  exact flushed

/-- Every run of the journal writer leaves a directory that recovery reads back whole. -/
theorem run_recoverable {fs : Fs NodeFile} (blank : Blank fs) (salt : Digest) (prealloc : Prealloc)
    (app : A) (ops : List (WriterOp E)) (journalable : ∀ op ∈ ops, op.Journalable)
    (fits : (ops.map (·.appends)).sum + 1 < 2 ^ 64) :
    ∃ start state : WriterState E, create fs salt prealloc = .ok start ∧
      start.run app ops = .ok state ∧
      -- What was flushed is what the calls say, numbered from the first sequence on.
      state.written.map (·.appended) = flushedBy ops ∧
      Consecutive 1 (state.written.map (·.entry.sequence)) ∧
      (∀ prealloc reads, ∃ after node,
        (JournaledApp.recover app prealloc reads).run state.fs = (after, .ok node) ∧
        (recoverRead app none reads.segments (journalDir state.fs)).1.dispatched
          = state.written.map (·.entry) ∧
        ({ app := node.app, watermark := node.tickWatermark, lineage := node.recoveredLineage } :
            NodeState A)
          = (NodeState.genesis app).steps (state.written.map (·.entry)) ∧
        node.writer.nextSequence = state.written.length + 1 ∧
        node.writer.chainHash = (state.written.getLast?.map (·.chain)).getD salt) ∧
      ∃ rotated, state.step app .rotate = .ok rotated ∧
        rotated.writer.nextSequence = state.writer.nextSequence ∧
        rotated.writer.chainHash = state.writer.chainHash := by
  obtain ⟨start, state, archived, file, live, pending, created, ran, holds, flushed, bound⟩ :=
    run_holds blank salt prealloc app ops journalable fits
  refine ⟨start, state, created, ran, flushed, ?_, fun prealloc reads => ?_, ?_⟩
  · have consecutive := holds.linked.consecutive
    rwa [← stampsOf_entries, ← holds.written, List.map_map] at consecutive
  · obtain ⟨after, node, recovers, dispatched, replayed, reopened⟩ := holds.reopen app prealloc reads
    exact ⟨after, node, recovers, dispatched, replayed, reopened.next, reopened.chain_written⟩
  · obtain ⟨fs, writer, other, sealedLive, fresh, rotates, -, -, -, nextEq, chainEq⟩ :=
      holds.rotate bound
    exact ⟨_, by simp only [step, rotates]; rfl, nextEq, chainEq⟩

theorem recoverRead_gap (app : A) {dir : JournalDir} (unarchived : dir.archives = [])
    {live : WrittenSegment E} (starts : live.startingSequence = 1) {written : WrittenEntry E}
    (skips : written.entry.sequence ≠ 1) {rest : Bytes}
    (isLive : dir.live = some (live.header ++ (written.bytes ++ rest))) (reads : ReadSchedule) :
    (recoverRead app none reads dir).2
      = .error (.journal (.sequenceGap 1 written.entry.sequence)) := by
  have header := live.segmentHeader_eq (written.bytes ++ rest)
  generalize contentEq : live.header ++ (written.bytes ++ rest) = content at isLive header
  have behind : (startPlace content .live .live live.info).rest = written.bytes ++ rest := by
    rw [← contentEq]
    exact List.drop_left' live.header_length
  have fails : (startPlace content .live .live live.info).next (E := E)
      = .fail (.sequenceGap 1 written.entry.sequence) := by
    have refused : JournalReader.checkSequence
        (startPlace content .live .live live.info).startingSequence
        (startPlace content .live .live live.info).lastSequence written.entry.sequence
          = .error (.sequenceGap 1 written.entry.sequence) := by
      simp [JournalReader.checkSequence, startPlace, WrittenSegment.info, starts, skips]
    simp only [Place.next, behind, written.headOf rest, refused]
  have links : verifySegmentLink 0 live.info none none (snapSequenceOf none + 1) none = .ok () := by
    simp [verifySegmentLink, snapSequenceOf, WrittenSegment.info, starts]
    rfl
  simp only [recoverRead, unarchived, walkArchives, walkLive, isLive, walkSegment_eq, walkBytes,
    header, startWalk, links, verifyBoundarySnapshotAnchor, Place.visit_eq, fails, Prod.map,
    Except.map]

theorem run_refused_append {fs : Fs NodeFile} (blank : Blank fs) (salt : Digest) (prealloc : Prealloc)
    (app : A) {event : JournalEvent E} (journaled : event.isShutdown = false)
    (timestampNs keyHash : UInt64) :
    ∃ start state : WriterState E, create fs salt prealloc = .ok start ∧
      start.run app [.batchAppend .shutdown timestampNs keyHash,
        .batchAppend event timestampNs keyHash, .flush] = .ok state ∧
      ∀ prealloc reads, ((JournaledApp.recover app prealloc reads).run state.fs).2.isOk = false := by
  obtain ⟨start, inode, created, noneWritten, nonePending, holds⟩ :=
    holds_create (E := E) blank salt prealloc
  have tracks := holds.tracks
  have next : start.writer.encoder.nextSequence = 1 := by
    have := holds.next
    rw [noneWritten, nonePending] at this
    exact this
  obtain ⟨batchBufLen, err, grown, refused⟩ :=
    start.writer.batchAppendWithTs_shutdown (E := E) timestampNs keyHash tracks.lastEncoded
  -- The next event gets the second sequence, as in a segment that starts there.
  let skipped : BufferedWriter := { start.writer with
    batchBufLen, encoder := start.writer.encoder.allocateSequence.2 }
  let late : WrittenSegment E := .fresh 2 salt (some 0) (by decide) (by simp)
  have width : ∀ segment : WrittenSegment E, segment.entries = [] →
      segment.bytes.length = maxSectorSize := by
    intro segment none
    rw [WrittenSegment.bytes, List.length_append, segment.header_length, none]
    rfl
  have lateTracks : skipped.Tracks inode late [] := by
    refine ⟨⟨tracks.segment.file, tracks.segment.path, ?_, tracks.segment.genesis⟩,
      consecutive_nil _, tracks.batch, ?_, tracks.lastEncoded.trans (Nat.lt_succ_self _),
      tracks.chain, tracks.buffer.trans grown⟩
    · rw [width late rfl]
      exact tracks.segment.writePos.trans (width _ rfl)
    · simp [skipped, JournalEncoder.allocateSequence, next, late, WrittenSegment.fresh,
        WrittenSegment.next]
  have second : skipped.nextSequence = 2 := lateTracks.next
  obtain ⟨written, encoded, entryEq, appends, encodedTracks, -⟩ :=
    lateTracks.append journaled (by rw [second]; decide) timestampNs keyHash
  have batch : encoded.encoder.batch = written.bytes := by simp [encodedTracks.batch, bytesOf]
  obtain ⟨content, settled, padded⟩ := holds.disk.liveFile
  obtain ⟨file, segment, writes, filePadded, fileEq, -⟩ := SegmentFile.run_writeBatch
    (encodedTracks.segment.writePos.trans ((width late rfl).trans (width _ rfl).symm))
    (show Padded _ (start.fs.inodes encoded.segment.file).content by
      rw [encodedTracks.segment.file, settled]
      exact padded) encoded.encoder.batch
  rw [encodedTracks.segment.file] at writes fileEq
  have nonempty : encoded.encoder.batch.length ≠ 0 := by
    have := written.framing_le
    rw [batch]
    simp only [entryFramingSize, entryHeaderSize] at this
    omega
  have flushes : encoded.flushBatchSync.run start.fs
      = (start.fs.setInode inode file.sync, .ok { encoded with
          segment, encoder := encoded.encoder.clearBatch }) := by
    rw [BufferedWriter.flushBatchSync, if_neg nonempty]
    simp only [Prog.run_bind, writes, SegmentFile.sync, io, Prog.run_perform_sync, Prog.run_pure,
      fileEq, Fs.inodes_setInode, Fs.setInode_setInode]
  have ran : ∃ state, start.run app [.batchAppend .shutdown timestampNs keyHash,
      .batchAppend event timestampNs keyHash, .flush] = .ok state ∧
      state.fs = start.fs.setInode inode file.sync := by
    refine ⟨{ start with
      fs := start.fs.setInode inode file.sync
      writer := { encoded with segment, encoder := encoded.encoder.clearBatch }
      written := start.written ++ (start.pending ++ [{
        entry := { sequence := skipped.nextSequence, timestampNs, keyHash, event }
        chain := encoded.chainHash }])
      pending := [] }, ?_, rfl⟩
    simp only [run, List.foldlM_cons, List.foldlM_nil, step, refused, bind, Except.bind]
    rw [show ({ start.writer with
      batchBufLen, encoder := start.writer.encoder.allocateSequence.2 } : BufferedWriter) = skipped
      from rfl, appends]
    simp only [flushes]
    rfl
  obtain ⟨state, ran, stateFs⟩ := ran
  obtain ⟨zeros, fileContent⟩ := filePadded
  refine ⟨start, state, created, ran, fun prealloc reads => ?_⟩
  have unarchived : (journalDir state.fs).archives = [] := by
    have none : archiveIndexes start.fs.table = [] := by
      have archives := holds.disk.archives
      rw [HoldsArchives, List.forall₂_nil_right_iff] at archives
      exact archives
    rw [journalDir, stateFs]
    simp [Fs.setInode, none]
  have isLive : (journalDir state.fs).live = some ((WrittenSegment.fresh (E := E) 1 salt (some 0)
      (by decide) (by simp)).header ++ (written.bytes ++ List.replicate zeros 0)) := by
    rw [journalDir, stateFs]
    simp [Fs.content, Fs.file, Fs.setInode, holds.disk.liveName, fileContent, batch,
      WrittenSegment.bytes, WrittenSegment.fresh, bytesOf]
  have refusal := recoverRead_gap app unarchived rfl (by rw [entryEq, second]; simp) isLive
    reads.segments
  rw [JournaledApp.recover, JournaledApp.recoverInner, Prog.run]
  generalize recoverRead app none reads.segments (journalDir state.fs) = read at refusal ⊢
  obtain ⟨replay, result⟩ := read
  subst refusal
  rfl

end WriterState

end

theorem emptyFs_blank : Blank emptyFs :=
  ⟨⟨by simp [emptyFs], by simp [emptyFs]⟩, by simp [emptyFs], by simp [emptyFs]⟩

def samplePrealloc : Prealloc := { chunkBytes := 4096, positive := by decide }

def sampleOps : List (WriterOp CounterEvent) :=
  [.batchAppend (.app (.increment 7)) 5 9, .flush, .rotate, .rotate,
    .reopen samplePrealloc { segments := fun _ _ => 0, chain := fun _ => 0 },
    .stage 0 8192 1000 .zeroFill, .rotate, .batchAppend (.epochBump 3) 4 9, .flush]

/-- The sample run, with two entries flushed, is recovered. -/
theorem run_recoverable_sample :
    ∃ start state : WriterState CounterEvent, WriterState.create emptyFs .zero samplePrealloc = .ok start ∧
      start.run (⟨0⟩ : Counter) sampleOps = .ok state ∧ state.written.length = 2 ∧
      ∀ prealloc reads, ∃ after node,
        (JournaledApp.recover (⟨0⟩ : Counter) prealloc reads).run state.fs = (after, .ok node) ∧
        node.writer.nextSequence = 3 := by
  obtain ⟨start, state, created, ran, flushed, -, recovers, -⟩ :=
    WriterState.run_recoverable emptyFs_blank .zero samplePrealloc (⟨0⟩ : Counter) sampleOps
      (by simp [sampleOps, WriterOp.Journalable, JournalEvent.isShutdown]) (by decide)
  have count : state.written.length = 2 := by
    rw [← List.length_map, flushed]
    rfl
  refine ⟨start, state, created, ran, count, fun prealloc reads => ?_⟩
  obtain ⟨after, node, recovered, -, -, next, -⟩ := recovers prealloc reads
  exact ⟨after, node, recovered, by rw [next, count]⟩

/-- With the sentinel appended as well, recovery refuses the journal the run leaves. -/
theorem run_refuses_shutdown :
    ∃ start state : WriterState CounterEvent, WriterState.create emptyFs .zero samplePrealloc = .ok start ∧
      start.run (⟨0⟩ : Counter) [.batchAppend .shutdown 5 9, .batchAppend (.app (.increment 7)) 5 9,
        .flush] = .ok state ∧
      ∀ prealloc reads,
        ((JournaledApp.recover (⟨0⟩ : Counter) prealloc reads).run state.fs).2.isOk = false :=
  WriterState.run_refused_append emptyFs_blank .zero samplePrealloc _ rfl 5 9

end Melin
