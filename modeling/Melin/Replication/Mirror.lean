import Melin.Journal.TornTail
import Melin.Pipeline.PersistBeforePublish
import Melin.Replication.AckRetry
import Melin.Replication.InputBatchLaws
import Melin.Replication.ReceiveCuts

/-! A replica mirrors the primary's entries, whatever arrives of its streams. -/

namespace Melin

open Lib

section

variable {E : Type} [AppEvent E] [Hashing]

/-- A frame of a primary: a batch of its entries, or a message that is no batch. -/
inductive SentFrame (lineage : List (WrittenEntry E)) : Bytes → Prop where
  | batch (written : List (WrittenEntry E)) (few : written.length ≤ 0xFFFF)
      (own : written ⊆ lineage) :
      SentFrame lineage (encodeInputBatchFromJournal E (bytesOf written) []).1
  | message {payload : Bytes} (small : payload.length < 2 ^ 32) {tag : UInt8}
      (other : tryDecodeInputBatch (E := E) payload = .error (.notInputBatch tag)) :
      SentFrame lineage (frame payload)

def Own (lineage : List (WrittenEntry E)) (payload : Bytes) : Prop :=
  ∀ slots, tryDecodeInputBatch payload = .ok slots → slots ⊆ lineage.map WrittenEntry.slot

variable {lineage : List (WrittenEntry E)}

theorem SentFrame.exists_payload [LawfulAppEvent E] {data : Bytes} (sent : SentFrame lineage data) :
    ∃ payload, data = frame payload ∧ payload.length < 2 ^ 32 ∧ Own lineage payload := by
  cases sent with
  | batch written few own =>
    obtain ⟨wires, length, packed, carry⟩ := exists_wires LawfulAppEvent.decode_encode written
    rw [encodeInputBatchFromJournal_eq LawfulAppEvent.decode_encode written [] few]
    refine ⟨_, rfl, packed_length_lt written few, fun slots decoded => ?_⟩
    rw [tryDecodeInputBatch_eq_ok.mpr ⟨wires, by omega, by rw [length, packed], carry⟩] at decoded
    exact Except.ok.inj decoded ▸ List.map_subset _ own
  | message small other =>
    exact ⟨_, rfl, small, fun slots decoded => by rw [other] at decoded; cases decoded⟩

/-- Bytes of a primary's stream, from the start of a frame on. -/
def FromPrimary (lineage : List (WrittenEntry E)) (bytes : Bytes) : Prop :=
  ∃ frames : List Bytes, (∀ data ∈ frames, SentFrame lineage data) ∧ bytes <+: frames.flatten

theorem FromPrimary.front {bytes more : Bytes} (stream : FromPrimary lineage (bytes ++ more)) :
    FromPrimary lineage bytes := by
  obtain ⟨frames, sent, isPrefix⟩ := stream
  exact ⟨frames, sent, (List.prefix_append ..).trans isPrefix⟩

theorem FromPrimary.behind [LawfulAppEvent E] {buf future payload : Bytes}
    (stream : FromPrimary lineage (buf ++ future))
    (found : tryExtractFrame buf maxDataFrame = .complete payload) :
    Own lineage payload ∧
      FromPrimary lineage (buf.drop (frame payload).length ++ future) := by
  obtain ⟨frames, sent, later, isPrefix⟩ := stream
  have start := tryExtractFrame_eq_complete found
  have positive := (length_drop_frame found).2
  have small : payload.length < 2 ^ 32 := by
    rw [tryExtractFrame] at found
    split at found <;> cases found
    exact (splitFrameLimited_eq_some ‹_›).2.trans_lt (by decide)
  rw [start, List.append_assoc, List.append_assoc] at isPrefix
  cases frames with
  | nil => simp [(List.append_eq_nil_iff.mp isPrefix).1] at positive
  | cons data frames =>
    obtain ⟨other, rfl, otherSmall, own⟩ := (sent data (by simp)).exists_payload
    -- Frames tell where they end, so the one found is the one sent.
    rw [List.flatten_cons, frame, frame, List.append_assoc, List.append_assoc] at isPrefix
    obtain ⟨width, rest⟩ := List.append_inj isPrefix (by simp)
    have length := congrArg leNat width
    rw [leNat_leBytes 4 _ small, leNat_leBytes 4 _ otherSmall] at length
    obtain ⟨rfl, tail⟩ := List.append_inj rest length
    exact ⟨own, frames, fun data among => sent data (.tail _ among), later,
      (List.append_assoc ..).trans tail⟩

/-- The ring went on, without a gap, with slots of the lineage. -/
def Mirrors (lineage : List (WrittenEntry E)) (before after : Intake E) : Prop :=
  ∃ taken, after.ring = before.ring ++ taken ∧ after.accum = before.accum + taken.length ∧
    taken.map (·.sequence) = List.range' (before.accum + 1) taken.length ∧
    taken ⊆ lineage.map WrittenEntry.slot

variable {start : Intake E}

theorem Mirrors.acceptSlots {intake : Intake E} (held : Mirrors lineage start intake)
    (watch : JournalWatch) {slots : List (InputSlot E)}
    (own : slots ⊆ lineage.map WrittenEntry.slot) :
    Mirrors lineage start (acceptSlots watch slots intake).1 := by
  obtain ⟨taken, ring, accum, dense, ofLineage⟩ := held
  obtain ⟨more, takes, sub⟩ := acceptSlots_takes watch slots intake
  refine ⟨taken ++ more, by rw [takes.ring, ring, List.append_assoc],
    by rw [takes.accum, accum, List.length_append, Nat.add_assoc], ?_,
    List.append_subset.mpr ⟨ofLineage, fun _ late => own (sub.subset late)⟩⟩
  rw [List.map_append, dense, takes.dense, accum, List.length_append, Nat.add_right_comm,
    List.range'_append_1]

theorem Mirrors.processFrame {cycle : Cycle E} (held : Mirrors lineage start cycle.intake)
    (watch : JournalWatch) {payload : Bytes} (own : Own lineage payload) :
    Mirrors lineage start (processFrame watch payload cycle).intake := by
  unfold Melin.processFrame
  split
  · next slots decoded =>
    rw [takeFrame]
    split
    · exact held
    · exact held.acceptSlots watch (own slots decoded)
  · cases read : controlMessage payload cycle.intake with
    | error err => exact held
    | ok result =>
      obtain ⟨after, heard⟩ := result
      obtain ⟨marks, rfl⟩ := controlMessage_frame read
      exact held
  · exact held

/-- A place in a buffer of the stream, with what was taken so far. -/
structure Reading (lineage : List (WrittenEntry E)) (start : Intake E) (future recvBuf : Bytes)
    (place : Nat) (intake : Intake E) : Prop where
  stream : FromPrimary lineage (recvBuf.drop place ++ future)
  inside : place ≤ recvBuf.length
  ring : Mirrors lineage start intake

variable [LawfulAppEvent E] {future recvBuf : Bytes}

theorem Reading.behind {place : Nat} {intake : Intake E} {payload : Bytes}
    (reading : Reading lineage start future recvBuf place intake)
    (found : tryExtractFrame (recvBuf.drop place) maxDataFrame = .complete payload) :
    Own lineage payload ∧
      ∀ after, Mirrors lineage start after →
        Reading lineage start future recvBuf (place + (frame payload).length) after := by
  obtain ⟨own, behind⟩ := reading.stream.behind found
  have shorter := length_drop_frame found
  rw [List.drop_drop] at behind
  simp only [List.length_drop] at shorter
  exact ⟨own, fun after ring => ⟨behind, by omega, ring⟩⟩

theorem reading_processFrames (watch : JournalWatch) (fuel : Nat) (cycle : Cycle E)
    (reading : Reading lineage start future recvBuf cycle.consumed cycle.intake) :
    Reading lineage start future recvBuf (processFrames watch recvBuf fuel cycle).consumed
      (processFrames watch recvBuf fuel cycle).intake := by
  induction fuel generalizing cycle with
  | zero => exact reading
  | succ fuel ih =>
    rw [processFrames]
    split
    · exact reading
    split
    · exact reading
    · exact reading
    · next payload found =>
      obtain ⟨own, behind⟩ := reading.behind found
      have taken := reading.ring.processFrame watch own
      rw [← processFrame_consumed watch payload cycle] at reading behind
      dsimp only
      -- A frame that ends the cycle is not consumed.
      split
      · exact { reading with ring := taken }
      split
      · exact behind _ taken
      · exact ih _ (behind _ taken)

theorem reading_drainFrames (watch : JournalWatch) (fuel : Nat) (drained : Intake E × Nat)
    (reading : Reading lineage start future recvBuf drained.2 drained.1) :
    Reading lineage start future recvBuf (drainFrames watch recvBuf fuel drained).2
      (drainFrames watch recvBuf fuel drained).1 := by
  induction fuel generalizing drained with
  | zero => exact reading
  | succ fuel ih =>
    rw [drainFrames]
    split
    · exact reading
    · exact reading
    · next payload found =>
      obtain ⟨own, behind⟩ := reading.behind found
      split
      · exact ih _ (behind _ reading.ring)
      · exact reading
      · next slots decoded =>
        have taken := reading.ring.acceptSlots watch (own slots decoded)
        split
        · next stopped =>
          rw [stopped] at taken
          exact { reading with ring := taken }
        · next whole =>
          rw [whole] at taken
          exact ih _ (behind _ taken)

theorem mirrors_drainTransport {polls : List DrainPoll} {session after : Session E}
    (drained : drainTransport polls session = some after)
    (stream : FromPrimary lineage (session.recvBuf ++ polls.flatMap (·.received)))
    (held : Mirrors lineage start session.intake) : Mirrors lineage start after.intake := by
  induction polls generalizing session with
  | nil => cases drained
  | cons poll polls ih =>
    rw [List.flatMap_cons, ← List.append_assoc] at stream
    have read := reading_drainFrames poll.watch ((session.recvBuf ++ poll.received).length + 1)
      (session.intake, 0) ⟨stream, Nat.zero_le _, held⟩
    rw [drainTransport, processDrainFrames] at drained
    dsimp only at drained
    split at drained
    · exact ih drained read.stream read.ring
    · cases drained
      exact read.ring

/-- What one pass of the loop is given to read. -/
def Turn.received (turn : Turn) : Bytes :=
  match turn.promote with
  | some polls => polls.flatMap (·.received)
  | none => turn.pollRecv.toOption.getD []

def Session.Reads (lineage : List (WrittenEntry E)) (start : Intake E) (future : Bytes)
    (session : Session E) : Prop :=
  Reading lineage start future session.recvBuf session.recvOffset session.intake

/-- A pass that goes on leaves the stream where it took it; one that ends leaves what it took. -/
def TurnReads (lineage : List (WrittenEntry E)) (start : Intake E) (future : Bytes)
    (ended : Session E × TurnEnd) : Prop :=
  Mirrors lineage start ended.1.intake ∧ (ended.2 = .goesOn → ended.1.Reads lineage start future)

variable {session : Session E}

omit [LawfulAppEvent E] in
theorem reads_exitDrained (held : Mirrors lineage start session.intake) (turn : Turn)
    (exit : SessionExit) : TurnReads lineage start future (exitDrained turn exit session) := by
  unfold exitDrained
  split
  · next after drained =>
    refine ⟨?_, by simp⟩
    unfold drainPendingAcks at drained
    split at drained <;> cases drained <;> exact held
  · exact ⟨held, by simp⟩

theorem reads_parseFrames (reads : session.Reads lineage start future) (turn : Turn) :
    TurnReads lineage start future (parseFrames turn session) := by
  obtain ⟨stream, inside, held⟩ := reads
  have parsed := reading_processFrames turn.watch
    ((session.recvBuf.drop session.recvOffset).length + 1)
    ⟨session.intake, session.pendingAcks, 0, false, 0, false, none⟩ ⟨stream, Nat.zero_le _, held⟩
  rw [← processStreamingFrames] at parsed
  unfold parseFrames
  generalize processStreamingFrames turn.watch (session.recvBuf.drop session.recvOffset)
    session.intake session.pendingAcks = outcome at parsed ⊢
  obtain ⟨rest, moved, taken⟩ := parsed
  rw [List.drop_drop] at rest
  rw [List.length_drop] at moved
  have left : ∀ recvBuf recvOffset, compactRecv session.recvBuf
      (session.recvOffset + outcome.consumed) = (recvBuf, recvOffset) →
      Reading lineage start future recvBuf recvOffset outcome.intake := by
    rintro recvBuf recvOffset compacted
    unfold compactRecv at compacted
    split_ifs at compacted <;> cases compacted
    · refine ⟨?_, le_rfl, taken⟩
      rwa [List.drop_eq_nil_of_le (by omega)] at rest
    · exact ⟨rest, Nat.zero_le _, taken⟩
    · exact ⟨rest, by omega, taken⟩
  dsimp only
  split <;> exact ⟨taken, fun _ => left _ _ rfl⟩

omit [LawfulAppEvent E] in
theorem Session.Reads.flush (reads : session.Reads lineage start future) (turn : Turn) :
    (flushAcks turn session).1.Reads lineage start future := by
  unfold flushAcks
  repeat' split
  all_goals exact reads

theorem reads_streamingTurn {turn : Turn}
    (reads : session.Reads lineage start (turn.received ++ future)) :
    TurnReads lineage start future (streamingTurn turn session) := by
  unfold streamingTurn
  split
  · exact reads_exitDrained reads.ring turn _
  split
  · exact ⟨reads.ring, by simp⟩
  split
  · next polls promotes =>
    have stream := reads.stream
    rw [Turn.received, promotes, ← List.append_assoc] at stream
    dsimp only
    split
    · exact ⟨reads.ring, by simp⟩
    · next drained =>
      exact reads_exitDrained (mirrors_drainTransport drained stream.front reads.ring) turn _
  · next stays =>
    have flushed := reads.flush turn
    split
    · next same =>
      rw [same] at flushed
      exact ⟨flushed.ring, by simp⟩
    · next session same =>
      rw [same] at flushed
      obtain ⟨stream, inside, ring⟩ := flushed
      unfold receive
      split
      · exact ⟨ring, by simp⟩
      · next received polled =>
        have more : Session.Reads lineage start future
            { session with recvBuf := session.recvBuf ++ received } := by
          refine ⟨?_, inside.trans (by simp), ring⟩
          simp only [Turn.received, stays, polled, Except.toOption, Option.getD_some] at stream
          rwa [List.drop_append_of_le_length inside, List.append_assoc]
        dsimp only
        split
        · exact reads_exitDrained more.ring turn _
        · exact reads_parseFrames more turn

theorem mirrors_streamingLoop {turns : List Turn}
    (reads : session.Reads lineage start (turns.flatMap Turn.received)) :
    Mirrors lineage start (streamingLoop turns session).1.intake := by
  induction turns generalizing session with
  | nil => exact reads.ring
  | cons turn turns ih =>
    have turned := reads_streamingTurn reads
    rw [streamingLoop]
    split
    · next went =>
      rw [went] at turned
      exact ih (turned.2 rfl)
    · exact turned.1

/-- What a replica comes to over sessions, one behind the other, each with a stream of its own. -/
inductive Streamed (lineage : List (WrittenEntry E)) (start : Intake E) : Intake E → Prop where
  | nothing : Streamed lineage start start
  | session (session : Session E) (before : Streamed lineage start session.intake)
      (inside : session.recvOffset ≤ session.recvBuf.length) (turns : List Turn)
      (stream : FromPrimary lineage
        (session.recvBuf.drop session.recvOffset ++ turns.flatMap Turn.received)) :
      Streamed lineage start (streamingLoop turns session).1.intake

theorem Streamed.mirrors {after : Intake E} (streamed : Streamed lineage start after) :
    Mirrors lineage start after := by
  induction streamed with
  | nothing => exact ⟨[], by simp⟩
  | session session before inside turns stream held =>
    exact mirrors_streamingLoop ⟨stream, inside, held⟩

/-- The entries of a lineage behind a sequence and up to another. -/
def entriesBetween (lineage : List (WrittenEntry E)) (behind last : Nat) : List (WrittenEntry E) :=
  lineage.filter fun entry => behind < entry.entry.sequence ∧ entry.entry.sequence ≤ last

omit [LawfulAppEvent E]

theorem Mirrors.eq_entriesBetween {before after : Intake E} (held : Mirrors lineage before after)
    (ascending : (sequencesOf lineage).SortedLT) :
    after.ring
        = before.ring ++ (entriesBetween lineage before.accum after.accum).map WrittenEntry.slot ∧
      sequencesOf (entriesBetween lineage before.accum after.accum)
        = List.range' (before.accum + 1) (after.accum - before.accum) := by
  obtain ⟨taken, ring, accum, dense, own⟩ := held
  have bounds : ∀ sequence, sequence ∈ taken.map (·.sequence) ↔
      before.accum < sequence ∧ sequence ≤ after.accum := by
    intro sequence
    rw [dense, List.mem_range'_1, accum]
    omega
  -- Both are in the order of their sequences, so it is enough that they have the same slots.
  have same : taken = (entriesBetween lineage before.accum after.accum).map WrittenEntry.slot := by
    have : Std.Irrefl fun one other : InputSlot E => one.sequence < other.sequence :=
      ⟨fun _ => lt_irrefl _⟩
    have : Std.Antisymm fun one other : InputSlot E => one.sequence < other.sequence :=
      ⟨fun _ _ less more => absurd less more.asymm⟩
    refine (List.pairwise_map.mp (dense ▸ List.pairwise_lt_range')).eq_of_mem_iff
      (List.pairwise_map.mpr ((List.pairwise_map.mp ascending.pairwise).filter _)) fun slot => ?_
    simp only [entriesBetween, List.mem_map, List.mem_filter, decide_eq_true_eq]
    constructor
    · intro among
      obtain ⟨entry, member, rfl⟩ := List.mem_map.mp (own among)
      exact ⟨entry, ⟨member, (bounds _).mp (List.mem_map_of_mem among)⟩, rfl⟩
    · rintro ⟨entry, ⟨member, between⟩, rfl⟩
      obtain ⟨slot, among, sequence⟩ := List.mem_map.mp ((bounds _).mpr between)
      obtain ⟨other, otherMember, rfl⟩ := List.mem_map.mp (own among)
      obtain rfl := List.inj_on_of_nodup_map ascending.nodup otherMember member sequence
      exact among
  rw [accum, Nat.add_sub_cancel_left, ← accum, ← dense, same, List.map_map]
  exact ⟨same ▸ ring, rfl⟩

theorem Mirrors.take {before after : Intake E} {count : Nat} (held : Mirrors lineage before after)
    (empty : before.ring = []) (inside : count ≤ after.ring.length) :
    Mirrors lineage before
      { after with ring := after.ring.take count, accum := before.accum + count } := by
  obtain ⟨taken, ring, -, dense, own⟩ := held
  rw [empty, List.nil_append] at ring
  subst ring
  have width : (after.ring.take count).length = count := List.length_take_of_le inside
  refine ⟨after.ring.take count, by simp [empty], by rw [width], ?_,
    fun _ among => own (List.mem_of_mem_take among)⟩
  obtain ⟨more, whole⟩ := Nat.exists_eq_add_of_le inside
  rw [List.map_take, dense, width, whole, ← List.range'_append_1,
    List.take_left' List.length_range']

theorem journaled_slots {entries : List (WrittenEntry E)} {first : Nat}
    (dense : Consecutive first (sequencesOf entries))
    (takes : ∀ written ∈ entries, written.entry.event.takesWireSeq = true) :
    journaled first (entries.map WrittenEntry.slot) = entries.map (·.entry) ∧
      wireSeqsTaken (entries.map WrittenEntry.slot) = entries.length := by
  induction entries generalizing first with
  | nil => exact ⟨rfl, rfl⟩
  | cons written entries ih =>
    obtain ⟨here, later⟩ := consecutive_cons.mp dense
    obtain ⟨numbered, counted⟩ := ih later fun other among => takes other (.tail _ among)
    have taken : written.slot.event.takesWireSeq = true := takes written (.head _)
    rw [List.map_cons, journaled, if_pos taken, numbered, ← here, List.length_cons, ← counted]
    exact ⟨rfl, List.countP_cons_of_pos taken⟩

variable [LawfulAppEvent E]

/--
A replica's ring goes on with exactly the primary's entries behind where it stood, each once.

This holds over sessions one behind the other, wherever a stream is cut and however often an entry
is sent again, with the journal stage failing at any time, and through the drain before a promotion.
-/
theorem replica_mirrors_primary {after : Intake E} (ascending : (sequencesOf lineage).SortedLT)
    (streamed : Streamed lineage start after) :
    after.ring = start.ring
        ++ (entriesBetween lineage start.accum after.accum).map WrittenEntry.slot ∧
      sequencesOf (entriesBetween lineage start.accum after.accum)
        = List.range' (start.accum + 1) (after.accum - start.accum) :=
  streamed.mirrors.eq_entriesBetween ascending

/--
What a replica has synced is what the primary journaled, entry for entry, up to where it advertises.

Its stage reads the ring that the sessions fill; whatever the disk thread publishes, and however the
threads interleave, the entries on disk are those it started with and the primary's next ones.
-/
theorem replica_journal_mirrors_primary {fs : Fs NodeFile} {archived : List (WrittenSegment E)}
    {inode : Nat} {live : WrittenSegment E} {pending : List (WrittenEntry E)}
    {writer : BufferedWriter} {parts : StageParts E} {stage : JournalStage E}
    (disk : DiskHolds fs archived inode live) (tracks : writer.Tracks inode live pending)
    (started : JournalStage.start parts writer fs = .ok stage)
    (sentinelLast : SentinelLast stage.fed) (fits : writer.nextSequence + stage.fed.length < 2 ^ 64)
    (ascending : (sequencesOf lineage).SortedLT)
    (takes : ∀ written ∈ lineage, written.entry.event.takesWireSeq = true) {after : Intake E}
    (streamed : Streamed lineage start after) (empty : start.ring = [])
    (resumes : writer.nextSequence = start.accum + 1)
    (reads : (runSequencer stage).1.ring <+: after.ring) {info : JournalWriteMeta}
    {files : List Nat} {synced : Fs NodeFile}
    (published : .published info files synced ∈ (runSequencer stage).1.disk.history) :
    files.flatMap (syncedEntries synced) = (live.entries ++ pending).map (·.entry)
        ++ (entriesBetween lineage start.accum info.journalSeq).map (·.entry) ∧
      info.journalSeq = start.accum + info.ringProgress := by
  obtain ⟨-, ledger, side⟩ :=
    stopped_runSequencer (caughtUp_start disk tracks started sentinelLast fits)
  obtain ⟨progress, entries, journalSeq, -⟩ := side.history.published info files synced published
  -- What the stage has read is the front of what was received, so it mirrors the primary too.
  have front : (runSequencer stage).1.ring.take info.ringProgress
      = after.ring.take info.ringProgress := by
    obtain ⟨more, isRing⟩ := reads
    rw [← isRing, List.take_append_of_le_length progress]
  obtain ⟨ring, dense⟩ := (streamed.mirrors.take empty
    (progress.trans reads.length_le)).eq_entriesBetween ascending
  dsimp only at ring dense
  have counts : Consecutive (start.accum + 1)
      (sequencesOf (entriesBetween lineage start.accum (start.accum + info.ringProgress))) := by
    rw [Consecutive, dense, List.length_range']
  obtain ⟨numbered, counted⟩ := journaled_slots counts fun written among =>
    takes written (List.mem_of_mem_filter among)
  have width := congrArg List.length dense
  rw [List.length_range', sequencesOf, List.length_map] at width
  rw [front, ring, empty, List.nil_append] at entries journalSeq
  simp only [BufferedWriter.origin, resumes, Origin.journal, numbered, counted]
    at entries journalSeq
  have reached : info.journalSeq = start.accum + info.ringProgress := by omega
  exact ⟨by rw [entries, reached], reached⟩

end

/-- The entry's frame in two pieces, to a replica that has nothing. -/
def mirrorTurns : List Turn :=
  let data := (encodeInputBatchFromJournal CounterEvent (bytesOf [sampleSynced]) []).1
  [data.take 20, data.drop 20].map fun received => { idleTurn with pollRecv := .ok received }

def mirrorSession : Session CounterEvent := .start sampleIntake 0 1 Nat.isPowerOfTwo_one [] 0

theorem streamed_mirrorTurns :
    Streamed [sampleSynced] sampleIntake (streamingLoop mirrorTurns mirrorSession).1.intake := by
  refine .session mirrorSession .nothing le_rfl mirrorTurns
    ⟨[_], by simpa using .batch [sampleSynced] (by decide) (List.Subset.refl _), ?_⟩
  simp [mirrorTurns, mirrorSession, Session.start, Turn.received, idleTurn, Except.toOption]

theorem replica_mirrors_primary_first :
    (streamingLoop mirrorTurns mirrorSession).1.intake.ring = [sampleSynced.slot] :=
  (replica_mirrors_primary (by decide) streamed_mirrorTurns).1.trans (by decide +kernel)

def mirrorStage : Except JournalError (JournalStage CounterEvent) := do
  let journal : WriterState CounterEvent ← WriterState.create emptyFs .zero samplePrealloc
  JournalStage.start { sampleParts with ring := [sampleSynced.slot] } journal.writer journal.fs

theorem replica_journal_mirrors_primary_first :
    ∃ stage, mirrorStage = .ok stage ∧ (runSequencer stage).1.disk.cursors.inputProgress = 1 ∧
      ∀ info files synced, .published info files synced ∈ (runSequencer stage).1.disk.history →
        files.flatMap (syncedEntries synced)
          = (entriesBetween [sampleSynced] 0 info.journalSeq).map (·.entry) := by
  have ran : (mirrorStage.toOption.map fun stage =>
      ((runSequencer stage).1.disk.cursors.inputProgress, stage.fed, (runSequencer stage).1.ring))
      = some (1, [sampleSynced.slot], [sampleSynced.slot]) := by
    decide +kernel
  obtain ⟨journal, inode, created, written, pending, holds⟩ :=
    WriterState.holds_create (E := CounterEvent) emptyFs_blank .zero samplePrealloc
  cases isStage : mirrorStage with
  | error err => simp [isStage, Except.toOption] at ran
  | ok stage =>
    simp only [isStage, Except.toOption, Option.map_some, Option.some.injEq, Prod.mk.injEq] at ran
    obtain ⟨progress, fed, ring⟩ := ran
    rw [mirrorStage, created] at isStage
    have next : journal.writer.nextSequence = 1 := by
      rw [holds.next, written, pending]
      rfl
    refine ⟨stage, rfl, progress, fun info files synced published => ?_⟩
    rw [(replica_journal_mirrors_primary holds.disk holds.tracks isStage
      (fed ▸ sentinelLast_of_dropLast (by simp)) (by rw [next, fed]; decide) (by decide)
      (by simp [sampleSynced, WrittenEntry.write, JournalEvent.takesWireSeq]; decide)
      streamed_mirrorTurns rfl next
      (by rw [ring]; decide +kernel) published).1]
    rfl

end Melin
