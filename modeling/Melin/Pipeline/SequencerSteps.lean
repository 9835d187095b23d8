import Melin.Pipeline.SequencerLaws

/-! The sequencing thread's steps that hand over, drain, rotate and encode, against the ledger. -/

namespace Melin

open Lib

section

variable {E : Type} [AppEvent E] [Hashing] {origin : Origin E} {ledger : Ledger E}
  {pos : Position E} {stage next : JournalStage E}

def Ledger.handOver (ledger : Ledger E) : Ledger E :=
  { ledger with handed := ledger.handed ++ [ledger.pending], pending := [] }

theorem Ledger.ahead_handOver (ledger : Ledger E) : ledger.handOver.ahead = ledger.ahead := by
  simp [handOver, ahead]

def Ledger.encode (ledger : Ledger E) (written : WrittenEntry E) : Ledger E :=
  { ledger with pending := ledger.pending ++ [written] }

theorem Ledger.ahead_encode (ledger : Ledger E) (written : WrittenEntry E) :
    (ledger.encode written).ahead = ledger.ahead ++ [written] := by
  simp [Ledger.encode, ahead]

theorem DiskSide.handOver (side : DiskSide origin ledger stage) {batch : HandedBatch}
    (bytes : batch.bytes = bytesOf ledger.pending)
    (covers : origin.Covers stage.ring batch.info (ledger.entries.map (·.entry))
      ledger.chain.value)
    (idle : stage.rotation = .idle) (ring : next.ring = stage.ring)
    (batches : next.batches = stage.batches ++ [batch]) (rotation : next.rotation = stage.rotation)
    (preparer : next.preparer = stage.preparer) (poisoned : next.poisoned = stage.poisoned)
    (disk : next.disk = stage.disk) : DiskSide origin ledger.handOver next where
  handed := by
    rw [ring, batches]
    refine side.handed.snoc bytes ?_
    rw [Ledger.entries, Ledger.ahead, ← List.append_assoc] at covers
    exact covers
  continues := by rw [ledger.ahead_handOver]; exact side.continues
  files := by rw [poisoned, disk]; exact side.files
  spare := by rw [poisoned, preparer, disk]; exact side.spare
  request := fun request requested => by simp [rotation, idle] at requested
  stuck := by simp [batches]
  history := by rw [ring, disk]; exact side.history
  unfailed := by rw [poisoned, disk]; exact side.unfailed
  cursors := by rw [disk]; exact side.cursors
  linked := ⟨side.linked.links, side.linked.first⟩

theorem DiskSide.encode (side : DiskSide origin ledger stage) {written : WrittenEntry E}
    (isNext : written.entry.sequence = ledger.next) (idle : stage.rotation = .idle) :
    DiskSide origin (ledger.encode written) stage where
  handed := side.handed
  continues := by
    have continues := side.continues
    rw [ledger.ahead_encode, sequencesOf, List.map_append, consecutive_append, List.length_map]
    refine ⟨continues, ?_⟩
    rw [List.map_cons, List.map_nil, consecutive_cons]
    exact ⟨isNext, rfl⟩
  files := side.files
  spare := side.spare
  request := fun request requested => by simp [idle] at requested
  stuck := side.stuck
  history := side.history
  unfailed := side.unfailed
  cursors := side.cursors
  linked := ⟨side.linked.links, side.linked.first⟩

theorem Aligned.covers (aligned : Aligned origin ledger pos stage) (whole : pos.extra = 0)
    {info : JournalWriteMeta} (progress : info.ringProgress = pos.encoded.length)
    (journalSeq : info.journalSeq = pos.encoder.nextSequence - 1)
    (chain : origin.observed = true → info.chainHash = pos.encoder.chainHash) :
    origin.Covers stage.ring info (ledger.entries.map (·.entry)) ledger.chain.value := by
  have known : pos.encoded <+: stage.ring := (List.prefix_append ..).trans aligned.stands.known
  have front : stage.ring.take info.ringProgress = pos.encoded := by
    rw [progress]
    exact (List.prefix_iff_eq_take.mp known).symm
  refine ⟨?_, ?_, ?_, fun observed => ?_⟩
  · rw [progress]
    exact known.length_le
  · rw [front]
    exact aligned.stream.entries
  · rw [front, journalSeq, aligned.stream.next, whole, aligned.stream.ledgerNext, Nat.add_zero]
  · rw [chain observed, JournalEncoder.chainHash, aligned.chain]

def Drained (origin : Origin E) (pos : Position E) : JournalStage E → Prop :=
  Fed origin fun stage => (∃ ledger, Aligned origin ledger pos stage) ∧ stage.batches = []

theorem Drained.stands (drained : Drained origin pos stage) : At origin pos stage :=
  ⟨drained.1, drained.2.1⟩

theorem Drained.asks (drained : Drained origin pos stage) (whole : pos.extra = 0)
    (empty : pos.encoder.batch = []) :
    Waits origin pos { stage with
      preparer := stage.preparer.map fun _ => none
      rotation := .requested
        { prepared := stage.preparer.join
          startingSequence := pos.encoder.nextSequence
          anchorHash := pos.encoder.chainHash } } := by
  obtain ⟨feed, ⟨ledger, aligned⟩, drained⟩ := drained
  have healthy := aligned.disk.healthy drained
  have taken : (stage.preparer.map fun _ => (none : Option PreparedSegment)).join = none := by
    cases stage.preparer <;> rfl
  have quiesced : ledger.pending = [] := bytesOf_eq_nil.mp (aligned.stream.batch ▸ empty)
  have isNext : pos.encoder.nextSequence = ledger.next := by rw [aligned.stream.next, whole]; rfl
  have fits : pos.encoder.nextSequence < 2 ^ 64 := by
    have known := aligned.stands.known.length_le
    have taken := wireSeqsTaken_le pos.encoded
    have fits := feed.fits
    rw [JournalStage.fed, List.length_append] at fits
    rw [List.length_append] at known
    rw [isNext, aligned.stream.ledgerNext]
    omega
  refine ⟨feed.frame rfl rfl rfl, ledger,
    ⟨aligned.stands.encoder, aligned.stands.nextRead, aligned.stands.known⟩,
    ⟨aligned.disk.handed, aligned.disk.continues, aligned.disk.files, ?_, ?_, aligned.disk.stuck,
      aligned.disk.history, aligned.disk.unfailed, aligned.disk.cursors, aligned.disk.linked⟩,
    aligned.stream, drained, .requested _ aligned.chain rfl rfl⟩
  · intro _ ready offered
    rw [taken] at offered
    cases offered
  · rintro request ⟨rfl⟩
    exact ⟨drained, quiesced, isNext, congrArg SegmentChain.value aligned.chain, fits, taken,
      aligned.disk.spare healthy⟩

theorem Waits.healthy (waits : Waits origin pos stage) : stage.poisoned = false := by
  obtain ⟨-, ledger, awaiting⟩ := waits
  exact awaiting.disk.healthy awaiting.drained

def Position.rotated (pos : Position E) : Position E :=
  { pos with encoder :=
    pos.encoder.beginSegment pos.encoder.nextSequence pos.encoder.chainHash }

theorem DiskSide.answered (side : DiskSide origin ledger stage) (ring : next.ring = stage.ring)
    (batches : next.batches = stage.batches) (rotation : next.rotation = .idle)
    (preparer : next.preparer = stage.preparer) (poisoned : next.poisoned = stage.poisoned)
    (disk : next.disk = stage.disk) : DiskSide origin ledger next where
  handed := by rw [ring, batches]; exact side.handed
  continues := side.continues
  files := by rw [poisoned, disk]; exact side.files
  spare := by rw [poisoned, preparer, disk]; exact side.spare
  request := fun request requested => by simp [rotation] at requested
  stuck := by rw [poisoned, batches]; exact side.stuck
  history := by rw [ring, disk]; exact side.history
  unfailed := by rw [poisoned, disk]; exact side.unfailed
  cursors := by rw [disk]; exact side.cursors
  linked := ⟨side.linked.links, side.linked.first⟩

theorem Waits.failed (waits : Waits origin pos stage) {err : JournalError}
    (answer : stage.rotation = .done (.error err)) :
    At origin pos { stage with rotation := .idle } := by
  obtain ⟨feed, ledger, awaiting⟩ := waits
  have stands := awaiting.rotation
  rw [answer] at stands
  cases stands with
  | failed _ chain =>
    exact ⟨feed.frame rfl rfl rfl, ledger,
      ⟨awaiting.stands.encoder, awaiting.stands.nextRead, awaiting.stands.known⟩,
      awaiting.disk.answered rfl rfl rfl rfl rfl rfl, awaiting.stream, chain, rfl⟩

theorem Waits.rotated (waits : Waits origin pos stage) (empty : pos.encoder.batch = [])
    (answer : stage.rotation = .done (.ok ())) :
    At origin pos.rotated { stage with
      rotation := .idle
      core := { stage.core with
        encoder := stage.core.encoder.beginSegment pos.encoder.nextSequence pos.encoder.chainHash
        segmentBytes := entryOffset } } := by
  obtain ⟨feed, ledger, awaiting⟩ := waits
  have stands := awaiting.rotation
  rw [answer] at stands
  cases stands with
  | rotated chain =>
    obtain ⟨entries, ledgerNext, next, batch, ascends⟩ := awaiting.stream
    exact ⟨feed.frame rfl rfl rfl, ledger,
      ⟨by simp [Position.rotated, awaiting.stands.encoder], awaiting.stands.nextRead,
        awaiting.stands.known⟩,
      awaiting.disk.answered rfl rfl rfl rfl rfl rfl,
      ⟨entries, ledgerNext, next, empty.symm.trans batch, ascends⟩, chain, rfl⟩

/-- The thread is so far in the ring, with every slot numbered encoded, and with such an encoder. -/
def Reaches (origin : Origin E) (pos : Position E) (holds : JournalEncoder → Prop)
    (stage : JournalStage E) : Prop :=
  ∃ encoder : JournalEncoder, holds encoder ∧ At origin { pos with extra := 0, encoder } stage

abbrev Quiesced (origin : Origin E) (pos : Position E) : JournalStage E → Prop :=
  Reaches origin pos (·.batch = [])

variable {holds : JournalEncoder → Prop}

theorem At.reaches (stands : At origin pos stage) (whole : pos.extra = 0)
    (held : holds pos.encoder) : Reaches origin pos holds stage := by
  refine ⟨pos.encoder, held, ?_⟩
  rw [← whole]
  exact stands

theorem Reaches.stopped (reaches : Reaches origin pos holds stage) : Stopped origin stage := by
  obtain ⟨_, _, stands⟩ := reaches
  exact stands.stopped

theorem Reaches.move {pos' : Position E} {holds' : JournalEncoder → Prop}
    (reaches : Reaches origin pos holds stage) (encoded : pos'.encoded = pos.encoded)
    (ahead : pos'.ahead = pos.ahead) (nextRead : pos'.nextRead = pos.nextRead)
    (weaker : ∀ encoder, holds encoder → holds' encoder) : Reaches origin pos' holds' stage := by
  obtain ⟨encoder, held, stands⟩ := reaches
  refine ⟨encoder, weaker encoder held, ?_⟩
  rw [encoded, ahead, nextRead]
  exact stands

theorem reaches_of_at {α : Type} {call : SequencerCall E α} {after : α → JournalStage E → Prop}
    {stopped : JournalStage E → Prop}
    (each : ∀ encoder : JournalEncoder, holds encoder →
      call.Meets (At origin { pos with extra := 0, encoder }) after stopped) :
    call.Meets (Reaches origin pos holds) after stopped :=
  fun stage ⟨encoder, held, stands⟩ => each encoder held stage stands

theorem reaches_of_keeps {α : Type} {call : SequencerCall E α}
    (each : ∀ encoder : JournalEncoder, call.Meets (At origin { pos with extra := 0, encoder })
      (fun _ => At origin { pos with extra := 0, encoder }) (Stopped origin)) :
    call.Meets (Reaches origin pos holds) (fun _ => Reaches origin pos holds) (Stopped origin) :=
  reaches_of_at fun encoder held => (each encoder).imp (fun _ stands => stands)
    (fun _ _ stands => ⟨encoder, held, stands⟩) fun _ stopped => stopped

section

variable [LawfulAppEvent E]

theorem at_submitBatch (whole : pos.extra = 0) {progress : Nat}
    (covered : progress = pos.encoded.length) :
    (submitBatch progress : SequencerCall E Unit).Meets (At origin pos)
      (fun _ => At origin { pos with encoder := pos.encoder.clearBatch }) (Stopped origin) := by
  have stops : ∀ stage, At origin pos stage → Stopped origin stage := fun _ => At.stopped
  refine Call.ends_looking fun seen seenAt => ?_
  have observed : origin.observed = true → seen.config.chainHashObserved = true :=
    fun observed => seenAt.1.observed.trans observed
  refine Call.ends_when (At origin pos) (fun _ => at_publishInputBatchToRings stops _)
    (fun _ _ stands => stands) (Call.ends_looking fun before beforeAt => ?_)
  have encoder : before.core.encoder = pos.encoder := beforeAt.2.choose_spec.stands.encoder
  dsimp only
  rw [encoder]
  refine Call.ends_bind _ (at_steady stops).claimSlot fun _ =>
    Call.ends_bind (fun _ stage => At origin { pos with encoder := pos.encoder.clearBatch }
      { stage with core :=
        { stage.core with
          encoder := stage.core.encoder.clearBatch
          segmentBytes := stage.core.segmentBytes + pos.encoder.batch.length } })
      ((at_steady stops).access ?_) fun _ => Call.ends_change fun _ stands => stands
  rintro stage ⟨feed, ledger, aligned⟩
  refine ⟨feed.frame rfl rfl rfl, ledger.handOver,
    ⟨by simp [aligned.stands.encoder], aligned.stands.nextRead, aligned.stands.known⟩,
    aligned.disk.handOver aligned.stream.batch
      (aligned.covers whole covered rfl fun isObserved => if_pos (observed isObserved))
      aligned.idle rfl rfl rfl rfl rfl rfl, ?_, ?_, aligned.idle⟩
  · obtain ⟨entries, ledgerNext, next, -, ascends⟩ := aligned.stream
    have sameNext : ledger.handOver.next = ledger.next := by
      rw [Ledger.next, Ledger.next, ledger.ahead_handOver]
      rfl
    refine ⟨?_, by rw [sameNext]; exact ledgerNext, by rw [sameNext]; exact next, rfl,
      by rw [sameNext]; exact ascends⟩
    rw [Ledger.entries, ledger.ahead_handOver]
    exact entries
  · rw [Ledger.chain, ledger.ahead_handOver]
    exact aligned.chain

theorem drained_beat :
    (beat : SequencerCall E Unit).Meets (Drained origin pos) (fun _ => Drained origin pos)
      (Drained origin pos) :=
  fed_beat (fun _ act ⟨⟨_, aligned⟩, drained⟩ =>
      ⟨aligned.act act, JournalStage.batches_act drained act⟩)
    fun _ _ ⟨⟨ledger, aligned⟩, drained⟩ =>
      ⟨⟨ledger, ⟨aligned.stands.encoder, aligned.stands.nextRead, aligned.stands.known⟩,
        aligned.disk.frame (List.append_nil _).symm rfl rfl rfl rfl rfl, aligned.stream,
        aligned.chain, aligned.idle⟩, drained⟩

theorem at_drainDisk :
    (drainDisk : SequencerCall E Unit).Meets (At origin pos) (fun _ => Drained origin pos)
      (At origin pos) := by
  refine ends_loop (fun _ => At origin pos) (fun _ => ?_) (fun _ _ stands => stands) ()
  refine Call.ends_bind
    (fun empty stage => At origin pos stage ∧ (empty = true → stage.batches = []))
    ((at_steady fun _ stands => stands).access fun stage stands => ⟨stands, List.isEmpty_iff.mp⟩)
    fun empty => Call.ends_ite (fun isEmpty => ?_) fun _ => ?_
  · exact Call.ends_pure fun stage holds => ⟨holds.1.1, holds.1.2, holds.2 isEmpty⟩
  · have goesOn : (pure (.inl ()) : SequencerCall E (Unit ⊕ Unit)).Meets (At origin pos)
        (fun next stage => Sum.elim (fun _ => At origin pos stage)
          (fun _ => Drained origin pos stage) next) (At origin pos) :=
      Call.ends_pure fun _ stands => stands
    exact ((at_steady fun _ stands => stands).unlessPoisoned goesOn).imp (fun _ holds => holds.1)
      (fun _ _ holds => holds) (fun _ _ holds => holds) fun _ holds => holds

theorem waits_awaitRotation (empty : pos.encoder.batch = []) :
    (awaitRotation : SequencerCall E Unit).Ends (Waits origin pos)
      (fun _ stage => At origin pos.rotated { stage with core := { stage.core with
        encoder := stage.core.encoder.beginSegment pos.encoder.nextSequence pos.encoder.chainHash
        segmentBytes := entryOffset } })
      (At origin pos) (Stopped origin) := by
  refine ends_loop (fun _ => Waits origin pos) (fun _ => ?_) (fun _ _ => Waits.stopped) ()
  have accessed : ∀ {α : Type} {update : JournalStage E → α × JournalStage E}
      {after : α → JournalStage E → Prop},
      (∀ stage, Waits origin pos stage → after (update stage).1 (update stage).2) →
      (access update : SequencerCall E α).Ends (Waits origin pos) after (At origin pos)
        (Stopped origin) := by
    intro α update after holds
    exact ends_access (waits_beat.imp (fun _ waits => waits) (fun _ _ waits => waits)
      (fun _ failed => failed) fun _ => Waits.stopped) holds
  -- What the answer says decides what the state is that it leaves.
  refine Call.ends_bind (fun answer stage => match answer with
    | none => Waits origin pos stage
    | some (.error _) => At origin pos stage
    | some (.ok _) => At origin pos.rotated { stage with core := { stage.core with
        encoder := stage.core.encoder.beginSegment pos.encoder.nextSequence pos.encoder.chainHash
        segmentBytes := entryOffset } }) (accessed fun stage waits => ?_) fun answer => ?_
  · cases answer : stage.rotation with
    | done result =>
      cases result with
      | ok _ => exact waits.rotated empty answer
      | error _ => exact waits.failed answer
    | idle | requested => exact waits
  · cases answer with
    | some result =>
      cases result with
      | ok _ =>
        exact Call.ends_bind _ (Call.ends_pure fun _ holds => holds) fun _ =>
          Call.ends_pure fun _ holds => holds
      | error err =>
        exact Call.ends_bind (fun _ _ => False) (Call.ends_fail err fun _ holds => holds)
          fun _ _ never => never.elim
    | none =>
      -- A disk thread that is asked to rotate has not failed.
      refine Call.ends_bind (fun poisoned stage => Waits origin pos stage ∧ poisoned = false)
        (accessed fun stage waits => ⟨waits, waits.healthy⟩) fun poisoned =>
        Call.ends_ite (fun failed => ?_) fun _ => Call.ends_pure fun _ holds => holds.1
      rintro stage ⟨-, healthy⟩
      rw [healthy] at failed
      cases failed

/-- Rotating onto a staged segment, or a fresh one, loses no entry. -/
theorem at_rotateTakingPrepared (whole : pos.extra = 0) (empty : pos.encoder.batch = []) :
    (rotateTakingPrepared : SequencerCall E (Except JournalError Unit × Bool)).Meets
      (At origin pos) (fun _ => Quiesced origin pos) (Stopped origin) := by
  refine Call.ends_bind _ (Call.ends_attempt (Call.Ends.imp at_drainDisk (fun _ stands => stands)
    (fun _ _ drained => drained) (fun _ stands => stands) fun _ => At.stopped)) fun drained => ?_
  cases drained with
  | error err => exact Call.ends_pure fun _ stands => stands.reaches whole empty
  | ok _ =>
    refine Call.ends_look_bind fun seen seenDrained => ?_
    have encoder : seen.core.encoder = pos.encoder := seenDrained.2.1.choose_spec.stands.encoder
    dsimp only
    rw [encoder]
    refine Call.ends_bind (fun _ => Waits origin pos) (Call.ends_bind (fun _ => Drained origin pos)
      (drained_beat.imp (fun _ same => same ▸ seenDrained) (fun _ _ drained => drained)
        fun _ drained => drained.stands.stopped)
      fun _ => Call.ends_update fun stage drained => drained.asks whole empty) fun usedFastPath => ?_
    refine Call.ends_bind _ (Call.ends_attempt (waits_awaitRotation empty)) fun result => ?_
    cases result with
    | error err => exact Call.ends_pure fun _ stands => stands.reaches whole empty
    | ok _ =>
      exact Call.ends_bind (fun _ => At origin pos.rotated)
        (Call.ends_change fun _ stands => stands) fun _ =>
        Call.ends_pure fun _ stands => stands.reaches whole rfl

theorem quiesced_rotateTakingPrepared :
    (rotateTakingPrepared : SequencerCall E (Except JournalError Unit × Bool)).Meets
      (Quiesced origin pos) (fun _ => Quiesced origin pos) (Stopped origin) :=
  reaches_of_at fun encoder empty =>
    @at_rotateTakingPrepared E _ _ origin { pos with extra := 0, encoder } _ rfl empty

theorem quiesced_maybeRotate :
    (maybeRotate : SequencerCall E Bool).Meets (Quiesced origin pos) (fun _ => Quiesced origin pos)
      (Stopped origin) := by
  refine Call.ends_bind _ (reaches_of_keeps fun _ =>
      (at_steady fun _ => At.stopped).localRotationArmed (at_publishInputBatchToRings fun _ => At.stopped))
    fun armed => ?_
  cases armed with
  | none => exact Call.ends_pure fun _ quiesced => quiesced
  | some manual =>
    exact Call.ends_bind _ quiesced_rotateTakingPrepared fun _ =>
      reaches_of_keeps fun _ => (at_steady fun _ => At.stopped).finishLocalRotation _

theorem quiesced_applyStreamMarks (quiesced : Bool) :
    (applyStreamMarks quiesced : SequencerCall E Bool).Meets (Quiesced origin pos)
      (fun _ => Quiesced origin pos) (Stopped origin) := by
  have resolves : (resolveStreamMarks quiesced : SequencerCall E (Option AdoptedRotation)).Meets
      (Quiesced origin pos) (fun _ => Quiesced origin pos) (Stopped origin) :=
    reaches_of_keeps fun _ => ((at_steady fun _ => At.stopped).resolveStreamMarks quiesced).imp
      (fun _ stands => stands) (fun _ _ resolved => resolved.1) (fun _ _ stopped => stopped)
      fun _ stopped => stopped
  refine Call.ends_bind _ resolves fun due => ?_
  cases due with
  | none => exact Call.ends_pure fun _ quiesced => quiesced
  | some rotation =>
    refine Call.ends_bind _ (reaches_of_keeps fun _ => (at_steady fun _ => At.stopped).rotationBackedOff)
      fun backedOff => Call.ends_ite (fun _ => Call.ends_pure fun _ quiesced => quiesced)
      fun _ => Call.ends_bind _ quiesced_rotateTakingPrepared fun rotated => ?_
    obtain ⟨result, usedFastPath⟩ := rotated
    cases result with
    | ok _ =>
      exact Call.ends_bind _ (reaches_of_keeps fun _ => (at_steady fun _ => At.stopped).finishAdoption)
        fun _ => Call.ends_pure fun _ quiesced => quiesced
    | error err =>
      exact Call.ends_bind _ (reaches_of_keeps fun _ => (at_steady fun _ => At.stopped).failAdoption)
        fun _ => Call.ends_pure fun _ quiesced => quiesced

theorem at_applyStreamMarks :
    (applyStreamMarks false : SequencerCall E Bool).Meets (At origin pos) (fun _ => At origin pos)
      (Stopped origin) := by
  refine Call.ends_bind _ ((at_steady fun _ => At.stopped).resolveStreamMarks false) fun due => ?_
  cases due with
  | none => exact Call.ends_pure fun _ resolved => resolved.1
  | some rotation =>
    rintro stage ⟨-, never⟩
    cases never rfl

end

end

end Melin
