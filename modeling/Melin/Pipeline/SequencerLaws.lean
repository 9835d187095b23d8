import Melin.Pipeline.SequencerFrames

/-! The sequencing thread against the ledger: what every call of it keeps, whatever the others do. -/

namespace Melin

open Lib

structure Position (E : Type) where
  encoded : List (InputSlot E)
  /-- The slots read and not yet encoded. -/
  ahead : List (InputSlot E)
  /-- Sequences taken for slots not yet encoded. -/
  extra : Nat
  encoder : JournalEncoder
  nextRead : Nat

section

variable {E : Type} {origin : Origin E} {pos : Position E} {stage next : JournalStage E}

def JournalStage.fed (stage : JournalStage E) : List (InputSlot E) :=
  stage.ring ++ arrivals stage.beats

structure FeedOk (origin : Origin E) (stage : JournalStage E) : Prop where
  sentinelLast : SentinelLast stage.fed
  fits : origin.first + stage.fed.length < 2 ^ 64
  observed : stage.config.chainHashObserved = origin.observed

structure Stands (pos : Position E) (stage : JournalStage E) : Prop where
  encoder : stage.core.encoder = pos.encoder
  nextRead : stage.core.nextRead = pos.nextRead
  known : pos.encoded ++ pos.ahead <+: stage.ring

theorem Stands.frame (stands : Stands pos stage) (encoder : next.core.encoder = stage.core.encoder)
    (cursor : next.core.nextRead = stage.core.nextRead) (ring : stage.ring <+: next.ring) :
    Stands pos next :=
  ⟨encoder.trans stands.encoder, cursor.trans stands.nextRead, stands.known.trans ring⟩

theorem Stands.act [Hashing] (stands : Stands pos stage) (act : Act E) :
    Stands pos (stage.act act) := by
  obtain ⟨core, -, -, ring⟩ := stage.act_frame act
  exact stands.frame (by rw [core]) (by rw [core]) (ring ▸ List.prefix_append ..)

theorem JournalStage.batches_act [Hashing] (drained : stage.batches = []) (act : Act E) :
    (stage.act act).batches = [] := by
  cases act with
  | publish | mark | shutdown | requestRotation | clock | sender => exact drained
  | drain count retryDir faults => simp [JournalStage.act, JournalStage.drain, drained]
  | rotate faults =>
    simp only [JournalStage.act, JournalStage.rotate]
    repeat' split
    all_goals exact drained
  | prepare serial bytes window mode faults =>
    simp only [JournalStage.act, JournalStage.prepare]
    repeat' split
    all_goals exact drained

theorem JournalStage.acts_frame [Hashing] (stage : JournalStage E) (acts : List (Act E)) :
    (acts.foldl JournalStage.act stage).beats = stage.beats ∧
      (acts.foldl JournalStage.act stage).config = stage.config ∧
      (acts.foldl JournalStage.act stage).ring = stage.ring ++ acts.flatMap Act.published := by
  induction acts generalizing stage with
  | nil => exact ⟨rfl, rfl, (List.append_nil _).symm⟩
  | cons act acts ih =>
    obtain ⟨-, config, beats, ring⟩ := stage.act_frame act
    obtain ⟨laterBeats, laterConfig, laterRing⟩ := ih (stage.act act)
    refine ⟨laterBeats.trans beats, laterConfig.trans config, laterRing.trans ?_⟩
    rw [ring, List.flatMap_cons, List.append_assoc]

def Fed (origin : Origin E) (holds : JournalStage E → Prop) (stage : JournalStage E) : Prop :=
  FeedOk origin stage ∧ holds stage

theorem FeedOk.frame (feed : FeedOk origin stage) (config : next.config = stage.config)
    (ring : next.ring = stage.ring) (beats : next.beats = stage.beats) : FeedOk origin next := by
  obtain ⟨sentinelLast, fits, observed⟩ := feed
  rw [JournalStage.fed, ← ring, ← beats] at sentinelLast fits
  exact ⟨sentinelLast, fits, by rw [config]; exact observed⟩

theorem fed_beat [Hashing] {keeps failed : JournalStage E → Prop}
    (act : ∀ stage act, keeps stage → keeps (JournalStage.act stage act))
    (beats : ∀ stage beats, keeps stage → keeps { stage with beats }) :
    (beat : SequencerCall E Unit).Ends (Fed origin keeps) (fun _ => Fed origin keeps) failed
      (Fed origin keeps) := by
  refine ends_beat ?_ fun _ fed => fed
  rintro stage acts later ⟨feed, holds⟩ turns
  obtain ⟨beatsEq, configEq, ringEq⟩ :=
    ({ stage with beats := later } : JournalStage E).acts_frame acts
  have same : (acts.foldl JournalStage.act { stage with beats := later }).fed = stage.fed := by
    have turns : stage.beats = acts :: later := turns
    simp [JournalStage.fed, beatsEq, ringEq, turns, arrivals]
  refine ⟨⟨?_, ?_, ?_⟩,
    List.foldlRecOn acts _ (beats stage later holds) fun stage holds a _ => act stage a holds⟩
  · exact same ▸ feed.sentinelLast
  · exact same ▸ feed.fits
  · exact configEq ▸ feed.observed

end

section

variable {E : Type} [AppEvent E] [Hashing]

structure Encoded (origin : Origin E) (ledger : Ledger E) (pos : Position E) : Prop where
  entries : ledger.entries.map (·.entry) = origin.journal pos.encoded
  ledgerNext : ledger.next = origin.first + wireSeqsTaken pos.encoded
  next : pos.encoder.nextSequence = ledger.next + pos.extra
  batch : pos.encoder.batch = bytesOf ledger.pending
  ascends : pos.encoder.lastEncodedSeq < ledger.next

/-- What the sequencing thread keeps between any two of its steps. -/
structure Aligned (origin : Origin E) (ledger : Ledger E) (pos : Position E)
    (stage : JournalStage E) : Prop where
  stands : Stands pos stage
  disk : DiskSide origin ledger stage
  stream : Encoded origin ledger pos
  chain : pos.encoder.chain = ledger.chain
  idle : stage.rotation = .idle

/-- How the rotation that the thread waits for has come along. -/
inductive RotationStands (ledger : Ledger E) (encoder : JournalEncoder) : RotateSlot → Prop where
  | requested (request : RotateRequest) (chain : encoder.chain = ledger.chain)
      (start : request.startingSequence = encoder.nextSequence)
      (anchor : request.anchorHash = encoder.chainHash) :
      RotationStands ledger encoder (.requested request)
  | failed (err : JournalError) (chain : encoder.chain = ledger.chain) :
      RotationStands ledger encoder (.done (.error err))
  | rotated (chain : .new encoder.chainHash = ledger.chain) :
      RotationStands ledger encoder (.done (.ok ()))

/-- What it keeps while it waits for a rotation that it asked for with nothing ahead of the disk. -/
structure Awaiting (origin : Origin E) (ledger : Ledger E) (pos : Position E)
    (stage : JournalStage E) : Prop where
  stands : Stands pos stage
  disk : DiskSide origin ledger stage
  stream : Encoded origin ledger pos
  drained : stage.batches = []
  rotation : RotationStands ledger pos.encoder stage.rotation

def At (origin : Origin E) (pos : Position E) : JournalStage E → Prop :=
  Fed origin fun stage => ∃ ledger, Aligned origin ledger pos stage

def Waits (origin : Origin E) (pos : Position E) : JournalStage E → Prop :=
  Fed origin fun stage => ∃ ledger, Awaiting origin ledger pos stage

def Stopped (origin : Origin E) : JournalStage E → Prop :=
  Fed origin fun stage => ∃ ledger, DiskSide origin ledger stage

variable {origin : Origin E} {ledger later : Ledger E} {pos : Position E}
  {stage next : JournalStage E}

theorem Encoded.settles (holds : Encoded origin ledger pos)
    (entries : later.entries = ledger.entries) (next : later.next = ledger.next)
    (pending : later.pending = ledger.pending) : Encoded origin later pos :=
  ⟨by rw [entries]; exact holds.entries, by rw [next]; exact holds.ledgerNext,
    by rw [next]; exact holds.next, by rw [pending]; exact holds.batch,
    by rw [next]; exact holds.ascends⟩

theorem Aligned.act [LawfulAppEvent E] (aligned : Aligned origin ledger pos stage) (act : Act E) :
    ∃ later, Aligned origin later pos (stage.act act) := by
  obtain ⟨later, side, changes⟩ := aligned.disk.act act
  cases changes with
  | settles settles rotation =>
    exact ⟨later, aligned.stands.act act, side,
      aligned.stream.settles settles.entries settles.next settles.pending,
      aligned.chain.trans settles.chain.symm, rotation.trans aligned.idle⟩
  | failed request requested | rotated request requested =>
    exact absurd (aligned.idle.symm.trans requested) (by simp)

/-- Nor does one disturb the wait for a rotation, except by answering it. -/
theorem Awaiting.act [LawfulAppEvent E] (awaiting : Awaiting origin ledger pos stage)
    (act : Act E) : ∃ later, Awaiting origin later pos (stage.act act) := by
  obtain ⟨later, side, changes⟩ := awaiting.disk.act act
  have stands := awaiting.stands.act act
  have drained := JournalStage.batches_act awaiting.drained act
  have waits := awaiting.rotation
  cases changes with
  | settles settles rotation =>
    refine ⟨later, stands, side,
      awaiting.stream.settles settles.entries settles.next settles.pending, drained, ?_⟩
    rw [rotation]
    generalize stage.rotation = slot at waits
    cases waits with
    | requested request chain start anchor =>
      exact .requested request (chain.trans settles.chain.symm) start anchor
    | failed err chain => exact .failed err (chain.trans settles.chain.symm)
    | rotated chain => exact .rotated (chain.trans settles.chain.symm)
  | failed request requested err answered same =>
    subst same
    rw [requested] at waits
    cases waits with
    | requested _ chain =>
      exact ⟨later, stands, side, awaiting.stream, drained, answered ▸ .failed err chain⟩
  | rotated request requested fits answered isSealed =>
    subst isSealed
    obtain ⟨entries, next⟩ := awaiting.disk.rotated_entries requested
    have quiesced := (awaiting.disk.request request requested).quiesced
    rw [requested] at waits
    cases waits with
    | requested _ _ start anchor =>
      refine ⟨_, stands, side, awaiting.stream.settles entries next quiesced.symm, drained,
        answered ▸ .rotated ?_⟩
      rw [← anchor]
      rfl

theorem at_beat [LawfulAppEvent E] :
    (beat : SequencerCall E Unit).Meets (At origin pos) (fun _ => At origin pos) (At origin pos) :=
  fed_beat (fun _ act ⟨_, aligned⟩ => aligned.act act) fun _ _ ⟨ledger, aligned⟩ =>
    ⟨ledger, ⟨aligned.stands.encoder, aligned.stands.nextRead, aligned.stands.known⟩,
      aligned.disk.frame (List.append_nil _).symm rfl rfl rfl rfl rfl, aligned.stream,
      aligned.chain, aligned.idle⟩

theorem waits_beat [LawfulAppEvent E] {failed : JournalStage E → Prop} :
    (beat : SequencerCall E Unit).Ends (Waits origin pos) (fun _ => Waits origin pos) failed
      (Waits origin pos) :=
  fed_beat (fun _ act ⟨_, awaiting⟩ => awaiting.act act) fun _ _ ⟨ledger, awaiting⟩ =>
    ⟨ledger, ⟨awaiting.stands.encoder, awaiting.stands.nextRead, awaiting.stands.known⟩,
      awaiting.disk.frame (List.append_nil _).symm rfl rfl rfl rfl rfl, awaiting.stream,
      awaiting.drained, awaiting.rotation⟩

theorem stopped_beat [LawfulAppEvent E] :
    (beat : SequencerCall E Unit).Meets (Stopped origin) (fun _ => Stopped origin)
      (Stopped origin) := by
  refine fed_beat (fun stage act ⟨ledger, side⟩ => ?_) fun _ _ ⟨ledger, side⟩ =>
    ⟨ledger, side.frame (List.append_nil _).symm rfl rfl rfl rfl rfl⟩
  obtain ⟨later, laterSide, -⟩ := side.act act
  exact ⟨later, laterSide⟩

theorem At.stopped (stands : At origin pos stage) : Stopped origin stage :=
  ⟨stands.1, _, stands.2.choose_spec.disk⟩

theorem Waits.stopped (waits : Waits origin pos stage) : Stopped origin stage :=
  ⟨waits.1, _, waits.2.choose_spec.disk⟩

theorem At.frame (stands : At origin pos stage) (encoder : next.core.encoder = stage.core.encoder)
    (cursor : next.core.nextRead = stage.core.nextRead) (config : next.config = stage.config)
    (ring : next.ring = stage.ring) (beats : next.beats = stage.beats)
    (batches : next.batches = stage.batches) (rotation : next.rotation = stage.rotation)
    (preparer : next.preparer = stage.preparer) (poisoned : next.poisoned = stage.poisoned)
    (disk : next.disk = stage.disk) : At origin pos next := by
  obtain ⟨feed, ledger, aligned⟩ := stands
  exact ⟨feed.frame config ring beats, ledger,
    aligned.stands.frame encoder cursor (ring ▸ List.prefix_rfl),
    aligned.disk.frame (ring.trans (List.append_nil _).symm) batches rotation preparer poisoned disk,
    aligned.stream, aligned.chain, rotation.trans aligned.idle⟩

section

variable {stopped : JournalStage E → Prop}

theorem at_recordSlotForReplication (journalSlice : Bytes) :
    (recordSlotForReplication journalSlice : SequencerCall E Unit).Meets (At origin pos)
      (fun _ => At origin pos) stopped :=
  Call.ends_looking fun _ _ => Call.ends_ite (fun _ => Call.ends_pure fun _ stands => stands)
    fun _ => Call.ends_change fun _ stands =>
      stands.frame rfl rfl rfl rfl rfl rfl rfl rfl rfl rfl

variable [LawfulAppEvent E] (stops : ∀ stage, At origin pos stage → stopped stage)

include stops

theorem at_steady : Steady (At origin pos) (fun _ => stopped) stopped where
  beat := at_beat.imp (fun _ stands => stands) (fun _ _ stands => stands) stops
  frame stands same := stands.frame same.encoder same.nextRead same.config same.ring same.beats
    same.batches same.rotation same.preparer same.poisoned same.disk
  announce _ _ _ _ _ stands := stands.frame rfl rfl rfl rfl rfl rfl rfl rfl rfl rfl
  waits := stops
  poisons _ stage stands _ := stops stage stands
  marks _ stage _ stands := stops stage stands

theorem at_takePoison {α : Type} {after : α → JournalStage E → Prop} :
    (takePoison : SequencerCall E α).Meets (At origin pos) after stopped :=
  Call.ends_bind (fun _ => At origin pos)
    ((at_steady stops).access fun _ stands =>
      stands.frame rfl rfl rfl rfl rfl rfl rfl rfl rfl rfl) fun _ => Call.ends_fail _ stops

theorem at_publishInputBatchToRings (endSequence : Nat) :
    (publishInputBatchToRings endSequence : SequencerCall E Unit).Meets (At origin pos)
      (fun _ => At origin pos) stopped := by
  refine Call.ends_looking fun _ _ => Call.ends_ite (fun _ => Call.ends_pure fun _ stands => stands)
    fun _ => Call.ends_bind (fun _ => At origin pos) ?_ fun _ => Call.ends_change fun _ stands =>
      stands.frame rfl rfl rfl rfl rfl rfl rfl rfl rfl rfl
  refine Call.ends_bind (fun _ => At origin pos) ?_ fun _ =>
    Call.ends_bind (fun _ => At origin pos) ?_ fun _ => Call.ends_pure fun _ stands => stands
  all_goals exact (at_steady stops).access fun _ stands =>
    stands.frame rfl rfl rfl rfl rfl rfl rfl rfl rfl rfl

end

end

end Melin
