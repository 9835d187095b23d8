import Melin.Pipeline.PersistBeforePublish

/-! A batch always fits: its chunk of the hand-off, and the frame of it a replication chunk. -/

namespace Melin

open Lib

/-- A frame as the sequencing thread publishes it, with every field in range. -/
inductive FrameFits : Bytes → Prop where
  | inputBatch {buf : Bytes} {slotCount : Nat} (header : frameHeaderLen ≤ buf.length)
      (size : buf.length ≤ replicationChunkSize) (count : slotCount < 2 ^ 16) :
      FrameFits (finalizeInputBatch buf slotCount)
  | announcement (tag : UInt8) (sequence : Nat) (hash : Digest) :
      FrameFits (encodeSeqHash tag sequence hash)

theorem finalizeInputBatch_length {buf : Bytes} (header : frameHeaderLen ≤ buf.length)
    (slotCount : Nat) : (finalizeInputBatch buf slotCount).length = buf.length := by
  simp only [finalizeInputBatch, List.length_append, leBytes_length, List.length_singleton,
    List.length_drop]
  simp only [frameHeaderLen] at header ⊢
  omega

theorem FrameFits.length_le {data : Bytes} (fits : FrameFits data) :
    data.length ≤ replicationChunkSize := by
  cases fits with
  | inputBatch header size => rwa [finalizeInputBatch_length header]
  | announcement tag sequence hash =>
    simp [encodeSeqHash, frame, hash.width, replicationChunkSize]

def destinationTooSmall (room offset written reserve : Nat) : JournalError :=
  .io .invalidInput (s!"journal batch destination too small: {room} bytes free at "
    ++ s!"offset {offset}, entry needs {written} (caller must reserve entry_size::<E>() = "
    ++ s!"{reserve} per event)")

/-- The refusal as the sequencing thread reports it, while it runs or while it drains. -/
def RefusedForRoom (err : JournalError) : Prop :=
  ∃ room offset written reserve, err = destinationTooSmall room offset written reserve ∨
    ∃ seq, err = sequencerEncodeError seq (destinationTooSmall room offset written reserve)

inductive StopCause (poisoned : Bool) : JournalError → Prop where
  | disk (failed : poisoned = true) (err : JournalError) : StopCause poisoned err
  | mark {err : JournalError} (failure : MarkFailure err) : StopCause poisoned err
  | misnumbered (expected actual : Nat) :
      StopCause poisoned (.replicaSequenceMismatch expected actual)
  | regressed (sequence last : Nat) : StopCause poisoned (.sequenceRegression sequence last)
  | codec (sequence : Nat) (reason : String) : StopCause poisoned (.corruptEntry sequence reason)
  | encode (seq sequence : Nat) (reason : String) :
      StopCause poisoned (sequencerEncodeError seq (.corruptEntry sequence reason))

theorem text_behind_number {one other : Nat} {first second : List Char}
    (same : Nat.toDigits 10 one ++ first = Nat.toDigits 10 other ++ second)
    (firstStops : first.head?.any (!·.isDigit)) (secondStops : second.head?.any (!·.isDigit)) :
    first = second := by
  have behind : ∀ {number : Nat} {rest : List Char}, rest.head?.any (!·.isDigit) →
      (Nat.toDigits 10 number ++ rest).dropWhile Char.isDigit = rest := by
    intro number rest stops
    rw [List.dropWhile_append_of_pos fun _ member =>
      Nat.isDigit_of_mem_toDigits (by omega) (by omega) member]
    cases rest with
    | nil => rfl
    | cons char rest => exact List.dropWhile_cons_of_neg (by simpa using stops)
  rw [← behind firstStops, same, behind secondStops]

/-- Unless the disk thread failed, the thread never stops for want of room. -/
theorem StopCause.not_refusedForRoom {err : JournalError} (cause : StopCause false err) :
    ¬RefusedForRoom err := by
  rintro ⟨room, offset, written, reserve, refused⟩
  have opening : (toString "journal encode (sequencer, seq ").toList.head? = some 'j' := rfl
  cases cause with
  | disk failed => cases failed
  | misnumbered | regressed | codec =>
    obtain refused | ⟨seq, refused⟩ := refused <;> cases refused
  | mark failure =>
    -- The texts of the marks' failures start with other letters.
    cases failure with
    | diverged => obtain refused | ⟨seq, refused⟩ := refused <;> cases refused
    | checkPassed =>
      obtain refused | ⟨seq, refused⟩ := refused
      · cases refused
      · have text := congrArg (fun text => text.toList.head?) (JournalError.io.inj refused).2
        have first : (toString "chain-check position ").toList.head? = some 'c' := rfl
        simp [opening, first] at text
    | boundaryPassed =>
      obtain refused | ⟨seq, refused⟩ := refused
      · cases refused
      · have text := congrArg (fun text => text.toList.head?) (JournalError.io.inj refused).2
        have first : (toString "adopted rotation boundary ").toList.head? = some 'a' := rfl
        simp [opening, first] at text
  | encode seq sequence reason =>
    obtain refused | ⟨other, refused⟩ := refused
    · cases refused
    · have text := congrArg String.toList (JournalError.io.inj refused).2
      simp only [Nat.toString_eq_repr, String.toList_append, Nat.toList_repr, List.append_assoc,
        List.append_cancel_left_eq] at text
      have same := congrArg (fun text => text[3]?) (text_behind_number text rfl rfl)
      cases same

section

variable {E : Type} [AppEvent E]

structure Fitting (stage : JournalStage E) : Prop where
  batch : stage.core.encoder.batch.length ≤ chunkSize
  frame : stage.core.inputBatchBuf.length ≤ replicationChunkSize
  count : stage.core.inputBatchCount < 2 ^ 16
  size : ∀ ring ∈ stage.producers, ∀ chunk ∈ ring.chunks, chunk.data.length ≤ replicationChunkSize
  published : ∀ ring ∈ stage.producers, ∀ chunk ∈ ring.chunks, FrameFits chunk.data

/--
The batch holds at most so many entries, of which at most so many are in the frame.

Both are no more than are read at a time.
-/
structure BatchFits (entries recorded : Nat) (stage : JournalStage E) : Prop where
  few : entries ≤ maxJournalBatch E
  fewRecorded : recorded ≤ maxJournalBatch E
  batch : stage.core.encoder.batch.length ≤ entries * entrySize E
  recorded : stage.core.inputBatchCount ≤ recorded
  header : stage.core.inputBatchCount ≠ 0 → frameHeaderLen ≤ stage.core.inputBatchBuf.length
  /-- An entry is in the frame without its magic. -/
  frame : stage.core.inputBatchBuf.length + 2 * stage.core.inputBatchCount
    ≤ frameHeaderLen + stage.core.inputBatchCount * entrySize E
  standalone : stage.producers = [] → stage.core.inputBatchCount = 0
  published : ∀ ring ∈ stage.producers, ∀ chunk ∈ ring.chunks, FrameFits chunk.data

theorem maxJournalBatch_mul_le :
    maxJournalBatch E * entrySize E ≤ min replicationChunkSize chunkSize :=
  (Nat.mul_le_mul_right _ (min_le_left ..)).trans (Nat.div_mul_le_self ..)

namespace BatchFits

variable {entries recorded : Nat} {stage next : JournalStage E}

theorem mono {more : Nat} (fits : BatchFits entries recorded stage) (grows : entries ≤ more)
    (recordedGrows : recorded ≤ more) (few : more ≤ maxJournalBatch E) :
    BatchFits more more stage :=
  { fits with
    few, fewRecorded := few
    batch := fits.batch.trans (Nat.mul_le_mul_right _ grows)
    recorded := fits.recorded.trans recordedGrows }

theorem fitting (narrow : entrySize E ≤ maxEntrySize) (fits : BatchFits entries recorded stage) :
    Fitting stage := by
  have counted : stage.core.inputBatchCount ≤ maxJournalBatch E :=
    fits.recorded.trans fits.fewRecorded
  have whole := maxJournalBatch_mul_le (E := E)
  refine ⟨?_, ?_, ?_, fun ring member chunk inRing => (fits.published ring member chunk inRing).length_le,
    fits.published⟩
  · exact (fits.batch.trans (Nat.mul_le_mul_right _ fits.few)).trans (whole.trans (min_le_right ..))
  · have entriesFit : stage.core.inputBatchCount * entrySize E ≤ replicationChunkSize :=
      (Nat.mul_le_mul_right _ counted).trans (whole.trans (min_le_left ..))
    have frame := fits.frame
    -- Four magics make up for the header; fewer entries leave most of the chunk free.
    by_cases several : 4 ≤ stage.core.inputBatchCount
    · simp only [frameHeaderLen] at frame
      omega
    · have small : stage.core.inputBatchCount * entrySize E ≤ 3 * maxEntrySize :=
        Nat.mul_le_mul (by omega) narrow
      simp only [frameHeaderLen] at frame
      simp only [maxEntrySize, replicationChunkSize] at small ⊢
      omega
  · have ceiling : maxJournalBatch E ≤ maxJournalBatchCeiling := min_le_right ..
    simp only [maxJournalBatchCeiling] at ceiling
    omega

theorem frame_of (fits : BatchFits entries recorded stage)
    (batch : next.core.encoder.batch = stage.core.encoder.batch)
    (inputBatchBuf : next.core.inputBatchBuf = stage.core.inputBatchBuf)
    (inputBatchCount : next.core.inputBatchCount = stage.core.inputBatchCount)
    (producers : next.producers = stage.producers) : BatchFits entries recorded next where
  few := fits.few
  fewRecorded := fits.fewRecorded
  batch := by rw [batch]; exact fits.batch
  recorded := by rw [inputBatchCount]; exact fits.recorded
  header := by rw [inputBatchBuf, inputBatchCount]; exact fits.header
  frame := by rw [inputBatchBuf, inputBatchCount]; exact fits.frame
  standalone := by rw [inputBatchCount, producers]; exact fits.standalone
  published := by rw [producers]; exact fits.published

theorem modifyRing (fits : BatchFits entries recorded stage) (index : Nat)
    {update : ReplicationRing → ReplicationRing}
    (frames : ∀ ring, (∀ chunk ∈ ring.chunks, FrameFits chunk.data) →
      ∀ chunk ∈ (update ring).chunks, FrameFits chunk.data) :
    BatchFits entries recorded { stage with producers := stage.producers.modify index update } :=
  { fits with
    standalone := fun none => fits.standalone (by simpa using none)
    published := by
      intro ring member
      obtain ⟨position, found⟩ := List.mem_iff_getElem?.mp member
      rw [List.getElem?_modify] at found
      cases old : stage.producers[position]? with
      | none => simp [old] at found
      | some before =>
        have frames' := fits.published before (List.mem_of_getElem? old)
        rw [old, Option.map_eq_map, Option.map_some, Option.some.injEq] at found
        rw [← found]
        split
        · exact frames before frames'
        · exact frames' }

theorem publish (fits : BatchFits entries recorded stage) (index : Nat) {data : Bytes}
    (frameFits : FrameFits data) (endSequence : Nat) :
    BatchFits entries recorded
      { stage with producers := stage.producers.modify index (·.publish data endSequence) } := by
  refine fits.modifyRing index fun ring frames chunk member => ?_
  unfold ReplicationRing.publish at member
  split_ifs at member
  · exact frames chunk member
  · exact frames chunk member
  · rcases List.mem_append.mp member with old | new
    · exact frames chunk old
    · rw [List.mem_singleton.mp new]
      exact frameFits
  · exact frames chunk member

theorem act [Hashing] (fits : BatchFits entries recorded stage) (act : Act E) :
    BatchFits entries recorded (stage.act act) := by
  cases act with
  | sender index act =>
    refine fits.modifyRing index fun ring frames chunk member => ?_
    cases act with
    | setActive | setEvict => exact frames chunk member
    | commit count => exact frames chunk (List.mem_of_mem_drop member)
  | publish | mark | shutdown | requestRotation | clock => exact fits.frame_of rfl rfl rfl rfl
  | drain | rotate | prepare =>
    simp only [JournalStage.act, JournalStage.drain, JournalStage.rotate, JournalStage.prepare]
    repeat' split
    all_goals exact fits.frame_of rfl rfl rfl rfl

end BatchFits

def StopsFitting (err : JournalError) (stage : JournalStage E) : Prop :=
  Fitting stage ∧ StopCause stage.poisoned err

abbrev Pending (count : Nat) (stage : JournalStage E) : Prop := BatchFits count count stage

theorem encode_eq_error [Hashing] {sequence room : Nat} {timestampNs keyHash : UInt64}
    {event : JournalEvent E} {err : JournalError}
    (refused : encode sequence timestampNs keyHash event room = .error err) :
    ∃ reason, err = .corruptEntry sequence reason := by
  simp only [encode] at refused
  split at refused
  · exact ⟨_, (Except.error.inj refused).symm⟩
  · cases framed : encodeEvent sequence event room with
    | error framingErr =>
      simp only [framed, bind, Except.bind, Except.error.injEq] at refused
      subst refused
      cases event with
      | tick | epochBump | ackPolicyChange => cases framed
      | shutdown => exact ⟨_, (Except.error.inj framed).symm⟩
      | app event =>
        simp only [encodeEvent] at framed
        split_ifs at framed <;> exact ⟨_, (Except.error.inj framed).symm⟩
    | ok pair =>
      simp only [framed, bind, Except.bind] at refused
      split_ifs at refused
      · exact ⟨_, (Except.error.inj refused).symm⟩
      · cases refused

theorem JournalEncoder.encodeEvent_eq_error [Hashing] {encoder : JournalEncoder} {room seq : Nat}
    {timestampNs keyHash : UInt64} {event : JournalEvent E} {err : JournalError}
    (roomy : entrySize E ≤ room)
    (refused : encoder.encodeEvent room seq timestampNs event keyHash = .error err) :
    err = .sequenceRegression seq encoder.lastEncodedSeq ∨
      ∃ reason, err = .corruptEntry seq reason := by
  rw [JournalEncoder.encodeEvent] at refused
  split at refused
  · exact .inl (Except.error.inj refused).symm
  · cases encoded : encode seq timestampNs keyHash event maxEntrySize with
    | error cause =>
      rw [encoded] at refused
      obtain rfl : cause = err := Except.error.inj refused
      exact .inr (encode_eq_error encoded)
    | ok bytes =>
      rw [encoded] at refused
      have fits := (encode_length_le encoded).2
      simp only [bind, Except.bind] at refused
      rw [if_neg (by omega)] at refused
      cases refused

theorem fits_recordSlotForReplication {count : Nat} {journalSlice : Bytes}
    (short : journalSlice.length + 2 ≤ entrySize E) (few : count + 1 ≤ maxJournalBatch E) :
    (recordSlotForReplication journalSlice : SequencerCall E Unit).EndsAs
      (BatchFits (count + 1) count) (fun _ => Pending (count + 1)) StopsFitting Fitting := by
  refine Call.ends_look_bind fun seen fits => Call.ends_ite (fun _ => Call.ends_pure ?_) fun some =>
    Call.ends_change ?_
  · rintro stage rfl
    exact { fits with fewRecorded := few, recorded := fits.recorded.trans (Nat.le_succ _) }
  · rintro stage rfl
    have recorded := fits.recorded
    have header := fits.header
    have frame := fits.frame
    refine { fits with
      fewRecorded := few
      recorded := Nat.succ_le_succ recorded, header := fun _ => ?_, frame := ?_
      standalone := fun none => absurd (by simp [show stage.producers = [] from none]) some }
    · dsimp only
      split
      · simp [initInputBatch]
      · rw [List.length_append]
        exact (header ‹_›).trans (Nat.le_add_right ..)
    · dsimp only
      rw [Nat.add_mul, Nat.one_mul]
      split
      · rename_i first
        simp only [initInputBatch, List.length_append, List.length_replicate, first]
        omega
      · rw [List.length_append]
        omega

/-- How a failure to encode is reported, while the thread runs or while it drains. -/
structure Reports (wrap : Nat → JournalError → JournalError) : Prop where
  regressed : ∀ seq sequence last,
    wrap seq (.sequenceRegression sequence last) = .sequenceRegression sequence last
  codec : ∀ poisoned seq sequence reason,
    StopCause poisoned (wrap seq (.corruptEntry sequence reason))

theorem reports_loop : Reports sequencerEncodeError :=
  ⟨fun _ _ _ => rfl, fun _ seq sequence reason => .encode seq sequence reason⟩

theorem reports_drain : Reports fun _ err => err :=
  ⟨fun _ _ _ => rfl, fun _ _ sequence reason => .codec sequence reason⟩

section

variable [Hashing] (narrow : entrySize E ≤ maxEntrySize)

include narrow

theorem batchFits_steady (entries recorded : Nat) {failed : JournalError → JournalStage E → Prop}
    (stops : ∀ err stage, BatchFits entries recorded stage → StopCause stage.poisoned err →
      failed err stage) :
    Steady (BatchFits (E := E) entries recorded) failed Fitting where
  beat := stage_beat (fun _ act fits => fits.act act) (fun _ _ fits => fits.frame_of rfl rfl rfl rfl)
    fun _ fits => fits.fitting narrow
  frame fits same := fits.frame_of (by rw [same.encoder]) same.inputBatchBuf same.inputBatchCount
    same.producers
  announce index tag sequence hash endSequence fits :=
    fits.publish index (.announcement tag sequence hash) endSequence
  waits _ fits := fits.fitting narrow
  poisons err stage fits poisoned := stops err stage fits (.disk poisoned err)
  marks err stage failure fits := stops err stage fits (.mark failure)

theorem fits_steady {entries recorded : Nat} :
    Steady (BatchFits (E := E) entries recorded) StopsFitting Fitting :=
  batchFits_steady narrow entries recorded fun _ _ fits cause => ⟨fits.fitting narrow, cause⟩

variable {count : Nat}

theorem fits_publishInputBatchToRings (endSequence : Nat) :
    (publishInputBatchToRings endSequence : SequencerCall E Unit).EndsAs (Pending count)
      (fun _ => BatchFits count 0) StopsFitting Fitting := by
  refine Call.ends_look_bind fun seen fits => Call.ends_ite (fun none => Call.ends_pure ?_)
    fun some => ?_
  · rintro stage rfl
    exact { fits with fewRecorded := Nat.zero_le _, recorded := none.le }
  have frameFits := FrameFits.inputBatch (fits.header some) (fits.fitting narrow).frame
    (fits.fitting narrow).count
  have publish : ∀ index, (access fun stage => ((), { stage with
      producers := stage.producers.modify index (·.publish
        (finalizeInputBatch seen.core.inputBatchBuf seen.core.inputBatchCount) endSequence) }) :
      SequencerCall E Unit).EndsAs (Pending count) (fun _ => Pending count) StopsFitting Fitting :=
    fun index => (fits_steady narrow).access fun _ fits => fits.publish index frameFits endSequence
  refine Call.ends_bind (fun _ => Pending count) (Call.ends_bind (fun _ => Pending count)
    ((publish 0).imp (fun _ same => same ▸ fits) (fun _ _ met => met) (fun _ _ met => met)
      fun _ met => met) fun _ => Call.ends_bind _ (publish 1) fun _ => Call.ends_pure fun _ fits => fits)
    fun _ => Call.ends_change fun stage fits => ?_
  exact { fits with
    fewRecorded := Nat.zero_le _, recorded := le_rfl, header := absurd rfl
    frame := Nat.zero_le _, standalone := fun _ => rfl }

theorem fits_submitBatch (progress : Nat) :
    (submitBatch progress : SequencerCall E Unit).EndsAs (Pending count) (fun _ => Pending 0)
      StopsFitting Fitting := by
  refine Call.ends_look_bind fun seen fits => Call.ends_when (BatchFits count 0)
    (fun _ => (fits_publishInputBatchToRings narrow _).imp (fun _ same => same ▸ fits)
      (fun _ _ met => met) (fun _ _ met => met) fun _ met => met) (fun alone => ?_) ?_
  · rintro stage rfl
    have none : stage.producers = [] := by simpa using alone
    exact { fits with fewRecorded := Nat.zero_le _, recorded := (fits.standalone none).le }
  · refine Call.ends_looking fun before _ => Call.ends_bind _ (fits_steady narrow).claimSlot fun _ =>
      Call.ends_bind (fun _ => BatchFits count 0) ((fits_steady narrow).access fun stage fits =>
        fits.frame_of rfl rfl rfl rfl) fun _ => Call.ends_change fun stage fits => ?_
    exact { fits with few := Nat.zero_le _, batch := Nat.zero_le _ }

theorem fits_drainDisk :
    (drainDisk : SequencerCall E Unit).EndsAs (Pending count) (fun _ => Pending count)
      (fun _ => Pending count) Fitting := by
  have steady : Steady (Pending count) (fun _ => Pending count) Fitting :=
    batchFits_steady (E := E) narrow count count fun _ _ fits _ => fits
  refine ends_loop (fun _ => Pending count) (fun _ => ?_) (fun _ => steady.waits) ()
  exact Call.ends_bind _ steady.observe fun empty => Call.ends_ite
    (fun _ => Call.ends_pure fun _ fits => fits)
    fun _ => steady.unlessPoisoned (Call.ends_pure fun _ fits => fits)

theorem fits_awaitRotation :
    (awaitRotation : SequencerCall E Unit).EndsAs (Pending count) (fun _ => Pending count)
      (fun _ => Pending count) Fitting := by
  have steady : Steady (Pending count) (fun _ => Pending count) Fitting :=
    batchFits_steady (E := E) narrow count count fun _ _ fits _ => fits
  refine ends_loop (fun _ => Pending count) (fun _ => ?_) (fun _ => steady.waits) ()
  refine Call.ends_bind (fun _ => Pending count) (steady.access fun stage fits => ?_) fun answer => ?_
  · split
    · exact fits.frame_of rfl rfl rfl rfl
    · exact fits
    · exact fits
  · cases answer with
    | some result =>
      exact Call.ends_bind (fun _ => Pending count)
        (Call.ends_ofExcept (fun _ _ _ fits => fits) fun _ _ _ fits => fits)
        fun _ => Call.ends_pure fun _ fits => fits
    | none => exact steady.unlessPoisoned (Call.ends_pure fun _ fits => fits)

theorem fits_rotateTakingPrepared :
    (rotateTakingPrepared : SequencerCall E (Except JournalError Unit × Bool)).EndsAs
      (Pending count) (fun _ => Pending count) StopsFitting Fitting := by
  refine Call.ends_bind _ (Call.ends_attempt (fits_drainDisk narrow)) fun drained => ?_
  cases drained with
  | error err => exact Call.ends_pure fun _ fits => fits
  | ok _ =>
    refine Call.ends_looking fun seen _ => Call.ends_bind (fun _ => Pending count)
      ((fits_steady narrow).access fun _ fits => fits.frame_of rfl rfl rfl rfl) fun usedFastPath =>
      Call.ends_bind _ (Call.ends_attempt (fits_awaitRotation narrow)) fun result => ?_
    cases result with
    | error err => exact Call.ends_pure fun _ fits => fits
    | ok _ =>
      exact Call.ends_bind (fun _ => Pending count)
        (Call.ends_change fun _ fits => { fits with batch := Nat.zero_le _ }) fun _ =>
        Call.ends_pure fun _ fits => fits

theorem fits_maybeRotate :
    (maybeRotate : SequencerCall E Bool).EndsAs (Pending count) (fun _ => Pending count)
      StopsFitting Fitting := by
  have published : ∀ endSequence, (publishInputBatchToRings endSequence :
      SequencerCall E Unit).EndsAs (Pending count) (fun _ => Pending count) StopsFitting Fitting :=
    fun endSequence => (fits_publishInputBatchToRings narrow endSequence).imp (fun _ fits => fits)
      (fun _ _ fits => fits.mono le_rfl (Nat.zero_le _) fits.few) (fun _ _ met => met)
      fun _ met => met
  refine Call.ends_bind _ ((fits_steady narrow).localRotationArmed published) fun armed => ?_
  cases armed with
  | none => exact Call.ends_pure fun _ fits => fits
  | some manual =>
    exact Call.ends_bind _ (fits_rotateTakingPrepared narrow) fun _ =>
      (fits_steady narrow).finishLocalRotation _

theorem fits_applyStreamMarks (quiesced : Bool) :
    (applyStreamMarks quiesced : SequencerCall E Bool).EndsAs (Pending count)
      (fun _ => Pending count) StopsFitting Fitting := by
  have steady : Steady (Pending count) StopsFitting Fitting := fits_steady (E := E) narrow
  refine Call.ends_bind (fun _ => Pending count) ((steady.resolveStreamMarks quiesced).imp
    (fun _ fits => fits) (fun _ _ resolved => resolved.1) (fun _ _ met => met) fun _ met => met)
    fun due => ?_
  cases due with
  | none => exact Call.ends_pure fun _ fits => fits
  | some rotation =>
    refine Call.ends_bind _ steady.rotationBackedOff fun backedOff => Call.ends_ite
      (fun _ => Call.ends_pure fun _ fits => fits)
      fun _ => Call.ends_bind _ (fits_rotateTakingPrepared narrow) fun rotated => ?_
    obtain ⟨result, usedFastPath⟩ := rotated
    cases result with
    | ok _ => exact Call.ends_bind _ steady.finishAdoption fun _ => Call.ends_pure fun _ fits => fits
    | error err => exact Call.ends_bind _ steady.failAdoption fun _ => Call.ends_pure fun _ fits => fits

theorem fits_readContiguous (most : Nat) :
    (readContiguous most : SequencerCall E (List (InputSlot E))).EndsAs (Pending count)
      (fun slots stage => slots.length ≤ most ∧ Pending count stage) StopsFitting Fitting := by
  refine (fits_steady narrow).access fun stage fits => ⟨?_, fits.frame_of rfl rfl rfl rfl⟩
  rw [List.length_take]
  omega

theorem fits_journalSlot {wrap : Nat → JournalError → JournalError} (reports : Reports wrap)
    (slot : InputSlot E) (few : count + 1 ≤ maxJournalBatch E) :
    (journalSlot wrap slot : SequencerCall E Unit).EndsAs (Pending count)
      (fun _ => Pending (count + 1)) StopsFitting Fitting := by
  refine Call.ends_looking fun seen seenFits => ?_
  have whole := (Nat.mul_le_mul_right (entrySize E) few).trans
    ((maxJournalBatch_mul_le (E := E)).trans (min_le_right ..))
  rw [Nat.add_mul, Nat.one_mul] at whole
  dsimp only
  refine Call.ends_bind (fun numbered stage =>
    numbered.2.batch = seen.core.encoder.batch ∧ Pending count stage)
    (Call.ends_ofExcept (fun numbered took stage fits => ⟨?_, fits⟩) fun err refused stage fits => ?_)
    fun numbered => Call.ends_and fun sameBatch => ?_
  · split at took
    · unfold JournalEncoder.adoptSequence at took
      split at took
      · cases took
      · rw [← Except.ok.inj took]
        rfl
    · rw [← Except.ok.inj took]
      rfl
  · split at refused
    · unfold JournalEncoder.adoptSequence at refused
      split at refused
      · rw [← Except.error.inj refused]
        exact ⟨fits.fitting narrow, .misnumbered ..⟩
      · cases refused
    · cases refused
  have short : numbered.2.batch.length ≤ count * entrySize E := sameBatch ▸ seenFits.batch
  refine Call.ends_bind (fun _ => Pending count)
    (Call.ends_change fun stage fits => { fits with batch := short }) fun _ =>
    Call.ends_bind _ (fits_steady narrow).claimSlot fun _ => ?_
  -- The chunk has room for one more entry of any event.
  have roomy : entrySize E ≤ chunkSize - numbered.2.batch.length := by omega
  refine Call.ends_bind (fun encoded stage => (∃ bytes : Bytes,
      encoded.batch = numbered.2.batch ++ bytes ∧ 2 ≤ bytes.length ∧ bytes.length ≤ entrySize E) ∧
      Pending count stage)
    (Call.ends_ofExcept (fun encoded took stage fits => ⟨?_, fits⟩) fun err refused stage fits => ?_)
    fun encoded => Call.ends_and ?_
  · cases encodes : numbered.2.encodeEvent (chunkSize - numbered.2.batch.length) numbered.1
        slot.timestampNs slot.event slot.keyHash with
    | error err =>
      rw [encodes] at took
      cases took
    | ok after =>
      rw [encodes] at took
      cases took
      obtain ⟨bytes, framed, rfl⟩ := JournalEncoder.encodeEvent_eq_ok encodes
      have bounds := encode_length_le framed
      exact ⟨bytes, rfl, le_trans (by decide) bounds.1, bounds.2⟩
  · cases encodes : numbered.2.encodeEvent (chunkSize - numbered.2.batch.length) numbered.1
        slot.timestampNs slot.event slot.keyHash with
    | ok after =>
      rw [encodes] at refused
      cases refused
    | error cause =>
      rw [encodes] at refused
      rw [← Except.error.inj refused]
      refine ⟨fits.fitting narrow, ?_⟩
      obtain rfl | ⟨reason, rfl⟩ := JournalEncoder.encodeEvent_eq_error roomy encodes
      · rw [reports.regressed]
        exact .regressed ..
      · exact reports.codec ..
  · rintro ⟨bytes, appended, wide, narrowEntry⟩
    refine Call.ends_bind (fun _ => BatchFits (count + 1) count)
      (Call.ends_change fun stage fits => { fits with few, batch := ?_ })
      fun _ => fits_recordSlotForReplication ?_ few
    · dsimp only
      rw [appended, List.length_append, Nat.add_mul, Nat.one_mul]
      omega
    · rw [appended, List.drop_left, List.length_drop]
      omega

theorem fits_encodeSpan (span : List (InputSlot E)) (few : count + span.length ≤ maxJournalBatch E) :
    (encodeSpan span : SequencerCall E (Nat × Bool)).EndsAs (Pending count)
      (fun result stage => result.1 ≤ span.length ∧ Pending (count + result.1) stage) StopsFitting
      Fitting := by
  induction span generalizing count with
  | nil => exact Call.ends_pure fun _ fits => ⟨le_rfl, fits⟩
  | cons slot slots ih =>
    rw [List.length_cons] at few
    refine Call.ends_ite (fun _ => Call.ends_pure fun _ fits => ⟨Nat.zero_le _, fits⟩) fun _ =>
      Call.ends_when (Pending (count + 1)) (fun _ => fits_journalSlot narrow reports_loop slot (by omega))
        (fun _ _ fits => fits.mono (Nat.le_succ _) (Nat.le_succ _) (by omega))
        (Call.ends_bind _ (ih (by omega)) fun result => Call.ends_pure fun _ ends => ⟨?_, ?_⟩)
    · exact Nat.succ_le_succ ends.1
    · have fits := ends.2
      rwa [Nat.add_assoc, Nat.add_comm 1] at fits

theorem fits_encodeBatch (readStart : Nat) (slots : List (InputSlot E)) (turn : SequenceLoop)
    (few : turn.pending + slots.length ≤ maxJournalBatch E) :
    (encodeBatch readStart slots turn : SequencerCall E (SequenceLoop × Bool)).EndsAs
      (Pending turn.pending) (fun result => Pending result.1.pending) StopsFitting Fitting := by
  refine Call.ends_bind _ (fits_steady narrow).refreshPendingMark fun _ => ?_
  -- What is pending and what is left of the read are never more than one read.
  refine Call.EndsAs.imp (ends_loop (fun (next : Nat × SequenceLoop) stage =>
    (next.1 ≤ slots.length ∧ next.2.pending + (slots.length - next.1) ≤ maxJournalBatch E) ∧
      Pending next.2.pending stage) ?_ (fun _ _ holds => holds.2.fitting narrow) (0, turn))
    (fun _ fits => ⟨⟨Nat.zero_le _, by simpa using few⟩, fits⟩) (fun _ _ met => met)
    (fun _ _ met => met) fun _ met => met
  rintro ⟨start, turn⟩
  refine Call.ends_and fun ⟨inside, few⟩ => Call.ends_looking fun seen _ => ?_
  dsimp only at inside few ⊢
  obtain ⟨behind, within⟩ := markSplit_bounds seen.core.pendingMark inside
  generalize markSplit seen.core.pendingMark slots start = stop at behind within
  have length : ((slots.take stop).drop start).length = stop - start := by
    rw [List.length_drop, List.length_take, Nat.min_eq_left within]
  have atBoundary : ∀ next : SequenceLoop, next.pending + (slots.length - stop) ≤ maxJournalBatch E →
      (do
        let _ ← applyStreamMarks true
        return .inl (stop, next) : SequencerCall E (Nat × SequenceLoop ⊕ SequenceLoop × Bool)).EndsAs
        (Pending next.pending) (fun next stage => Sum.elim
          (fun (next : Nat × SequenceLoop) => (next.1 ≤ slots.length ∧
            next.2.pending + (slots.length - next.1) ≤ maxJournalBatch E) ∧
            Pending next.2.pending stage)
          (fun result => Pending result.1.pending stage) next) StopsFitting Fitting :=
    fun next few => Call.ends_bind _ (fits_applyStreamMarks narrow true) fun _ =>
      Call.ends_pure fun _ fits => ⟨⟨within, few⟩, fits⟩
  refine Call.ends_bind _ (fits_encodeSpan narrow _ (by rw [length]; omega)) fun result =>
    Call.ends_and fun consumed => Call.ends_bind _ (fits_steady narrow).observe fun now =>
    Call.ends_ite (fun _ => Call.ends_pure fun _ fits => fits) fun _ =>
    Call.ends_bind _ (fits_applyStreamMarks narrow false) fun _ => Call.ends_looking fun seen _ =>
    Call.ends_ite (fun _ => Call.ends_ite (fun _ => ?_) fun _ => ?_) fun _ =>
      Call.ends_pure fun _ fits => ⟨⟨within, ?_⟩, fits⟩
  · exact Call.ends_bind _ (fits_submitBatch narrow _) fun _ =>
      atBoundary { turn with pending := 0, firstWriteTs := none } (by dsimp only; omega)
  · exact atBoundary { turn with
      pending := turn.pending + result.1
      firstWriteTs := if turn.firstWriteTs.isNone && 0 < result.1 then some now
        else turn.firstWriteTs } (by dsimp only; omega)
  · dsimp only
    omega

theorem fits_journalAll (slots : List (InputSlot E)) (few : count + slots.length ≤ maxJournalBatch E) :
    (slots.forM fun slot => do
        if slot.event.takesWireSeq then journalSlot (fun _ err => err) slot :
      SequencerCall E Unit).EndsAs (Pending count) (fun _ => Pending (count + slots.length))
      StopsFitting Fitting := by
  induction slots generalizing count with
  | nil => exact Call.ends_pure fun _ fits => fits
  | cons slot slots ih =>
    rw [List.length_cons] at few
    refine Call.ends_bind (fun _ => Pending (count + 1)) (Call.ends_ite
      (fun _ => fits_journalSlot narrow reports_drain slot (by omega))
      fun _ => Call.ends_pure fun _ fits => fits.mono (Nat.le_succ _) (Nat.le_succ _) (by omega))
      fun _ => ?_
    have rest := @ih (count + 1) (by omega)
    rwa [Nat.add_assoc, Nat.add_comm 1] at rest

theorem fits_drainRemaining :
    (drainRemaining : SequencerCall E Unit).EndsAs (Pending 0) (fun _ => Pending 0) StopsFitting
      Fitting := by
  refine ends_loop (fun _ => Pending 0) (fun _ => ?_) (fun _ _ fits => fits.fitting narrow) ()
  refine Call.ends_looking fun seen _ => Call.ends_bind _ (fits_readContiguous narrow _) fun slots =>
    Call.ends_and fun few => Call.ends_ite (fun _ => Call.ends_pure fun _ fits => fits) fun _ =>
    Call.ends_bind _ (fits_journalAll narrow slots (by omega)) fun _ =>
    Call.ends_bind _ (fits_submitBatch narrow _) fun _ => Call.ends_pure fun _ fits => fits

theorem fits_syncPoint (readEnd : Nat) (turn : SequenceLoop) :
    (syncPoint readEnd turn : SequencerCall E SequenceLoop).EndsAs (Pending turn.pending)
      (fun next => Pending next.pending) StopsFitting Fitting := by
  have marks : ∀ {rest : SequencerCall E SequenceLoop}, rest.EndsAs (Pending turn.pending)
      (fun next => Pending next.pending) StopsFitting Fitting → (do
        if ← marksOutstanding then
          let _ ← applyStreamMarks true
        rest : SequencerCall E SequenceLoop).EndsAs (Pending turn.pending)
        (fun next => Pending next.pending) StopsFitting Fitting := fun restEnds =>
    Call.ends_bind _ (fits_steady narrow).marksOutstanding fun _ => Call.ends_ite
      (fun _ => Call.ends_bind _ (fits_applyStreamMarks narrow true) fun _ => restEnds)
      fun _ => restEnds
  have done : (pure { turn with idleCount := turn.idleCount + 1 } :
      SequencerCall E SequenceLoop).EndsAs (Pending turn.pending)
      (fun next => Pending next.pending) StopsFitting Fitting := Call.ends_pure fun _ fits => fits
  refine Call.ends_ite (fun _ => Call.ends_looking fun seen _ => Call.ends_bind _
      (fits_steady narrow).observe fun now => Call.ends_ite (fun _ => ?_) fun _ =>
      Call.ends_pure fun _ fits => fits)
    fun _ => Call.ends_looking fun seen _ => Call.ends_ite
      (fun _ => marks (Call.ends_ite (fun _ => marks done) fun _ => done))
      fun _ => Call.ends_ite (fun _ => marks done) fun _ => done
  exact Call.ends_bind _ (fits_submitBatch narrow _) fun _ =>
    Call.ends_bind _ (fits_steady narrow).maybePublishChainCheck fun _ =>
    Call.ends_bind _ (fits_maybeRotate narrow) fun _ =>
    Call.ends_bind _ (fits_applyStreamMarks narrow true) fun _ => Call.ends_pure fun _ fits => fits

theorem fits_roundEnd (readEnd : Nat) (turn : SequenceLoop) (sawShutdown : Bool) :
    (do
      let turn ← syncPoint readEnd turn
      if sawShutdown then
        if 0 < turn.pending then submitBatch readEnd
        return .inr ()
      return .inl turn : SequencerCall E (SequenceLoop ⊕ Unit)).EndsAs (Pending turn.pending)
      (fun next stage => Sum.elim (fun turn => Pending turn.pending stage)
        (fun _ => Pending 0 stage) next) StopsFitting Fitting := by
  refine Call.ends_bind _ (fits_syncPoint narrow readEnd turn) fun turn =>
    Call.ends_ite (fun _ => ?_) fun _ => Call.ends_pure fun _ fits => fits
  refine Call.ends_when (Pending 0) (fun _ => fits_submitBatch narrow readEnd) (fun none stage fits => ?_)
    (Call.ends_pure fun _ fits => fits)
  rwa [show turn.pending = 0 by omega] at fits

theorem fits_encodeRead (turn : SequenceLoop) (readStart : Nat) (slots : List (InputSlot E))
    (few : turn.pending + slots.length ≤ maxJournalBatch E) :
    (do
      let (turn, sawShutdown) ← if slots.isEmpty then pure (turn, false)
        else encodeBatch readStart slots turn
      let turn ← syncPoint (readStart + slots.length) turn
      if sawShutdown then
        if 0 < turn.pending then submitBatch (readStart + slots.length)
        return .inr ()
      return .inl turn : SequencerCall E (SequenceLoop ⊕ Unit)).EndsAs (Pending turn.pending)
      (fun next stage => Sum.elim (fun turn => Pending turn.pending stage)
        (fun _ => Pending 0 stage) next) StopsFitting Fitting :=
  Call.ends_ite (fun _ => fits_roundEnd narrow _ turn false) fun _ =>
    Call.ends_bind _ (fits_encodeBatch narrow readStart slots turn few) fun result =>
      fits_roundEnd narrow _ result.1 result.2

theorem fits_sequenceRound (turn : SequenceLoop) :
    (sequenceRound turn : SequencerCall E (SequenceLoop ⊕ Unit)).EndsAs (Pending turn.pending)
      (fun next stage => Sum.elim (fun turn => Pending turn.pending stage)
        (fun _ => Pending 0 stage) next) StopsFitting Fitting := by
  have drains : (do
      drainRemaining
      return .inr () : SequencerCall E (SequenceLoop ⊕ Unit)).EndsAs (Pending 0)
      (fun next stage => Sum.elim (fun turn => Pending turn.pending stage)
        (fun _ => Pending 0 stage) next) StopsFitting Fitting :=
    Call.ends_bind _ (fits_drainRemaining narrow) fun _ => Call.ends_pure fun _ fits => fits
  refine (fits_steady narrow).unlessPoisoned (Call.ends_bind _ (fits_steady narrow).observe
    fun shutdown => Call.ends_ite (fun _ => Call.ends_ite (fun _ => Call.ends_looking fun seen _ =>
      Call.ends_bind _ (fits_submitBatch narrow _) fun _ => drains) fun none => ?_)
    fun _ => Call.ends_looking fun seen seenFits => Call.ends_ite (fun _ => ?_) fun _ => ?_)
  · rw [show turn.pending = 0 by omega]
    exact drains
  · exact Call.ends_bind _ (fits_readContiguous narrow _) fun slots => Call.ends_and fun few =>
      fits_encodeRead narrow turn _ slots (by omega)
  · exact fits_encodeRead narrow turn _ [] seenFits.few

theorem fits_sequence :
    (sequence : SequencerCall E Unit).EndsAs (Pending 0) (fun _ => Pending 0) StopsFitting Fitting :=
  ends_loop (fun (turn : SequenceLoop) => Pending (E := E) turn.pending) (fits_sequenceRound narrow)
    (fun _ _ fits => fits.fitting narrow) { pending := 0, firstWriteTs := none, idleCount := 0 }

end

omit [AppEvent E] in
theorem BufferedWriter.flushBatchSync_batch {writer flushed : BufferedWriter} {fs after : Fs NodeFile}
    (flushes : writer.flushBatchSync.run fs = (after, .ok flushed)) : flushed.encoder.batch = [] := by
  rw [BufferedWriter.flushBatchSync] at flushes
  split at flushes
  · rename_i empty
    obtain rfl : writer = flushed := Except.ok.inj (Prod.mk.inj flushes).2
    exact List.length_eq_zero_iff.mp empty
  · rw [Prog.run_bind] at flushes
    split at flushes
    · rw [Prog.run_bind] at flushes
      split at flushes
      · rw [← Except.ok.inj (Prod.mk.inj flushes).2]
        rfl
      · cases flushes
    · cases flushes

theorem pending_start {parts : StageParts E} {writer : BufferedWriter} {fs : Fs NodeFile}
    {stage : JournalStage E} (started : JournalStage.start parts writer fs = .ok stage)
    (published : ∀ ring ∈ parts.producers, ∀ chunk ∈ ring.chunks, FrameFits chunk.data) :
    Pending 0 stage := by
  simp only [JournalStage.start, BufferedWriter.intoHalves, Prog.run_bind] at started
  cases flushes : writer.flushBatchSync.run fs with
  | mk after result =>
    cases result with
    | error err => simp [flushes] at started
    | ok flushed =>
      simp only [flushes, Prog.run_pure, Except.ok.injEq] at started
      subst started
      exact
        { few := Nat.zero_le _, fewRecorded := Nat.zero_le _
          batch := by simp [BufferedWriter.flushBatchSync_batch flushes]
          recorded := le_rfl, header := absurd rfl, frame := Nat.zero_le _
          standalone := fun _ => rfl, published }

/--
Whatever is published and whatever the others do, no batch outgrows a chunk of either ring.

This holds wherever the sequencing thread is, in its loop or its drain, since it may be left at any
access; it stops for want of room only where the disk thread failed so.
-/
theorem journal_batch_fits [Hashing] {parts : StageParts E} {writer : BufferedWriter}
    {fs : Fs NodeFile} {stage : JournalStage E} (narrow : entrySize E ≤ maxEntrySize)
    (started : JournalStage.start parts writer fs = .ok stage)
    (published : ∀ ring ∈ parts.producers, ∀ chunk ∈ ring.chunks, FrameFits chunk.data) :
    Fitting (sequence stage).1 ∧
      ∀ err, (sequence stage).2 = .failed err → (sequence stage).1.poisoned = false →
        ¬RefusedForRoom err := by
  have ends := fits_sequence narrow stage (pending_start started published)
  cases ran : sequence stage with
  | mk left ending =>
    rw [ran] at ends
    cases ending with
    | done value => exact ⟨ends.fitting narrow, nofun⟩
    | waiting => exact ⟨ends, nofun⟩
    | failed err =>
      refine ⟨ends.1, ?_⟩
      rintro _ ⟨rfl⟩ healthy
      have cause := ends.2
      dsimp only at healthy
      rw [healthy] at cause
      exact cause.not_refusedForRoom

end

def sampleReplicated : Except JournalError (JournalStage CounterEvent) := do
  let journal : WriterState CounterEvent ← WriterState.create emptyFs .zero samplePrealloc
  JournalStage.start
    { sampleParts with producers := [{ chunks := [], active := true, evict := false }] }
    journal.writer journal.fs

/-- The sample's increment goes to the replica in a frame that fits. -/
theorem journal_batch_fits_replicated :
    ∃ stage, sampleReplicated = .ok stage ∧ Fitting (sequence stage).1 ∧
      (sequence stage).1.producers.map (·.chunks.map (·.data.length)) = [[47]] := by
  have ran : sampleReplicated.toOption.map (fun stage =>
      (sequence stage).1.producers.map (·.chunks.map (·.data.length))) = some [[47]] := by
    decide +kernel
  obtain ⟨journal, inode, created, -⟩ :=
    WriterState.holds_create (E := CounterEvent) emptyFs_blank .zero samplePrealloc
  cases started : sampleReplicated with
  | error err => simp [started, Except.toOption] at ran
  | ok stage =>
    rw [started] at ran
    refine ⟨stage, rfl, ?_, Option.some.inj ran⟩
    rw [sampleReplicated, created] at started
    exact (journal_batch_fits (by decide) started (by simp)).1

end Melin
