import Melin.Pipeline.JournalStage

/-! The sequencing thread: read, encode, feed the replicas, hand the batch to the disk thread. -/

namespace Melin

open Lib

def chainCheckIntervalBatches : Nat := 64

def rotationFailureBackoff : Nat := 30 * 10 ^ 9

def maxJournalBatchCeiling : Nat := 4096

def maxJournalBatch (E : Type) [AppEvent E] : Nat :=
  min (min replicationChunkSize chunkSize / entrySize E) maxJournalBatchCeiling

/-- The index behind `start` of the first slot past the pending mark's position. -/
def markSplit {E : Type} (pendingMark : Option StreamMark) (batch : List (InputSlot E))
    (start : Nat) : Nat :=
  match pendingMark with
  | none => batch.length
  | some mark =>
    start + ((batch.drop start).takeWhile fun slot => slot.sequence ≤ mark.sequence).length

def sequencerEncodeError (seq : Nat) : JournalError → JournalError
  | .io _ message => .io .other s!"journal encode (sequencer, seq {seq}): journal I/O error: {message}"
  | .corruptEntry sequence reason =>
    .io .other (s!"journal encode (sequencer, seq {seq}): corrupt entry at sequence {sequence}: "
      ++ s!"{reason}")
  -- The encoder has no other failure than these and a regression.
  | err => err

structure SequenceLoop where
  /-- Slots consumed since the last hand-over. -/
  pending : Nat
  firstWriteTs : Option Nat
  idleCount : Nat

section

variable {E α : Type} [AppEvent E] [Hashing]

def takePoison : SequencerCall E α := do
  let err ← access fun stage => (stage.error, { stage with error := none })
  Call.fail (err.getD (.io .other "journal disk thread failed without recording a cause"))

/-- Claim a hand-off slot if the batch has none yet; a full hand-off is waited for. -/
def claimSlot : SequencerCall E Unit := do
  if (← Call.look).core.claim then return
  loop (fun () => do
    let claimed ← access fun stage =>
      if stage.batches.length < defaultCapacity then
        (true, { stage with core := { stage.core with claim := true } })
      else (false, stage)
    if claimed then return .inr ()
    -- A disk thread that failed never drains again.
    if ← observe (·.poisoned) then takePoison
    return .inl ()) ()

def recordSlotForReplication (journalSlice : Bytes) : SequencerCall E Unit := do
  if (← Call.look).producers.isEmpty then return
  modifyCore fun core =>
    { core with
      inputBatchBuf := (if core.inputBatchCount = 0 then initInputBatch else core.inputBatchBuf)
        ++ journalSlice
      inputBatchCount := core.inputBatchCount + 1 }

def publishToReplicationRings (data : Bytes) (endSequence : Nat) : SequencerCall E Unit :=
  [0, 1].forM fun index => access fun stage =>
    ((), { stage with producers := stage.producers.modify index (·.publish data endSequence) })

def publishInputBatchToRings (endSequence : Nat) : SequencerCall E Unit := do
  let core := (← Call.look).core
  if core.inputBatchCount = 0 then return
  publishToReplicationRings (finalizeInputBatch core.inputBatchBuf core.inputBatchCount) endSequence
  modifyCore fun core => { core with inputBatchBuf := [], inputBatchCount := 0 }

/-- Announce this node's chain value, every so many batches. -/
def maybePublishChainCheck : SequencerCall E Unit := do
  if (← Call.look).producers.isEmpty then return
  modifyCore fun core => { core with batchesSinceChainCheck := core.batchesSinceChainCheck + 1 }
  let core := (← Call.look).core
  if core.batchesSinceChainCheck < chainCheckIntervalBatches then return
  modifyCore fun core => { core with batchesSinceChainCheck := 0 }
  let sequence := core.encoder.nextSequence - 1
  publishToReplicationRings (encodeChainCheck sequence core.encoder.chainHash) sequence

def publishRotateToRings : SequencerCall E Unit := do
  let stage ← Call.look
  if stage.producers.isEmpty then return
  let boundarySeq := stage.core.encoder.nextSequence - 1
  publishToReplicationRings (encodeRotate boundarySeq stage.core.encoder.chainHash) boundarySeq

def submitBatch (progress : Nat) : SequencerCall E Unit := do
  let stage ← Call.look
  if !stage.producers.isEmpty then
    publishInputBatchToRings (stage.core.encoder.nextSequence - 1)
  let encoder := (← Call.look).core.encoder
  let info : JournalWriteMeta :=
    { len := encoder.batch.length
      journalSeq := encoder.nextSequence - 1
      chainHash := if stage.config.chainHashObserved then encoder.chainHash else .zero
      ringProgress := progress }
  -- Even an empty batch needs a slot, which carries the cursors.
  claimSlot
  access fun stage =>
    ((), { stage with
      batches := stage.batches ++ [{ bytes := encoder.batch, info }]
      core := { stage.core with claim := false } })
  modifyCore fun core =>
    { core with
      encoder := core.encoder.clearBatch
      segmentBytes := core.segmentBytes + info.len }

def drainDisk : SequencerCall E Unit :=
  loop (fun () => do
    if ← observe (·.batches.isEmpty) then return .inr ()
    if ← observe (·.poisoned) then takePoison
    return .inl ()) ()

def awaitRotation : SequencerCall E Unit :=
  loop (fun () => do
    let answer ← access fun stage =>
      match stage.rotation with
      | .done result => (some result, { stage with rotation := .idle })
      | .idle | .requested _ => (none, stage)
    match answer with
    | some result =>
      Call.ofExcept result
      return .inr ()
    | none =>
      -- A disk thread that failed never answers.
      if ← observe (·.poisoned) then takePoison
      return .inl ()) ()

/-- Rotate onto a staged segment if one is ready; says how that went, and whether one was. -/
def rotateTakingPrepared : SequencerCall E (Except JournalError Unit × Bool) := do
  match ← Call.attempt drainDisk with
  | .error err => return (.error err, false)
  | .ok () =>
    let encoder := (← Call.look).core.encoder
    -- Nothing reads the preparer's slot between the two, so the segment is taken as it is asked for.
    let usedFastPath ← access fun stage =>
      let request : RotateRequest :=
        { prepared := stage.preparer.join
          startingSequence := encoder.nextSequence
          anchorHash := encoder.chainHash }
      (request.prepared.isSome,
        { stage with preparer := stage.preparer.map fun _ => none, rotation := .requested request })
    let result ← Call.attempt awaitRotation
    if let .ok () := result then
      modifyCore fun core =>
        { core with
          encoder := core.encoder.beginSegment encoder.nextSequence encoder.chainHash
          segmentBytes := entryOffset }
    return (result, usedFastPath)

def localRotationArmed : SequencerCall E (Option Bool) := do
  let manual ← access fun stage =>
    match stage.rotateRequested with
    | some true => (true, { stage with rotateRequested := some false })
    | some false | none => (false, stage)
  let stage ← Call.look
  let sizeTriggered : Bool :=
    0 < stage.config.maxJournalBytes && stage.config.maxJournalBytes ≤ stage.core.segmentBytes
  if !(manual || sizeTriggered) then return none
  let now ← observe (·.now)
  if !manual && stage.core.rotationBackoffUntil.any (now < ·) then return none
  -- An empty segment is never rotated.
  if stage.core.encoder.nextSequence = stage.core.encoder.startingSequence then return none
  if !stage.producers.isEmpty then
    publishInputBatchToRings (stage.core.encoder.nextSequence - 1)
  return some manual

def finishLocalRotation (result : Except JournalError Unit) : SequencerCall E Bool :=
  match result with
  | .ok () => do
    modifyCore fun core => { core with rotationBackoffUntil := none }
    publishRotateToRings
    return true
  | .error _ => do
    let now ← observe (·.now)
    modifyCore fun core => { core with rotationBackoffUntil := some (now + rotationFailureBackoff) }
    return false

def maybeRotate : SequencerCall E Bool := do
  match ← localRotationArmed with
  | none => return false
  | some _ =>
    let (result, _) ← rotateTakingPrepared
    finishLocalRotation result

def refreshPendingMark : SequencerCall E Unit := do
  if (← Call.look).core.pendingMark.isSome then return
  access fun stage =>
    match stage.streamMarks with
    | some (mark :: marks) =>
      ((), { stage with
        streamMarks := some marks, core := { stage.core with pendingMark := some mark } })
    | some [] | none => ((), stage)

def marksOutstanding : SequencerCall E Bool := do
  if (← Call.look).core.pendingMark.isSome then return true
  observe fun stage => stage.streamMarks.any (!·.isEmpty)

def resolveStreamMarks (quiesced : Bool) : SequencerCall E (Option AdoptedRotation) :=
  loop (fun () => do
    refreshPendingMark
    let core := (← Call.look).core
    let reached := core.encoder.nextSequence - 1
    match core.pendingMark with
    | none => return .inr none
    | some mark =>
      if reached < mark.sequence then return .inr none
      match mark with
      | .chainCheck sequence chainHash =>
        if reached > sequence then
          Call.fail (.io .other (s!"chain-check position {sequence} already passed (writer at "
            ++ s!"{reached}) — mark/stream ordering bug"))
        if core.encoder.chainHash ≠ chainHash then
          Call.fail (.replicaChainDivergence sequence chainHash core.encoder.chainHash)
        modifyCore fun core => { core with pendingMark := none }
        return .inl ()
      | .rotate rotation =>
        -- A boundary this journal has already rotated at is announced again.
        if core.encoder.startingSequence = rotation.boundarySeq + 1 then
          modifyCore fun core => { core with pendingMark := none }
          return .inl ()
        if reached > rotation.boundarySeq then
          let boundary := rotation.boundarySeq
          Call.fail (.io .other (s!"adopted rotation boundary {boundary} already passed (writer at "
            ++ s!"{reached}) — rotation/stream ordering bug"))
        if !quiesced then return .inr none
        -- A primary without a chain announces zeros.
        if rotation.tailHash ≠ .zero ∧ core.encoder.chainHash ≠ rotation.tailHash then
          Call.fail (.replicaChainDivergence rotation.boundarySeq rotation.tailHash
            core.encoder.chainHash)
        return .inr (some rotation)) ()

def rotationBackedOff : SequencerCall E Bool := do
  match (← Call.look).core.rotationBackoffUntil with
  | none => return false
  | some backedOffUntil =>
    let now ← observe (·.now)
    if now < backedOffUntil then return true
    modifyCore fun core => { core with rotationBackoffUntil := none }
    return false

def finishAdoption : SequencerCall E Unit := do
  modifyCore fun core => { core with pendingMark := none }
  refreshPendingMark

def failAdoption : SequencerCall E Unit := do
  let now ← observe (·.now)
  modifyCore fun core => { core with rotationBackoffUntil := some (now + rotationFailureBackoff) }

def applyStreamMarks (quiesced : Bool) : SequencerCall E Bool := do
  match ← resolveStreamMarks quiesced with
  | none => return false
  | some _ =>
    if ← rotationBackedOff then return false
    match ← rotateTakingPrepared with
    | (.ok (), _) =>
      finishAdoption
      return true
    | (.error _, _) =>
      failAdoption
      return false

/-- Borrow the slots that are ready, up to a number, the ring's wrap, and the producers' cursor. -/
def readContiguous (most : Nat) : SequencerCall E (List (InputSlot E)) :=
  access fun stage =>
    let available := stage.ring.length - stage.core.nextRead
    let untilWrap := stage.config.ringCapacity - stage.core.nextRead % stage.config.ringCapacity
    let count := min (min available most) untilWrap
    ((stage.ring.drop stage.core.nextRead).take count,
      { stage with core := { stage.core with nextRead := stage.core.nextRead + count } })

def journalSlot (wrap : Nat → JournalError → JournalError) (slot : InputSlot E) :
    SequencerCall E Unit := do
  let encoder := (← Call.look).core.encoder
  let (seq, numbered) ← Call.ofExcept
    (if slot.sequence ≠ 0 then encoder.adoptSequence slot.sequence else .ok encoder.allocateSequence)
  modifyCore fun core => { core with encoder := numbered }
  claimSlot
  let room := chunkSize - numbered.batch.length
  let encoded ← Call.ofExcept
    ((numbered.encodeEvent room seq slot.timestampNs slot.event slot.keyHash).mapError (wrap seq))
  modifyCore fun core => { core with encoder := encoded }
  -- The entry without its magic is the slot on the wire.
  recordSlotForReplication ((encoded.batch.drop numbered.batch.length).drop 2)

def encodeSpan : List (InputSlot E) → SequencerCall E (Nat × Bool)
  | [] => return (0, false)
  | slot :: slots => do
    if slot.event.isShutdown then return (0, true)
    -- A query is skipped.
    if slot.event.takesWireSeq then journalSlot sequencerEncodeError slot
    let (consumed, sawShutdown) ← encodeSpan slots
    return (consumed + 1, sawShutdown)

def encodeBatch (readStart : Nat) (slots : List (InputSlot E)) (turn : SequenceLoop) :
    SequencerCall E (SequenceLoop × Bool) := do
  refreshPendingMark
  loop (fun (start, turn) => do
    let stop := markSplit (← Call.look).core.pendingMark slots start
    let (consumed, sawShutdown) ← encodeSpan ((slots.take stop).drop start)
    let now ← observe (·.now)
    let turn := { turn with
      pending := turn.pending + consumed
      firstWriteTs := if turn.firstWriteTs.isNone && 0 < consumed then some now
        else turn.firstWriteTs }
    if stop = slots.length || sawShutdown then return .inr (turn, sawShutdown)
    let _ ← applyStreamMarks false
    if (← Call.look).core.pendingMark.any StreamMark.isRotate then
      -- The batch ends at the boundary, not at the read cursor.
      let turn ← if 0 < turn.pending then do
          submitBatch (readStart + stop)
          pure { turn with pending := 0, firstWriteTs := none }
        else pure turn
      let _ ← applyStreamMarks true
      return .inl (stop, turn)
    else return .inl (stop, turn)) (0, turn)

/-- Drain the input ring behind the shutdown flag; marks are not applied. -/
def drainRemaining : SequencerCall E Unit :=
  loop (fun () => do
    let readStart := (← Call.look).core.nextRead
    let slots ← readContiguous (maxJournalBatch E)
    if slots.isEmpty then return .inr ()
    slots.forM fun slot => do
      if slot.event.takesWireSeq then journalSlot (fun _ err => err) slot
    submitBatch (readStart + slots.length)
    return .inl ()) ()

/-- Hand the batch over if it is time to, and act on what is due behind it; else act when idle. -/
def syncPoint (readEnd : Nat) (turn : SequenceLoop) : SequencerCall E SequenceLoop := do
  if 0 < turn.pending then
    let stage ← Call.look
    let now ← observe (·.now)
    if stage.config.maxBatch ≤ turn.pending || stage.config.groupCommitDelay = 0
        || turn.firstWriteTs.any (fun ts => stage.config.groupCommitDelay ≤ now - ts) then
      submitBatch readEnd
      maybePublishChainCheck
      let _ ← maybeRotate
      let _ ← applyStreamMarks true
      return { turn with pending := 0, firstWriteTs := none }
    else return turn
  else
    let idleCount := turn.idleCount + 1
    if (← Call.look).core.rotationBackoffUntil.isNone then
      if ← marksOutstanding then
        let _ ← applyStreamMarks true
    -- An adoption that is backed off is retried now and then.
    if idleCount % 1024 = 0 then
      if ← marksOutstanding then
        let _ ← applyStreamMarks true
    return { turn with idleCount }

def sequenceRound (turn : SequenceLoop) : SequencerCall E (SequenceLoop ⊕ Unit) := do
  if ← observe (·.poisoned) then takePoison
  if ← observe (·.shutdown) then
    if 0 < turn.pending then submitBatch (← Call.look).core.nextRead
    drainRemaining
    return .inr ()
  let readStart := (← Call.look).core.nextRead
  let remaining := maxJournalBatch E - turn.pending
  let slots ← if 0 < remaining then readContiguous remaining else pure []
  let (turn, sawShutdown) ← if slots.isEmpty then pure (turn, false)
    else encodeBatch readStart slots turn
  let turn ← syncPoint (readStart + slots.length) turn
  if sawShutdown then
    if 0 < turn.pending then submitBatch (readStart + slots.length)
    return .inr ()
  return .inl turn

def sequence : SequencerCall E Unit :=
  loop sequenceRound { pending := 0, firstWriteTs := none, idleCount := 0 }

def joinDisk : SequencerCall E SegmentFile :=
  loop (fun () => observe fun stage =>
    if stage.poisoned || stage.batches.isEmpty then .inr stage.disk.segment else .inl ()) ()

/-- Wait for everything handed over to land, stop the disk thread, and reassemble the writer. -/
def finish : SequencerCall E BufferedWriter := do
  Call.recover drainDisk fun err => do
    let _ ← joinDisk
    Call.fail err
  let segment ← joinDisk
  if ← observe (·.poisoned) then takePoison
  return { encoder := (← Call.look).core.encoder, segment, batchBufLen := batchBufCapacity }

def runSequencer : SequencerCall E BufferedWriter := do
  Call.recover sequence fun err => do
    let _ ← joinDisk
    Call.fail err
  finish

end

end Melin
