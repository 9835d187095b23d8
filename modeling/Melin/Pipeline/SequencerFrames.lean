import Melin.Pipeline.DiskSide
import Melin.Pipeline.Sequencer

/-! The calls of the sequencing thread that touch neither its stream nor the disk thread's side. -/

namespace Melin

open Lib

section

variable {E : Type} {stage next : JournalStage E}

/-- Only the bookkeeping differs: the claim, backoffs, marks, the flags, and the latched error. -/
structure SameStream (stage next : JournalStage E) : Prop where
  encoder : next.core.encoder = stage.core.encoder
  nextRead : next.core.nextRead = stage.core.nextRead
  inputBatchBuf : next.core.inputBatchBuf = stage.core.inputBatchBuf
  inputBatchCount : next.core.inputBatchCount = stage.core.inputBatchCount
  config : next.config = stage.config
  ring : next.ring = stage.ring
  producers : next.producers = stage.producers
  beats : next.beats = stage.beats
  batches : next.batches = stage.batches
  rotation : next.rotation = stage.rotation
  preparer : next.preparer = stage.preparer
  poisoned : next.poisoned = stage.poisoned
  disk : next.disk = stage.disk

theorem JournalStage.poisoned_act [Hashing] (poisoned : stage.poisoned = true) (act : Act E) :
    (stage.act act).poisoned = true := by
  cases act with
  | publish | mark | shutdown | requestRotation | clock | sender => exact poisoned
  | drain count retryDir faults => simp [JournalStage.act, poisoned]
  | rotate faults => simp [JournalStage.act, poisoned]
  | prepare serial bytes window mode faults =>
    simp only [JournalStage.act, JournalStage.prepare]
    repeat' split
    all_goals exact poisoned

theorem stage_beat [Hashing] {keeps : JournalStage E → Prop}
    {failed : JournalError → JournalStage E → Prop} {waiting : JournalStage E → Prop}
    (act : ∀ stage act, keeps stage → keeps (JournalStage.act stage act))
    (beats : ∀ stage beats, keeps stage → keeps { stage with beats })
    (waits : ∀ stage, keeps stage → waiting stage) :
    (beat : SequencerCall E Unit).EndsAs keeps (fun _ => keeps) failed waiting :=
  ends_beat (fun stage acts later holds _ =>
    List.foldlRecOn acts _ (beats stage later holds) fun stage holds a _ => act stage a holds) waits

end

inductive MarkFailure : JournalError → Prop where
  | diverged (sequence : Nat) (expected actual : Digest) :
      MarkFailure (.replicaChainDivergence sequence expected actual)
  | checkPassed (sequence reached : Nat) :
      MarkFailure (.io .other (s!"chain-check position {sequence} already passed (writer at "
        ++ s!"{reached}) — mark/stream ordering bug"))
  | boundaryPassed (boundary reached : Nat) :
      MarkFailure (.io .other (s!"adopted rotation boundary {boundary} already passed (writer at "
        ++ s!"{reached}) — rotation/stream ordering bug"))

/--
A condition that the other threads and the sequencing thread's bookkeeping keep.

A call may fail under it with the disk thread's failure, or at a mark.
-/
structure Steady {E : Type} [Hashing] (keeps : JournalStage E → Prop)
    (failed : JournalError → JournalStage E → Prop) (waiting : JournalStage E → Prop) : Prop where
  beat : (beat : SequencerCall E Unit).EndsAs keeps (fun _ => keeps) failed waiting
  frame : ∀ {stage next}, keeps stage → SameStream stage next → keeps next
  announce : ∀ {stage} (index : Nat) (tag : UInt8) (sequence : Nat) (hash : Digest)
    (endSequence : Nat), keeps stage → keeps { stage with
      producers := stage.producers.modify index
        (·.publish (encodeSeqHash tag sequence hash) endSequence) }
  waits : ∀ stage, keeps stage → waiting stage
  poisons : ∀ err stage, keeps stage → stage.poisoned = true → failed err stage
  marks : ∀ err stage, MarkFailure err → keeps stage → failed err stage

namespace Steady

variable {E α : Type} [Hashing] {keeps : JournalStage E → Prop}
  {failed : JournalError → JournalStage E → Prop} {waiting : JournalStage E → Prop}
  (steady : Steady keeps failed waiting)

include steady

variable {after : α → JournalStage E → Prop}

theorem access {update : JournalStage E → α × JournalStage E}
    (holds : ∀ stage, keeps stage → after (update stage).1 (update stage).2) :
    (Lib.access update : SequencerCall E α).EndsAs keeps after failed waiting :=
  ends_access steady.beat holds

theorem observe {read : JournalStage E → α} :
    (Lib.observe read : SequencerCall E α).EndsAs keeps (fun _ => keeps) failed waiting :=
  steady.access fun _ holds => holds

theorem modifyCore {update : SequencerCore → SequencerCore}
    (encoder : ∀ core, (update core).encoder = core.encoder)
    (nextRead : ∀ core, (update core).nextRead = core.nextRead)
    (inputBatchBuf : ∀ core, (update core).inputBatchBuf = core.inputBatchBuf)
    (inputBatchCount : ∀ core, (update core).inputBatchCount = core.inputBatchCount) :
    (Melin.modifyCore update : SequencerCall E Unit).EndsAs keeps (fun _ => keeps) failed waiting :=
  Call.ends_change fun stage holds => steady.frame holds
    ⟨encoder stage.core, nextRead stage.core, inputBatchBuf stage.core, inputBatchCount stage.core,
      rfl, rfl, rfl, rfl, rfl, rfl, rfl, rfl, rfl⟩

theorem takePoison :
    (Melin.takePoison : SequencerCall E α).EndsAs
      (fun stage => keeps stage ∧ stage.poisoned = true) after failed waiting := by
  have still : (Lib.beat : SequencerCall E Unit).EndsAs (·.poisoned = true)
      (fun _ stage => stage.poisoned = true) (fun _ _ => True) fun _ => True :=
    stage_beat (fun _ act poisoned => JournalStage.poisoned_act poisoned act)
      (fun _ _ poisoned => poisoned) fun _ _ => trivial
  have both := steady.beat.and still
  refine Call.ends_bind (fun _ stage => keeps stage ∧ stage.poisoned = true)
    (ends_access both fun stage holds => ?_) fun err => Call.ends_fail _ fun stage holds =>
      steady.poisons _ stage holds.1 holds.2
  exact ⟨steady.frame holds.1 ⟨rfl, rfl, rfl, rfl, rfl, rfl, rfl, rfl, rfl, rfl, rfl, rfl, rfl⟩,
    holds.2⟩

theorem unlessPoisoned {rest : SequencerCall E α}
    (restEnds : rest.EndsAs keeps after failed waiting) :
    (do
      if ← Lib.observe (·.poisoned) then Melin.takePoison
      rest : SequencerCall E α).EndsAs keeps after failed waiting := by
  refine Call.ends_bind (fun poisoned stage => keeps stage ∧ (poisoned = true → stage.poisoned = true))
    (steady.access fun stage holds => ⟨holds, fun poisoned => poisoned⟩) fun poisoned =>
      Call.ends_ite (fun isPoisoned => ?_) fun _ => ?_
  · exact Call.ends_bind (fun _ => keeps) (steady.takePoison.imp
      (fun _ holds => ⟨holds.1, holds.2 isPoisoned⟩) (fun _ _ met => met) (fun _ _ met => met)
      fun _ met => met) fun _ => restEnds
  · exact restEnds.imp (fun _ holds => holds.1) (fun _ _ met => met) (fun _ _ met => met)
      fun _ met => met

theorem claimSlot :
    (Melin.claimSlot : SequencerCall E Unit).EndsAs keeps (fun _ => keeps) failed waiting := by
  refine Call.ends_looking fun seen _ => Call.ends_ite (fun _ => Call.ends_pure fun _ holds => holds)
    fun _ => ends_loop (fun _ => keeps) (fun _ => ?_) (fun _ => steady.waits) ()
  refine Call.ends_bind (fun _ => keeps) (steady.access fun stage holds => ?_)
    fun claimed => Call.ends_ite (fun _ => Call.ends_pure fun _ holds => holds)
      fun _ => steady.unlessPoisoned (Call.ends_pure fun _ holds => holds)
  split
  · exact steady.frame holds ⟨rfl, rfl, rfl, rfl, rfl, rfl, rfl, rfl, rfl, rfl, rfl, rfl, rfl⟩
  · exact holds

theorem publishAnnouncement (tag : UInt8) (sequence : Nat) (hash : Digest) (endSequence : Nat) :
    (publishToReplicationRings (encodeSeqHash tag sequence hash) endSequence :
      SequencerCall E Unit).EndsAs keeps (fun _ => keeps) failed waiting := by
  refine Call.ends_bind (fun _ => keeps) ?_ fun _ =>
    Call.ends_bind (fun _ => keeps) ?_ fun _ => Call.ends_pure fun _ holds => holds
  all_goals exact steady.access fun _ holds => steady.announce _ tag sequence hash endSequence holds

theorem maybePublishChainCheck :
    (Melin.maybePublishChainCheck : SequencerCall E Unit).EndsAs keeps (fun _ => keeps) failed
      waiting :=
  Call.ends_looking fun _ _ => Call.ends_ite (fun _ => Call.ends_pure fun _ holds => holds)
    fun _ => Call.ends_bind _
      (steady.modifyCore (fun _ => rfl) (fun _ => rfl) (fun _ => rfl) fun _ => rfl)
      fun _ => Call.ends_looking fun _ _ =>
        Call.ends_ite (fun _ => Call.ends_pure fun _ holds => holds)
        fun _ => Call.ends_bind _
          (steady.modifyCore (fun _ => rfl) (fun _ => rfl) (fun _ => rfl) fun _ => rfl)
          fun _ => steady.publishAnnouncement _ _ _ _

theorem publishRotateToRings :
    (Melin.publishRotateToRings : SequencerCall E Unit).EndsAs keeps (fun _ => keeps) failed
      waiting :=
  Call.ends_looking fun _ _ => Call.ends_ite (fun _ => Call.ends_pure fun _ holds => holds)
    fun _ => steady.publishAnnouncement _ _ _ _

theorem localRotationArmed
    (published : ∀ endSequence, (publishInputBatchToRings endSequence :
      SequencerCall E Unit).EndsAs keeps (fun _ => keeps) failed waiting) :
    (Melin.localRotationArmed : SequencerCall E (Option Bool)).EndsAs keeps (fun _ => keeps) failed
      waiting := by
  refine Call.ends_bind (fun _ => keeps) (steady.access fun stage holds => ?_)
    fun manual => Call.ends_looking fun seen _ => ?_
  · split
    · exact steady.frame holds ⟨rfl, rfl, rfl, rfl, rfl, rfl, rfl, rfl, rfl, rfl, rfl, rfl, rfl⟩
    · exact holds
    · exact holds
  · refine Call.ends_ite (fun _ => Call.ends_pure fun _ holds => holds) fun _ =>
      Call.ends_bind _ steady.observe fun now => ?_
    refine Call.ends_ite (fun _ => Call.ends_pure fun _ holds => holds) fun _ =>
      Call.ends_ite (fun _ => Call.ends_pure fun _ holds => holds) fun _ => ?_
    exact Call.ends_ite (fun _ => Call.ends_bind _ (published _)
      fun _ => Call.ends_pure fun _ holds => holds) fun _ => Call.ends_pure fun _ holds => holds

theorem finishLocalRotation (result : Except JournalError Unit) :
    (Melin.finishLocalRotation result : SequencerCall E Bool).EndsAs keeps (fun _ => keeps) failed
      waiting := by
  cases result with
  | ok _ =>
    exact Call.ends_bind _
      (steady.modifyCore (fun _ => rfl) (fun _ => rfl) (fun _ => rfl) fun _ => rfl) fun _ =>
      Call.ends_bind _ steady.publishRotateToRings fun _ => Call.ends_pure fun _ holds => holds
  | error err =>
    exact Call.ends_bind _ steady.observe fun _ => Call.ends_bind _
      (steady.modifyCore (fun _ => rfl) (fun _ => rfl) (fun _ => rfl) fun _ => rfl) fun _ =>
      Call.ends_pure fun _ holds => holds

theorem refreshPendingMark :
    (Melin.refreshPendingMark : SequencerCall E Unit).EndsAs keeps (fun _ => keeps) failed
      waiting := by
  refine Call.ends_looking fun _ _ => Call.ends_ite (fun _ => Call.ends_pure fun _ holds => holds)
    fun _ => steady.access fun stage holds => ?_
  split
  · exact steady.frame holds ⟨rfl, rfl, rfl, rfl, rfl, rfl, rfl, rfl, rfl, rfl, rfl, rfl, rfl⟩
  · exact holds
  · exact holds

theorem marksOutstanding :
    (Melin.marksOutstanding : SequencerCall E Bool).EndsAs keeps (fun _ => keeps) failed waiting :=
  Call.ends_looking fun _ _ => Call.ends_ite (fun _ => Call.ends_pure fun _ holds => holds)
    fun _ => steady.observe

theorem rotationBackedOff :
    (Melin.rotationBackedOff : SequencerCall E Bool).EndsAs keeps (fun _ => keeps) failed
      waiting := by
  refine Call.ends_looking fun seen _ => ?_
  split
  · exact Call.ends_pure fun _ holds => holds
  · exact Call.ends_bind _ steady.observe fun _ =>
      Call.ends_ite (fun _ => Call.ends_pure fun _ holds => holds) fun _ => Call.ends_bind _
        (steady.modifyCore (fun _ => rfl) (fun _ => rfl) (fun _ => rfl) fun _ => rfl) fun _ =>
          Call.ends_pure fun _ holds => holds

theorem finishAdoption :
    (Melin.finishAdoption : SequencerCall E Unit).EndsAs keeps (fun _ => keeps) failed waiting :=
  Call.ends_bind _ (steady.modifyCore (fun _ => rfl) (fun _ => rfl) (fun _ => rfl) fun _ => rfl)
    fun _ => steady.refreshPendingMark

theorem failAdoption :
    (Melin.failAdoption : SequencerCall E Unit).EndsAs keeps (fun _ => keeps) failed waiting :=
  Call.ends_bind _ steady.observe fun _ =>
    steady.modifyCore (fun _ => rfl) (fun _ => rfl) (fun _ => rfl) fun _ => rfl

theorem resolveStreamMarks (quiesced : Bool) :
    (Melin.resolveStreamMarks quiesced : SequencerCall E (Option AdoptedRotation)).EndsAs keeps
      (fun due stage => keeps stage ∧ (due.isSome → quiesced = true)) failed waiting := by
  refine ends_loop (fun _ => keeps) (fun _ => ?_) (fun _ => steady.waits) ()
  refine Call.ends_bind _ steady.refreshPendingMark fun _ => Call.ends_looking fun seen _ => ?_
  have nothing : (pure (.inr none) : SequencerCall E (Unit ⊕ Option AdoptedRotation)).EndsAs
      keeps (fun next stage => Sum.elim (fun _ => keeps stage)
        (fun due => keeps stage ∧ (due.isSome → quiesced = true)) next) failed waiting :=
    Call.ends_pure fun _ holds => ⟨holds, by simp⟩
  have resolved : (do
      Melin.modifyCore fun core => { core with pendingMark := none }
      return .inl () : SequencerCall E (Unit ⊕ Option AdoptedRotation)).EndsAs
        keeps (fun next stage => Sum.elim (fun _ => keeps stage)
          (fun due => keeps stage ∧ (due.isSome → quiesced = true)) next) failed waiting :=
    Call.ends_bind _ (steady.modifyCore (fun _ => rfl) (fun _ => rfl) (fun _ => rfl) fun _ => rfl)
      fun _ => Call.ends_pure fun _ holds => holds
  dsimp only
  cases seen.core.pendingMark with
  | none => exact nothing
  | some mark =>
    refine Call.ends_ite (fun _ => nothing) fun _ => ?_
    cases mark with
    | chainCheck sequence chainHash =>
      exact Call.ends_refuse (fun stage => steady.marks _ stage (.checkPassed ..))
        (Call.ends_refuse (fun stage => steady.marks _ stage (.diverged ..)) resolved)
    | rotate rotation =>
      refine Call.ends_ite (fun _ => resolved) fun _ =>
        Call.ends_refuse (fun stage => steady.marks _ stage (.boundaryPassed ..)) ?_
      refine Call.ends_ite (fun _ => nothing) fun isQuiesced =>
        Call.ends_refuse (fun stage => steady.marks _ stage (.diverged ..)) ?_
      exact Call.ends_pure fun _ holds => ⟨holds, fun _ => by simpa using isQuiesced⟩

end Steady

end Melin
