import Melin.Examples.CounterEvent
import Melin.Replication.ReceiverLaws

/-! Receiving does not depend on how the bytes of a stream are cut into buffers and calls. -/

namespace Melin

open Lib

variable {buf : Bytes} {maxSize : Nat}

theorem tryExtractFrame_append (known : tryExtractFrame buf maxSize ≠ .incomplete) (more : Bytes) :
    tryExtractFrame (buf ++ more) maxSize = tryExtractFrame buf maxSize := by
  rw [tryExtractFrame, tryExtractFrame, splitFrameLimited_append]
  intro partly
  rw [tryExtractFrame, partly] at known
  exact known rfl

theorem tryExtractFrame_eq_complete {payload : Bytes}
    (found : tryExtractFrame buf maxSize = .complete payload) :
    buf = frame payload ++ buf.drop (frame payload).length := by
  have split : splitFrameLimited buf maxSize = .ok (some payload) := by
    rw [tryExtractFrame] at found
    split at found <;> simp_all
  have start := (splitFrameLimited_eq_some split).1
  have width : (frame payload).length = prefixLen + payload.length := by
    simp [frame, prefixLen]
  rwa [width]

theorem length_drop_frame {payload : Bytes}
    (found : tryExtractFrame buf maxSize = .complete payload) :
    (buf.drop (frame payload).length).length + (frame payload).length = buf.length ∧
      0 < (frame payload).length := by
  have start := congrArg List.length (tryExtractFrame_eq_complete found)
  rw [List.length_append] at start
  refine ⟨by omega, ?_⟩
  simp only [frame, List.length_append, leBytes_length]
  omega

section

variable {E : Type} [AppEvent E] [Hashing]

/-- What one frame does to what was handed on, and whether it ends the stream. -/
def Intake.afterFrame (payload : Bytes) (intake : Intake E) : Intake E × Option FrameError :=
  match tryDecodeInputBatch payload with
  | .ok slots =>
    let (intake, stop) := acceptSlots .healthy slots intake
    (intake, stop.map SlotStop.frameError)
  | .error (.notInputBatch _) =>
    match controlMessage payload intake with
    | .ok (intake, _) => (intake, none)
    | .error err => (intake, some err)
  | .error err => (intake, some (if err.isTransitDamage then .corrupted err else .refused err))

def receiveAll (stream : Bytes) (intake : Intake E) : Intake E × Option FrameError :=
  match _found : tryExtractFrame stream maxDataFrame with
  | .incomplete => (intake, none)
  | .oversized => (intake, some (.fatal "oversized frame from primary during streaming"))
  | .complete payload =>
    match intake.afterFrame payload with
    | (intake, some err) => (intake, some err)
    | (intake, none) => receiveAll (stream.drop (frame payload).length) intake
termination_by stream.length
decreasing_by
  have shorter := length_drop_frame ‹_›
  omega

theorem processFrame_eq (payload : Bytes) {cycle : Cycle E} (goes : cycle.frameErr = none) :
    ((processFrame .healthy payload cycle).intake, (processFrame .healthy payload cycle).frameErr)
      = cycle.intake.afterFrame payload := by
  unfold processFrame Intake.afterFrame
  cases decoded : tryDecodeInputBatch (E := E) payload with
  | ok slots =>
    dsimp only
    rw [takeFrame]
    split
    · rename_i empty
      subst empty
      rw [goes]
      rfl
    · rfl
  | error err =>
    cases err with
    | notInputBatch tag =>
      dsimp only
      cases controlMessage payload cycle.intake with
      | ok after => simp only [goes]
      | error err => rfl
    | framing | malformed | corrupted | notRoundTrip => rfl

theorem processFrame_consumed (watch : JournalWatch) (payload : Bytes) (cycle : Cycle E) :
    (processFrame watch payload cycle).consumed = cycle.consumed := by
  unfold processFrame takeFrame
  split
  · split <;> rfl
  · split <;> rfl
  · rfl

variable {stream : Bytes}

theorem receiveAll_complete {payload : Bytes}
    (found : tryExtractFrame stream maxDataFrame = .complete payload) (intake : Intake E) :
    receiveAll stream intake =
      match intake.afterFrame payload with
      | (intake, some err) => (intake, some err)
      | (intake, none) => receiveAll (stream.drop (frame payload).length) intake := by
  rw [receiveAll]
  split
  · rename_i other
    rw [found] at other
    cases other
  · rename_i other
    rw [found] at other
    cases other
  · rename_i other same
    rw [found] at same
    cases same
    rfl

theorem receiveAll_incomplete (found : tryExtractFrame stream maxDataFrame = .incomplete)
    (intake : Intake E) :
    receiveAll stream intake = (intake, none) := by
  rw [receiveAll]
  split
  · rfl
  all_goals
    rename_i other
    rw [found] at other
    cases other

theorem receiveAll_oversized (found : tryExtractFrame stream maxDataFrame = .oversized)
    (intake : Intake E) :
    receiveAll stream intake
      = (intake, some (.fatal "oversized frame from primary during streaming")) := by
  rw [receiveAll]
  split
  · rename_i other
    rw [found] at other
    cases other
  · rfl
  · rename_i other
    rw [found] at other
    cases other

/-- What is left of a stream when a cycle stops: its outcome, or the bytes it did not consume. -/
def Cycle.rest (cycle : Cycle E) (stream : Bytes) : Intake E × Option FrameError :=
  match cycle.frameErr with
  | some err => (cycle.intake, some err)
  | none => receiveAll (stream.drop cycle.consumed) cycle.intake

theorem processFrames_rest (recvBuf future : Bytes) (fuel : Nat) (cycle : Cycle E)
    (goes : cycle.frameErr = none) (inside : cycle.consumed ≤ recvBuf.length) :
    (processFrames .healthy recvBuf fuel cycle).rest (recvBuf ++ future)
        = cycle.rest (recvBuf ++ future) ∧
      (processFrames .healthy recvBuf fuel cycle).consumed ≤ recvBuf.length := by
  -- The induction is on the frames the call may still take.
  induction fuel generalizing cycle with
  | zero => exact ⟨rfl, inside⟩
  | succ fuel ih =>
    have here : (recvBuf ++ future).drop cycle.consumed = recvBuf.drop cycle.consumed ++ future :=
      List.drop_append_of_le_length inside
    have start : cycle.rest (recvBuf ++ future)
        = receiveAll (recvBuf.drop cycle.consumed ++ future) cycle.intake := by
      rw [Cycle.rest, goes, here]
    rw [processFrames, if_neg (by simp [JournalWatch.healthy])]
    split
    · exact ⟨rfl, inside⟩
    · rename_i found
      refine ⟨?_, inside⟩
      rw [start, receiveAll_oversized
        ((tryExtractFrame_append (by rw [found]; simp) future).trans found)]
      rfl
    · rename_i payload found
      have whole := (tryExtractFrame_append (by rw [found]; simp) future).trans found
      have effect := processFrame_eq payload goes
      have unmoved := processFrame_consumed .healthy payload cycle
      have shorter := length_drop_frame found
      rw [List.length_drop] at shorter
      have behind : (recvBuf.drop cycle.consumed ++ future).drop (frame payload).length
          = (recvBuf ++ future).drop (cycle.consumed + (frame payload).length) := by
        rw [← here, List.drop_drop]
      rw [start, receiveAll_complete whole, ← effect, behind]
      generalize processFrame .healthy payload cycle = taken at unmoved ⊢
      dsimp only
      cases ended : taken.frameErr with
      | some err =>
        rw [if_pos (by rfl)]
        exact ⟨by rw [Cycle.rest, ended], by rwa [unmoved]⟩
      | none =>
        rw [if_neg (by simp), ← unmoved]
        have moved : taken.consumed + (frame payload).length ≤ recvBuf.length := by
          simp only [List.length_drop] at shorter
          omega
        -- The call returns to its caller here, or goes on with the next frame.
        split
        · exact ⟨rfl, moved⟩
        · exact ih _ rfl moved

theorem le_consumed_processFrames (watch : JournalWatch) (recvBuf : Bytes) (fuel : Nat)
    (cycle : Cycle E) : cycle.consumed ≤ (processFrames watch recvBuf fuel cycle).consumed := by
  induction fuel generalizing cycle with
  | zero => exact Nat.le_refl _
  | succ fuel ih =>
    rw [processFrames]
    split
    · exact Nat.le_refl _
    split
    · exact Nat.le_refl _
    · exact Nat.le_refl _
    · rename_i payload found
      have unmoved := processFrame_consumed watch payload cycle
      dsimp only
      split
      · exact unmoved.ge
      split
      · exact unmoved.ge.trans (Nat.le_add_right ..)
      · refine Nat.le_trans ?_ (ih _)
        exact unmoved.ge.trans (Nat.le_add_right ..)

theorem processStreamingFrames_progress {recvBuf : Bytes}
    (known : tryExtractFrame recvBuf maxDataFrame ≠ .incomplete) (intake : Intake E)
    (pendingAcks : PendingAckQueue) :
    (processStreamingFrames .healthy recvBuf intake pendingAcks).frameErr.isSome ∨
      0 < (processStreamingFrames .healthy recvBuf intake pendingAcks).consumed := by
  rw [processStreamingFrames, processFrames, if_neg (by simp [JournalWatch.healthy])]
  split
  · rename_i partly
    exact absurd partly known
  · exact .inl rfl
  · rename_i payload found
    have moved := (length_drop_frame found).2
    dsimp only
    split
    · exact .inl ‹_›
    right
    -- The frame is behind the place by now, and nothing moves back.
    split
    · exact moved.trans_le (Nat.le_add_left ..)
    · refine Nat.lt_of_lt_of_le ?_ (le_consumed_processFrames ..)
      exact moved.trans_le (Nat.le_add_left ..)

structure Reception (E : Type) where
  recvBuf : Bytes
  intake : Intake E
  ended : Option FrameError

structure Arrival where
  bytes : Bytes
  pendingAcks : PendingAckQueue

def Reception.call (reception : Reception E) (arrival : Arrival) : Reception E :=
  if reception.ended.isSome then reception
  else
    let recvBuf := reception.recvBuf ++ arrival.bytes
    let cycle := processStreamingFrames .healthy recvBuf reception.intake arrival.pendingAcks
    { recvBuf := recvBuf.drop cycle.consumed, intake := cycle.intake, ended := cycle.frameErr }

def Reception.run (reception : Reception E) (arrivals : List Arrival) : Reception E :=
  arrivals.foldl Reception.call reception

def Reception.start (intake : Intake E) : Reception E := { recvBuf := [], intake, ended := none }

def arrivedBytes (arrivals : List Arrival) : Bytes := arrivals.flatMap (·.bytes)

def Reception.Settled (reception : Reception E) : Prop :=
  reception.ended.isSome ∨ tryExtractFrame reception.recvBuf maxDataFrame = .incomplete

instance (reception : Reception E) : Decidable reception.Settled :=
  inferInstanceAs (Decidable (_ ∨ _))

def Reception.outcome (reception : Reception E) (future : Bytes) : Intake E × Option FrameError :=
  match reception.ended with
  | some err => (reception.intake, some err)
  | none => receiveAll (reception.recvBuf ++ future) reception.intake

theorem Reception.outcome_call (reception : Reception E) (arrival : Arrival) (future : Bytes) :
    (reception.call arrival).outcome future = reception.outcome (arrival.bytes ++ future) := by
  rw [Reception.call]
  cases ended : reception.ended with
  | some err => simp only [Option.isSome_some, if_true, Reception.outcome, ended]
  | none =>
    simp only [Option.isSome_none, Bool.false_eq_true, if_false]
    obtain ⟨same, inside⟩ := processFrames_rest (reception.recvBuf ++ arrival.bytes) future _
      { intake := reception.intake, pendingAcks := arrival.pendingAcks, consumed := 0
        anyPublished := false, publishedThisCycle := 0, heardFromPrimary := false
        frameErr := none } rfl (Nat.zero_le _)
    rw [← processStreamingFrames] at same inside
    rw [Cycle.rest, Cycle.rest, List.drop_zero, List.append_assoc] at same
    rw [Reception.outcome, Reception.outcome, ended]
    dsimp only at same ⊢
    rw [← same]
    cases (processStreamingFrames .healthy (reception.recvBuf ++ arrival.bytes) reception.intake
      arrival.pendingAcks).frameErr with
    | some err => rfl
    | none =>
      dsimp only
      rw [← List.append_assoc, List.drop_append_of_le_length inside]

theorem Reception.outcome_run (reception : Reception E) (arrivals : List Arrival) :
    (reception.run arrivals).outcome [] = reception.outcome (arrivedBytes arrivals) := by
  induction arrivals generalizing reception with
  | nil => rfl
  | cons arrival arrivals ih =>
    rw [Reception.run, List.foldl_cons, ← Reception.run, ih, Reception.outcome_call]
    rfl

theorem Reception.Settled.outcome {reception : Reception E} (settled : reception.Settled) :
    reception.outcome [] = (reception.intake, reception.ended) := by
  rw [Reception.outcome]
  cases ended : reception.ended with
  | some err => rfl
  | none =>
    rcases settled with over' | incomplete
    · simp [ended] at over'
    · dsimp only
      rw [List.append_nil, receiveAll_incomplete incomplete]

theorem Reception.call_progress {reception : Reception E} (unsettled : ¬ reception.Settled)
    (pendingAcks : PendingAckQueue) :
    (reception.call ⟨[], pendingAcks⟩).Settled ∨
      (reception.call ⟨[], pendingAcks⟩).recvBuf.length < reception.recvBuf.length := by
  obtain ⟨going, known⟩ := not_or.mp unsettled
  have some : reception.recvBuf ≠ [] := by
    intro empty
    rw [empty] at known
    exact known rfl
  have positive : 0 < reception.recvBuf.length := List.length_pos_iff.mpr some
  rw [Reception.call, if_neg going]
  simp only [List.append_nil]
  rcases processStreamingFrames_progress known reception.intake pendingAcks with ends | moves
  · exact .inl (.inl ends)
  · right
    rw [List.length_drop]
    omega

theorem Reception.exists_settled (reception : Reception E) (pendingAcks : PendingAckQueue) :
    ∃ calls, (reception.run (List.replicate calls ⟨[], pendingAcks⟩)).Settled := by
  -- A call that does not settle consumes something, so the induction is on what is left.
  induction length : reception.recvBuf.length using Nat.strong_induction_on
    generalizing reception with
  | _ left ih =>
    by_cases settled : reception.Settled
    · exact ⟨0, settled⟩
    · rcases Reception.call_progress settled pendingAcks with next | shorter
      · exact ⟨1, next⟩
      · obtain ⟨calls, settles⟩ := ih _ (length ▸ shorter) _ rfl
        exact ⟨calls + 1, settles⟩

def FromFrames (stream : Bytes) (slots : List (InputSlot E)) : Prop :=
  ∀ slot ∈ slots, ∃ front payload back others, stream = front ++ frame payload ++ back ∧
    tryDecodeInputBatch payload = .ok others ∧ slot ∈ others

theorem Intake.ring_afterFrame (payload : Bytes) (intake : Intake E) :
    ∃ published, (intake.afterFrame payload).1.ring = intake.ring ++ published ∧
      ∀ slot ∈ published, ∃ others, tryDecodeInputBatch payload = .ok others ∧ slot ∈ others := by
  rw [Intake.afterFrame]
  cases decoded : tryDecodeInputBatch (E := E) payload with
  | ok slots =>
    obtain ⟨taken, takes, sub⟩ := acceptSlots_takes .healthy slots intake
    exact ⟨taken, takes.ring, fun slot among => ⟨slots, rfl, sub.subset among⟩⟩
  | error err =>
    refine ⟨[], ?_, by simp⟩
    rw [List.append_nil]
    cases err with
    | notInputBatch tag =>
      dsimp only
      cases read : controlMessage payload intake with
      | ok result =>
        obtain ⟨after, heard⟩ := result
        obtain ⟨marks, rfl⟩ := controlMessage_frame read
        rfl
      | error err => rfl
    | framing | malformed | corrupted | notRoundTrip => rfl

theorem ring_receiveAll (stream : Bytes) (intake : Intake E) :
    ∃ published, (receiveAll stream intake).1.ring = intake.ring ++ published ∧
      FromFrames stream published := by
  -- The induction is on the stream, and every round takes the frame in front.
  induction length : stream.length using Nat.strong_induction_on generalizing stream intake with
  | _ left ih =>
    cases found : tryExtractFrame stream maxDataFrame with
    | incomplete =>
      rw [receiveAll_incomplete found]
      exact ⟨[], (List.append_nil _).symm, by simp [FromFrames]⟩
    | oversized =>
      rw [receiveAll_oversized found]
      exact ⟨[], (List.append_nil _).symm, by simp [FromFrames]⟩
    | complete payload =>
      have start := tryExtractFrame_eq_complete found
      have shorter := length_drop_frame found
      obtain ⟨published, ring, own⟩ := intake.ring_afterFrame payload
      have ofFrame : FromFrames stream published := by
        intro slot among
        obtain ⟨others, decoded, member⟩ := own slot among
        exact ⟨[], payload, _, others, start, decoded, member⟩
      rw [receiveAll_complete found]
      cases after : intake.afterFrame payload with
      | mk next ended =>
        rw [after] at ring
        cases ended with
        | some err => exact ⟨published, ring, ofFrame⟩
        | none =>
          obtain ⟨later, laterRing, ofLater⟩ := ih _
            (show (stream.drop (frame payload).length).length < left by omega) _ next rfl
          refine ⟨published ++ later, ?_, fun slot among => ?_⟩
          · rw [← List.append_assoc, ← ring]
            exact laterRing
          · rcases List.mem_append.mp among with early | late
            · exact ofFrame slot early
            · -- A frame of what is left is a frame of the stream, behind the one in front.
              obtain ⟨front, other, back, others, split, decoded, member⟩ := ofLater slot late
              refine ⟨frame payload ++ front, other, back, others, ?_, decoded, member⟩
              rw [List.append_assoc, List.append_assoc, ← List.append_assoc front, ← split]
              exact start

theorem Reception.ring_call (reception : Reception E) (arrival : Arrival) :
    reception.intake.ring <+: (reception.call arrival).intake.ring := by
  rw [Reception.call]
  split
  · exact List.prefix_rfl
  · exact processFrames_keeps (P := fun after _ => reception.intake.ring <+: after.ring)
      (fun before after taken _ takes held => held.trans ⟨taken, takes.ring.symm⟩)
      (fun _ _ _ held => held) _ List.prefix_rfl

theorem Reception.ring_run (reception : Reception E) (arrivals : List Arrival) :
    reception.intake.ring <+: (reception.run arrivals).intake.ring := by
  induction arrivals generalizing reception with
  | nil => exact List.prefix_rfl
  | cons arrival arrivals ih => exact (reception.ring_call arrival).trans (ih _)

omit [Hashing] in
theorem arrivedBytes_idle (arrivals : List Arrival) (calls : Nat) (pendingAcks : PendingAckQueue) :
    arrivedBytes (arrivals ++ List.replicate calls ⟨[], pendingAcks⟩) = arrivedBytes arrivals := by
  have idle : ∀ calls, arrivedBytes (List.replicate calls ⟨[], pendingAcks⟩) = [] := by
    intro calls
    simp [arrivedBytes]
  rw [arrivedBytes, List.flatMap_append, ← arrivedBytes, ← arrivedBytes, idle, List.append_nil]

theorem Reception.Settled.eq_receiveAll {intake : Intake E} {arrivals : List Arrival}
    (settled : ((Reception.start intake).run arrivals).Settled) :
    (((Reception.start intake).run arrivals).intake, ((Reception.start intake).run arrivals).ended)
      = receiveAll (arrivedBytes arrivals) intake := by
  rw [← settled.outcome, Reception.outcome_run]
  rfl

/--
Receiving does not depend on how the bytes of a stream arrive.

However a stream is cut into buffers and calls, once nothing is left to be taken the slots published,
the marks queued, the policy observed, the sequence reached and the error that ended the stream are the
same, and calls without new bytes always lead there. What is published, at any time, are slots of frames
of the stream that decode; a frame that does not decode publishes nothing.
-/
theorem receiving_independent_of_cuts (intake : Intake E) (arrivals others : List Arrival)
    (same : arrivedBytes arrivals = arrivedBytes others) :
    (((Reception.start intake).run arrivals).Settled →
      ((Reception.start intake).run others).Settled →
      ((Reception.start intake).run arrivals).intake = ((Reception.start intake).run others).intake ∧
        ((Reception.start intake).run arrivals).ended
          = ((Reception.start intake).run others).ended) ∧
    (∀ pendingAcks, ∃ calls, ((Reception.start intake).run
      (arrivals ++ List.replicate calls ⟨[], pendingAcks⟩)).Settled) ∧
    (∃ published, ((Reception.start intake).run arrivals).intake.ring = intake.ring ++ published ∧
      FromFrames (arrivedBytes arrivals) published) ∧
    ∀ (watch : JournalWatch) (payload : Bytes) (cycle : Cycle E) (err : InputBatchError),
      tryDecodeInputBatch (E := E) payload = .error err →
        (processFrame watch payload cycle).intake.ring = cycle.intake.ring := by
  have settles : ∀ pendingAcks, ∃ calls, ((Reception.start intake).run
      (arrivals ++ List.replicate calls ⟨[], pendingAcks⟩)).Settled := by
    intro pendingAcks
    obtain ⟨calls, settled⟩ :=
      ((Reception.start intake).run arrivals).exists_settled pendingAcks
    exact ⟨calls, by rwa [Reception.run, List.foldl_append]⟩
  refine ⟨fun settled settledOther => ?_, settles, ?_, ?_⟩
  · have one := settled.eq_receiveAll
    rw [same, ← settledOther.eq_receiveAll] at one
    exact Prod.mk.inj one
  · -- What is on the ring by now is the front of what will be.
    obtain ⟨early, earlyRing⟩ := (Reception.start intake).ring_run arrivals
    obtain ⟨published, ring, ofFrames⟩ := ring_receiveAll (arrivedBytes arrivals) intake
    obtain ⟨calls, settled⟩ := settles (.new 1 ⟨0, rfl⟩)
    have final := congrArg (fun outcome => outcome.1.ring) settled.eq_receiveAll
    dsimp only at final
    rw [arrivedBytes_idle, ring, Reception.run, List.foldl_append, ← Reception.run] at final
    obtain ⟨later, laterRing⟩ := ((Reception.start intake).run arrivals).ring_run
      (List.replicate calls ⟨[], .new 1 ⟨0, rfl⟩⟩)
    rw [← Reception.run, ← laterRing, ← earlyRing, List.append_assoc] at final
    have front := List.append_cancel_left final
    exact ⟨early, earlyRing.symm, fun slot among =>
      ofFrames slot (front ▸ List.mem_append_left later among)⟩
  · intro watch payload cycle err refuses
    unfold processFrame
    rw [refuses]
    cases err with
    | notInputBatch tag =>
      dsimp only
      cases read : controlMessage payload cycle.intake with
      | ok result =>
        obtain ⟨after, heard⟩ := result
        obtain ⟨marks, rfl⟩ := controlMessage_frame read
        rfl
      | error err => rfl
    | framing | malformed | corrupted | notRoundTrip => rfl

end

def sampleStream : Bytes :=
  match encode (E := CounterEvent) 1 5 9 (.app (.increment 7)) maxEntrySize with
  | .ok entry =>
    finalizeInputBatch (initInputBatch ++ entry.drop entryMagicSize) 1 ++ encodeChainCheck 1 .zero
  | .error _ => []

def sampleIntake : Intake CounterEvent :=
  { ring := [], accum := 0, marks := [], lineagePolicy := none }

/-- A stream in one piece and the same stream in three leave the same behind. -/
theorem receiving_independent_of_cuts_three :
    let whole : List Arrival := [⟨sampleStream, .new 1 ⟨0, rfl⟩⟩]
    let pieces : List Arrival := [⟨sampleStream.take 10, .new 1 ⟨0, rfl⟩⟩,
      ⟨slice sampleStream 10 40, .new 1 ⟨0, rfl⟩⟩, ⟨sampleStream.drop 50, .new 1 ⟨0, rfl⟩⟩]
    ((Reception.start sampleIntake).run pieces).intake
        = ((Reception.start sampleIntake).run whole).intake ∧
      ((Reception.start sampleIntake).run whole).intake.marks = [.chainCheck 1 .zero] := by
  intro whole pieces
  refine ⟨?_, by decide +kernel⟩
  exact ((receiving_independent_of_cuts sampleIntake pieces whole (by decide +kernel)).1
    (by decide +kernel) (by decide +kernel)).1

end Melin
