import Melin.Pipeline.Matching

/-! The matching stage against the journal: its state, its sequences, and what its answers carry. -/

namespace Melin

open Lib

section

variable {A E R Q : Type} {slot : InputSlot E}

def MatchingStage.fed (stage : MatchingStage A E R Q) : List (InputSlot E) :=
  stage.ring ++ stage.beats.flatten.flatMap MatchingAct.published

/-- A pipeline fed nothing behind the sentinel, and no more than can be numbered. -/
structure MatchFeed (first : Nat) (slots : List (InputSlot E)) : Prop where
  sentinelLast : SentinelLast slots
  sentinel : ∀ slot ∈ slots, slot.event.isShutdown = true → slot = .shutdownSentinel
  fits : first + slots.length < 2 ^ 64

theorem MatchingStage.ring_prefix_fed (stage : MatchingStage A E R Q) : stage.ring <+: stage.fed :=
  List.prefix_append ..

theorem MatchFeed.unstopped {first : Nat} {slots : List (InputSlot E)} (feed : MatchFeed first slots)
    {front : List (InputSlot E)} (known : front ++ [slot] <+: slots) :
    ∀ other ∈ front, other.event.isShutdown = false := by
  intro other member
  obtain ⟨back, rfl⟩ := known
  obtain ⟨before, behind, rfl⟩ := List.append_of_mem member
  by_contra sentinel
  have nothing := feed.sentinelLast before other (behind ++ [slot] ++ back)
    (by simp) (by simpa using sentinel)
  simp at nothing

variable {inputSeq wireSeq : Nat} {reports : List R} {out : MatchedSlot R Q}

theorem mem_payloadSlots {response : Option Q}
    (member : out ∈ payloadSlots slot inputSeq wireSeq reports response) :
    out.inputSeq = inputSeq ∧ out.wireSeq = wireSeq := by
  simp only [payloadSlots, List.mem_append, List.mem_mapIdx, List.mem_map] at member
  rcases member with (⟨index, bound, rfl⟩ | ⟨_, -, rfl⟩) | ⟨_, -, rfl⟩
  all_goals exact ⟨rfl, rfl⟩

theorem mem_answers {response : Option Q}
    (member : out ∈ answers slot inputSeq wireSeq reports response) :
    out.inputSeq = inputSeq ∧ out.wireSeq = wireSeq := by
  rw [answers] at member
  split at member
  · split at member
    · cases List.mem_singleton.mp member
      exact ⟨rfl, rfl⟩
    · cases member
  · exact mem_payloadSlots member

theorem mem_drainedAnswers (member : out ∈ drainedAnswers slot inputSeq wireSeq reports) :
    out.inputSeq = inputSeq ∧ out.wireSeq = wireSeq := by
  rw [drainedAnswers] at member
  split at member
  · cases List.mem_singleton.mp member
    exact ⟨rfl, rfl⟩
  · exact mem_payloadSlots member

section

variable [Application A E R]

theorem MatchingStage.dispatchNext_frame (stage : MatchingStage A E R Q) (slot : InputSlot E) :
    let dispatched := dispatch (R := R) stage.app slot.event
      { nowNs := slot.timestampNs, keyHash := slot.keyHash } stage.tickWatermark
    let after := (stage.dispatchNext slot).2
    after.app = dispatched.app ∧ after.tickWatermark = dispatched.watermark ∧
      after.nextWireSeq = min (stage.nextWireSeq + 1) u64Max ∧ after.nextRead = stage.nextRead ∧
      after.ring = stage.ring ∧ after.output = stage.output ∧ after.beats = stage.beats := by
  simp only [dispatchNext, dispatchSlot]
  split
  · exact ⟨rfl, rfl, rfl, rfl, rfl, rfl, rfl⟩
  · rename_i lineage _
    cases lineage <;> exact ⟨rfl, rfl, rfl, rfl, rfl, rfl, rfl⟩

theorem dispatch_sentinel (app : A) (watermark : TickWatermark) (ctx : ApplyCtx)
    (timeless : ctx.nowNs = 0) :
    dispatch (E := E) (R := R) app .shutdown ctx watermark
      = { app, watermark, lineage := none, reports := [] } := by
  have noTick : ¬ (0 : UInt64) > watermark.nanos := by
    rw [gt_iff_lt, UInt64.not_lt]
    exact UInt64.zero_le
  simp [dispatch, clockStep, timeless, noTick]

end

section

variable [AppEvent E] {first : Nat} {done : List (InputSlot E)}

/--
An output slot carries the sequence its event is journaled under.

A query's carries the last one that was given out before it.
-/
def Answered (first : Nat) (done : List (InputSlot E)) (out : MatchedSlot R Q) : Prop :=
  ∃ slot, done[out.inputSeq]? = some slot ∧
    (slot.event.takesWireSeq = true →
      out.wireSeq = first + wireSeqsTaken (done.take out.inputSeq)) ∧
    (slot.event.isQuery = true →
      out.wireSeq = first + wireSeqsTaken (done.take out.inputSeq) - 1)

theorem Answered.grow {out : MatchedSlot R Q} (answered : Answered first done out)
    (more : List (InputSlot E)) : Answered first (done ++ more) out := by
  obtain ⟨slot, isSlot, journaled, query⟩ := answered
  have inside : out.inputSeq < done.length := (List.getElem?_eq_some_iff.mp isSlot).1
  refine ⟨slot, (List.getElem?_append_left inside).trans isSlot, ?_, ?_⟩
  · rwa [List.take_append_of_le_length inside.le]
  · rwa [List.take_append_of_le_length inside.le]

theorem answered_last {out : MatchedSlot R Q} (isLast : out.inputSeq = done.length)
    (journaled : slot.event.takesWireSeq = true → out.wireSeq = first + wireSeqsTaken done)
    (query : slot.event.isQuery = true → out.wireSeq = first + wireSeqsTaken done - 1) :
    Answered first (done ++ [slot]) out := by
  refine ⟨slot, ?_, ?_, ?_⟩
  · rw [isLast, List.getElem?_concat_length]
  · rwa [isLast, List.take_left]
  · rwa [isLast, List.take_left]

end

end

section

variable {A E R Q : Type} [Application A E R] [AppEvent E] {start : NodeState A} {first : Nat}
  {done : List (InputSlot E)} {slot : InputSlot E} {stage next : MatchingStage A E R Q}

structure Matched (start : NodeState A) (first : Nat) (done : List (InputSlot E))
    (stage : MatchingStage A E R Q) : Prop where
  app : stage.app = (start.steps (journaled first done)).app
  watermark : stage.tickWatermark = (start.steps (journaled first done)).watermark
  numbered : (∀ slot ∈ done, slot.event.isShutdown = false) →
    stage.nextWireSeq = first + wireSeqsTaken done
  answered : ∀ out ∈ stage.output.slots, Answered first done out

theorem Matched.frame (matched : Matched start first done stage) (app : next.app = stage.app)
    (watermark : next.tickWatermark = stage.tickWatermark)
    (nextWireSeq : next.nextWireSeq = stage.nextWireSeq)
    (answers : ∀ out ∈ next.output.slots, Answered first done out) :
    Matched start first done next where
  app := app.trans matched.app
  watermark := watermark.trans matched.watermark
  numbered := fun none => nextWireSeq.trans (matched.numbered none)
  answered := answers

theorem Matched.skip (matched : Matched start first done stage)
    (skips : slot.event.takesWireSeq = false) : Matched start first (done ++ [slot]) stage := by
  have same : journaled first (done ++ [slot]) = journaled first done := by
    simp [journaled_append, journaled, skips]
  have taken : wireSeqsTaken (done ++ [slot]) = wireSeqsTaken done := by
    simp [wireSeqsTaken_cons, skips]
  refine ⟨?_, ?_, fun none => ?_, fun out member => (matched.answered out member).grow [slot]⟩
  · rw [same]
    exact matched.app
  · rw [same]
    exact matched.watermark
  · rw [taken]
    exact matched.numbered fun slot member => none slot (List.mem_append_left _ member)

theorem Matched.dispatchNext (matched : Matched start first done stage)
    (takes : slot.event.takesWireSeq = true) (number : stage.nextWireSeq = first + wireSeqsTaken done)
    (fits : first + wireSeqsTaken done < u64Max) :
    Matched start first (done ++ [slot]) (stage.dispatchNext slot).2 := by
  obtain ⟨app, watermark, nextWireSeq, -, -, output, -⟩ := stage.dispatchNext_frame slot
  have steps : start.steps (journaled first (done ++ [slot]))
      = (start.steps (journaled first done)).step (slot.entry (first + wireSeqsTaken done)) := by
    rw [journaled_append, journaled, if_pos takes, journaled, NodeState.steps, List.foldl_append]
    rfl
  refine ⟨?_, ?_, fun _ => ?_, fun out member => ?_⟩
  · rw [app, steps, matched.app, matched.watermark]
    rfl
  · rw [watermark, steps, matched.app, matched.watermark]
    rfl
  · rw [nextWireSeq, number, wireSeqsTaken_append, wireSeqsTaken_cons, if_pos takes,
      wireSeqsTaken_nil, Nat.min_eq_left (by omega)]
    omega
  · rw [output] at member
    exact (matched.answered out member).grow [slot]

theorem Matched.dispatchSentinel (matched : Matched start first done stage)
    (sentinel : slot = .shutdownSentinel) :
    Matched start first (done ++ [slot]) (stage.dispatchNext slot).2 := by
  subst sentinel
  obtain ⟨app, watermark, -, -, -, output, -⟩ := stage.dispatchNext_frame .shutdownSentinel
  have dispatched := dispatch_sentinel (E := E) (R := R) stage.app stage.tickWatermark ⟨0, 0⟩ rfl
  have skipped : Matched start first (done ++ [.shutdownSentinel]) stage := matched.skip rfl
  refine ⟨?_, ?_, fun none => ?_, fun out member => skipped.answered out (output ▸ member)⟩
  · rw [app]
    exact (congrArg Dispatched.app dispatched).trans skipped.app
  · rw [watermark]
    exact (congrArg Dispatched.watermark dispatched).trans skipped.watermark
  · cases none .shutdownSentinel (by simp)

structure MatchPos (E : Type) where
  done : List (InputSlot E)
  /-- The slots taken and not yet handled. -/
  ahead : List (InputSlot E)
  nextRead : Nat

/-- The matching thread stands at a position. -/
structure MatchedAt (start : NodeState A) (first : Nat) (pos : MatchPos E)
    (stage : MatchingStage A E R Q) : Prop where
  feed : MatchFeed first stage.fed
  cursor : stage.nextRead = pos.nextRead
  known : pos.done ++ pos.ahead <+: stage.ring
  matched : Matched start first pos.done stage

def MatchedSome (start : NodeState A) (first : Nat) (stage : MatchingStage A E R Q) : Prop :=
  ∃ pos, MatchedAt start first pos stage

variable {pos : MatchPos E}

theorem MatchedAt.frame (standing : MatchedAt start first pos stage)
    (ring : next.ring = stage.ring) (beats : next.beats = stage.beats)
    (cursor : next.nextRead = stage.nextRead) (app : next.app = stage.app)
    (watermark : next.tickWatermark = stage.tickWatermark)
    (nextWireSeq : next.nextWireSeq = stage.nextWireSeq)
    (answers : ∀ out ∈ next.output.slots, Answered first pos.done out) :
    MatchedAt start first pos next where
  feed := by
    rw [MatchingStage.fed, ring, beats]
    exact standing.feed
  cursor := cursor.trans standing.cursor
  known := by
    rw [ring]
    exact standing.known
  matched := standing.matched.frame app watermark nextWireSeq answers

omit [Application A E R] [AppEvent E] in
theorem MatchingStage.act_frame (stage : MatchingStage A E R Q) (act : MatchingAct E) :
    (stage.act act).app = stage.app ∧ (stage.act act).tickWatermark = stage.tickWatermark ∧
      (stage.act act).nextWireSeq = stage.nextWireSeq ∧ (stage.act act).nextRead = stage.nextRead ∧
      (stage.act act).output.slots = stage.output.slots ∧ (stage.act act).beats = stage.beats ∧
      (stage.act act).ring = stage.ring ++ act.published := by
  cases act with
  | publish slot => exact ⟨rfl, rfl, rfl, rfl, rfl, rfl, rfl⟩
  | shutdown | take | durable | connections | observeEpoch =>
    exact ⟨rfl, rfl, rfl, rfl, rfl, rfl, (List.append_nil _).symm⟩

theorem matchedAt_beat {failed : MatchingStage A E R Q → Prop} :
    (beat : MatchingCall A E R Q Unit).Ends (MatchedAt start first pos)
      (fun _ => MatchedAt start first pos) failed (MatchedAt start first pos) := by
  refine ends_beat ?_ fun _ standing => standing
  rintro stage acts later standing turns
  -- What the acts publish moves from the slots to come to those in the ring.
  suffices keeps : ∀ (acts : List (MatchingAct E)) (stage : MatchingStage A E R Q),
      MatchFeed first (stage.ring ++ acts.flatMap MatchingAct.published
        ++ stage.beats.flatten.flatMap MatchingAct.published) →
      stage.nextRead = pos.nextRead → pos.done ++ pos.ahead <+: stage.ring →
      Matched start first pos.done stage →
      MatchedAt start first pos (acts.foldl MatchingStage.act stage) by
    refine keeps acts { stage with beats := later } ?_ standing.cursor standing.known
      (standing.matched.frame rfl rfl rfl standing.matched.answered)
    have turns : stage.beats = acts :: later := turns
    simpa [MatchingStage.fed, turns] using standing.feed
  intro acts
  induction acts with
  | nil =>
    intro stage feed cursor known matched
    rw [List.flatMap_nil, List.append_nil] at feed
    exact ⟨feed, cursor, known, matched⟩
  | cons act acts ih =>
    intro stage feed cursor known matched
    obtain ⟨app, watermark, nextWireSeq, nextRead, slots, beats, ring⟩ := stage.act_frame act
    refine ih (stage.act act) ?_ (nextRead.trans cursor) (ring ▸ known.trans (List.prefix_append ..))
      (matched.frame app watermark nextWireSeq (slots ▸ matched.answered))
    rw [ring, beats]
    simpa [List.append_assoc] using feed

section

variable {α : Type}

theorem matchedAt_access {update : MatchingStage A E R Q → α × MatchingStage A E R Q}
    {after : α → MatchingStage A E R Q → Prop}
    (holds : ∀ stage, MatchedAt start first pos stage → after (update stage).1 (update stage).2) :
    (access update : MatchingCall A E R Q α).Meets (MatchedAt start first pos) after
      (MatchedSome start first) :=
  ends_access (Call.Ends.imp matchedAt_beat (fun _ standing => standing)
    (fun _ _ standing => standing) (fun _ standing => standing)
    fun _ standing => ⟨_, standing⟩) holds

theorem matchedAt_observe {read : MatchingStage A E R Q → α} :
    (observe read : MatchingCall A E R Q α).Meets (MatchedAt start first pos)
      (fun _ => MatchedAt start first pos) (MatchedSome start first) :=
  matchedAt_access fun _ standing => standing

theorem matchedAt_look {second : MatchingStage A E R Q → MatchingCall A E R Q α}
    {last : α → MatchingStage A E R Q → Prop}
    (secondMeets : ∀ seen, MatchedAt start first pos seen →
      (second seen).Meets (MatchedAt start first pos) last (MatchedSome start first)) :
    (Call.look >>= second).Meets (MatchedAt start first pos) last (MatchedSome start first) :=
  Call.ends_look_bind fun seen standing => (secondMeets seen standing).imp
    (fun _ same => same ▸ standing) (fun _ _ met => met) fun _ met => met

end

theorem matchedAt_fillOutput {fill wait : OutputRing R Q → OutputRing R Q} {out : MatchedSlot R Q}
    (fills : ∀ ring, (fill ring).slots = ring.slots ++ [out])
    (waits : ∀ ring, (wait ring).slots = ring.slots) (answered : Answered first pos.done out) :
    (fillOutput fill wait : MatchingCall A E R Q Unit).Meets (MatchedAt start first pos)
      (fun _ => MatchedAt start first pos) (MatchedSome start first) := by
  refine ends_loop (fun _ => MatchedAt start first pos) (fun _ => ?_)
    (fun _ _ standing => ⟨_, standing⟩) ()
  refine matchedAt_access fun stage standing => ?_
  have old := standing.matched.answered
  split
  · refine standing.frame rfl rfl rfl rfl rfl rfl fun other member => ?_
    rcases List.mem_append.mp (fills _ ▸ member) with isOld | isNew
    · exact old other isOld
    · exact List.mem_singleton.mp isNew ▸ answered
  · exact standing.frame rfl rfl rfl rfl rfl rfl fun other member => old other (waits _ ▸ member)

theorem matchedAt_forM {fill : MatchedSlot R Q → MatchingCall A E R Q Unit}
    {replies : List (MatchedSlot R Q)}
    (each : ∀ out ∈ replies, (fill out).Meets (MatchedAt start first pos)
      (fun _ => MatchedAt start first pos) (MatchedSome start first)) :
    (replies.forM fill).Meets (MatchedAt start first pos) (fun _ => MatchedAt start first pos)
      (MatchedSome start first) := by
  induction replies with
  | nil => exact Call.ends_pure fun _ standing => standing
  | cons out replies ih =>
    exact Call.ends_bind _ (each out (List.mem_cons_self ..)) fun _ =>
      ih fun other member => each other (List.mem_cons_of_mem _ member)

theorem MatchFeed.number_lt {slots : List (InputSlot E)} (feed : MatchFeed first slots)
    (known : done ++ [slot] <+: slots) : first + wireSeqsTaken done < u64Max := by
  have fits := feed.fits
  have inside := known.length_le
  have taken := wireSeqsTaken_le done
  rw [List.length_append, List.length_singleton] at inside
  rw [u64Max]
  omega

section

variable {ahead : List (InputSlot E)} (isNext : pos.ahead = slot :: ahead)

include isNext

theorem MatchedAt.next_fed (standing : MatchedAt start first pos stage) :
    pos.done ++ [slot] <+: stage.fed := by
  refine List.IsPrefix.trans ?_ (standing.known.trans stage.ring_prefix_fed)
  rw [isNext]
  exact ⟨ahead, by simp⟩

theorem MatchedAt.number (standing : MatchedAt start first pos stage) :
    stage.nextWireSeq = first + wireSeqsTaken pos.done :=
  standing.matched.numbered (standing.feed.unstopped (standing.next_fed isNext))

theorem MatchedAt.advance (standing : MatchedAt start first pos stage) (ring : next.ring = stage.ring)
    (beats : next.beats = stage.beats) (cursor : next.nextRead = stage.nextRead)
    (matched : Matched start first (pos.done ++ [slot]) next) :
    MatchedAt start first { pos with done := pos.done ++ [slot], ahead } next where
  feed := by
    rw [MatchingStage.fed, ring, beats]
    exact standing.feed
  cursor := cursor.trans standing.cursor
  known := by
    have known := standing.known
    rw [isNext] at known
    rw [ring, List.append_assoc]
    exact known
  matched := matched

theorem MatchedAt.skip (standing : MatchedAt start first pos stage)
    (skips : slot.event.takesWireSeq = false) :
    MatchedAt start first { pos with done := pos.done ++ [slot], ahead } stage :=
  standing.advance isNext rfl rfl rfl (standing.matched.skip skips)

theorem MatchedAt.handleDrained (standing : MatchedAt start first pos stage)
    (event : slot.event.isQuery = false) :
    MatchedAt start first { pos with done := pos.done ++ [slot], ahead }
        (stage.handleDrained pos.done.length slot).2 ∧
      ∀ out ∈ (stage.handleDrained pos.done.length slot).1,
        Answered first (pos.done ++ [slot]) out := by
  have fed := standing.next_fed isNext
  have number := standing.number isNext
  obtain ⟨-, -, -, nextRead, ring, -, beats⟩ := stage.dispatchNext_frame slot
  refine ⟨standing.advance isNext ring beats nextRead ?_, fun out member => ?_⟩
  · cases sentinel : slot.event.isShutdown with
    | true =>
      exact standing.matched.dispatchSentinel
        (standing.feed.sentinel slot (fed.subset (by simp)) sentinel)
    | false =>
      exact standing.matched.dispatchNext (by simp [JournalEvent.takesWireSeq, event, sentinel])
        number (standing.feed.number_lt fed)
  · obtain ⟨inputSeq, wireSeq⟩ := mem_drainedAnswers member
    exact answered_last inputSeq (fun _ => wireSeq.trans number) (by simp [event])

theorem MatchedAt.handle [QueryApplication A E Q] (standing : MatchedAt start first pos stage)
    (ctx : QueryCtx) (unstopped : slot.event.isShutdown = false) :
    MatchedAt start first { pos with done := pos.done ++ [slot], ahead }
        (stage.handle ctx pos.done.length slot).2 ∧
      ∀ out ∈ (stage.handle ctx pos.done.length slot).1,
        Answered first (pos.done ++ [slot]) out := by
  have number := standing.number isNext
  have counted : MatchedAt start first pos
      { stage with eventsProcessed := stage.eventsProcessed + 1 } :=
    standing.frame rfl rfl rfl rfl rfl rfl standing.matched.answered
  by_cases query : slot.event.isQuery = true
  · have skips : slot.event.takesWireSeq = false := by simp [JournalEvent.takesWireSeq, query]
    simp only [MatchingStage.handle, query, if_true]
    refine ⟨counted.skip isNext skips, fun out member => ?_⟩
    obtain ⟨inputSeq, wireSeq⟩ := mem_answers member
    exact answered_last inputSeq (by simp [skips]) fun _ => by rw [wireSeq, number]
  · have takes : slot.event.takesWireSeq = true := by
      simp [JournalEvent.takesWireSeq, query, unstopped]
    simp only [MatchingStage.handle, query]
    obtain ⟨-, -, -, nextRead, ring, -, beats⟩ := MatchingStage.dispatchNext_frame
      { stage with eventsProcessed := stage.eventsProcessed + 1 } slot
    refine ⟨counted.advance isNext ring beats nextRead (counted.matched.dispatchNext takes number
      (standing.feed.number_lt (standing.next_fed isNext))), fun out member => ?_⟩
    obtain ⟨inputSeq, wireSeq⟩ := mem_answers member
    exact answered_last inputSeq (fun _ => wireSeq.trans number) (by simp [query])

end

def Idle (start : NodeState A) (first : Nat) (stage : MatchingStage A E R Q) : Prop :=
  ∃ done, MatchedAt start first ⟨done, [], done.length⟩ stage

theorem idle_of_at {α : Type} {call : MatchingCall A E R Q α}
    {after : α → MatchingStage A E R Q → Prop} {stopped : MatchingStage A E R Q → Prop}
    (each : ∀ done, call.Meets (MatchedAt start first ⟨done, [], done.length⟩) after stopped) :
    call.Meets (Idle start first) after stopped :=
  fun stage ⟨done, standing⟩ => each done stage standing

theorem idle_drainMatching :
    (drainMatching : MatchingCall A E R Q Unit).Meets (Idle start first) (fun _ => Idle start first)
      (MatchedSome start first) := by
  refine ends_loop (fun _ => Idle start first) (fun _ => idle_of_at fun done => ?_)
    (fun _ _ idle => idle.elim fun _ standing => ⟨_, standing⟩) ()
  refine Call.ends_bind (fun (entry : Option (Nat × InputSlot E)) stage =>
    entry.elim (Idle start first stage) fun taken => taken.1 = done.length ∧
      MatchedAt start first ⟨done, [taken.2], done.length + 1⟩ stage)
    (matchedAt_access fun stage standing => ?_) fun entry => ?_
  · obtain ⟨feed, cursor, ⟨back, ring⟩, matched⟩ := id standing
    have cursor : stage.nextRead = done.length := cursor
    have ring : stage.ring = done ++ back := by simpa using ring.symm
    have head : stage.ring[stage.nextRead]? = back[0]? := by
      rw [ring, cursor, List.getElem?_append_right le_rfl, Nat.sub_self]
    cases back with
    | nil =>
      simp only [head, List.getElem?_nil]
      exact ⟨done, standing⟩
    | cons slot back =>
      simp only [head, List.getElem?_cons_zero]
      exact ⟨cursor, feed, congrArg (· + 1) cursor, ⟨back, by simp [ring]⟩,
        matched.frame rfl rfl rfl matched.answered⟩
  · cases entry with
    | none => exact Call.ends_pure fun _ idle => idle
    | some entry =>
      obtain ⟨inputSeq, slot⟩ := entry
      have handled : ∀ {stage : MatchingStage A E R Q},
          MatchedAt start first ⟨done ++ [slot], [], done.length + 1⟩ stage → Idle start first stage :=
        fun standing => ⟨done ++ [slot], by simpa using standing⟩
      refine Call.ends_and ?_
      rintro rfl
      refine Call.ends_ite (fun query => Call.ends_pure fun _ standing => ?_) fun event => ?_
      · exact handled (standing.skip rfl (by simp [JournalEvent.takesWireSeq, query]))
      · refine Call.ends_bind (fun replies stage =>
          (∀ out ∈ replies, Answered first (done ++ [slot]) out) ∧
            MatchedAt start first ⟨done ++ [slot], [], done.length + 1⟩ stage)
          (Call.ends_update fun stage standing =>
            (standing.handleDrained rfl (by simpa using event)).symm)
          fun replies => Call.ends_and fun answered => ?_
        exact Call.ends_bind _ (matchedAt_forM fun out member =>
          matchedAt_fillOutput (fun _ => rfl) (fun _ => rfl) (answered out member)) fun _ =>
          Call.ends_pure fun _ standing => handled standing

section

variable [QueryApplication A E Q]

/-- Handling the slots of a batch answers all of them; a sentinel comes last, and has no answer. -/
theorem matchedAt_matchSlots (ctx : QueryCtx) (slots : List (InputSlot E)) (isNext : pos.ahead = slots)
    {inputSeq : Nat} (position : inputSeq = pos.done.length) :
    (matchSlots ctx inputSeq slots : MatchingCall A E R Q Bool).Meets (MatchedAt start first pos)
      (fun _ => MatchedAt start first { pos with done := pos.done ++ slots, ahead := [] })
      (MatchedSome start first) := by
  induction slots generalizing pos inputSeq with
  | nil =>
    refine Call.ends_pure fun _ standing => ?_
    rw [List.append_nil, ← isNext]
    exact standing
  | cons slot slots ih =>
    refine Call.ends_ite (fun sentinel => Call.ends_pure fun stage standing => ?_) fun unstopped => ?_
    · -- Nothing is behind the sentinel.
      obtain ⟨back, fed⟩ := standing.known.trans stage.ring_prefix_fed
      have nothing := standing.feed.sentinelLast pos.done slot (slots ++ back)
        (by simp [← fed, isNext]) sentinel
      obtain ⟨rfl, -⟩ := List.append_eq_nil_iff.mp nothing
      exact standing.skip isNext (by simp [JournalEvent.takesWireSeq, sentinel])
    · subst position
      refine Call.ends_bind (fun replies stage =>
        (∀ out ∈ replies, Answered first (pos.done ++ [slot]) out) ∧
          MatchedAt start first { pos with done := pos.done ++ [slot], ahead := slots } stage)
        (Call.ends_update fun stage standing => (standing.handle isNext ctx (by simpa using unstopped)).symm)
        fun replies => Call.ends_and fun answered => ?_
      have rest := @ih { pos with done := pos.done ++ [slot], ahead := slots } rfl
        (pos.done.length + 1) (by simp)
      rw [List.append_assoc] at rest
      exact Call.ends_bind _ (matchedAt_forM fun out member =>
        matchedAt_fillOutput (fun _ => rfl) (fun _ => rfl) (answered out member)) fun _ => rest

theorem idle_matchingRound :
    (matchingRound : MatchingCall A E R Q (Unit ⊕ Unit)).Meets (Idle start first)
      (fun _ => Idle start first) (MatchedSome start first) := by
  refine idle_of_at fun done => Call.ends_bind _ matchedAt_observe fun shutdown =>
    Call.ends_ite (fun _ => ?_) fun _ => matchedAt_look fun seen seenAt => ?_
  · exact Call.ends_bind _ (idle_drainMatching.imp (fun _ standing => ⟨done, standing⟩)
      (fun _ _ idle => idle) fun _ some => some) fun _ => Call.ends_pure fun _ idle => idle
  · have batchStart : seen.nextRead = done.length := seenAt.cursor
    rw [batchStart]
    refine Call.ends_bind (fun slots => MatchedAt start first ⟨done, slots, done.length⟩)
      (matchedAt_access fun stage standing => ?_) fun slots =>
      Call.ends_ite (fun none => Call.ends_pure fun stage standing => ?_) fun _ => ?_
    · obtain ⟨feed, cursor, ⟨back, ring⟩, matched⟩ := standing
      have ring : stage.ring = done ++ back := by simpa using ring.symm
      refine ⟨feed, cursor, ?_, matched⟩
      show done ++ (stage.ring.drop stage.nextRead).take maxMatchingBatch <+: stage.ring
      rw [show stage.nextRead = done.length from cursor, ring, List.drop_left]
      exact (List.prefix_append_right_inj _).mpr (List.take_prefix ..)
    · obtain rfl : slots = [] := List.isEmpty_iff.mp none
      exact ⟨done, standing⟩
    · refine Call.ends_bind _ matchedAt_observe fun journalSequence =>
        Call.ends_bind _ matchedAt_observe fun activeConnections =>
        Call.ends_bind _ (matchedAt_matchSlots _ slots rfl rfl) fun sawShutdown =>
        Call.ends_bind (fun _ => MatchedAt start first ⟨done ++ slots, [], done.length⟩)
          (matchedAt_access fun stage standing =>
            standing.frame rfl rfl rfl rfl rfl rfl standing.matched.answered) fun _ => ?_
      have consumed : ∀ stage : MatchingStage A E R Q,
          MatchedAt start first ⟨done ++ slots, [], done.length⟩ stage →
          Idle start first { stage with nextRead := stage.nextRead + slots.length } := by
        rintro stage ⟨feed, cursor, known, matched⟩
        refine ⟨done ++ slots, feed, ?_, known, matched.frame rfl rfl rfl matched.answered⟩
        show stage.nextRead + slots.length = (done ++ slots).length
        rw [show stage.nextRead = done.length from cursor, List.length_append]
      exact Call.ends_bind _ (matchedAt_access consumed) fun _ =>
        Call.ends_ite (fun _ => Call.ends_pure fun _ idle => idle)
          fun _ => Call.ends_pure fun _ idle => idle

theorem idle_runMatching :
    (runMatching : MatchingCall A E R Q (WarmApp A)).Meets (Idle start first)
      (fun warm stage => Idle start first stage ∧
        warm = { app := stage.app, tickWatermark := stage.tickWatermark })
      (MatchedSome start first) := by
  refine Call.ends_bind (fun _ => Idle start first) (ends_loop (fun _ => Idle start first)
    (fun _ => idle_matchingRound.imp (fun _ idle => idle) (fun next _ idle => ?_)
      fun _ some => some) (fun _ _ ⟨_, standing⟩ => ⟨_, standing⟩) ()) fun _ =>
    Call.ends_look_bind fun seen idle => Call.ends_pure fun _ same => ⟨same ▸ idle, by rw [same]⟩
  cases next with
  | inl _ => exact idle
  | inr _ => exact idle

end

structure MatchingStage.Starts (start : NodeState A) (first : Nat) (stage : MatchingStage A E R Q) :
    Prop where
  feed : MatchFeed first stage.fed
  app : stage.app = start.app
  watermark : stage.tickWatermark = start.watermark
  nextWireSeq : stage.nextWireSeq = first
  nextRead : stage.nextRead = 0
  output : stage.output.slots = []

theorem MatchingStage.Starts.idle (starts : stage.Starts start first) : Idle start first stage := by
  refine ⟨[], starts.feed, starts.nextRead, List.nil_prefix, starts.app, starts.watermark,
    fun _ => starts.nextWireSeq, ?_⟩
  simp [starts.output]

end

end Melin
