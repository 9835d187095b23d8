import Melin.Replication.JoinWorker

/-! A join's socket gets the frames its own job published, in order, and its result behind them. -/

namespace Melin.JoinWorker

open Lib

def Job.frames : Job → List Bytes
  | .publish bytes next => bytes :: (next true).frames
  | .look next => (next false).frames
  | .ret _ => []

def Job.result : Job → Except String Nat
  | .publish _ next => (next true).result
  | .look next => (next false).result
  | .ret result => result

def Phase.frames : Phase → List Bytes
  | .running job => job.frames
  | .checked bytes next => bytes :: (next true).frames
  | .sending buffer next => buffer :: (next true).frames
  | .returned _ | .reporting _ | .finished => []

def Phase.sent (result : Except String Nat) : Phase → List Message
  | .finished => [.done result]
  | _ => []

def Phase.Leads (result : Except String Nat) : Phase → Prop
  | .running job => job.result = result
  | .checked _ next | .sending _ next => (next true).result = result
  | .returned own | .reporting own => own = result
  | .finished => True

namespace Stream

def isOpen : Stream → Bool
  | .idle _ | .pumping .. | .offering .. => true
  | .ended _ | .workerGone | .dropping | .dropped => false

def isLeft : Stream → Bool
  | .dropping | .dropped => true
  | _ => false

def inHand : Stream → List Bytes
  | .idle held | .pumping held _ => held.toList
  | .offering frame _ => [frame]
  | .ended _ | .workerGone | .dropping | .dropped => []

end Stream

namespace Join

variable {join after : Join}

structure Flowing (join : Join) : Prop where
  wanted : join.cancel = false
  leads : join.phase.Leads join.job.result
  order : ∃ queued : List Bytes,
    join.channel = queued.map Message.frame ++ join.phase.sent join.job.result ∧
    join.accepted ++ join.stream.inHand ++ queued ++ join.phase.frames = join.job.frames

def TooLarge (join : Join) (result : Except String Nat) : Prop :=
  ∃ frame capacity, join.accepted ++ [frame] <+: join.job.frames ∧ capacity < frame.length ∧
    result = .error (frameExceeds frame.length capacity)

structure Holds (join : Join) : Prop where
  own : join.accepted <+: join.job.frames
  flowing : join.stream.isOpen = true → join.Flowing
  answered : ∀ result, join.stream = .ended result →
    join.accepted = join.job.frames ∧ result = join.job.result ∨ join.TooLarge result
  present : join.stream ≠ .workerGone
  cancelled : join.stream.isLeft = true → join.cancel = true

structure Evolves (before after : Join) : Prop where
  job : after.job = before.job
  holds : before.Holds → after.Holds
  closed : before.stream.isOpen = false →
    after.stream.isOpen = false ∧ after.accepted = before.accepted
  left : before.stream.isLeft = true → after.stream.isLeft = true

theorem Evolves.refl (join : Join) : join.Evolves join :=
  ⟨rfl, id, fun closed => ⟨closed, rfl⟩, id⟩

theorem Evolves.trans {first second third : Join} (one : first.Evolves second)
    (two : second.Evolves third) : first.Evolves third where
  job := two.job.trans one.job
  holds := two.holds ∘ one.holds
  closed isClosed := by
    obtain ⟨still, same⟩ := one.closed isClosed
    exact ⟨(two.closed still).1, (two.closed still).2.trans same⟩
  left := two.left ∘ one.left

theorem Flowing.holds (flowing : join.Flowing) (isOpen : join.stream.isOpen = true) : join.Holds := by
  obtain ⟨queued, -, order⟩ := flowing.order
  refine ⟨⟨join.stream.inHand ++ queued ++ join.phase.frames, by simp [← order]⟩, fun _ => flowing,
    fun result ended => ?_, fun gone => ?_, fun left => ?_⟩
  · simp [ended, Stream.isOpen] at isOpen
  · simp [gone, Stream.isOpen] at isOpen
  · cases stream : join.stream <;> simp [stream, Stream.isOpen, Stream.isLeft] at isOpen left

theorem holds_submitted (job : Job) : (submitted job).Holds :=
  Flowing.holds ⟨rfl, rfl, [], rfl, rfl⟩ rfl

theorem Flowing.work (flowing : join.Flowing) (isOpen : join.stream.isOpen = true)
    (worked : join.work = some after) : after.Flowing := by
  obtain ⟨job, phase, channel, spares, cancel, stream, accepted⟩ := join
  obtain ⟨wanted, leads, queued, sent, order⟩ := flowing
  have there : stream.isDropped = false := by cases stream <;> first | rfl | cases isOpen
  dsimp only at wanted leads sent order
  subst wanted
  rw [Join.work] at worked
  cases phase with
  | running job =>
    cases job <;> cases worked
    all_goals exact ⟨rfl, leads, queued, sent, order⟩
  | checked bytes next =>
    cases worked
    exact ⟨rfl, leads, queued, sent, order⟩
  | sending buffer next =>
    simp only [send, there, Bool.false_eq_true, if_false] at worked
    split at worked <;> cases worked
    refine ⟨rfl, leads, queued ++ [buffer], ?_, ?_⟩
    · simp [sent, Phase.sent]
    · simpa [Phase.frames] using order
  | returned result =>
    cases worked
    exact ⟨rfl, leads, queued, sent, order⟩
  | reporting result =>
    simp only [send, there, Bool.false_eq_true, if_false] at worked
    split at worked <;> cases worked
    refine ⟨rfl, trivial, queued, ?_, order⟩
    simp only [Phase.Leads] at leads
    simp [sent, Phase.sent, leads]
  | finished => cases worked

theorem work_frame (worked : join.work = some after) :
    ∃ phase channel spares, after = { join with phase, channel, spares } := by
  rw [work] at worked
  split at worked
  case h_5 | h_7 =>
    rw [send] at worked
    split_ifs at worked <;> cases worked <;> exact ⟨_, _, _, rfl⟩
  all_goals cases worked
  all_goals exact ⟨_, _, _, rfl⟩

theorem evolves_work (worked : join.work = some after) : join.Evolves after := by
  obtain ⟨phase, channel, spares, rfl⟩ := work_frame worked
  refine ⟨rfl, fun holds => ?_, fun closed => ⟨closed, rfl⟩, id⟩
  exact ⟨holds.own, fun isOpen => (holds.flowing isOpen).work isOpen worked, holds.answered,
    holds.present, holds.cancelled⟩

theorem evolves_pump {budget capacity : Nat} (pumped : join.pump budget capacity = some after) :
    join.Evolves after := by
  obtain ⟨job, phase, channel, spares, cancel, stream, accepted⟩ := join
  cases stream <;> cases pumped
  refine ⟨rfl, fun holds => ?_, nofun, nofun⟩
  obtain ⟨wanted, leads, order⟩ := holds.flowing rfl
  exact Flowing.holds ⟨wanted, leads, order⟩ rfl

/-- A pump takes what comes next: the frame held back, or the channel's next message. -/
theorem Flowing.take {held : Option Bytes} {call : Call} (flowing : join.Flowing)
    (pumping : join.stream = .pumping held call) (taken : join.take = some after) : after.Holds := by
  obtain ⟨wanted, leads, queued, sent, order⟩ := flowing
  simp only [Join.take, pumping] at taken
  rw [pumping] at order
  split at taken
  · cases taken
    exact Flowing.holds ⟨wanted, leads, queued, sent, order⟩ rfl
  split at taken
  · cases taken
    exact Flowing.holds ⟨wanted, leads, queued, sent, order⟩ rfl
  · rename_i frame channel next
    cases taken
    rw [next] at sent
    cases queued with
    | nil => cases phase : join.phase <;> simp [phase, Phase.sent] at sent
    | cons first queued =>
      obtain ⟨rfl, rest⟩ : frame = first ∧ channel = _ := by simpa using sent
      exact Flowing.holds ⟨wanted, leads, queued, rest, by simpa [Stream.inHand] using order⟩ rfl
  · rename_i result channel next
    cases taken
    rw [next] at sent
    cases queued with
    | nil =>
      -- Only behind its job does the worker send a result.
      cases phase : join.phase <;> simp [phase, Phase.sent] at sent
      rw [phase] at order
      have all : join.accepted = join.job.frames := by
        simpa [Stream.inHand, Phase.frames] using order
      refine ⟨by rw [all], nofun, fun other same => ?_, nofun, nofun⟩
      cases same
      exact .inl ⟨all, sent.1⟩
    | cons first queued => simp at sent
  · rename_i next
    cases taken
    rw [next] at sent
    have unfinished : join.phase.isFinished = false := by
      cases phase : join.phase <;> simp [phase, Phase.sent, Phase.isFinished] at sent ⊢
    refine Flowing.holds ⟨wanted, leads, queued, next.trans sent, ?_⟩ ?_
    · simpa [unfinished, Stream.inHand] using order
    · simp [unfinished, Stream.isOpen]

theorem evolves_take (taken : join.take = some after) : join.Evolves after := by
  have job : after.job = join.job := by
    rw [take] at taken
    repeat' split at taken
    all_goals cases taken
    all_goals rfl
  cases stream : join.stream with
  | pumping held call =>
    have opened : join.stream.isOpen = true := by rw [stream]; rfl
    refine ⟨job, fun holds => (holds.flowing opened).take stream taken, fun closed => ?_,
      fun left => ?_⟩
    · rw [opened] at closed
      cases closed
    · rw [stream] at left
      cases left
  | idle | offering | ended | workerGone | dropping | dropped => simp [take, stream] at taken

theorem evolves_offer {takes : Bool} (offered : join.offer takes = some after) :
    join.Evolves after := by
  obtain ⟨job, phase, channel, spares, cancel, stream, accepted⟩ := join
  cases stream with
  | offering frame call =>
    simp only [offer] at offered
    split_ifs at offered with large takes <;> cases offered <;>
      refine ⟨rfl, fun holds => ?_, nofun, nofun⟩
    all_goals
      obtain ⟨wanted, leads, queued, sent, order⟩ := holds.flowing rfl
      simp only [Stream.inHand] at wanted leads sent order
    · refine ⟨holds.own, nofun, fun result same => ?_, nofun, nofun⟩
      cases same
      exact .inr ⟨frame, call.capacity, ⟨queued ++ phase.frames, by simpa using order⟩, large, rfl⟩
    · exact Flowing.holds ⟨wanted, leads, queued, sent, by simpa [Stream.inHand] using order⟩ rfl
    · exact Flowing.holds ⟨wanted, leads, queued, sent, by simpa [Stream.inHand] using order⟩ rfl
  | idle | pumping | ended | workerGone | dropping | dropped => cases offered

theorem evolves_drop (left : join.drop = some after) : join.Evolves after := by
  obtain ⟨job, phase, channel, spares, cancel, stream, accepted⟩ := join
  cases stream <;> cases left
  all_goals exact ⟨rfl, fun holds => ⟨holds.own, nofun, nofun, nofun, fun _ => rfl⟩,
    fun _ => ⟨rfl, rfl⟩, fun _ => rfl⟩

theorem evolves_close (closed : join.close = some after) : join.Evolves after := by
  obtain ⟨job, phase, channel, spares, cancel, stream, accepted⟩ := join
  cases stream <;> cases closed
  exact ⟨rfl, fun holds => ⟨holds.own, nofun, nofun, nofun, fun _ => holds.cancelled rfl⟩,
    fun _ => ⟨rfl, rfl⟩, fun _ => rfl⟩

end Join

theorem step_cases {act : Act} {joins after : List Join} (stepped : step act joins = some after) :
    (∃ job, after = joins ++ [.submitted job]) ∨
      ∃ id join later, joins[id]? = some join ∧ join.Evolves later ∧ after = joins.set id later := by
  have moves : ∀ {id : Nat} {move : Join → Option Join},
      (∀ join later, move join = some later → join.Evolves later) →
      change joins id move = some after →
      ∃ id join later, joins[id]? = some join ∧ join.Evolves later ∧ after = joins.set id later := by
    intro id move each changed
    obtain ⟨later, moved, rfl⟩ := Option.map_eq_some_iff.mp changed
    obtain ⟨join, found, moved⟩ := Option.bind_eq_some_iff.mp moved
    exact ⟨id, join, later, found, each join later moved, rfl⟩
  cases act with
  | submit job =>
    cases stepped
    exact .inl ⟨job, rfl⟩
  | work => exact .inr (moves (fun _ _ => Join.evolves_work) stepped)
  | pump id budget capacity => exact .inr (moves (fun _ _ => Join.evolves_pump) stepped)
  | take id => exact .inr (moves (fun _ _ => Join.evolves_take) stepped)
  | offer id takes => exact .inr (moves (fun _ _ => Join.evolves_offer) stepped)
  | drop id => exact .inr (moves (fun _ _ => Join.evolves_drop) stepped)
  | close id => exact .inr (moves (fun _ _ => Join.evolves_close) stepped)

theorem run_holds {acts : List Act} {last : List Join} (ran : runActs step acts [] = some last) :
    ∀ join ∈ last, join.Holds := by
  refine runActs_keeps step (P := fun joins => ∀ join ∈ joins, join.Holds) ?_ ran (by simp)
  intro act _ joins after stepped holds
  rcases step_cases stepped with ⟨job, rfl⟩ | ⟨id, join, later, found, evolves, rfl⟩
  · exact List.forall_mem_append.mpr ⟨holds, List.forall_mem_singleton.mpr (Join.holds_submitted job)⟩
  · intro other member
    rcases List.mem_or_eq_of_mem_set member with old | rfl
    · exact holds other old
    · exact evolves.holds (holds join (List.mem_of_getElem? found))

theorem run_evolves {acts : List Act} {joins last : List Join} {id : Nat} {before : Join}
    (ran : runActs step acts joins = some last) (was : joins[id]? = some before) :
    ∃ after, last[id]? = some after ∧ before.Evolves after := by
  refine runActs_keeps step (P := fun joins => ∃ after, joins[id]? = some after ∧
    before.Evolves after) ?_ ran ⟨before, was, .refl before⟩
  rintro act - joins after stepped ⟨now, isNow, soFar⟩
  have inside := (List.getElem?_eq_some_iff.mp isNow).1
  rcases step_cases stepped with ⟨job, rfl⟩ | ⟨other, join, later, found, evolves, rfl⟩
  · exact ⟨now, by rw [List.getElem?_append_left inside, isNow], soFar⟩
  · by_cases same : other = id
    · subst same
      cases found.symm.trans isNow
      exact ⟨later, List.getElem?_set_self inside, soFar.trans evolves⟩
    · exact ⟨now, by rw [List.getElem?_set_ne same, isNow], soFar⟩

/--
Along every run, the socket takes a prefix of the frames a join's own job publishes.

A pump answers with the job's result only behind all of them. A frame larger than the capacity ends
the join, and a join that is over takes no further frame. Behind a drop nothing is reported, every
publish fails at once, and the worker never waits.
-/
theorem joins_deliver_exactly {acts more : List Act} {middle last : List Join}
    (ran : runActs step acts [] = some middle) (goesOn : runActs step more middle = some last)
    {id : Nat} {before : Join} (was : middle[id]? = some before) :
    ∃ after, last[id]? = some after ∧ after.job = before.job ∧
      after.accepted <+: after.job.frames ∧
      (∀ result, after.stream = .ended result →
        after.accepted = after.job.frames ∧ result = after.job.result ∨ after.TooLarge result) ∧
      after.stream ≠ .workerGone ∧
      (∀ frame call takes, after.stream = .offering frame call → call.capacity < frame.length →
        after.offer takes = some { after with
          stream := .ended (.error (frameExceeds frame.length call.capacity)) }) ∧
      (before.stream.isOpen = false →
        after.stream.isOpen = false ∧ after.accepted = before.accepted) ∧
      (before.stream.isLeft = true → (∀ result, after.stream ≠ .ended result) ∧
        ∀ bytes next, after.phase = .running (.publish bytes next) →
          after.work = some { after with phase := .running (next false) }) ∧
      (after.stream = .dropped →
        (∀ buffer next, after.phase = .sending buffer next →
          after.work = some { after with phase := .running (next false) }) ∧
        (after.phase ≠ .finished → ∃ later, after.work = some later)) := by
  obtain ⟨after, isAfter, evolves⟩ := run_evolves goesOn was
  have holds := evolves.holds (run_holds ran before (List.mem_of_getElem? was))
  refine ⟨after, isAfter, evolves.job, holds.own, holds.answered, holds.present, ?_, evolves.closed,
    ?_, ?_⟩
  · intro frame call takes offering large
    simp only [Join.offer, offering, large, if_true]
  · intro left
    have stillLeft := evolves.left left
    refine ⟨fun result ended => ?_, fun bytes next publishing => ?_⟩
    · rw [ended] at stillLeft
      cases stillLeft
    · simp only [Join.work, publishing, holds.cancelled stillLeft, if_true]
  · intro dropped
    have gone : after.stream.isDropped = true := by rw [dropped]; rfl
    refine ⟨fun buffer next sending => ?_, fun unfinished => ?_⟩
    · simp only [Join.work, sending, Join.send, gone, if_true]
    · cases phase : after.phase with
      | running job => cases job <;> exact ⟨_, by rw [Join.work, phase]⟩
      | checked bytes next => exact ⟨_, by rw [Join.work, phase]⟩
      | returned result => exact ⟨_, by rw [Join.work, phase]⟩
      | sending buffer next | reporting result =>
        exact ⟨_, by simp only [Join.work, phase, Join.send, gone, if_true]; rfl⟩
      | finished => exact absurd phase unfinished

def sampleJob (frame : Bytes) (sequence : Nat) : Job :=
  .publish frame fun sent => .ret (if sent then .ok sequence else .error joinAbandoned)

def sampleActs : List Act :=
  [.submit (sampleJob [1] 7), .work, .work, .work, .pump 0 10 100, .take 0, .offer 0 false,
    .submit (sampleJob [2] 9), .work, .pump 0 10 100, .take 0, .offer 0 true, .take 0, .work, .work,
    .pump 0 10 100, .take 0]

/-- The first join is over and dropped, and the second one's frame is its own. -/
theorem joins_deliver_exactly_sample : ∃ middle last first second,
    runActs step sampleActs [] = some middle ∧
    runActs step [.drop 0, .work, .close 0, .work, .work, .pump 1 0 8, .take 1, .offer 1 true]
      middle = some last ∧
    last[0]? = some first ∧ last[1]? = some second ∧ first.accepted = [[1]] ∧
    second.accepted = [[2]] ∧ second.accepted <+: second.job.frames := by
  refine ⟨_, _, _, _, rfl, rfl, rfl, rfl, rfl, rfl, ?_⟩
  obtain ⟨after, found, -, own, -⟩ := @joins_deliver_exactly sampleActs
    [.drop 0, .work, .close 0, .work, .work, .pump 1 0 8, .take 1, .offer 1 true] _ _ rfl rfl 1 _ rfl
  cases found
  exact own

end Melin.JoinWorker
