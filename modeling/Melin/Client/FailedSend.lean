import Melin.Client.Polled

/-! What a send that fails leaves behind. -/

namespace Melin.Client

open Lib

@[simp]
theorem handedBytes_append (front back : List Handover) :
    handedBytes (front ++ back) = handedBytes front ++ handedBytes back := by
  simp [handedBytes]

section

variable {S : Type}

structure Hands (ready : Bool) (before after : Channel S) (bytes : Bytes) : Prop where
  handed : ∃ more, after.handed = before.handed ++ more ∧ handedBytes more = bytes ∧
    ∀ handover ∈ more, handover.ready = ready
  received : after.received = before.received

variable {before after : Channel S}

theorem Hands.nothing (ready : Bool) (handed : after.handed = before.handed)
    (received : after.received = before.received) :
    Hands ready before after [] :=
  ⟨⟨[], by simp [handed], rfl, by simp⟩, received⟩

theorem Hands.one (ready : Bool) {bytes : Bytes}
    (handed : after.handed = before.handed ++ [⟨ready, bytes⟩])
    (received : after.received = before.received) : Hands ready before after bytes :=
  ⟨⟨_, handed, by simp [handedBytes], by simp⟩, received⟩

theorem Hands.trans {ready : Bool} {first second third : Channel S} {front back : Bytes}
    (before : Hands ready first second front) (after : Hands ready second third back) :
    Hands ready first third (front ++ back) := by
  obtain ⟨⟨early, isEarly, rfl, earlyReady⟩, sameEarly⟩ := before
  obtain ⟨⟨late, isLate, rfl, lateReady⟩, sameLate⟩ := after
  refine ⟨⟨early ++ late, ?_, by simp, ?_⟩, sameLate.trans sameEarly⟩
  · rw [isLate, isEarly, List.append_assoc]
  · intro handover isIn
    exact (List.mem_append.mp isIn).elim (earlyReady handover) (lateReady handover)

theorem Hands.handedBytes_eq {ready : Bool} {bytes : Bytes} (hands : Hands ready before after bytes) :
    
    handedBytes after.handed = handedBytes before.handed ++ bytes := by
  obtain ⟨⟨more, isMore, rfl, -⟩, -⟩ := hands
  rw [isMore, handedBytes_append]

theorem SendQueue.unsent_took (queue : SendQueue) {n : Nat} (within : n ≤ queue.unsent.length) :
    queue.unsent = queue.unsent.take n ++ (queue.took n within).unsent := by
  simp only [unsent, took, ← List.drop_drop, List.take_append_drop]

@[simp]
theorem SendQueue.unsent_reset (queue : SendQueue) : queue.reset.unsent = queue.unsent := by
  unfold reset
  split_ifs with taken
  · simp [unsent, of, taken]
  · rfl

@[simp]
theorem SendQueue.unsent_of (bytes : Bytes) : (SendQueue.of bytes).unsent = bytes := rfl

variable (stream : ByteStream S)

theorem drain_hands (ready : Bool) (queue : SendQueue) (channel : Channel S) :
    ∃ taken, Hands ready channel (drain stream ready queue channel).2.1 taken ∧
      queue.unsent = taken ++ (drain stream ready queue channel).1.unsent := by
  -- One send hands over its part, and the loop goes on behind it.
  fun_induction drain stream ready queue channel with
  | case1 => exact ⟨[], .nothing ready rfl rfl, rfl⟩
  | case2 => exact ⟨[], .nothing ready rfl rfl, rfl⟩
  | case3 => exact ⟨[], .nothing ready rfl rfl, rfl⟩
  | case4 queue channel left state n answer some ih =>
    obtain ⟨taken, hands, rest⟩ := ih
    have now : Hands ready channel
        ⟨state, channel.handed ++ [⟨ready, queue.unsent.take n⟩], channel.received⟩
        (queue.unsent.take n) := .one ready rfl rfl
    refine ⟨queue.unsent.take n ++ taken, now.trans hands, ?_⟩
    rw [List.append_assoc, ← rest]
    exact queue.unsent_took _

namespace PolledConnection

/-- What a flush changes: it takes from the two queues, and from the requests' only when the node
is ready and nothing is left of the challenge response. -/
theorem flush_hands (connection : PolledConnection) (channel : Channel S) :
    ∃ response requests, Hands connection.isReady channel
        (connection.flush stream channel).2.1 (response ++ requests) ∧
      connection.challengeResponse.unsent
        = response ++ (connection.flush stream channel).1.challengeResponse.unsent ∧
      connection.tx.unsent = requests ++ (connection.flush stream channel).1.tx.unsent ∧
      (requests = [] ∨ connection.isReady = true ∧
        (connection.flush stream channel).1.challengeResponse.unsent = []) := by
  obtain ⟨response, hands, rest⟩ :=
    drain_hands stream connection.isReady connection.challengeResponse channel
  simp only [flush]
  generalize drain stream connection.isReady connection.challengeResponse channel = drained
    at hands rest ⊢
  obtain ⟨queue, between, result⟩ := drained
  have stays : Hands connection.isReady channel between (response ++ []) := by
    rwa [List.append_nil]
  dsimp only at rest ⊢
  split
  · exact ⟨response, [], stays, rest, rfl, .inl rfl⟩
  split_ifs with held
  · exact ⟨response, [], stays, rest, rfl, .inl rfl⟩
  -- The response is gone and the node is ready: the requests go behind it.
  rw [not_or, not_not, Bool.not_eq_false] at held
  obtain ⟨gone, ready⟩ := held
  change connection.isReady = true at ready
  obtain ⟨requests, handsOn, restOn⟩ := drain_hands stream true connection.tx between
  generalize drain stream true connection.tx between = drained at handsOn restOn ⊢
  obtain ⟨tx, after, result⟩ := drained
  rw [ready] at hands ⊢
  dsimp only at restOn ⊢
  split
  · exact ⟨response, requests, hands.trans handsOn, rest, restOn, .inr ⟨rfl, gone⟩⟩
  · refine ⟨response, requests, hands.trans handsOn, rest, ?_, .inr ⟨rfl, gone⟩⟩
    rw [SendQueue.unsent_reset]
    exact restOn

theorem flush_rest (connection : PolledConnection) (channel : Channel S) :
    ∃ challengeResponse tx, (connection.flush stream channel).1
      = { connection with challengeResponse, tx } := by
  simp only [flush]
  split
  · exact ⟨_, _, rfl⟩
  · split_ifs
    · exact ⟨_, _, rfl⟩
    · split <;> exact ⟨_, _, rfl⟩

end PolledConnection

end

/-- A call that takes nothing: the same requests are outstanding and the next one has the same ID,
and what was handed over and what is queued are together the bytes they were. -/
structure TookNothing {S : Type} (connection : PolledConnection) (channel : Channel S)
    (connection' : PolledConnection) (channel' : Channel S) : Prop where
  outstanding : connection'.outstanding = connection.outstanding
  bytes : handedBytes channel'.handed ++ connection'.unsent
    = handedBytes channel.handed ++ connection.unsent

theorem TookNothing.from_iff {S : Type} {first second third : PolledConnection}
    {before between after : Channel S} (early : TookNothing first before second between) :
    TookNothing first before third after ↔ TookNothing second between third after := by
  constructor
  · rintro ⟨outstanding, bytes⟩
    exact ⟨outstanding.trans early.outstanding.symm, bytes.trans early.bytes.symm⟩
  · rintro ⟨outstanding, bytes⟩
    exact ⟨outstanding.trans early.outstanding, bytes.trans early.bytes⟩

namespace PolledConnection

section

variable {S : Type} (stream : ByteStream S)

theorem tookNothing_flush (connection : PolledConnection) (channel : Channel S) :
    TookNothing connection channel (connection.flush stream channel).1
      (connection.flush stream channel).2.1 := by
  obtain ⟨response, requests, hands, responseLeft, requestsLeft, order⟩ :=
    connection.flush_hands stream channel
  obtain ⟨queue, tx, same⟩ := connection.flush_rest stream channel
  refine ⟨by rw [same], ?_⟩
  rw [hands.handedBytes_eq, unsent, unsent, responseLeft, requestsLeft]
  -- Either no request was handed over, or nothing of the response stands in front of it.
  rcases order with rfl | ⟨-, gone⟩
  · simp
  · simp [gone]

variable {Err : Type} (refused : RequestFrameError → Err) (failed : Error → Err)

/-- What goes on to the scratch buffer: a request that no region was lent for. -/
def ToScratch (connection : PolledConnection) (channel : Channel S) (needed id : Nat)
    (encoder : BodyEncoder Err) (after : Channel S) : Prop :=
  if connection.isReady = true ∧ connection.tx.unsent = [] then
    frameInPlace stream refused channel needed id encoder = (after, .ok .notTaken)
  else after = channel

/-- The stream fails behind the framing of a request: it queues a part of what was framed in its
memory, or answers an error to the flush behind the scratch buffer's framing. -/
def FailsLate (connection : PolledConnection) (channel : Channel S) (now maxBody : Nat)
    (encoder : BodyEncoder Err) : Prop :=
  let needed := requestHeaderLen + min maxBody maxRequestBody
  let id := connection.outstanding.next
  ∃ flushed between, connection.flush stream channel = (flushed, between, .ok ()) ∧
    ((flushed.isReady = true ∧ flushed.tx.unsent = [] ∧ ∃ after written queued,
        frameInPlace stream refused between needed id encoder
          = (after, .ok (.framed (.ok written) queued)) ∧ 0 < queued ∧ queued ≠ written) ∨
      ∃ after framed err, flushed.ToScratch stream refused between needed id encoder after ∧
        flushed.frameInScratch refused needed id encoder = (framed, .ok ()) ∧
        ((framed.requestSent now).1.flush stream after).2.2 = .error err)

theorem sendFromScratch_failed_iff (connection : PolledConnection) (channel : Channel S)
    (now needed id : Nat) (encoder : BodyEncoder Err) :
    (∀ err, (connection.sendFromScratch stream refused failed channel now needed id encoder).2.2
        = .error err → TookNothing connection channel
          (connection.sendFromScratch stream refused failed channel now needed id encoder).1
          (connection.sendFromScratch stream refused failed channel now needed id encoder).2.1) ↔
      ¬ ∃ framed err, connection.frameInScratch refused needed id encoder = (framed, .ok ()) ∧
        ((framed.requestSent now).1.flush stream channel).2.2 = .error err := by
  unfold sendFromScratch
  cases framing : connection.frameInScratch refused needed id encoder with
  | mk framed result =>
  cases result with
  | error err =>
    -- An encoder that fails leaves the queue as it was.
    have kept : TookNothing connection channel framed channel := by
      simp only [frameInScratch] at framing
      split at framing
      · cases framing
      · cases framing
        exact ⟨rfl, rfl⟩
    refine iff_of_true (fun _ _ => kept) ?_
    rintro ⟨other, _, framed', -⟩
    cases framed'
  | ok _ =>
    dsimp only
    cases flushing : (framed.requestSent now).1.flush stream channel with
    | mk sent rest =>
    obtain ⟨after, result⟩ := rest
    cases result with
    | error err =>
      -- The request is counted by now, and a flush does not take that back.
      have counted : sent.outstanding.next = connection.outstanding.next + 1 := by
        obtain ⟨_, _, same⟩ := (framed.requestSent now).1.flush_rest stream channel
        have outstanding : framed.outstanding = connection.outstanding := by
          simp only [frameInScratch] at framing
          split at framing <;> cases framing
          rfl
        rw [flushing] at same
        rw [show sent = _ from same]
        simp [requestSent, Outstanding.sent, outstanding]
      refine iff_of_false (fun kept => ?_) (not_not.mpr ⟨framed, err, rfl, by rw [flushing]⟩)
      have same := congrArg Outstanding.next (kept _ rfl).outstanding
      exact absurd (counted.symm.trans same) (Nat.succ_ne_self _)
    | ok _ =>
      refine iff_of_true (fun _ err => by cases err) ?_
      rintro ⟨other, err, isFramed, wrong⟩
      cases isFramed
      rw [flushing] at wrong
      cases wrong

theorem frameInPlace_cases (channel : Channel S) (needed id : Nat) (encoder : BodyEncoder Err) :
    (∃ after result, frameInPlace stream refused channel needed id encoder = (after, result) ∧
        Hands true channel after [] ∧
        ((∃ kind, result = .error kind) ∨ result = .ok .notTaken ∨
          ∃ err queued, result = .ok (.framed (.error err) queued))) ∨
      ∃ after body queued, encoder.Writes body ∧
        frameInPlace stream refused channel needed id encoder
          = (after, .ok (.framed (.ok (frame (requestPayload id body)).length) queued)) ∧
        (∃ state region, (stream.queue state region (frame (requestPayload id body)).length).2
          = .ok queued) ∧
        Hands true channel after ((frame (requestPayload id body)).take queued) := by
  unfold frameInPlace
  split
  · exact .inl ⟨_, _, rfl, .nothing true rfl rfl, .inl ⟨_, rfl⟩⟩
  · exact .inl ⟨_, _, rfl, .nothing true rfl rfl, .inr (.inl rfl)⟩
  rename_i state region lent
  split_ifs with short
  · -- A region too short is given back untouched.
    split
    · exact .inl ⟨_, _, rfl, .nothing true rfl rfl, .inl ⟨_, rfl⟩⟩
    · exact .inl ⟨_, _, rfl, .nothing true rfl rfl, .inr (.inl rfl)⟩
  rcases frameRequest_cases refused region id encoder with
    ⟨untouched, err, -, framing⟩ | ⟨body, rest, writes, -, framing⟩
  · rw [framing]
    dsimp only
    split
    · exact .inl ⟨_, _, rfl, .nothing true rfl rfl, .inl ⟨_, rfl⟩⟩
    · rename_i after queued answer
      -- Nothing was written, so nothing can be queued.
      have none : queued = 0 := Nat.le_zero.mp (stream.queues _ _ _ _ (by rw [answer]))
      refine .inl ⟨_, _, rfl, .one true (by rw [none]; rfl) rfl, .inr (.inr ⟨err, queued, rfl⟩)⟩
  · rw [framing]
    dsimp only
    split
    · exact .inl ⟨_, _, rfl, .nothing true rfl rfl, .inl ⟨_, rfl⟩⟩
    · rename_i after queued answer
      have isAnswer := congrArg Prod.snd answer
      refine .inr ⟨_, body, queued, writes, rfl, ⟨_, _, isAnswer⟩, .one true ?_ rfl⟩
      rw [List.take_append_of_le_length (stream.queues _ _ _ _ isAnswer)]

variable {channel after between : Channel S} {connection flushed : PolledConnection}
  {now maxBody : Nat} {encoder : BodyEncoder Err}

theorem tookNothing_of_hands (connection : PolledConnection) {ready : Bool}
    (hands : Hands ready channel after []) :
    TookNothing connection channel connection after := by
  refine ⟨rfl, ?_⟩
  rw [hands.handedBytes_eq, List.append_nil]

theorem failsLate_scratch (flushing : connection.flush stream channel = (flushed, between, .ok ()))
    (toScratch : flushed.ToScratch stream refused between
      (requestHeaderLen + min maxBody maxRequestBody) connection.outstanding.next encoder after) :
    connection.FailsLate stream refused channel now maxBody encoder ↔
      ∃ framed err, flushed.frameInScratch refused (requestHeaderLen + min maxBody maxRequestBody)
          connection.outstanding.next encoder = (framed, .ok ()) ∧
        ((framed.requestSent now).1.flush stream after).2.2 = .error err := by
  constructor
  · rintro ⟨flushed', between', flushing', late⟩
    obtain ⟨rfl, rfl⟩ : flushed' = flushed ∧ between' = between := by
      rw [flushing] at flushing'
      cases flushing'
      exact ⟨rfl, rfl⟩
    rcases late with ⟨ready, empty, after', written, queued, framing, -⟩ |
      ⟨after', framed, err, toScratch', framing, fails⟩
    · rw [ToScratch, if_pos ⟨ready, empty⟩, framing] at toScratch
      cases toScratch
    · -- The scratch buffer is come to in one way only.
      have same : after' = after := by
        unfold ToScratch at toScratch toScratch'
        split_ifs at toScratch toScratch'
        · rw [toScratch] at toScratch'
          cases toScratch'
          rfl
        · exact toScratch'.trans toScratch.symm
      exact ⟨framed, err, framing, same ▸ fails⟩
  · rintro ⟨framed, err, framing, fails⟩
    exact ⟨flushed, between, flushing, .inr ⟨after, framed, err, toScratch, framing, fails⟩⟩

theorem failsLate_inPlace {result : Except IoErrorKind (InPlace Err)}
    (flushing : connection.flush stream channel = (flushed, between, .ok ()))
    (lends : flushed.isReady = true ∧ flushed.tx.unsent = [])
    (framing : frameInPlace stream refused between (requestHeaderLen + min maxBody maxRequestBody)
      connection.outstanding.next encoder = (after, result))
    (settled : result ≠ .ok .notTaken) :
    connection.FailsLate stream refused channel now maxBody encoder ↔
      ∃ written queued, result = .ok (.framed (.ok written) queued) ∧ 0 < queued ∧
        queued ≠ written := by
  constructor
  · rintro ⟨flushed', between', flushing', late⟩
    obtain ⟨rfl, rfl⟩ : flushed' = flushed ∧ between' = between := by
      rw [flushing] at flushing'
      cases flushing'
      exact ⟨rfl, rfl⟩
    rcases late with ⟨-, -, after', written, queued, framing', some, part⟩ |
      ⟨after', framed, err, toScratch, -⟩
    · rw [framing] at framing'
      cases framing'
      exact ⟨written, queued, rfl, some, part⟩
    · rw [ToScratch, if_pos lends, framing] at toScratch
      cases toScratch
      exact absurd rfl settled
  · rintro ⟨written, queued, rfl, some, part⟩
    exact ⟨flushed, between, flushing, .inl ⟨lends.1, lends.2, after, written, queued, framing,
      some, part⟩⟩

theorem scratch_failed_iff (flushing : connection.flush stream channel = (flushed, between, .ok ()))
    (early : TookNothing connection channel flushed after)
    (toScratch : flushed.ToScratch stream refused between
      (requestHeaderLen + min maxBody maxRequestBody) connection.outstanding.next encoder after) :
    let sent := flushed.sendFromScratch stream refused failed after now
      (requestHeaderLen + min maxBody maxRequestBody) connection.outstanding.next encoder
    (∀ err, sent.2.2 = .error err → TookNothing connection channel sent.1 sent.2.1) ↔
      ¬ connection.FailsLate stream refused channel now maxBody encoder := by
  dsimp only
  rw [failsLate_scratch stream refused flushing toScratch, ← flushed.sendFromScratch_failed_iff]
  exact forall_congr' fun err => imp_congr_right fun _ => early.from_iff

theorem sendWith_failed_iff (connection : PolledConnection) (channel : Channel S)
    (now maxBody : Nat) (encoder : BodyEncoder Err) :
    (∀ err, (connection.sendWith stream refused failed channel now maxBody encoder).2.2 = .error err →
        TookNothing connection channel
          (connection.sendWith stream refused failed channel now maxBody encoder).1
          (connection.sendWith stream refused failed channel now maxBody encoder).2.1) ↔
      ¬ connection.FailsLate stream refused channel now maxBody encoder := by
  have early := connection.tookNothing_flush stream channel
  unfold sendWith
  cases flushing : connection.flush stream channel with
  | mk flushed rest =>
  obtain ⟨between, result⟩ := rest
  rw [flushing] at early
  cases result with
  | error err =>
    -- Nothing was framed yet.
    refine iff_of_true (fun _ _ => early) ?_
    rintro ⟨_, _, flushed', -⟩
    rw [flushing] at flushed'
    cases flushed'
  | ok _ =>
  dsimp only at early ⊢
  by_cases lends : flushed.isReady = true ∧ flushed.tx.unsent = []
  · rw [if_pos lends]
    rcases frameInPlace_cases stream refused between (requestHeaderLen + min maxBody maxRequestBody)
      connection.outstanding.next encoder with
      ⟨after, result, framing, hands, kind⟩ | ⟨after, body, queued, -, framing, ⟨_, _, answer⟩, hands⟩
    · have kept := flushed.tookNothing_of_hands hands
      rcases kind with ⟨kind, rfl⟩ | rfl | ⟨err, queued, rfl⟩
      · rw [failsLate_inPlace stream refused flushing lends framing (by simp), framing]
        exact iff_of_true (fun _ _ => early.from_iff.mpr kept) (by simp)
      · rw [framing]
        refine scratch_failed_iff stream refused failed flushing (early.from_iff.mpr kept) ?_
        rw [ToScratch, if_pos lends, framing]
      · rw [failsLate_inPlace stream refused flushing lends framing (by simp), framing]
        exact iff_of_true (fun _ _ => early.from_iff.mpr kept) (by simp)
    · rw [failsLate_inPlace stream refused flushing lends framing (by simp), framing]
      dsimp only
      split_ifs with whole
      · refine iff_of_true (fun _ err => by cases err) ?_
        rintro ⟨_, _, ⟨⟩, -, part⟩
        exact part whole
      · -- What was queued is all that tells this from nothing.
        have taken : TookNothing flushed between flushed after ↔ queued = 0 := by
          constructor
          · intro kept
            have within := stream.queues _ _ _ _ answer
            have bytes := congrArg List.length kept.bytes
            simp only [hands.handedBytes_eq, List.length_append, List.length_take] at bytes
            omega
          · rintro rfl
            exact flushed.tookNothing_of_hands hands
        constructor
        · rintro kept ⟨_, _, ⟨⟩, some, -⟩
          exact absurd (taken.mp (early.from_iff.mp (kept _ rfl))) (by omega)
        · intro notPart err _
          refine early.from_iff.mpr (taken.mpr ?_)
          by_contra some
          exact notPart ⟨_, _, rfl, Nat.pos_of_ne_zero some, whole⟩
  · rw [if_neg lends]
    refine scratch_failed_iff stream refused failed flushing early ?_
    rw [ToScratch, if_neg lends]

end

/-- A stream that lends no region, and fails whenever it is to send. -/
def brokenStream : ByteStream Unit where
  send _ _ := ((), .error .other)
  takes := by rintro _ _ _ ⟨⟩
  recv _ _ := ((), .ok [])
  gives := by
    rintro _ _ _ ⟨⟩
    exact Nat.zero_le _
  lend _ := ((), .ok none)
  queue _ _ _ := ((), .ok 0)
  queues := by
    rintro _ _ _ _ ⟨⟩
    exact Nat.zero_le _

end PolledConnection

end Melin.Client
