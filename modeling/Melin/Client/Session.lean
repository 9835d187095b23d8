import Melin.Client.FailedSend

/-! What the two byte streams of a connection hold, and that every step of a call keeps it. -/

namespace Melin.Client

open Lib

/-- What a client makes of the node's frames: how far the handshake is, what it answered to the
challenge, and the replies. -/
structure Reader where
  handshake : HandshakeState
  response : Bytes
  replies : List Bytes

namespace Reader

variable (key : SigningKey)

def initial : Reader := { handshake := .challenge, response := [], replies := [] }

/-- One frame: a step of the handshake, or behind it a reply unless it is a heartbeat. -/
def read (reader : Reader) (payload : Bytes) : Reader :=
  match reader.handshake with
  | .done =>
    if isHeartbeat payload then reader
    else { reader with replies := reader.replies ++ [payload] }
  | state =>
    match state.feed key payload with
    | (handshake, .ok (.send response)) => { reader with handshake, response }
    | (handshake, _) => { reader with handshake }

def Stuck (reader : Reader) (payload : Bytes) : Prop :=
  reader.handshake ≠ .done ∧ maxHandshakeFrame < payload.length

instance (reader : Reader) (payload : Bytes) : Decidable (reader.Stuck payload) :=
  inferInstanceAs (Decidable (_ ∧ _))

def readAll (reader : Reader) : List Bytes → Reader
  | [] => reader
  | payload :: payloads =>
    if reader.Stuck payload then reader else (reader.read key payload).readAll payloads

theorem read_done {reader : Reader} (done : reader.handshake = .done) (payload : Bytes) :
    reader.read key payload = { reader with
      replies := reader.replies ++ if isHeartbeat payload then [] else [payload] } := by
  obtain ⟨handshake, response, replies⟩ := reader
  cases done
  simp only [read]
  split_ifs <;> simp

theorem response_readAll {reader : Reader} (answered : reader.handshake ≠ .challenge)
    (payloads : List Bytes) : (reader.readAll key payloads).response = reader.response := by
  induction payloads generalizing reader with
  | nil => rfl
  | cons payload payloads ih =>
    unfold readAll
    split_ifs with stuck
    · rfl
    · -- A frame read behind the challenge leads to the verdict or leaves the state.
      have same : (reader.read key payload).response = reader.response ∧
          (reader.read key payload).handshake ≠ .challenge := by
        obtain ⟨handshake, response, replies⟩ := reader
        cases handshake with
        | challenge => exact absurd rfl answered
        | verdict =>
          simp only [read, HandshakeState.feed]
          split_ifs <;> simp
        | done =>
          simp only [read]
          split_ifs <;> simp
      rw [ih same.2, same.1]

theorem replies_readAll (reader : Reader) (payloads : List Bytes) :
    reader.replies <+: (reader.readAll key payloads).replies := by
  induction payloads generalizing reader with
  | nil => exact List.prefix_rfl
  | cons payload payloads ih =>
    unfold readAll
    split_ifs with stuck
    · exact List.prefix_rfl
    · refine List.IsPrefix.trans ?_ (ih _)
      unfold read
      split
      · split_ifs
        · exact List.prefix_rfl
        · exact List.prefix_append ..
      · split <;> exact List.prefix_rfl

end Reader

def payloadsOf (bytes : Bytes) : List Bytes := (splitStream maxFrameSize bytes).1

def requestFrames (first : Nat) : List Bytes → Bytes
  | [] => []
  | body :: bodies => frame (requestPayload first body) ++ requestFrames (first + 1) bodies

theorem requestFrames_concat (first : Nat) (bodies : List Bytes) (body : Bytes) :
    requestFrames first (bodies ++ [body])
      = requestFrames first bodies ++ frame (requestPayload (first + bodies.length) body) := by
  induction bodies generalizing first with
  | nil => simp [requestFrames]
  | cons front bodies ih =>
    rw [List.cons_append, requestFrames, ih, requestFrames, List.append_assoc, List.length_cons,
      Nat.add_assoc, Nat.add_comm 1]

def handedEarly (handed : List Handover) : Bytes :=
  handedBytes (handed.filter fun handover => !handover.ready)

/-- A connection's two streams: the requests that were counted and the replies that were taken
account for what went through them. -/
structure Kept {S : Type} (key : SigningKey) (connection : PolledConnection) (channel : Channel S)
    (response : Bytes) (bodies replies : List Bytes) : Prop where
  /-- Whatever comes, it is read from here as from the start. -/
  reads : ∀ more, Reader.initial.readAll key (payloadsOf (channel.received ++ more))
    = Reader.readAll key ⟨connection.handshake, response, replies⟩
        (payloadsOf (connection.rx.pending ++ more))
  asked : connection.handshake = .challenge → response = []
  next : connection.outstanding.next = 1 + bodies.length
  /-- Until the node is ready no request has gone out. -/
  held : connection.isReady = false →
    handedBytes channel.handed ++ connection.challengeResponse.unsent = response ∧
      connection.tx.unsent = requestFrames 1 bodies ∧
      handedEarly channel.handed = handedBytes channel.handed
  early : handedEarly channel.handed <+: response
  total : handedBytes channel.handed ++ connection.unsent = response ++ requestFrames 1 bodies

theorem kept_withTimeout {S : Type} (key : SigningKey) (readTimeout : Nat) (state : S) :
    Kept key (.withTimeout readTimeout) ⟨state, [], []⟩ [] [] [] := by
  have empty : ReceiveBuffer.fresh.pending = [] := by
    simp [ReceiveBuffer.pending, ReceiveBuffer.fresh, slice]
  refine ⟨fun more => ?_, fun _ => rfl, rfl, fun _ => ⟨rfl, rfl, rfl⟩, List.prefix_rfl, rfl⟩
  simp only [PolledConnection.withTimeout, empty]
  rfl

section

variable {S : Type} {key : SigningKey} {connection : PolledConnection} {channel : Channel S}
  {response : Bytes} {bodies replies : List Bytes}

theorem handedEarly_of_hands {ready : Bool} {after : Channel S} {bytes : Bytes}
    (hands : Hands ready channel after bytes) :
    handedEarly after.handed
      = handedEarly channel.handed ++ if ready then [] else bytes := by
  obtain ⟨⟨more, isMore, rfl, all⟩, -⟩ := hands
  rw [handedEarly, isMore, List.filter_append, handedBytes_append, handedEarly]
  cases ready with
  | false =>
    have kept : more.filter (fun handover => !handover.ready) = more :=
      List.filter_eq_self.mpr fun handover isIn => by simp [all handover isIn]
    simp [kept]
  | true =>
    have gone : more.filter (fun handover => !handover.ready) = [] :=
      List.filter_eq_nil_iff.mpr fun handover isIn => by simp [all handover isIn]
    simp [gone, handedBytes]

namespace Kept

theorem flush (stream : ByteStream S) (kept : Kept key connection channel response bodies replies) :
    Kept key (connection.flush stream channel).1 (connection.flush stream channel).2.1 response
      bodies replies := by
  have nothing := connection.tookNothing_flush stream channel
  obtain ⟨front, requests, hands, responseLeft, requestsLeft, order⟩ :=
    connection.flush_hands stream channel
  obtain ⟨queue, tx, same⟩ := connection.flush_rest stream channel
  have early := handedEarly_of_hands hands
  have bytes := hands.handedBytes_eq
  have received := hands.received
  rw [same] at responseLeft requestsLeft order nothing ⊢
  generalize (connection.flush stream channel).2.1 = after at hands early bytes received nothing ⊢
  -- Before the node is ready only the response moves.
  have held : connection.isReady = false →
      handedBytes after.handed ++ queue.unsent = response ∧ tx.unsent = requestFrames 1 bodies ∧
        handedEarly after.handed = handedBytes after.handed := by
    intro notReady
    obtain ⟨whole, waiting, allEarly⟩ := kept.held notReady
    obtain rfl : requests = [] := order.resolve_right (by simp [notReady])
    rw [List.append_nil] at bytes early
    refine ⟨?_, requestsLeft.symm.trans waiting, ?_⟩
    · rw [bytes, List.append_assoc, ← whole]
      exact congrArg (_ ++ ·) responseLeft.symm
    · rw [early, bytes, allEarly, notReady]
      rfl
  refine ⟨fun more => ?_, kept.asked, kept.next, held, ?_, nothing.bytes.trans kept.total⟩
  · rw [received]
    exact kept.reads more
  · cases ready : connection.isReady with
    | true =>
      rw [early, ready, if_pos rfl, List.append_nil]
      exact kept.early
    | false =>
      obtain ⟨whole, -, allEarly⟩ := held ready
      rw [allEarly, ← whole]
      exact List.prefix_append ..

theorem nothing (kept : Kept key connection channel response bodies replies) {after : Channel S}
    {ready : Bool} (hands : Hands ready channel after []) :
    Kept key connection after response bodies replies := by
  have early : handedEarly after.handed = handedEarly channel.handed := by
    rw [handedEarly_of_hands hands]
    cases ready <;> simp
  have bytes : handedBytes after.handed = handedBytes channel.handed := by
    rw [hands.handedBytes_eq, List.append_nil]
  refine ⟨?_, kept.asked, kept.next, ?_, early ▸ kept.early, bytes ▸ kept.total⟩
  · rw [hands.received]
    exact kept.reads
  · rw [early, bytes]
    exact kept.held

theorem channel_congr {T : Type} {after : Channel T}
    (kept : Kept key connection channel response bodies replies)
    (handed : after.handed = channel.handed) (received : after.received = channel.received) :
    Kept key connection after response bodies replies := by
  refine ⟨?_, kept.asked, kept.next, ?_, handed ▸ kept.early, handed ▸ kept.total⟩
  · rw [received]
    exact kept.reads
  · rw [handed]
    exact kept.held

theorem count {connection' : PolledConnection} {after : Channel S} {body : Bytes}
    (kept : Kept key connection channel response bodies replies)
    (handshake : connection'.handshake = connection.handshake)
    (rx : connection'.rx = connection.rx) (received : after.received = channel.received)
    (next : connection'.outstanding.next = connection.outstanding.next + 1)
    (early : handedEarly after.handed = handedEarly channel.handed)
    (held : connection.isReady = false →
      handedBytes after.handed ++ connection'.challengeResponse.unsent
          = handedBytes channel.handed ++ connection.challengeResponse.unsent ∧
        connection'.tx.unsent = connection.tx.unsent
          ++ frame (requestPayload connection.outstanding.next body) ∧
        handedBytes after.handed = handedBytes channel.handed)
    (total : handedBytes after.handed ++ connection'.unsent
      = handedBytes channel.handed ++ connection.unsent
        ++ frame (requestPayload connection.outstanding.next body)) :
    Kept key connection' after response (bodies ++ [body]) replies := by
  have behind : requestFrames 1 (bodies ++ [body])
      = requestFrames 1 bodies ++ frame (requestPayload connection.outstanding.next body) := by
    rw [requestFrames_concat, kept.next]
  refine ⟨fun more => ?_, fun asked => kept.asked (handshake ▸ asked), ?_, fun notReady => ?_,
    early ▸ kept.early, ?_⟩
  · rw [received, rx, handshake]
    exact kept.reads more
  · rw [next, kept.next, List.length_append, List.length_singleton, Nat.add_assoc]
  · have before : connection.isReady = false := by
      rwa [PolledConnection.isReady, handshake] at notReady
    obtain ⟨whole, waiting, allEarly⟩ := kept.held before
    obtain ⟨sameResponse, queued, sameBytes⟩ := held before
    exact ⟨sameResponse.trans whole, by rw [queued, waiting, behind],
      by rw [early, allEarly, sameBytes]⟩
  · rw [total, kept.total, behind, List.append_assoc]

theorem congr {connection' : PolledConnection}
    (kept : Kept key connection channel response bodies replies)
    (handshake : connection'.handshake = connection.handshake)
    (pending : connection'.rx.pending = connection.rx.pending)
    (next : connection'.outstanding.next = connection.outstanding.next)
    (responseLeft : connection'.challengeResponse.unsent = connection.challengeResponse.unsent)
    (requestsLeft : connection'.tx.unsent = connection.tx.unsent) :
    Kept key connection' channel response bodies replies := by
  refine ⟨fun more => ?_, fun asked => kept.asked (handshake ▸ asked), next.trans kept.next,
    fun notReady => ?_, kept.early, ?_⟩
  · rw [handshake, pending]
    exact kept.reads more
  · rw [PolledConnection.isReady, handshake] at notReady
    rw [responseLeft, requestsLeft]
    exact kept.held notReady
  · rw [PolledConnection.unsent, responseLeft, requestsLeft]
    exact kept.total

end Kept

/-- The bodies a send adds to those that were counted: at most one, as its request writes it. -/
structure Adds (writes : Bytes → Prop) (more : List Bytes) : Prop where
  atMostOne : more.length ≤ 1
  written : ∀ body ∈ more, writes body

theorem Adds.none (writes : Bytes → Prop) : Adds writes [] := ⟨Nat.zero_le _, by simp⟩

theorem Adds.one {writes : Bytes → Prop} {body : Bytes} (written : writes body) :
    Adds writes [body] :=
  ⟨le_rfl, by simpa using written⟩

def ByteStream.QueuesWhole (stream : ByteStream S) : Prop :=
  ∀ state region written n, (stream.queue state region written).2 = .ok n → n = written ∨ n = 0

namespace Kept

variable {stream : ByteStream S} {Err : Type} {refused : RequestFrameError → Err}
  {failed : Error → Err} {encoder : BodyEncoder Err}

/-- A request that goes through the scratch buffer is queued behind the others. -/
theorem sendFromScratch (kept : Kept key connection channel response bodies replies)
    (now needed : Nat) :
    let sent := connection.sendFromScratch stream refused failed channel now needed
      connection.outstanding.next encoder
    ∃ more, Adds encoder.Writes more ∧ Kept key sent.1 sent.2.1 response (bodies ++ more) replies := by
  dsimp only
  unfold PolledConnection.sendFromScratch PolledConnection.frameInScratch
  rcases frameRequest_cases refused (List.replicate needed 0) connection.outstanding.next encoder with
    ⟨untouched, err, -, framing⟩ | ⟨body, rest, writes, -, framing⟩
  · rw [framing]
    refine ⟨[], .none _, ?_⟩
    rw [List.append_nil]
    exact kept.congr rfl rfl rfl rfl rfl
  · rw [framing]
    dsimp only
    rw [List.take_left]
    -- The framed connection, before the flush behind the framing.
    have framed : Kept key (PolledConnection.requestSent { connection with
          tx := .of (connection.tx.unsent ++ frame (requestPayload connection.outstanding.next body)) }
          now).1 channel response (bodies ++ [body]) replies := by
      refine kept.count rfl rfl rfl rfl rfl (fun _ => ⟨rfl, rfl, rfl⟩) ?_
      simp only [PolledConnection.unsent, PolledConnection.requestSent, SendQueue.unsent_of,
        List.append_assoc]
    have flushed := framed.flush stream
    refine ⟨[body], .one writes, ?_⟩
    split <;> rename_i flushing <;> rw [flushing] at flushed <;> exact flushed

theorem inPlace (kept : Kept key connection channel response bodies replies) (now : Nat)
    {after : Channel S} {body : Bytes} (ready : connection.isReady = true)
    (gone : connection.unsent = [])
    (hands : Hands true channel after (frame (requestPayload connection.outstanding.next body))) :
    Kept key (connection.requestSent now).1 after response (bodies ++ [body]) replies := by
  have early : handedEarly after.handed = handedEarly channel.handed := by
    rw [handedEarly_of_hands hands, if_pos rfl, List.append_nil]
  refine kept.count rfl rfl hands.received rfl early (fun notReady => ?_) ?_
  · rw [ready] at notReady
    cases notReady
  · have empty : (connection.requestSent now).1.unsent = [] := gone
    rw [empty, gone, hands.handedBytes_eq, List.append_nil, List.append_nil]

theorem sendWith (whole : stream.QueuesWhole)
    (kept : Kept key connection channel response bodies replies) (now maxBody : Nat)
    (behind : connection.isReady = true → connection.challengeResponse.unsent = []) :
    let sent := connection.sendWith stream refused failed channel now maxBody encoder
    ∃ more, Adds encoder.Writes more ∧ Kept key sent.1 sent.2.1 response (bodies ++ more) replies := by
  have flushed := kept.flush stream
  obtain ⟨front, -, -, left, -⟩ := connection.flush_hands stream channel
  obtain ⟨queue, tx, same⟩ := connection.flush_rest stream channel
  dsimp only
  unfold PolledConnection.sendWith
  cases flushing : connection.flush stream channel with
  | mk next rest =>
  obtain ⟨between, result⟩ := rest
  rw [flushing] at flushed left same
  dsimp only at flushed left same ⊢
  have id : connection.outstanding.next = next.outstanding.next := by rw [same]
  have unchanged : Kept key next between response (bodies ++ []) replies := by
    rwa [List.append_nil]
  cases result with
  | error err => exact ⟨[], .none _, unchanged⟩
  | ok _ =>
  dsimp only
  rw [id]
  split_ifs with lends
  · -- Nothing is queued in front of what is framed in place.
    have gone : next.unsent = [] := by
      have ready : connection.isReady = true := by
        rw [PolledConnection.isReady, ← lends.1, same]
        rfl
      rw [behind ready] at left
      rw [PolledConnection.unsent, lends.2, (List.append_eq_nil_iff.mp left.symm).2]
      rfl
    rcases PolledConnection.frameInPlace_cases stream refused between
      (requestHeaderLen + min maxBody maxRequestBody) next.outstanding.next encoder with
      ⟨after, result, framing, hands, kind⟩ | ⟨after, body, queued, writes, framing, ⟨_, _, answer⟩, hands⟩
    · have handed := unchanged.nothing hands
      rw [framing]
      rcases kind with ⟨kind, rfl⟩ | rfl | ⟨err, queued, rfl⟩
      · exact ⟨[], .none _, handed⟩
      · rw [List.append_nil] at handed
        exact handed.sendFromScratch now _
      · exact ⟨[], .none _, handed⟩
    · rw [framing]
      dsimp only
      split_ifs with all
      · rw [all, List.take_length] at hands
        exact ⟨[body], .one writes, flushed.inPlace now lends.1 gone hands⟩
      · obtain rfl : queued = 0 := (whole _ _ _ _ answer).resolve_left all
        exact ⟨[], .none _, unchanged.nothing hands⟩
  · exact flushed.sendFromScratch now _

theorem send (whole : stream.QueuesWhole)
    (kept : Kept key connection channel response bodies replies) (now : Nat) (body : Bytes)
    (behind : connection.isReady = true → connection.challengeResponse.unsent = []) :
    let sent := connection.send stream channel now body
    ∃ more, Adds (· = body) more ∧ Kept key sent.1 sent.2.1 response (bodies ++ more) replies := by
  dsimp only
  unfold PolledConnection.send
  cases requestPayloadLen body.length with
  | error err =>
    refine ⟨[], .none _, ?_⟩
    rwa [List.append_nil]
  | ok _ =>
    obtain ⟨more, adds, sent⟩ := kept.sendWith whole now body.length behind
    exact ⟨more, ⟨adds.atMostOne, fun written isIn => eq_of_copyEncoder (adds.written _ isIn)⟩, sent⟩

end Kept

end

namespace ReceiveBuffer

theorem pending_compacted (rx : ReceiveBuffer) (wanted : Nat) :
    (rx.compacted wanted).pending = rx.pending := by
  unfold compacted
  split_ifs with empty short
  · simp [pending, slice, empty]
  · have ordered := rx.ordered
    have inside := rx.inside
    have length : rx.pending.length = rx.tail - rx.head := by
      simp only [pending, slice, List.length_take, List.length_drop]
      omega
    change slice (rx.pending ++ rx.buf.drop (rx.tail - rx.head)) 0 (rx.tail - rx.head) = rx.pending
    rw [slice, List.drop_zero, ← length, List.take_left]
  · rfl

theorem pending_makeRoom (rx : ReceiveBuffer) (wanted : Nat) :
    (rx.makeRoom wanted).pending = rx.pending := by
  rw [← rx.pending_compacted wanted]
  unfold makeRoom
  dsimp only
  split_ifs with short
  · have ordered := (rx.compacted wanted).ordered
    have inside := (rx.compacted wanted).inside
    simp only [pending, slice]
    rw [List.drop_append_of_le_length (by omega), List.take_append_of_le_length]
    rw [List.length_drop]
    omega
  · rfl

theorem pending_append (rx : ReceiveBuffer) {bytes : Bytes} (fits : bytes.length ≤ rx.room) :
    (rx.append bytes fits).pending = rx.pending ++ bytes := by
  have ordered := rx.ordered
  have inside := rx.inside
  have front : (rx.buf.take rx.tail).drop rx.head = rx.pending := by
    rw [pending, slice, List.drop_take]
  have length : (rx.buf.take rx.tail).length = rx.tail := List.length_take_of_le inside
  have count : rx.tail + bytes.length - rx.head = (rx.pending ++ bytes).length := by
    rw [List.length_append, ← front, List.length_drop, length]
    omega
  change slice (rx.buf.take rx.tail ++ bytes ++ rx.buf.drop (rx.tail + bytes.length)) rx.head
    (rx.tail + bytes.length - rx.head) = rx.pending ++ bytes
  rw [slice, List.append_assoc, List.drop_append_of_le_length (by omega), front, count,
    ← List.append_assoc, List.take_left]

end ReceiveBuffer

section

variable {S : Type} {key : SigningKey} {connection : PolledConnection} {channel : Channel S}
  {response : Bytes} {bodies replies : List Bytes}

namespace Kept

theorem receives (kept : Kept key connection channel response bodies replies)
    {rx : ReceiveBuffer} {after : Channel S} {bytes : Bytes}
    (pending : rx.pending = connection.rx.pending ++ bytes)
    (received : after.received = channel.received ++ bytes)
    (handed : after.handed = channel.handed) :
    Kept key { connection with rx } after response bodies replies := by
  refine ⟨fun more => ?_, kept.asked, kept.next, ?_, handed ▸ kept.early, handed ▸ kept.total⟩
  · rw [received, List.append_assoc, kept.reads, ← List.append_assoc, pending]
  · rw [handed]
    exact kept.held

theorem feed (kept : Kept key connection channel response bodies replies) (bytes : Bytes) :
    Kept key (connection.feed bytes) { channel with received := channel.received ++ bytes } response
      bodies replies := by
  refine kept.receives ?_ rfl rfl
  rw [ReceiveBuffer.pending_append, ReceiveBuffer.pending_makeRoom]

theorem receiveOnce (stream : ByteStream S)
    (kept : Kept key connection channel response bodies replies) :
    Kept key (connection.receiveOnce stream channel).1 (connection.receiveOnce stream channel).2.1
      response bodies replies := by
  unfold PolledConnection.receiveOnce
  dsimp only
  split
  · refine kept.receives ?_ (List.append_nil _).symm rfl
    rw [ReceiveBuffer.pending_makeRoom, List.append_nil]
  · refine kept.receives ?_ rfl rfl
    rw [ReceiveBuffer.pending_append, ReceiveBuffer.pending_makeRoom]

theorem pollNothing (kept : Kept key connection channel response bodies replies) (now : Nat)
    (waiting : Bool) :
    Kept key (connection.pollNothing channel now waiting).1
      (connection.pollNothing channel now waiting).2.1 response bodies replies := by
  have waits : Kept key (connection.nothingYet now waiting).1 channel response bodies replies := by
    unfold PolledConnection.nothingYet
    split_ifs
    · exact kept
    · split
      · exact kept.congr rfl rfl rfl rfl rfl
      · exact kept
  unfold PolledConnection.pollNothing
  split <;> rename_i waited <;> rw [waited] at waits <;> exact waits

theorem payloadsOf_split {pending payload : Bytes}
    (found : splitFrameLimited pending maxFrameSize = .ok (some payload)) (more : Bytes) :
    payloadsOf (pending ++ more)
      = payload :: payloadsOf (pending.drop (prefixLen + payload.length) ++ more) := by
  have whole : splitFrameLimited (pending ++ more) maxFrameSize = .ok (some payload) := by
    rw [splitFrameLimited_append (by simp [found]), found]
  have inside : prefixLen + payload.length ≤ pending.length := by
    have length := congrArg List.length (splitFrameLimited_eq_some found).1
    simp only [List.length_append, frame, leBytes_length] at length
    simp only [prefixLen]
    omega
  rw [payloadsOf, splitStream_some whole, List.drop_append_of_le_length inside]
  rfl

theorem takes (kept : Kept key connection channel response bodies replies) {payload : Bytes}
    (ready : connection.isReady = true)
    (found : splitFrameLimited connection.rx.pending maxFrameSize = .ok (some payload)) :
    Kept key { connection with rx := connection.rx.consume _ (PolledConnection.split_within found) }
      channel response bodies (replies ++ if isHeartbeat payload then [] else [payload]) := by
  have done : connection.handshake = .done := by simpa [PolledConnection.isReady] using ready
  refine ⟨fun more => ?_, kept.asked, kept.next, kept.held, kept.early, kept.total⟩
  rw [kept.reads, payloadsOf_split found, ReceiveBuffer.pending_consume, Reader.readAll,
    if_neg (by simp [Reader.Stuck, done]), Reader.read_done key done]

theorem handshakeFrame (stream : ByteStream S)
    (kept : Kept key connection channel response bodies replies) {payload : Bytes}
    (notReady : connection.isReady = false)
    (found : splitFrameLimited connection.rx.pending maxFrameSize = .ok (some payload))
    (short : payload.length ≤ maxHandshakeFrame) :
    let taken := { connection with
      rx := connection.rx.consume _ (PolledConnection.split_within found) }
    ∃ response, Kept key (taken.handshakeFrame stream key channel payload).1
      (taken.handshakeFrame stream key channel payload).2.1 response bodies replies := by
  have notDone : connection.handshake ≠ .done := by simpa [PolledConnection.isReady] using notReady
  -- The frame is read as one of the handshake's.
  have reads : ∀ more, Reader.initial.readAll key (payloadsOf (channel.received ++ more))
      = (Reader.read key ⟨connection.handshake, response, replies⟩ payload).readAll key
          (payloadsOf (connection.rx.pending.drop (prefixLen + payload.length) ++ more)) := by
    intro more
    rw [kept.reads, payloadsOf_split found, Reader.readAll, if_neg]
    rintro ⟨-, long⟩
    exact absurd long (by omega)
  obtain ⟨whole, waiting, allEarly⟩ := kept.held notReady
  -- A frame that is of no use leaves the state it was read in.
  have useless : ∀ err, connection.handshake.feed key payload = (connection.handshake, .error err) →
      Kept key { connection with
          rx := connection.rx.consume _ (PolledConnection.split_within found) }
        channel response bodies replies := by
    intro err failed
    refine ⟨fun more => ?_, kept.asked, kept.next, kept.held, kept.early, kept.total⟩
    have same : Reader.read key ⟨connection.handshake, response, replies⟩ payload
        = ⟨connection.handshake, response, replies⟩ := by
      unfold Reader.read
      split
      · rename_i done
        exact absurd done notDone
      · rw [failed]
    rw [reads, ReceiveBuffer.pending_consume, same]
  dsimp only [PolledConnection.handshakeFrame]
  cases state : connection.handshake with
  | done => exact absurd state notDone
  | challenge =>
    rw [state] at useless
    cases decoded : decodeChallenge payload with
    | error err =>
      have failed : HandshakeState.challenge.feed key payload = (.challenge, .error err) := by
        simp [HandshakeState.feed, decoded]
      rw [failed]
      exact ⟨response, useless err failed⟩
    | ok nonce =>
      have answers : HandshakeState.challenge.feed key payload
          = (.verdict, .ok (.send (challengeResponse key nonce))) := by
        simp [HandshakeState.feed, decoded]
      -- Nothing has been handed over yet.
      obtain ⟨empty, -⟩ := List.append_eq_nil_iff.mp (whole.trans (kept.asked state))
      rw [answers]
      refine ⟨challengeResponse key nonce, Kept.flush stream ⟨fun more => ?_, by simp, kept.next,
        fun _ => ⟨by simp [empty], waiting, allEarly⟩, ?_, ?_⟩⟩
      · rw [reads, ReceiveBuffer.pending_consume, state]
        simp [Reader.read, answers]
      · rw [allEarly, empty]
        exact List.nil_prefix
      · simp [PolledConnection.unsent, empty, waiting]
  | verdict =>
    rw [state] at useless
    have fed : HandshakeState.verdict.feed key payload = (.done, .ok .ready) ∨
        ∃ err, HandshakeState.verdict.feed key payload = (.verdict, .error err) := by
      simp only [HandshakeState.feed]
      split_ifs
      · exact .inl rfl
      · exact .inr ⟨_, rfl⟩
      · exact .inr ⟨_, rfl⟩
    rcases fed with ready | ⟨err, failed⟩
    · rw [ready]
      refine ⟨response, Kept.flush stream ⟨fun more => ?_, by simp, kept.next,
        by simp [PolledConnection.isReady], kept.early, kept.total⟩⟩
      rw [reads, ReceiveBuffer.pending_consume, state]
      simp [Reader.read, ready]
    · rw [failed]
      exact ⟨response, useless err failed⟩

def foundIn : Except Error (Option Bytes) → List Bytes
  | .ok (some payload) => [payload]
  | .ok none | .error _ => []

theorem length_le_of_refuseLong {pending payload : Bytes}
    (found : splitFrameLimited pending maxFrameSize = .ok (some payload))
    (short : ∀ err, PolledConnection.refuseLongHandshakeFrame pending ≠ .error err) :
    payload.length ≤ maxHandshakeFrame := by
  obtain ⟨whole, fits⟩ := splitFrameLimited_eq_some found
  have narrow : maxFrameSize < 256 ^ 4 := by decide
  have declared : leNat (pending.take prefixLen) = payload.length := by
    rw [whole, frame, List.append_assoc, List.take_left' (by simp [prefixLen]),
      leNat_leBytes 4 _ (by omega)]
  have long : ¬ pending.length < prefixLen := by
    rw [whole, List.length_append, frame, List.length_append, leBytes_length, prefixLen]
    omega
  by_contra tooLong
  refine short (.protocol (.longHandshakeFrame payload.length)) ?_
  rw [PolledConnection.refuseLongHandshakeFrame, if_neg long]
  simp only [declared]
  rw [if_pos (by omega)]

/-- A search for a frame ends with the streams well formed and the frame found among the replies;
it ends with none only where there is no whole frame left. -/
structure Ends {S : Type} (key : SigningKey) (bodies replies : List Bytes)
    (search : PolledConnection × Channel S × Except Error (Option Bytes)) : Prop where
  kept : ∃ response, Kept key search.1 search.2.1 response bodies (replies ++ foundIn search.2.2)
  starved : search.2.2 = .ok none →
    splitFrameLimited search.1.rx.pending maxFrameSize = .ok none

theorem Ends.error {err : Error} (kept : Kept key connection channel response bodies replies) :
    Ends key bodies replies (connection, channel, .error err) := by
  refine ⟨⟨response, ?_⟩, by simp⟩
  rwa [foundIn, List.append_nil]

theorem Ends.nothing (kept : Kept key connection channel response bodies replies)
    (starved : splitFrameLimited connection.rx.pending maxFrameSize = .ok none) :
    Ends key bodies replies (connection, channel, .ok none) := by
  refine ⟨⟨response, ?_⟩, fun _ => starved⟩
  rwa [foundIn, List.append_nil]

theorem takeFrames (stream : ByteStream S)
    (kept : Kept key connection channel response bodies replies) :
    Ends key bodies replies (connection.takeFrames stream key channel) := by
  -- One frame at a time: the handshake's, heartbeats, and the one to stop at.
  fun_induction PolledConnection.takeFrames stream key connection channel generalizing response with
  | case1 connection channel err => exact .error kept
  | case2 connection channel err => exact .error kept
  | case3 connection channel none => exact .nothing kept none
  | case4 connection channel payload found taken next after err fails notReady =>
    rename_i short
    have brief := length_le_of_refuseLong found fun err => short err notReady
    obtain ⟨response, handshaken⟩ := kept.handshakeFrame stream notReady found brief
    rw [show PolledConnection.handshakeFrame stream key _ channel payload = _ from fails] at handshaken
    exact .error handshaken
  | case5 connection channel payload found taken next after goesOn notReady short =>
    rename_i ih
    have brief := length_le_of_refuseLong found fun err => short err notReady
    obtain ⟨response, handshaken⟩ := kept.handshakeFrame stream notReady found brief
    rw [show PolledConnection.handshakeFrame stream key _ channel payload = _ from goesOn]
      at handshaken
    exact ih handshaken
  | case6 connection channel payload found taken heartbeat ready short =>
    rename_i ih
    have read := kept.takes (by simpa using ready) found
    rw [if_pos heartbeat, List.append_nil] at read
    exact ih read
  | case7 connection channel payload found taken reply ready =>
    have read := kept.takes (by simpa using ready) found
    rw [if_neg reply] at read
    exact ⟨⟨response, read⟩, by simp⟩

theorem rx_pollNothing (now : Nat) (waiting : Bool) :
    (connection.pollNothing channel now waiting).1.rx = connection.rx := by
  have waits : (connection.nothingYet now waiting).1.rx = connection.rx := by
    unfold PolledConnection.nothingYet
    split_ifs
    · rfl
    · split <;> rfl
  unfold PolledConnection.pollNothing
  split <;> rename_i waited <;> rw [waited] at waits <;> exact waits

theorem Ends.pollNothing (kept : Kept key connection channel response bodies replies)
    (starved : splitFrameLimited connection.rx.pending maxFrameSize = .ok none) (now : Nat)
    (waiting : Bool) :
    Ends key bodies replies (connection.pollNothing channel now waiting) := by
  have waits := kept.pollNothing now waiting
  have found : foundIn (connection.pollNothing channel now waiting).2.2 = [] := by
    unfold PolledConnection.pollNothing
    split <;> rfl
  refine ⟨⟨response, by rwa [found, List.append_nil]⟩, fun _ => ?_⟩
  rw [rx_pollNothing]
  exact starved

theorem pollFound (stream : ByteStream S)
    (kept : Kept key connection channel response bodies replies) (now : Nat) (waiting : Bool) :
    Ends key bodies replies (connection.pollFound stream key channel now waiting) := by
  have flushed := kept.flush stream
  unfold PolledConnection.pollFound
  split <;> rename_i connection channel flushing <;> rw [flushing] at flushed
  · exact .error flushed
  have search := flushed.takeFrames stream
  split
  · -- No frame is there, so more is received once.
    rename_i connection channel taking
    rw [taking] at search
    obtain ⟨response, taken⟩ := search.kept
    have starved := search.starved rfl
    rw [foundIn, List.append_nil] at taken
    have received := taken.receiveOnce stream
    have pending : (connection.receiveOnce stream channel).2.2 = .ok 0 →
        (connection.receiveOnce stream channel).1.rx.pending = connection.rx.pending := by
      unfold PolledConnection.receiveOnce
      dsimp only
      split
      · simp
      · intro none
        have empty := List.length_eq_zero_iff.mp (Except.ok.inj none)
        rw [ReceiveBuffer.pending_append, ReceiveBuffer.pending_makeRoom, empty, List.append_nil]
    split <;> rename_i receiving <;> rw [receiving] at received pending
    · exact .error received
    · exact .pollNothing received ((pending rfl).symm ▸ starved) now waiting
    · have again := received.takeFrames stream
      split
      · rename_i taking
        rw [taking] at again
        obtain ⟨response, taken⟩ := again.kept
        rw [foundIn, List.append_nil] at taken
        exact .pollNothing taken (again.starved rfl) now waiting
      · exact again
  · exact search

theorem answer (kept : Kept key connection channel response bodies replies) (payload : Bytes) :
    Kept key (connection.answer payload).1 channel response bodies replies := by
  have next : ∀ reply, (connection.outstanding.observe reply).1.next
      = connection.outstanding.next := by
    intro reply
    cases reply <;> simp only [Outstanding.observe, Outstanding.early, Outstanding.settle] <;>
      split_ifs <;> rfl
  unfold PolledConnection.answer
  split
  · exact kept
  · rename_i reply _
    have same := next reply
    split <;> rename_i observed <;> rw [observed] at same
    · exact kept.congr rfl rfl same rfl rfl
    · exact kept.congr rfl rfl same rfl rfl

end Kept

end

end Melin.Client
