import Melin.Client.Replies
import Melin.Wire.RequestFrames

/-! A connection driven over a polled byte stream: protocol state with no stream of its own. -/

namespace Melin.Client

open Lib

/-- A non-blocking byte stream to a node: what each call answers in each of its states. -/
structure ByteStream (S : Type) where
  /-- Queue as much of the data as the stream takes now. -/
  send : S → Bytes → S × Except IoErrorKind Nat
  takes : ∀ state data n, (send state data).2 = .ok n → n ≤ data.length
  /-- Read what has arrived into that much room. -/
  recv : S → Nat → S × Except IoErrorKind Bytes
  gives : ∀ state room bytes, (recv state room).2 = .ok bytes → bytes.length ≤ room
  /-- The free region an in-place send lends, if there is one. -/
  lend : S → S × Except IoErrorKind (Option Bytes)
  /-- How much is queued of a region that so many bytes were written to. -/
  queue : S → Bytes → Nat → S × Except IoErrorKind Nat
  queues : ∀ state region written n, (queue state region written).2 = .ok n → n ≤ written

/-- Bytes handed to a stream, and whether the node had said by then that it is ready. -/
structure Handover where
  ready : Bool
  bytes : Bytes
  deriving DecidableEq, Repr

/-- A stream during a call, with what went through it either way. -/
structure Channel (S : Type) where
  state : S
  handed : List Handover
  received : Bytes

def handedBytes (handed : List Handover) : Bytes := handed.flatMap Handover.bytes

/-- Bytes framed for a stream, which has taken those before the cursor. -/
structure SendQueue where
  bytes : Bytes
  head : Nat
  inside : head ≤ bytes.length
  deriving DecidableEq

namespace SendQueue

def of (bytes : Bytes) : SendQueue := { bytes, head := 0, inside := Nat.zero_le _ }

def unsent (queue : SendQueue) : Bytes := queue.bytes.drop queue.head

def took (queue : SendQueue) (n : Nat) (within : n ≤ queue.unsent.length) : SendQueue :=
  { queue with head := queue.head + n
               inside := by
                 have inside := queue.inside
                 rw [unsent, List.length_drop] at within
                 omega }

def reset (queue : SendQueue) : SendQueue :=
  if queue.head = queue.bytes.length then of [] else queue

theorem length_unsent_took (queue : SendQueue) {n : Nat} (within : n ≤ queue.unsent.length) :
    (queue.took n within).unsent.length = queue.unsent.length - n := by
  simp only [unsent, took, List.length_drop]
  omega

end SendQueue

section

variable {S : Type} (stream : ByteStream S)

def drain (ready : Bool) (queue : SendQueue) (channel : Channel S) :
    SendQueue × Channel S × Except Error Unit :=
  if queue.unsent = [] then (queue, channel, .ok ())
  else
    match answer : stream.send channel.state queue.unsent with
    | (state, .error kind) => (queue, { channel with state }, .error (.io kind))
    | (state, .ok n) =>
      if n = 0 then (queue, { channel with state }, .ok ())
      else
        drain ready (queue.took n (stream.takes channel.state _ n (by rw [answer])))
          { channel with state
                         handed := channel.handed ++ [⟨ready, queue.unsent.take n⟩] }
termination_by queue.unsent.length
decreasing_by
  rw [queue.length_unsent_took]
  have whole : queue.unsent.length ≠ 0 := by
    rwa [ne_eq, List.length_eq_zero_iff]
  omega

end

def maxWireFrame : Nat := prefixLen + maxFrameSize

def receiveBuffer : Nat := 16 * maxWireFrame

/-- A flat buffer of received bytes, and the cursors around those not yet split. -/
structure ReceiveBuffer where
  buf : Bytes
  head : Nat
  tail : Nat
  ordered : head ≤ tail
  inside : tail ≤ buf.length
  deriving DecidableEq

namespace ReceiveBuffer

def fresh : ReceiveBuffer :=
  { buf := List.replicate receiveBuffer 0, head := 0, tail := 0
    ordered := .refl, inside := Nat.zero_le _ }

def pending (rx : ReceiveBuffer) : Bytes := slice rx.buf rx.head (rx.tail - rx.head)

def room (rx : ReceiveBuffer) : Nat := rx.buf.length - rx.tail

theorem compacted_inside (rx : ReceiveBuffer) :
    rx.tail - rx.head ≤ (rx.pending ++ rx.buf.drop (rx.tail - rx.head)).length := by
  have ordered := rx.ordered
  have inside := rx.inside
  simp only [pending, slice, List.length_append, List.length_take, List.length_drop]
  omega

/-- The bytes not yet split go to the front, when there is something in front of them to reclaim. -/
def compacted (rx : ReceiveBuffer) (wanted : Nat) : ReceiveBuffer :=
  if rx.head = rx.tail then
    { rx with head := 0, tail := 0, ordered := .refl, inside := Nat.zero_le _ }
  else if rx.room < wanted ∧ 0 < rx.head then
    { buf := rx.pending ++ rx.buf.drop (rx.tail - rx.head), head := 0, tail := rx.tail - rx.head
      ordered := Nat.zero_le _, inside := rx.compacted_inside }
  else rx

def makeRoom (rx : ReceiveBuffer) (wanted : Nat) : ReceiveBuffer :=
  let rx := rx.compacted wanted
  if rx.room < wanted then
    { rx with buf := rx.buf ++ List.replicate (rx.tail + wanted - rx.buf.length) 0
              inside := by
                have inside := rx.inside
                rw [List.length_append]
                omega }
  else rx

def append (rx : ReceiveBuffer) (bytes : Bytes) (_fits : bytes.length ≤ rx.room) : ReceiveBuffer :=
  { buf := rx.buf.take rx.tail ++ bytes ++ rx.buf.drop (rx.tail + bytes.length)
    head := rx.head, tail := rx.tail + bytes.length
    ordered := rx.ordered.trans (Nat.le_add_right ..)
    inside := by
      have inside := rx.inside
      simp only [List.length_append, List.length_take, List.length_drop]
      omega }

theorem room_makeRoom (rx : ReceiveBuffer) (wanted : Nat) : wanted ≤ (rx.makeRoom wanted).room := by
  unfold makeRoom
  dsimp only
  split_ifs with short
  · have inside := (rx.compacted wanted).inside
    simp only [room, List.length_append, List.length_replicate] at short ⊢
    omega
  · omega

def consume (rx : ReceiveBuffer) (n : Nat) (within : n ≤ rx.pending.length) : ReceiveBuffer :=
  { rx with head := rx.head + n
            ordered := by
              have ordered := rx.ordered
              simp only [pending, slice, List.length_take] at within
              omega }

theorem pending_consume (rx : ReceiveBuffer) {n : Nat} (within : n ≤ rx.pending.length) :
    (rx.consume n within).pending = rx.pending.drop n := by
  have count : rx.tail - (rx.head + n) = rx.tail - rx.head - n := by omega
  simp only [pending, consume, slice, List.drop_take, List.drop_drop, count]

end ReceiveBuffer

structure PolledConnection where
  handshake : HandshakeState
  challengeResponse : SendQueue
  rx : ReceiveBuffer
  /-- Requests framed in the scratch buffer. -/
  tx : SendQueue
  readTimeout : Nat
  deadline : Option Nat
  outstanding : Outstanding

namespace PolledConnection

def withTimeout (readTimeout : Nat) : PolledConnection :=
  { handshake := .challenge, challengeResponse := .of [], rx := .fresh, tx := .of []
    readTimeout, deadline := none, outstanding := .initial }

def isReady (connection : PolledConnection) : Bool := connection.handshake == .done

def unsent (connection : PolledConnection) : Bytes :=
  connection.challengeResponse.unsent ++ connection.tx.unsent

def deadlineFrom (connection : PolledConnection) (now : Nat) : Nat :=
  min (now + connection.readTimeout) (2 ^ 64 - 1)

def feed (connection : PolledConnection) (bytes : Bytes) : PolledConnection :=
  { connection with
    rx := (connection.rx.makeRoom bytes.length).append bytes (connection.rx.room_makeRoom _) }

section

variable {S : Type} (stream : ByteStream S)

/-- Hand the stream what is queued: the challenge response, then requests once the node is ready. -/
def flush (connection : PolledConnection) (channel : Channel S) :
    PolledConnection × Channel S × Except Error Unit :=
  let (response, channel, result) :=
    drain stream connection.isReady connection.challengeResponse channel
  let connection := { connection with challengeResponse := response }
  match result with
  | .error err => (connection, channel, .error err)
  | .ok () =>
    if response.unsent ≠ [] ∨ connection.isReady = false then (connection, channel, .ok ())
    else
      let (tx, channel, result) := drain stream true connection.tx channel
      match result with
      | .error err => ({ connection with tx }, channel, .error err)
      | .ok () => ({ connection with tx := tx.reset }, channel, .ok ())

def requestSent (connection : PolledConnection) (now : Nat) : PolledConnection × Nat :=
  let (outstanding, id) := connection.outstanding.sent
  ({ connection with outstanding
                     deadline := connection.deadline.or (some (connection.deadlineFrom now)) }, id)

section

variable {Err : Type} (refused : RequestFrameError → Err)

def frameInScratch (connection : PolledConnection) (needed id : Nat) (encoder : BodyEncoder Err) :
    PolledConnection × Except Err Unit :=
  let queued := connection.tx.unsent
  let (region, result) := frameRequest refused (List.replicate needed 0) id encoder
  match result with
  | .ok written => ({ connection with tx := .of (queued ++ region.take written) }, .ok ())
  | .error err => ({ connection with tx := .of queued }, .error err)

inductive InPlace (Err : Type) where
  | framed (outcome : Except Err Nat) (queued : Nat)
  /-- No region was lent, or one too short. -/
  | notTaken

def frameInPlace (channel : Channel S) (needed id : Nat) (encoder : BodyEncoder Err) :
    Channel S × Except IoErrorKind (InPlace Err) :=
  match stream.lend channel.state with
  | (state, .error kind) => ({ channel with state }, .error kind)
  | (state, .ok none) => ({ channel with state }, .ok .notTaken)
  | (state, .ok (some region)) =>
    if region.length < needed then
      match stream.queue state region 0 with
      | (state, .error kind) => ({ channel with state }, .error kind)
      | (state, .ok _) => ({ channel with state }, .ok .notTaken)
    else
      let (region, outcome) := frameRequest refused region id encoder
      let written := match outcome with
        | .ok written => written
        | .error _ => 0
      match stream.queue state region written with
      | (state, .error kind) => ({ channel with state }, .error kind)
      | (state, .ok queued) =>
        ({ channel with state, handed := channel.handed ++ [⟨true, region.take queued⟩] },
          .ok (.framed outcome queued))

variable (failed : Error → Err)

def sendFromScratch (connection : PolledConnection) (channel : Channel S) (now needed id : Nat)
    (encoder : BodyEncoder Err) : PolledConnection × Channel S × Except Err Nat :=
  match connection.frameInScratch refused needed id encoder with
  | (connection, .error err) => (connection, channel, .error err)
  | (connection, .ok ()) =>
    let (connection, id) := connection.requestSent now
    match connection.flush stream channel with
    | (connection, channel, .error err) => (connection, channel, .error (failed err))
    | (connection, channel, .ok ()) => (connection, channel, .ok id)

def sendWith (connection : PolledConnection) (channel : Channel S) (now maxBody : Nat)
    (encoder : BodyEncoder Err) : PolledConnection × Channel S × Except Err Nat :=
  let needed := requestHeaderLen + min maxBody maxRequestBody
  let id := connection.outstanding.next
  match connection.flush stream channel with
  | (connection, channel, .error err) => (connection, channel, .error (failed err))
  | (connection, channel, .ok ()) =>
    if connection.isReady = true ∧ connection.tx.unsent = [] then
      match frameInPlace stream refused channel needed id encoder with
      | (channel, .error kind) => (connection, channel, .error (failed (.io kind)))
      | (channel, .ok (.framed (.ok written) queued)) =>
        if queued = written then
          let (connection, id) := connection.requestSent now
          (connection, channel, .ok id)
        else (connection, channel, .error (failed (.queuedPartly queued written)))
      | (channel, .ok (.framed (.error err) _)) => (connection, channel, .error err)
      | (channel, .ok .notTaken) =>
        connection.sendFromScratch stream refused failed channel now needed id encoder
    else connection.sendFromScratch stream refused failed channel now needed id encoder

end

def frameError : RequestFrameError → Error
  | .requestTooLarge len => .requestTooLarge len
  | .bufferTooSmall needed available => .bufferTooSmall needed available

def copyError (body : Bytes) (room : Nat) : Error :=
  .bufferTooSmall (requestHeaderLen + body.length) (requestHeaderLen + room)

def send (connection : PolledConnection) (channel : Channel S) (now : Nat) (body : Bytes) :
    PolledConnection × Channel S × Except Error Nat :=
  match requestPayloadLen body.length with
  | .error err => (connection, channel, .error (frameError err))
  | .ok _ =>
    connection.sendWith stream frameError id channel now body.length
      (copyEncoder (copyError body) body)

def refuseLongHandshakeFrame (buf : Bytes) : Except Error Unit :=
  if buf.length < prefixLen then .ok ()
  else
    let len := leNat (buf.take prefixLen)
    if maxHandshakeFrame < len ∧ len ≤ maxFrameSize then
      .error (.protocol (.longHandshakeFrame len))
    else .ok ()

def handshakeFrame (key : SigningKey) (connection : PolledConnection) (channel : Channel S)
    (payload : Bytes) : PolledConnection × Channel S × Except Error Unit :=
  match connection.handshake.feed key payload with
  | (handshake, .error err) => ({ connection with handshake }, channel, .error err)
  | (handshake, .ok (.send response)) =>
    flush stream { connection with handshake, challengeResponse := .of response, deadline := none }
      channel
  | (handshake, .ok .ready) => flush stream { connection with handshake, deadline := none } channel

theorem rx_flush (connection : PolledConnection) (channel : Channel S) :
    (connection.flush stream channel).1.rx = connection.rx := by
  simp only [flush]
  split
  · rfl
  · split_ifs
    · rfl
    · split <;> rfl

theorem rx_handshakeFrame (key : SigningKey) (connection : PolledConnection) (channel : Channel S)
    (payload : Bytes) :
    (connection.handshakeFrame stream key channel payload).1.rx = connection.rx := by
  unfold handshakeFrame
  split
  · rfl
  · rw [rx_flush]
  · rw [rx_flush]

theorem split_within {rx : ReceiveBuffer} {payload : Bytes}
    (found : splitFrameLimited rx.pending maxFrameSize = .ok (some payload)) :
    prefixLen + payload.length ≤ rx.pending.length := by
  have whole := congrArg List.length (splitFrameLimited_eq_some found).1
  simp only [List.length_append, frame, leBytes_length] at whole
  simp only [prefixLen]
  omega

def takeFrames (key : SigningKey) (connection : PolledConnection) (channel : Channel S) :
    PolledConnection × Channel S × Except Error (Option Bytes) :=
  match connection.isReady, refuseLongHandshakeFrame connection.rx.pending with
  | false, .error err => (connection, channel, .error err)
  | ready, _ =>
    match found : splitFrameLimited connection.rx.pending maxFrameSize with
    | .error err => (connection, channel, .error (.frameTooLarge err))
    | .ok none => (connection, channel, .ok none)
    | .ok (some payload) =>
      -- The frame is consumed whatever comes of it.
      let taken := { connection with
        rx := connection.rx.consume (prefixLen + payload.length) (split_within found) }
      if ready = false then
        match _handshaken : taken.handshakeFrame stream key channel payload with
        | (next, after, .error err) => (next, after, .error err)
        | (next, after, .ok ()) => next.takeFrames key after
      else if isHeartbeat payload then taken.takeFrames key channel
      else (taken, channel, .ok (some payload))
termination_by connection.rx.pending.length
decreasing_by
  · have same := rx_handshakeFrame stream key taken channel payload
    rw [_handshaken] at same
    rw [same, ReceiveBuffer.pending_consume]
    exact length_drop_splitFrame found
  · rw [ReceiveBuffer.pending_consume]
    exact length_drop_splitFrame found

def receiveOnce (connection : PolledConnection) (channel : Channel S) :
    PolledConnection × Channel S × Except Error Nat :=
  let rx := connection.rx.makeRoom maxWireFrame
  match answer : stream.recv channel.state rx.room with
  | (state, .error kind) =>
    ({ connection with rx }, { channel with state },
      .error (if kind = .unexpectedEof then .disconnected else .io kind))
  | (state, .ok bytes) =>
    ({ connection with
        rx := rx.append bytes (stream.gives channel.state rx.room bytes (by rw [answer])) },
      { channel with state, received := channel.received ++ bytes }, .ok bytes.length)

/-- A poll that found no frame: start the wait if a reply is owed, or report the silence. -/
def nothingYet (connection : PolledConnection) (now : Nat) (waiting : Bool) :
    PolledConnection × Except Error Unit :=
  if (waiting || !connection.outstanding.ids.isEmpty || !connection.isReady) = false then
    (connection, .ok ())
  else
    match connection.deadline with
    | none => ({ connection with deadline := some (connection.deadlineFrom now) }, .ok ())
    | some deadline =>
      (connection, if deadline ≤ now then .error (.noReply connection.readTimeout) else .ok ())

def pollNothing (connection : PolledConnection) (channel : Channel S) (now : Nat)
    (waiting : Bool) : PolledConnection × Channel S × Except Error (Option Bytes) :=
  match connection.nothingYet now waiting with
  | (connection, .error err) => (connection, channel, .error err)
  | (connection, .ok ()) => (connection, channel, .ok none)

/-- The next frame that is not a heartbeat, consumed and not yet classified. -/
def pollFound (key : SigningKey) (connection : PolledConnection) (channel : Channel S)
    (now : Nat) (waiting : Bool) : PolledConnection × Channel S × Except Error (Option Bytes) :=
  match connection.flush stream channel with
  | (connection, channel, .error err) => (connection, channel, .error err)
  | (connection, channel, .ok ()) =>
    match connection.takeFrames stream key channel with
    | (connection, channel, .ok none) =>
      match connection.receiveOnce stream channel with
      | (connection, channel, .error err) => (connection, channel, .error err)
      | (connection, channel, .ok 0) => connection.pollNothing channel now waiting
      | (connection, channel, .ok _) =>
        match connection.takeFrames stream key channel with
        | (connection, channel, .ok none) => connection.pollNothing channel now waiting
        | stopped => stopped
    | stopped => stopped

def answer (connection : PolledConnection) (payload : Bytes) :
    PolledConnection × Except Error Frame :=
  match classifyAnswer payload with
  | .error err => (connection, .error err)
  | .ok reply =>
    match connection.outstanding.observe reply with
    | (outstanding, .error err) => ({ connection with outstanding }, .error err)
    | (outstanding, .ok ()) => ({ connection with outstanding, deadline := none }, .ok reply)

/-- The next frame from the node, or nothing when none has arrived whole. -/
def poll (key : SigningKey) (connection : PolledConnection) (channel : Channel S) (now : Nat) :
    PolledConnection × Channel S × Except Error (Option Frame) :=
  match connection.pollFound stream key channel now false with
  | (connection, channel, .error err) => (connection, channel, .error err)
  | (connection, channel, .ok none) => (connection, channel, .ok none)
  | (connection, channel, .ok (some payload)) =>
    match connection.answer payload with
    | (connection, .error err) => (connection, channel, .error err)
    | (connection, .ok reply) => (connection, channel, .ok (some reply))

end

end PolledConnection

end Melin.Client
