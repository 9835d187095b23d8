import Melin.Wire.ControlCodec

/-! A node's frames as a client sees them, and the requests they answer. -/

namespace Melin.Client

open Lib

def tagApp : UInt8 := 0x09

def tagChallengeResponse : UInt8 := 0x06

inductive ProtocolFault where
  | emptyFrame
  | unexpectedTag (tag : UInt8)
  /-- A final frame that is not its tag and its ID. -/
  | finalLength (len : Nat) (what : String)
  | badRefusal (err : BadRefusal)
  | responseWithoutRequest
  | notOutstanding (what : String) (id : Nat)
  /-- A busy or a refusal inside another request's reply. -/
  | insideReply (what : String) (id : Nat)
  | notAChallenge (len : Nat) (tag : Option UInt8)
  | notAVerdict (tag : Option UInt8)
  | handshakeComplete
  | longHandshakeFrame (len : Nat)
  deriving DecidableEq, Repr

inductive Error where
  | io (kind : IoErrorKind)
  | authFailed (publicKey : Digest)
  /-- The time the node had to answer in. -/
  | noReply (timeout : Nat)
  | disconnected
  | protocol (fault : ProtocolFault)
  | protocolVersion (node client : Nat)
  | frameTooLarge (err : FrameTooLarge)
  | requestTooLarge (len : Nat)
  | bufferTooSmall (needed available : Nat)
  /-- The stream queued part of what was framed in its memory. -/
  | queuedPartly (queued written : Nat)
  deriving DecidableEq

inductive Ack where
  | policy
  | primaryOnly
  deriving DecidableEq, Repr

/-- A frame a connection hands over. -/
inductive Frame where
  | response (body : Bytes)
  | batchEnd (id : Nat) (ack : Ack)
  | serverBusy (id : Nat)
  | refused (id : Nat) (kind : RefusalKind) (reason : String)
  deriving DecidableEq, Repr

def isHeartbeat (payload : Bytes) : Bool := payload.head? == some tagResponseHeartbeat

def terminalRequestId (payload : Bytes) : Option Nat :=
  match payload with
  | [] => none
  | tag :: _ =>
    if tag = tagBatchEnd ∨ tag = tagBatchEndDegraded ∨ tag = tagServerBusy ∨ tag = tagRefused then
      readId payload
    else none

def idFrame (payload : Bytes) (what : String) : Except Error Nat :=
  match terminalRequestId payload with
  | some id =>
    if payload.length = tagLen + requestIdLen then .ok id
    else .error (.protocol (.finalLength payload.length what))
  | none => .error (.protocol (.finalLength payload.length what))

def classifyAnswer (payload : Bytes) : Except Error Frame :=
  match payload with
  | [] => .error (.protocol .emptyFrame)
  | tag :: body =>
    if tag = tagApp then .ok (.response body)
    else if tag = tagBatchEnd then do return .batchEnd (← idFrame payload "batch end") .policy
    else if tag = tagBatchEndDegraded then do
      return .batchEnd (← idFrame payload "degraded batch end") .primaryOnly
    else if tag = tagServerBusy then do return .serverBusy (← idFrame payload "busy frame")
    else if tag = tagRefused then
      match decodeRefused payload with
      | .ok refused => .ok (.refused refused.id refused.kind refused.reason)
      | .error err => .error (.protocol (.badRefusal err))
    else .error (.protocol (.unexpectedTag tag))

def maxHandshakeFrame : Nat := 64

/-- The requests sent and not yet answered, and the ID the next one takes. -/
structure Outstanding where
  next : Nat
  /-- In the order they were sent. -/
  ids : List Nat
  /-- Whether responses came since the last final frame. -/
  midBatch : Bool
  deriving DecidableEq, Repr

namespace Outstanding

def initial : Outstanding := { next := 1, ids := [], midBatch := false }

def sent (outstanding : Outstanding) : Outstanding × Nat :=
  ({ outstanding with next := outstanding.next + 1, ids := outstanding.ids ++ [outstanding.next] },
    outstanding.next)

def settle (outstanding : Outstanding) (id : Nat) (what : String) :
    Outstanding × Except Error Unit :=
  if id ∈ outstanding.ids then
    ({ outstanding with ids := outstanding.ids.erase id, midBatch := false }, .ok ())
  else (outstanding, .error (.protocol (.notOutstanding what id)))

def early (outstanding : Outstanding) (id : Nat) (what : String) :
    Outstanding × Except Error Unit :=
  if outstanding.midBatch then (outstanding, .error (.protocol (.insideReply what id)))
  else outstanding.settle id what

def observe (outstanding : Outstanding) : Frame → Outstanding × Except Error Unit
  | .response _ =>
    if outstanding.ids = [] then (outstanding, .error (.protocol .responseWithoutRequest))
    else ({ outstanding with midBatch := true }, .ok ())
  | .batchEnd id _ => outstanding.settle id "batch end"
  | .serverBusy id => outstanding.early id "busy"
  | .refused id _ _ => outstanding.early id "refusal"

end Outstanding

structure SigningKey where
  publicKey : Digest
  sign : Bytes → Bytes
  width : ∀ nonce, (sign nonce).length = 64

/-- Which of the node's frames the handshake waits for. -/
inductive HandshakeState where
  | challenge
  | verdict
  | done
  deriving DecidableEq, Repr

/-- What the handshake wants done after a frame. -/
inductive HandshakeStep where
  | send (response : Bytes)
  | ready

def decodeChallenge (payload : Bytes) : Except Error Bytes :=
  match payload with
  | [] => .error (.protocol (.notAChallenge 0 none))
  | tag :: rest =>
    if tag ≠ tagChallenge then .error (.protocol (.notAChallenge payload.length (some tag)))
    else if payload.length = tagLen + challengeNonceLen then .error (.protocolVersion 0 clientProtocolVersion)
    else if payload.length = tagLen + challengeVersionLen + challengeNonceLen then
      let version := leNat (rest.take challengeVersionLen)
      if version ≠ clientProtocolVersion then .error (.protocolVersion version clientProtocolVersion)
      else .ok (rest.drop challengeVersionLen)
    else .error (.protocol (.notAChallenge payload.length (some tag)))

def challengeResponse (key : SigningKey) (nonce : Bytes) : Bytes :=
  frame (tagChallengeResponse :: (key.sign nonce ++ key.publicKey.bytes))

/-- One frame of the node's during the handshake. -/
def HandshakeState.feed (key : SigningKey) (state : HandshakeState) (payload : Bytes) :
    HandshakeState × Except Error HandshakeStep :=
  match state with
  | .challenge =>
    match decodeChallenge payload with
    | .error err => (state, .error err)
    | .ok nonce => (.verdict, .ok (.send (challengeResponse key nonce)))
  | .verdict =>
    if payload.head? = some tagServerReady then (.done, .ok .ready)
    else if payload.head? = some tagAuthFailed then (state, .error (.authFailed key.publicKey))
    else (state, .error (.protocol (.notAVerdict payload.head?)))
  | .done => (state, .error (.protocol .handshakeComplete))

end Melin.Client
