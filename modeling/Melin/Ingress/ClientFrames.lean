import Melin.Halt.HaltGate
import Melin.Pipeline.InputSlot
import Melin.Wire.Framing

/-! Client requests at ingress: published, answered early, shed or parked. -/

namespace Melin

open Lib

def tagRequest : UInt8 := 0x0B

def requestTagAndIdLen : Nat := 9

def maxFrameSize : Nat := 1024

inductive NotARequest where
  | empty
  | tag (tag : UInt8)
  | tooShort (len : Nat)
  deriving DecidableEq, Repr

structure Request where
  requestId : Nat
  body : Bytes
  deriving DecidableEq, Repr

def splitRequest (payload : Bytes) : Except NotARequest Request :=
  match payload with
  | [] => .error .empty
  | tag :: _ =>
    if tag = tagRequest then
      if payload.length < requestTagAndIdLen then .error (.tooShort payload.length)
      else .ok { requestId := leNat (slice payload 1 8), body := payload.drop requestTagAndIdLen }
    else .error (.tag tag)

/-- Outcome of decoding a request's body. -/
inductive Decoded (E : Type) where
  | filter
  | permitted (event : E)
  | permissionDenied (reason : String)
  | decodeError (reason : String)

inductive RefusalKind where
  | permissionDenied
  | malformed
  deriving DecidableEq, Repr

inductive EarlyKind (R : Type) where
  /-- A write refused while the node is halted. -/
  | rejected (report : R)
  /-- A request the decoder filters: an empty batch. -/
  | filtered
  | refused (kind : RefusalKind) (reason : String)
  /-- A request shed because the input ring is full. -/
  | busy
  deriving DecidableEq, Repr

structure EarlyReply (R : Type) where
  connectionId : Nat
  requestId : Nat
  kind : EarlyKind R
  deriving DecidableEq, Repr

inductive Fate (E R : Type) where
  | published (slot : InputSlot E)
  | answered (reply : EarlyReply R)
  deriving DecidableEq, Repr

/-- Outcome of processing a receive. -/
inductive FrameAction where
  | continue
  | disconnect
  /-- The early-reply queue is full: try again later. -/
  | park
  deriving DecidableEq, Repr

/-- Requests answered early in one call. -/
structure IngressTally where
  shed : Nat
  filtered : Nat
  permissionDenied : Nat
  malformed : Nat
  /-- Writes refused by the halt. -/
  rejected : Nat
  deriving DecidableEq, Repr

/-- One client connection's input. -/
structure ClientIngress where
  /-- Bytes received and not yet processed. -/
  parseBuf : Bytes
  /-- How many bytes at the front are the rest of a shed tail. -/
  shedRemaining : Nat
  deriving DecidableEq, Repr

structure ClientConnection (E R : Type) where
  connectionId : Nat
  keyHash : UInt64
  /-- The application's decoder, under the connection's role. -/
  decode : Bytes → Decoded E
  /-- The application's rejection of a write on a halted node. -/
  buildReject : E → R

structure IngressCall where
  verdict : Verdict
  /-- Whether the input ring takes the frame that starts at this offset. -/
  ringRoom : Nat → Bool
  /-- Whether the early-reply queue takes its answer. -/
  earlyRoom : Nat → Bool
  batchWallNs : UInt64

structure FrameProgress (E R : Type) where
  cursor : Nat
  shedEnd : Nat
  /-- What the connection's requests came to, this call's behind those before it. -/
  fates : List (Fate E R)
  tally : IngressTally
  /-- The tails shed so far, as numbers of requests: the first, and the one behind the last. -/
  tails : List (Nat × Nat)

def completeFrames : Nat → Bytes → List Bytes
  | 0, _ => []
  | fuel + 1, bytes =>
    match splitFrameLimited bytes maxFrameSize with
    | .ok (some payload) => payload :: completeFrames fuel (bytes.drop (frame payload).length)
    | .ok none | .error _ => []

def completeFramesLen (bytes : Bytes) : Nat :=
  ((completeFrames bytes.length bytes).map fun payload => (frame payload).length).sum

section

variable {E R : Type} [AppEvent E]

def InputSlot.client (connection : ClientConnection E R) (requestId : Nat) (event : E)
    (timestampNs : UInt64) : InputSlot E :=
  { connectionId := connection.connectionId, requestId, keyHash := connection.keyHash
    sequence := 0, timestampNs, event := .app event }

def IngressTally.count (tally : IngressTally) : EarlyKind R → IngressTally
  | .rejected _ => { tally with rejected := tally.rejected + 1 }
  | .refused .permissionDenied _ => { tally with permissionDenied := tally.permissionDenied + 1 }
  | .refused .malformed _ => { tally with malformed := tally.malformed + 1 }
  | .filtered => { tally with filtered := tally.filtered + 1 }
  | .busy => { tally with shed := tally.shed + 1 }

/-- Queue an early reply and go past the frame, or park before it. -/
def answerEarly (connection : ClientConnection E R) (call : IngressCall) (requestId consumed : Nat)
    (kind : EarlyKind R) (progress : FrameProgress E R) : Option (FrameProgress E R) :=
  if call.earlyRoom progress.cursor then
    some { progress with
      cursor := progress.cursor + consumed
      fates := progress.fates ++
        [.answered { connectionId := connection.connectionId, requestId, kind }]
      tally := progress.tally.count kind }
  else none

/-- What is done with a request outside a shed tail: an answer, or an event to publish. -/
def ingressDecision (connection : ClientConnection E R) (halted : Bool) (body : Bytes) :
    EarlyKind R ⊕ E :=
  match connection.decode body with
  | .filter => .inl .filtered
  | .permissionDenied reason => .inl (.refused .permissionDenied reason)
  | .decodeError reason => .inl (.refused .malformed reason)
  | .permitted event =>
    if halted && !AppEvent.isQuery event then .inl (.rejected (connection.buildReject event))
    else .inr event

def publishOrShed (connection : ClientConnection E R) (call : IngressCall) (parseBuf : Bytes)
    (requestId consumed : Nat) (event : E) (progress : FrameProgress E R) :
    FrameProgress E R × Option (FrameProgress E R) :=
  if call.ringRoom progress.cursor then
    let timestampNs := if AppEvent.isQuery event then 0 else call.batchWallNs
    let next :=
      { progress with
        cursor := progress.cursor + consumed
        fates := progress.fates ++ [.published (.client connection requestId event timestampNs)] }
    (next, some next)
  else
    -- The tail starts here, so a park on this very answer sheds the request on the next call.
    let behind := parseBuf.drop progress.cursor
    let shed :=
      { progress with
        shedEnd := progress.cursor + completeFramesLen behind
        tails := progress.tails ++ [(progress.fates.length,
          progress.fates.length + (completeFrames behind.length behind).length)] }
    (shed, answerEarly connection call requestId consumed .busy shed)

def processFramesUnflushed (connection : ClientConnection E R) (call : IngressCall)
    (parseBuf : Bytes) : Nat → FrameProgress E R → FrameProgress E R × FrameAction
  | 0, progress => (progress, .continue)
  | fuel + 1, progress =>
    match splitFrameLimited (parseBuf.drop progress.cursor) maxFrameSize with
    | .ok none => (progress, .continue)
    | .error _ => (progress, .disconnect)
    | .ok (some payload) =>
      let consumed := (frame payload).length
      match splitRequest payload with
      | .error _ => ({ progress with cursor := progress.cursor + consumed }, .disconnect)
      | .ok request =>
        if progress.cursor < progress.shedEnd then
          match answerEarly connection call request.requestId consumed .busy progress with
          | some next => processFramesUnflushed connection call parseBuf fuel next
          | none => (progress, .park)
        else
          match ingressDecision connection (call.verdict == .refuse) request.body with
          | .inl kind =>
            match answerEarly connection call request.requestId consumed kind progress with
            | some next => processFramesUnflushed connection call parseBuf fuel next
            | none => (progress, .park)
          | .inr event =>
            match publishOrShed connection call parseBuf request.requestId consumed event
              progress with
            | (_, some next) => processFramesUnflushed connection call parseBuf fuel next
            | (shed, none) => (shed, .park)

/-- A connection's input, and what its requests came to. -/
structure IngressState (E R : Type) where
  ingress : ClientIngress
  fates : List (Fate E R)
  tails : List (Nat × Nat)

def IngressState.new : IngressState E R :=
  { ingress := { parseBuf := [], shedRemaining := 0 }, fates := [], tails := [] }

/-- Extract, decode and publish the frames at hand, then compact the buffer. -/
def processClientFrames (connection : ClientConnection E R) (call : IngressCall)
    (state : IngressState E R) : IngressState E R × FrameAction :=
  -- A superseded node reads nothing.
  if call.verdict = .close then (state, .disconnect)
  else
    let parseBuf := state.ingress.parseBuf
    let (progress, action) := processFramesUnflushed connection call parseBuf (parseBuf.length + 1)
      { cursor := 0, shedEnd := state.ingress.shedRemaining, fates := state.fates
        tally := { shed := 0, filtered := 0, permissionDenied := 0, malformed := 0, rejected := 0 }
        tails := state.tails }
    ({ ingress :=
         { parseBuf := parseBuf.drop progress.cursor
           shedRemaining := progress.shedEnd - progress.cursor }
       fates := progress.fates
       tails := progress.tails }, action)

/-- What a reader does in one step: it appends what arrived, if anything, and calls. -/
structure IngressStep where
  received : Bytes
  call : IngressCall

/-- A connection's steps, until one closes it; nothing received stands for a retry. -/
def serveConnection (connection : ClientConnection E R) :
    List IngressStep → IngressState E R → IngressState E R × FrameAction
  | [], state => (state, .continue)
  | step :: steps, state =>
    let state :=
      { state with ingress.parseBuf := state.ingress.parseBuf ++ step.received }
    match processClientFrames connection step.call state with
    | (state, .disconnect) => (state, .disconnect)
    | (state, action) =>
      if steps = [] then (state, action) else serveConnection connection steps state

end

end Melin
