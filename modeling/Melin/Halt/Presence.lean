import Melin.Gate.DegradedRelease

/-! The halt override, access by access: senders that count, and a producer that decides. -/

namespace Melin

structure SharedPresence extends ReplicaPresence where
  /-- First acks ever received: the generation an override is bound to. -/
  acked : Nat
  /-- Zero when no override is latched, or else the generation it was latched at plus one. -/
  overrideAt : Nat
  deriving DecidableEq, Repr

namespace SharedPresence

def new (now : Nat) : SharedPresence := { ReplicaPresence.new now with acked := 0, overrideAt := 0 }

def overridden (presence : SharedPresence) : Bool :=
  presence.overrideAt != 0 && presence.overrideAt == presence.acked + 1

def halted (presence : SharedPresence) : Bool := presence.connected == 0 && !presence.overridden

end SharedPresence

/-- What a replica's departure left behind. -/
inductive Lowered where
  | othersRemain
  | lastHalted
  | lastOverridden
  deriving DecidableEq, Repr

inductive Sender where
  | away
  /-- The count is raised, the last loss not yet forgotten. -/
  | lifting
  | streaming (acked : Bool)
  /-- The loss is stamped, the count not yet lowered. -/
  | lowering
  /-- It took the count to zero, and reads the override. -/
  | lastOne
  | lastSaw (latched : Nat)
  | gone (lowered : Lowered)
  deriving DecidableEq, Repr

/-- What the producer saw when it looked. -/
structure Observed where
  /-- The first-ack generation, read first. -/
  generation : Nat
  /-- Whether a replica was streaming, read second. -/
  connected : Bool
  moment : Nat
  deriving DecidableEq, Repr

inductive HaltedCall where
  | idle
  | sawNone
  | sawLatch (latched : Nat) (inForce : Bool)
  /-- Its answer, with whether it saw a replica counted, or read the latch of an override in
  force. -/
  | answered (halted sawReplica inForce : Bool)
  deriving DecidableEq, Repr

structure HaltState where
  presence : SharedPresence
  senders : Nat → Sender
  calls : Nat → HaltedCall
  /-- An observation under way: its generation, and the moment of that read. -/
  observing : Option (Nat × Nat)
  held : List Observed
  now : Nat
  firstAcks : List Nat
  latches : List (Nat × Observed)
  clears : List Nat

/-- One atomic access of one thread. -/
inductive HaltAct where
  | lift (sender : Nat)
  | forgetLoss (sender : Nat)
  | acked (sender : Nat)
  | stampLoss (sender instant : Nat)
  | lower (sender : Nat)
  | lowerReadsLatch (sender : Nat)
  | lowerReadsAcked (sender : Nat)
  | observeGeneration
  | observeCount
  | latchOverride (index : Nat)
  | clearOverride (index : Nat)
  | haltedReadsCount (call : Nat)
  | haltedReadsLatch (call : Nat)
  | haltedReadsAcked (call : Nat)
  deriving DecidableEq, Repr

def HaltState.new (now : Nat) : HaltState :=
  { presence := .new now, senders := fun _ => .away, calls := fun _ => .idle, observing := none
    held := [], now := 0, firstAcks := [], latches := [], clears := [] }

namespace HaltState

def setSender (state : HaltState) (sender : Nat) (next : Sender) : HaltState :=
  { state with senders := Function.update state.senders sender next }

def setCall (state : HaltState) (call : Nat) (next : HaltedCall) : HaltState :=
  { state with calls := Function.update state.calls call next }

def access (state : HaltState) : HaltAct → Option HaltState
  | .lift sender =>
    if state.senders sender = .away then
      some ({ state with
        presence.connected := state.presence.connected + 1 }.setSender sender .lifting)
    else none
  | .forgetLoss sender =>
    if state.senders sender = .lifting then
      some ({ state with presence.lastLost := none }.setSender sender (.streaming false))
    else none
  | .acked sender =>
    match state.senders sender with
    | .streaming false =>
      some ({ state with
        presence.acked := state.presence.acked + 1
        firstAcks := state.firstAcks ++ [state.now] }.setSender sender (.streaming true))
    | .streaming true => some state
    | _ => none
  | .stampLoss sender instant =>
    match state.senders sender with
    | .streaming _ =>
      some ({ state with presence.lastLost := some instant }.setSender sender .lowering)
    | _ => none
  | .lower sender =>
    if state.senders sender = .lowering then
      some ({ state with presence.connected := state.presence.connected - 1 }.setSender sender
        (if state.presence.connected = 1 then .lastOne else .gone .othersRemain))
    else none
  | .lowerReadsLatch sender =>
    if state.senders sender = .lastOne then
      some (state.setSender sender (.lastSaw state.presence.overrideAt))
    else none
  | .lowerReadsAcked sender =>
    match state.senders sender with
    | .lastSaw latched =>
      some (state.setSender sender (.gone
        (if latched ≠ 0 ∧ latched = state.presence.acked + 1 then .lastOverridden
          else .lastHalted)))
    | _ => none
  | .observeGeneration =>
    match state.observing with
    | none => some { state with observing := some (state.presence.acked, state.now) }
    | some _ => none
  | .observeCount =>
    match state.observing with
    | some (generation, moment) =>
      let connected := state.presence.connected != 0
      some { state with observing := none, held := state.held ++ [⟨generation, connected, moment⟩] }
    | none => none
  | .latchOverride index =>
    match state.held[index]? with
    | some seen =>
      if seen.connected then none
      else
        some { state with
          presence.overrideAt := seen.generation + 1
          held := state.held.eraseIdx index
          latches := state.latches ++ [(state.now, seen)] }
    | none => none
  | .clearOverride index =>
    match state.held[index]? with
    | some _ =>
      some { state with
        presence.overrideAt := 0
        held := state.held.eraseIdx index
        clears := state.clears ++ [state.now] }
    | none => none
  | .haltedReadsCount call =>
    match state.calls call with
    | .idle | .answered .. =>
      some (state.setCall call
        (if state.presence.connected = 0 then .sawNone else .answered false true false))
    | .sawNone | .sawLatch .. => none
  | .haltedReadsLatch call =>
    if state.calls call = .sawNone then
      some (state.setCall call (.sawLatch state.presence.overrideAt state.presence.overridden))
    else none
  | .haltedReadsAcked call =>
    match state.calls call with
    | .sawLatch latched inForce =>
      some (state.setCall call
        (.answered (!(latched != 0 && latched == state.presence.acked + 1)) false inForce))
    | _ => none

def step (act : HaltAct) (state : HaltState) : Option HaltState :=
  (state.access act).map fun after => { after with now := state.now + 1 }

end HaltState

end Melin
