import Melin.Gate.DurabilityGate
import Melin.Lib.Interleaving
import Melin.Pipeline.InputSlot
import Melin.Transport.Dispatch
import Melin.Transport.Fence

/-! The matching stage: consume the input ring, apply what is journaled, answer into the output ring. -/

namespace Melin

open Lib

def maxMatchingBatch : Nat := 16

structure MatchedSlot (R Q : Type) extends OutputSlot R Q where
  requestId : Nat
  /-- Input-ring position of the event it answers. -/
  inputSeq : Nat
  isLastInRequest : Bool

structure OutputRing (R Q : Type) where
  capacity : Nat
  slots : List (MatchedSlot R Q)
  /-- How many of them the consumers may see. -/
  committed : Nat
  /-- How many of them the slowest consumer has taken. -/
  taken : Nat

namespace OutputRing

variable {R Q : Type}

def hasRoom (ring : OutputRing R Q) : Bool := ring.slots.length - ring.taken < ring.capacity

def push (ring : OutputRing R Q) (slot : MatchedSlot R Q) : OutputRing R Q :=
  { ring with slots := ring.slots ++ [slot] }

def commit (ring : OutputRing R Q) : OutputRing R Q :=
  { ring with committed := ring.slots.length }

def take (ring : OutputRing R Q) (count : Nat) : OutputRing R Q :=
  { ring with taken := min (ring.taken + count) ring.committed }

end OutputRing

inductive MatchingAct (E : Type) where
  | publish (slot : InputSlot E)
  | shutdown
  /-- Output slots are consumed. -/
  | take (count : Nat)
  /-- The journal's durable position moves. -/
  | durable (wireSeq : Nat)
  /-- Clients come and go. -/
  | connections (count : Nat)
  | observeEpoch (epoch : UInt64)

structure MatchingStage (A E R Q : Type) where
  app : A
  tickWatermark : TickWatermark
  /-- The sequence the next journaled event is expected to take. -/
  nextWireSeq : Nat
  /-- The read cursor in the input ring. -/
  nextRead : Nat
  eventsProcessed : Nat
  fenceState : FenceState
  ackPolicyJournaled : Option AckPolicyByte
  forcedPolicy : Option ForcedPolicy
  ring : List (InputSlot E)
  output : OutputRing R Q
  durableWireSeq : Nat
  activeConnections : Nat
  shutdown : Bool
  /-- What the other threads will do, before each access in turn. -/
  beats : List (List (MatchingAct E))

def MatchingAct.published {E : Type} : MatchingAct E → List (InputSlot E)
  | .publish slot => [slot]
  | .shutdown | .take _ | .durable _ | .connections _ | .observeEpoch _ => []

def JournalEvent.policyChange {E : Type} : JournalEvent E → Option AckPolicyChange
  | .ackPolicyChange change => some change
  | .tick _ | .epochBump _ | .shutdown | .app _ => none

/-- An application and the watermark its clock reached, as a stopped stage hands them back. -/
structure WarmApp (A : Type) where
  app : A
  tickWatermark : TickWatermark

section

variable {E R Q : Type}

def replySlot (input : InputSlot E) (inputSeq wireSeq : Nat) (payload : OutputPayload R Q)
    (isLastInRequest : Bool) : MatchedSlot R Q :=
  { connectionId := input.connectionId, requestId := input.requestId, inputSeq, wireSeq, payload
    isLastInRequest }

def ackPolicyChangeSlot (input : InputSlot E) (inputSeq wireSeq : Nat) (change : AckPolicyChange) :
    MatchedSlot R Q :=
  { connectionId := 0, requestId := input.requestId, inputSeq, wireSeq
    payload := .ackPolicyChange change, isLastInRequest := true }

def payloadSlots (input : InputSlot E) (inputSeq wireSeq : Nat) (reports : List R)
    (response : Option Q) : List (MatchedSlot R Q) :=
  let change := input.event.policyChange
  (reports.mapIdx fun index report => replySlot input inputSeq wireSeq (.report report)
      (index + 1 == reports.length && response.isNone && change.isNone))
    ++ response.toList.map (fun response =>
      replySlot input inputSeq wireSeq (.queryResponse response) true)
    ++ change.toList.map (ackPolicyChangeSlot input inputSeq wireSeq)

/-- The output slots of an event; one without any ends its client's request, if it has a client. -/
def answers (input : InputSlot E) (inputSeq wireSeq : Nat) (reports : List R) (response : Option Q) :
    List (MatchedSlot R Q) :=
  if reports.isEmpty && response.isNone && input.event.policyChange.isNone then
    if input.connectionId ≠ 0 then [replySlot input inputSeq wireSeq .batchEnd true] else []
  else payloadSlots input inputSeq wireSeq reports response

/-- The output slots of an event drained at shutdown; one without any ends a request all the same. -/
def drainedAnswers (input : InputSlot E) (inputSeq wireSeq : Nat) (reports : List R) :
    List (MatchedSlot R Q) :=
  if reports.isEmpty && input.event.policyChange.isNone then
    [replySlot input inputSeq wireSeq .batchEnd true]
  else payloadSlots input inputSeq wireSeq reports none

end

namespace MatchingStage

variable {A E R Q : Type}

def act (stage : MatchingStage A E R Q) : MatchingAct E → MatchingStage A E R Q
  | .publish slot => { stage with ring := stage.ring ++ [slot] }
  | .shutdown => { stage with shutdown := true }
  | .take count => { stage with output := stage.output.take count }
  | .durable wireSeq => { stage with durableWireSeq := wireSeq }
  | .connections count => { stage with activeConnections := count }
  | .observeEpoch epoch => { stage with fenceState := stage.fenceState.observeEpoch epoch }

instance : Interleaved (MatchingStage A E R Q) (MatchingAct E) where
  turns := MatchingStage.beats
  withTurns stage beats := { stage with beats }
  act := MatchingStage.act

def observeLiveLineage (stage : MatchingStage A E R Q) (wireSeq : Nat) :
    LineageEvent → MatchingStage A E R Q
  | .epoch epoch => { stage with fenceState := stage.fenceState.observeEpoch epoch }
  | .ackPolicy change =>
    { stage with
      ackPolicyJournaled := some change.policy
      forcedPolicy := if change.unwitnessed then some { wireSeq, policy := change.policy }
        else stage.forcedPolicy }

section

variable [Application A E R]

def dispatchSlot (stage : MatchingStage A E R Q) (wireSeq : Nat) (slot : InputSlot E) :
    List R × MatchingStage A E R Q :=
  let dispatched := dispatch stage.app slot.event
    { nowNs := slot.timestampNs, keyHash := slot.keyHash } stage.tickWatermark
  let stage := { stage with app := dispatched.app, tickWatermark := dispatched.watermark }
  (dispatched.reports,
    match dispatched.lineage with
    | none => stage
    | some lineage => stage.observeLiveLineage wireSeq lineage)

def dispatchNext (stage : MatchingStage A E R Q) (slot : InputSlot E) :
    List R × MatchingStage A E R Q :=
  dispatchSlot { stage with nextWireSeq := min (stage.nextWireSeq + 1) u64Max } stage.nextWireSeq slot

variable [AppEvent E] [QueryApplication A E Q]

def queryReport (stage : MatchingStage A E R Q) (ctx : QueryCtx) : JournalEvent E → Option Q
  | .app event => QueryApplication.query stage.app event ctx
  | .tick _ | .epochBump _ | .ackPolicyChange _ | .shutdown => none

def handle (ctx : QueryCtx) (inputSeq : Nat) (slot : InputSlot E) (stage : MatchingStage A E R Q) :
    List (MatchedSlot R Q) × MatchingStage A E R Q :=
  let ctx := { ctx with eventsProcessed := stage.eventsProcessed, keyHash := slot.keyHash }
  let wireSeq := if slot.event.isQuery then stage.nextWireSeq - 1 else stage.nextWireSeq
  let stage := { stage with eventsProcessed := stage.eventsProcessed + 1 }
  if slot.event.isQuery then
    (answers slot inputSeq wireSeq [] (stage.queryReport ctx slot.event), stage)
  else
    let (reports, stage) := stage.dispatchNext slot
    (answers slot inputSeq wireSeq reports none, stage)

def handleDrained (inputSeq : Nat) (slot : InputSlot E) (stage : MatchingStage A E R Q) :
    List (MatchedSlot R Q) × MatchingStage A E R Q :=
  let wireSeq := stage.nextWireSeq
  let (reports, stage) := stage.dispatchNext slot
  (drainedAnswers slot inputSeq wireSeq reports, stage)

end

end MatchingStage

abbrev MatchingCall (A E R Q : Type) := Call (MatchingStage A E R Q) Empty

section

variable {A E R Q : Type}

/-- Fill the next output slot once there is room for it; until then the ring is as `wait` leaves it. -/
def fillOutput (fill wait : OutputRing R Q → OutputRing R Q) : MatchingCall A E R Q Unit :=
  loop (fun () => access fun stage =>
    if stage.output.hasRoom then (.inr (), { stage with output := fill stage.output })
    else (.inl (), { stage with output := wait stage.output })) ()

def pushWith (slot : MatchedSlot R Q) : MatchingCall A E R Q Unit :=
  fillOutput (·.push slot) (·.commit)

def publishOutput (slot : MatchedSlot R Q) : MatchingCall A E R Q Unit :=
  fillOutput (fun ring => (ring.push slot).commit) id

variable [Application A E R] [AppEvent E] [QueryApplication A E Q]

def matchSlots (ctx : QueryCtx) : Nat → List (InputSlot E) → MatchingCall A E R Q Bool
  | _, [] => return false
  | inputSeq, slot :: slots => do
    if slot.event.isShutdown then return true
    let replies ← Call.update (MatchingStage.handle ctx inputSeq slot)
    replies.forM pushWith
    matchSlots ctx (inputSeq + 1) slots

def drainMatching : MatchingCall A E R Q Unit :=
  loop (fun () => do
    let entry ← access fun stage =>
      match stage.ring[stage.nextRead]? with
      | some slot => (some (stage.nextRead, slot), { stage with nextRead := stage.nextRead + 1 })
      | none => (none, stage)
    match entry with
    | none => return .inr ()
    | some (inputSeq, slot) =>
      if slot.event.isQuery then return .inl ()
      let replies ← Call.update (MatchingStage.handleDrained inputSeq slot)
      replies.forM publishOutput
      return .inl ()) ()

def matchingRound : MatchingCall A E R Q (Unit ⊕ Unit) := do
  if ← observe (·.shutdown) then
    drainMatching
    return .inr ()
  let batchStart := (← Call.look).nextRead
  let slots ← observe fun stage => (stage.ring.drop stage.nextRead).take maxMatchingBatch
  if slots.isEmpty then return .inl ()
  let journalSequence ← observe (·.durableWireSeq)
  let activeConnections ← observe (·.activeConnections)
  let ctx : QueryCtx :=
    { journalSequence, activeConnections, eventsProcessed := 0, keyHash := 0 }
  let sawShutdown ← matchSlots ctx batchStart slots
  access fun stage => ((), { stage with output := stage.output.commit })
  access fun stage => ((), { stage with nextRead := stage.nextRead + slots.length })
  if sawShutdown then return .inr ()
  return .inl ()

def runMatching : MatchingCall A E R Q (WarmApp A) := do
  loop (fun () => matchingRound) ()
  let stage ← Call.look
  return { app := stage.app, tickWatermark := stage.tickWatermark }

end

end Melin
