import Melin.Gate.AckPolicy

/-! The durability gate: the policy in force, the cached durable position, and the wait on them. -/

namespace Melin

inductive Backing where
  /-- The ack policy in force confirmed the slot's event. -/
  | policy
  /-- Released while halted past the grace period, on the primary's own disk alone. -/
  | primaryOnly
  deriving DecidableEq, Repr

def Backing.min : Backing → Backing → Backing
  | .policy, .policy => .policy
  | .primaryOnly, _ => .primaryOnly
  | _, .primaryOnly => .primaryOnly

/-- How a durability wait ended. -/
inductive GateOutcome where
  | opened (backing : Backing)
  | shutdown
  deriving DecidableEq, Repr

inductive Admission where
  /-- The slot's frames go to this connection, its request ending as the backing says. -/
  | reply (connectionId : Nat) (backing : Backing)
  /-- An ack-policy change, whose frames go to no connection. -/
  | gateOnly
  | shutdown
  deriving DecidableEq, Repr

structure PendingChange where
  wireSeq : Nat
  policy : AckPolicy
  /-- Applied once its entry is on this node's disk. -/
  unwitnessed : Bool
  deriving DecidableEq, Repr

structure GateStart where
  inForce : AckPolicy
  pending : Option PendingChange
  deriving DecidableEq, Repr

/-- The newest forced change the matching stage has dispatched. -/
structure ForcedPolicy where
  wireSeq : Nat
  policy : AckPolicyByte
  deriving DecidableEq, Repr

structure ReplicaSlot where
  active : Bool
  inMemory : Nat
  acked : Nat
  deriving DecidableEq, Repr

/-- When the last replica left, read while none is streaming. -/
inductive LastLoss where
  | at (instant : Nat)
  | unknown
  deriving DecidableEq, Repr

/-- Everything one turn of the gate reads from the threads around it. -/
structure Look where
  shutdown : Bool
  /-- Highest wire sequence persisted on this node's journal. -/
  journalPos : Nat
  forced : Option ForcedPolicy
  replicas : Option (ReplicaSlot × ReplicaSlot)
  lastLoss : Option LastLoss
  now : Nat

inductive OutputPayload (R Q : Type) where
  | report (report : R)
  | queryResponse (response : Q)
  | batchEnd
  | ackPolicyChange (change : AckPolicyChange)

structure OutputSlot (R Q : Type) where
  connectionId : Nat
  wireSeq : Nat
  payload : OutputPayload R Q

/-- What the gate has read, evaluated, applied and let through, oldest first. -/
inductive GateEvent where
  | journal (position : Nat)
  | evaluated (policy : AckPolicy) (nodes : List NodeCursors)
  | applied (wireSeq : Nat) (policy before : AckPolicy)
  | released (wireSeq : Nat) (backing : Backing) (inForce : AckPolicy)
  deriving DecidableEq, Repr

def cursorView (journalPos : Nat) (replicas : Option (ReplicaSlot × ReplicaSlot)) :
    List NodeCursors :=
  let slots := match replicas with
    | none => []
    | some (first, second) => [first, second]
  ⟨u64Max, journalPos⟩ :: (slots.filter (·.active)).map fun slot => ⟨slot.inMemory, slot.acked⟩

def evaluateGate (policy : Policy) (needed journalPos : Nat)
    (replicas : Option (ReplicaSlot × ReplicaSlot)) : EvalStatus × Option Blocker :=
  let view := cursorView journalPos replicas
  let status := policy.evaluateWithStatus view
  (status, if status.durablePos ≥ needed then policy.attributeBlocker view else none)

def haltStart (loss : LastLoss) (seen : Option Nat) (now : Nat) : Nat :=
  match loss with
  | .at instant => instant
  | .unknown => seen.getD now

def policyCheckInterval : Nat := 1000000000

structure DurabilityGate where
  degradedGrace : Option Nat
  appliedThrough : Option Nat
  lastRefused : Option Nat
  pending : List PendingChange
  activePolicy : AckPolicy
  needsReplica : Bool
  policy : Policy
  cachedDurablePos : Nat
  lastPolicyCheck : Nat
  haltStarted : Option Nat
  releasingDegraded : Bool
  gateJournal : Nat
  gateReplication : Nat
  /-- A record of the run that no function reads. -/
  trace : List GateEvent
  needsReplicaEq : needsReplica = activePolicy.needsReplica
  policyEq : policy = activePolicy.toPolicy

namespace DurabilityGate

def record (gate : DurabilityGate) (event : GateEvent) : DurabilityGate :=
  { gate with trace := gate.trace ++ [event] }

/-- The one place the policy in force changes; the cached position starts over with it. -/
def switchTo (gate : DurabilityGate) (next : AckPolicy) : DurabilityGate :=
  if next = gate.activePolicy then gate
  else
    { gate with
      activePolicy := next
      needsReplica := next.needsReplica
      policy := next.toPolicy
      cachedDurablePos := 0
      needsReplicaEq := rfl
      policyEq := rfl }

def isStale (gate : DurabilityGate) (wireSeq : Nat) : Bool :=
  gate.appliedThrough.any (wireSeq ≤ ·)

def refuseUnknown (gate : DurabilityGate) (wireSeq : Nat) : DurabilityGate :=
  if gate.lastRefused = some wireSeq then gate else { gate with lastRefused := some wireSeq }

def applyChange (gate : DurabilityGate) (wireSeq : Nat) (policy : AckPolicyByte) : DurabilityGate :=
  if gate.isStale wireSeq then gate
  else
    match AckPolicy.fromByte policy with
    | none => gate.refuseUnknown wireSeq
    | some next =>
      { gate with appliedThrough := some wireSeq }.record (.applied wireSeq next gate.activePolicy)
        |>.switchTo next

def applyFrontPending (gate : DurabilityGate) : DurabilityGate :=
  match gate.pending with
  | [] => gate
  | front :: rest => { gate with pending := rest }.applyChange front.wireSeq front.policy.toByte

def settlePendingLoop (journalPos : Nat) : Nat → DurabilityGate → DurabilityGate
  | 0, gate => gate
  | fuel + 1, gate =>
    match gate.pending with
    | [] => gate
    | front :: _ =>
      if gate.cachedDurablePos < front.wireSeq ∧
          ¬(front.unwitnessed = true ∧ journalPos ≥ front.wireSeq) then gate
      else settlePendingLoop journalPos fuel gate.applyFrontPending

def settlePendingIfDurable (gate : DurabilityGate) (journalPos : Nat) : DurabilityGate :=
  settlePendingLoop journalPos gate.pending.length gate

def evaluate (gate : DurabilityGate) (look : Look) : DurabilityGate :=
  let view := cursorView look.journalPos look.replicas
  { gate with cachedDurablePos := (gate.policy.evaluateWithStatus view).durablePos }.record
    (.evaluated gate.activePolicy view)

def unevaluated (start : GateStart) (degradedGrace : Option Nat) (now : Nat) : DurabilityGate :=
  { degradedGrace, appliedThrough := none, lastRefused := none
    pending := start.pending.toList
    activePolicy := start.inForce, needsReplica := start.inForce.needsReplica
    policy := start.inForce.toPolicy, cachedDurablePos := 0
    lastPolicyCheck := now, haltStarted := none, releasingDegraded := false
    gateJournal := 0, gateReplication := 0
    trace := [], needsReplicaEq := rfl, policyEq := rfl }

def new (start : GateStart) (degradedGrace : Option Nat) (look : Look) : DurabilityGate :=
  (((unevaluated start degradedGrace look.now).record (.journal look.journalPos)).evaluate
    look).settlePendingIfDurable look.journalPos

def degradedReleaseOpen (gate : DurabilityGate) (look : Look) : Bool × DurabilityGate :=
  match gate.degradedGrace with
  | none => (false, gate)
  | some grace =>
    match look.lastLoss with
    | none => (false, { gate with haltStarted := none, releasingDegraded := false })
    | some loss =>
      let started := haltStart loss gate.haltStarted look.now
      let isOpen := gate.needsReplica && decide (grace ≤ look.now - started)
      (isOpen, { gate with haltStarted := some started, releasingDegraded := isOpen })

/-- Settle what is pending, then apply the newest forced change once it is on this node's disk. -/
def observeForced (gate : DurabilityGate) (look : Look) : DurabilityGate :=
  let gate := gate.settlePendingIfDurable look.journalPos
  match look.forced with
  | none => gate
  | some forced =>
    if look.journalPos ≥ forced.wireSeq then gate.applyChange forced.wireSeq forced.policy else gate

def countBlocker (gate : DurabilityGate) : Option Blocker → DurabilityGate
  | some .journal => { gate with gateJournal := gate.gateJournal + 1 }
  | some .replication => { gate with gateReplication := gate.gateReplication + 1 }
  | none => gate

/--
Wait until a wire sequence is durable under the policy in force, or shutdown is requested.

One look per turn; no outcome means the gate is still waiting when the looks run out.
-/
def waitDurable (needed : Nat) :
    List Look → DurabilityGate → DurabilityGate × Option GateOutcome × List Look
  | [], gate => (gate, none, [])
  | look :: looks, gate =>
    if look.shutdown then (gate, some .shutdown, looks)
    else
      let gate := (gate.record (.journal look.journalPos)).observeForced look
      let (_, blocker) := evaluateGate gate.policy needed look.journalPos look.replicas
      let gate := gate.evaluate look
      if gate.cachedDurablePos ≥ needed then
        ((gate.countBlocker blocker).record (.released needed .policy gate.activePolicy),
          some (.opened .policy), looks)
      else if look.journalPos ≥ needed then
        match gate.degradedReleaseOpen look with
        | (true, gate) =>
          (gate.record (.released needed .primaryOnly gate.activePolicy),
            some (.opened .primaryOnly), looks)
        | (false, gate) => waitDurable needed looks gate
      else waitDurable needed looks gate

def admitPendingLoop : Nat → List Look → DurabilityGate →
    DurabilityGate × Option GateOutcome × List Look
  | 0, looks, gate => (gate, some (.opened .policy), looks)
  | fuel + 1, looks, gate =>
    match gate.pending with
    | [] => (gate, some (.opened .policy), looks)
    | front :: _ =>
      if front.wireSeq > gate.cachedDurablePos then
        match waitDurable front.wireSeq looks gate with
        | (gate, some (.opened .policy), looks) =>
          -- The wait may have settled the change already.
          if gate.pending.head? ≠ some front then admitPendingLoop fuel looks gate
          else admitPendingLoop fuel looks gate.applyFrontPending
        | ended => ended
      else admitPendingLoop fuel looks gate.applyFrontPending

/-- The first half of admitting a slot; every turn takes at least one pending change off. -/
def admitPending (gate : DurabilityGate) (looks : List Look) :
    DurabilityGate × Option GateOutcome × List Look :=
  admitPendingLoop gate.pending.length looks gate

/-- Let a change slot that only the primary's disk holds join the pending changes. -/
def deferChange (gate : DurabilityGate) (wireSeq : Nat) (change : AckPolicyChange) :
    DurabilityGate :=
  if gate.isStale wireSeq then gate
  else
    match AckPolicy.fromByte change.policy with
    | none => gate.refuseUnknown wireSeq
    | some policy =>
      { gate with pending := gate.pending ++ [⟨wireSeq, policy, change.unwitnessed⟩] }

section

variable {R Q : Type}

def slotNeedsGate (slot : OutputSlot R Q) (cachedDurablePos : Nat) : Bool :=
  cachedDurablePos < slot.wireSeq

def finishSlot (gate : DurabilityGate) (slot : OutputSlot R Q) (backing : Backing) :
    DurabilityGate × Admission :=
  let gate := gate.record (.released slot.wireSeq backing gate.activePolicy)
  match slot.payload with
  | .ackPolicyChange change =>
    match backing with
    | .policy => (gate.applyChange slot.wireSeq change.policy, .gateOnly)
    | .primaryOnly => (gate.deferChange slot.wireSeq change, .gateOnly)
  | .report _ | .queryResponse _ | .batchEnd => (gate, .reply slot.connectionId backing)

/-- The second half of admitting a slot: hold it until durable, no stronger than `backing`. -/
def admitSlot (gate : DurabilityGate) (slot : OutputSlot R Q) (backing : Backing)
    (looks : List Look) : DurabilityGate × Option Admission × List Look :=
  if slotNeedsGate slot gate.cachedDurablePos then
    match waitDurable slot.wireSeq looks gate with
    | (gate, none, looks) => (gate, none, looks)
    | (gate, some .shutdown, looks) => (gate, some .shutdown, looks)
    | (gate, some (.opened released), looks) =>
      let (gate, admission) := gate.finishSlot slot (backing.min released)
      (gate, some admission, looks)
  else
    let (gate, admission) := gate.finishSlot slot backing
    (gate, some admission, looks)

def admitOutput (gate : DurabilityGate) (slot : OutputSlot R Q) (looks : List Look) :
    DurabilityGate × Option Admission :=
  match gate.admitPending looks with
  | (gate, none, _) => (gate, none)
  | (gate, some .shutdown, _) => (gate, some .shutdown)
  | (gate, some (.opened backing), looks) =>
    let (gate, admission, _) := gate.admitSlot slot backing looks
    (gate, admission)

/-- Re-evaluate the policy on a slow timer while no batches flow. -/
def idleRecheck (gate : DurabilityGate) (look : Look) : DurabilityGate :=
  if look.now - gate.lastPolicyCheck < policyCheckInterval then gate
  else
    let gate := { gate with lastPolicyCheck := look.now }.record (.journal look.journalPos)
    let gate := (gate.evaluate look).settlePendingIfDurable look.journalPos
    (gate.degradedReleaseOpen look).2

def afterBatch (gate : DurabilityGate) (now : Nat) : DurabilityGate :=
  { gate with lastPolicyCheck := now }

inductive GateOp (R Q : Type) where
  | admitOutput (slot : OutputSlot R Q) (looks : List Look)
  | idleRecheck (look : Look)
  | afterBatch (now : Nat)

/-- Run the stage's calls in order, up to the first admit that does not come back with a reply. -/
def run : DurabilityGate → List (GateOp R Q) → DurabilityGate
  | gate, [] => gate
  | gate, .admitOutput slot looks :: ops =>
    match gate.admitOutput slot looks with
    | (gate, some (.reply ..)) => run gate ops
    | (gate, some .gateOnly) => run gate ops
    | (gate, some .shutdown) => gate
    | (gate, none) => gate
  | gate, .idleRecheck look :: ops => run (gate.idleRecheck look) ops
  | gate, .afterBatch now :: ops => run (gate.afterBatch now) ops

end

end DurabilityGate

end Melin
