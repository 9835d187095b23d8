import Melin.Journal.Event

/-! The lineage metadata a node tracks next to its application state. -/

namespace Melin

/-- Lineage metadata a journaled event carries instead of application state. -/
inductive LineageEvent where
  | epoch (epoch : UInt64)
  | ackPolicy (change : AckPolicyChange)
  deriving DecidableEq, Repr

structure LineagePolicy where
  /-- The policy in force, and whether the transition to it was unwitnessed. -/
  change : AckPolicyChange
  wireSeq : Nat
  /-- The policy before the transition, nothing at the lineage's first change. -/
  previous : Option AckPolicyByte
  deriving DecidableEq, Repr

def LineagePolicy.after (current : Option LineagePolicy) (wireSeq : Nat)
    (change : AckPolicyChange) : LineagePolicy :=
  match current with
  | some policy =>
    -- A change that names the policy in force moves nothing, but may mark it unwitnessed.
    if policy.change.policy = change.policy then
      { policy with
        change := { policy := change.policy
                    unwitnessed := policy.change.unwitnessed || change.unwitnessed } }
    else { change, wireSeq, previous := some policy.change.policy }
  | none => { change, wireSeq, previous := none }

structure Lineage where
  /-- The highest fencing epoch journaled so far. -/
  epoch : UInt64
  ackPolicy : Option LineagePolicy
  deriving DecidableEq, Repr

def Lineage.genesis : Lineage := { epoch := 0, ackPolicy := none }

def observeInto (current observed : UInt64) : UInt64 := max current observed

def Lineage.observe (lineage : Lineage) (wireSeq : Nat) : LineageEvent → Lineage
  | .epoch epoch => { lineage with epoch := observeInto lineage.epoch epoch }
  | .ackPolicy change =>
    { lineage with ackPolicy := some (.after lineage.ackPolicy wireSeq change) }

end Melin
