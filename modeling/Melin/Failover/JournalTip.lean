import Melin.Transport.Fence

/-! The journal tip a node advertises in the control plane's envelopes. -/

namespace Melin

/-- A node's journal tip as advertised in the control-plane RPC envelope. -/
structure JournalTip where
  /-- Fencing epoch in force at the tip. -/
  epoch : UInt64
  lastSequence : Nat
  deriving DecidableEq, Repr

namespace JournalTip

def isAheadOf (tip other : JournalTip) : Bool :=
  other.epoch < tip.epoch || (tip.epoch == other.epoch && other.lastSequence < tip.lastSequence)

end JournalTip

end Melin
