import Melin.Transport.Lineage

/-! The fencing state of a node: its observed epoch, and a one-way latch. -/

namespace Melin

structure FenceState where
  /-- Highest fencing epoch observed. -/
  epoch : UInt64
  fenced : Bool
  deriving DecidableEq, Repr

namespace FenceState

def new (initialEpoch : UInt64) : FenceState := { epoch := initialEpoch, fenced := false }

def observeEpoch (fence : FenceState) (epoch : UInt64) : FenceState :=
  { fence with epoch := max fence.epoch epoch }

def fence (state : FenceState) : FenceState := { state with fenced := true }

/-- A peer with a higher epoch supersedes this node, which fences itself and shuts down. -/
def fenceIfSuperseded (state : FenceState) (peerEpoch : UInt64) : Option FenceState :=
  if peerEpoch ≤ state.epoch then none else some state.fence

def refusesPrimary (state : FenceState) (primaryEpoch : UInt64) : Bool := primaryEpoch < state.epoch

end FenceState

end Melin
