import Melin.Halt.Presence
import Melin.Transport.Fence

/-! The halt gate: what a client write is told. -/

namespace Melin

/-- What a reader does with a client write right now. -/
inductive Verdict where
  | take
  /-- Refused for want of a replica; the connection stays open. -/
  | refuse
  /-- The node is superseded and stopping. -/
  | close
  deriving DecidableEq, Repr

/-- The verdict on a client write: fencing wins, and a standalone node never halts. -/
def haltVerdict (fence : FenceState) (presence : Option SharedPresence) : Verdict :=
  if fence.fenced then .close
  else if (presence.map (·.halted)).getD false then .refuse
  else .take

end Melin
