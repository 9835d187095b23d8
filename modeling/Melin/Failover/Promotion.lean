import Melin.Failover.JournalTip
import Melin.Gate.AckPolicy

/-! Promoting a replica: the request, the decision that files it, and the epoch it is minted. -/

namespace Melin

def maxEpoch : UInt64 := 0xFFFFFFFFFFFFFFFF

/-- A raft term a promotion request can carry: neither of the two sentinel words. -/
structure ElectionTerm where
  term : UInt64
  notNone : term ≠ 0
  notManual : term ≠ maxEpoch
  deriving DecidableEq, Repr

def ElectionTerm.new (term : UInt64) : Option ElectionTerm :=
  if notNone : term = 0 then none
  else if notManual : term = maxEpoch then none
  else some ⟨term, notNone, notManual⟩

inductive PromotionOrigin where
  /-- An operator's `PROMOTE`: no election backs it. -/
  | manual
  | election (term : ElectionTerm)
  deriving DecidableEq, Repr

def PromotionOrigin.epochFloor : PromotionOrigin → UInt64
  | .manual => 1
  | .election term => term.term

abbrev PromotionRequest := Option PromotionOrigin

def PromotionRequest.request (pending : PromotionRequest) (origin : PromotionOrigin) :
    PromotionRequest :=
  some (pending.getD origin)

def primaryDownGrace : Nat := 3000

def quorumAckMaxAge : Nat := 1000

def peerTipGrace : Nat := 1500

inductive PeerTipObservation where
  /-- Heard within the grace: the tip is current. -/
  | fresh (tip : JournalTip)
  /-- Dead as far as this node can tell. -/
  | silent (last : Option JournalTip)
  /-- Never heard, and not leader long enough to conclude anything. -/
  | unknown
  deriving DecidableEq, Repr

/-- Digest a peer's last tip and its age; the leadership's own age dates a peer never heard. -/
def observePeer (sample : Option (JournalTip × Nat)) (leaderFor : Nat) : PeerTipObservation :=
  match sample with
  | some (tip, age) => if age ≤ peerTipGrace then .fresh tip else .silent (some tip)
  | none => if peerTipGrace < leaderFor then .silent none else .unknown

/-- The lineage's newest policy, or the node's own where the lineage holds no change. -/
def effectiveAckPolicy (lineage : Option AckPolicyByte) (requested : AckPolicy) :
    Option AckPolicy :=
  match lineage with
  | some byte => AckPolicy.fromByte byte
  | none => some requested

structure AutoPromotionInputs where
  /-- Journal recovery has seeded the fence epoch and the advertised tip. -/
  tipReady : Bool
  fenced : Bool
  ackPolicy : Option AckPolicy
  primaryLinkUp : Bool
  primaryLinkDownFor : Nat
  /-- How long ago a majority last acknowledged this node as leader. -/
  quorumAckAge : Option Nat
  primaryObserved : Bool
  localTip : JournalTip
  /-- The observation of every other configured voter. -/
  peers : List (Nat × PeerTipObservation)
  term : UInt64
  fenceEpoch : UInt64

inductive PromotionRefusal where
  | tipNotReady
  | fenced
  | linkUp
  | linkJustDropped
  | noLeaderLease
  | blankNode
  | peerAhead
  | peerUnknown
  | diskPolicy
  | unrecognisedPolicy
  | termNotAboveEpoch
  | termTooLarge
  deriving DecidableEq, Repr

def leaderLeaseCheck (quorumAckAge : Option Nat) : Except PromotionRefusal Unit :=
  match quorumAckAge with
  | some age => if age ≤ quorumAckMaxAge then .ok () else .error .noLeaderLease
  | none => .error .noLeaderLease

def peersCheck (localTip : JournalTip) :
    List (Nat × PeerTipObservation) → Except PromotionRefusal Unit
  | [] => .ok ()
  | (_, .fresh tip) :: peers =>
    if tip.isAheadOf localTip then .error .peerAhead else peersCheck localTip peers
  | (_, .silent _) :: peers => peersCheck localTip peers
  | (_, .unknown) :: _ => .error .peerUnknown

def ackPolicyCheck : Option AckPolicy → Except PromotionRefusal Unit
  | some .disk => .error .diskPolicy
  | none => .error .unrecognisedPolicy
  | some .diskAndRam | some .twoDisks | some .ram => .ok ()

def refuseIf (condition : Bool) (refusal : PromotionRefusal) : Except PromotionRefusal Unit :=
  if condition then .error refusal else .ok ()

/-- Should a replica that just won a control-plane election promote itself? -/
def autoPromotionDecision (inputs : AutoPromotionInputs) :
    Except PromotionRefusal ElectionTerm := do
  refuseIf (!inputs.tipReady) .tipNotReady
  refuseIf inputs.fenced .fenced
  refuseIf inputs.primaryLinkUp .linkUp
  refuseIf (inputs.primaryLinkDownFor < primaryDownGrace) .linkJustDropped
  leaderLeaseCheck inputs.quorumAckAge
  refuseIf (!inputs.primaryObserved && inputs.localTip.lastSequence == 0) .blankNode
  peersCheck inputs.localTip inputs.peers
  ackPolicyCheck inputs.ackPolicy
  refuseIf (inputs.term ≤ inputs.fenceEpoch) .termNotAboveEpoch
  match ElectionTerm.new inputs.term with
  | some term => .ok term
  | none => .error .termTooLarge

structure LeaderPoll where
  /-- The term the control plane reports. -/
  term : UInt64
  tipReady : Bool
  lineageAckPolicy : Option AckPolicyByte
  /-- The policy configured or staged on this node. -/
  requestedPolicy : AckPolicy
  primaryLinkUp : Bool
  primaryLinkDownFor : Nat
  quorumAckAge : Option Nat
  primaryObserved : Bool
  journalTip : Nat
  /-- How long this node has continuously been leader in the term. -/
  leaderFor : Nat
  /-- Each other voter's last tip with its age. -/
  peerTips : List (Nat × Option (JournalTip × Nat))

def LeaderPoll.inputs (poll : LeaderPoll) (fence : FenceState) : AutoPromotionInputs where
  tipReady := poll.tipReady
  fenced := fence.fenced
  ackPolicy := effectiveAckPolicy poll.lineageAckPolicy poll.requestedPolicy
  primaryLinkUp := poll.primaryLinkUp
  primaryLinkDownFor := poll.primaryLinkDownFor
  quorumAckAge := poll.quorumAckAge
  primaryObserved := poll.primaryObserved
  localTip := ⟨fence.epoch, poll.journalTip⟩
  peers := poll.peerTips.map fun (peer, sample) => (peer, observePeer sample poll.leaderFor)
  term := poll.term
  fenceEpoch := fence.epoch

def considerAutoPromotion (pending : PromotionRequest) (fence : FenceState) (poll : LeaderPoll) :
    PromotionRequest :=
  if pending.isSome then pending
  else
    match autoPromotionDecision (poll.inputs fence) with
    | .ok elected => pending.request (.election elected)
    | .error _ => pending

inductive LeaderConfirmError where
  /-- This node does not lead the control plane. -/
  | notLeader
  /-- A majority confirmed this node's leadership, but in another term. -/
  | termMoved (now : UInt64)
  /-- A majority of the voters did not acknowledge the round trip. -/
  | noQuorum
  /-- No answer came before the deadline. -/
  | timedOut
  /-- The control-plane driver is not running. -/
  | driverStopped
  deriving DecidableEq, Repr

def nextEpoch (epoch : UInt64) : UInt64 := if epoch = maxEpoch then maxEpoch else epoch + 1

def mintedEpoch (origin : PromotionOrigin) (fence : FenceState) : UInt64 :=
  max (nextEpoch fence.epoch) origin.epochFloor

def journalPromotionEpochBump (origin : PromotionOrigin) (fence : FenceState)
    (confirm : ElectionTerm → Except LeaderConfirmError Unit) :
    Except LeaderConfirmError UInt64 :=
  match origin with
  | .manual => .ok (mintedEpoch origin fence)
  | .election term =>
    match confirm term with
    | .ok () => .ok (mintedEpoch origin fence)
    | .error error => .error error

end Melin
