import Melin.Failover.Promotion
import Melin.Lib.Runs

/-! The epochs that the promotions of a cluster journal, over every run of its nodes. -/

namespace Melin

/-- What a node's promotion depends on. -/
structure Candidate where
  fence : FenceState
  request : PromotionRequest
  /-- The promotion was carried out, or abandoned. -/
  settled : Bool

def Candidate.new (recovered : UInt64) : Candidate where
  fence := FenceState.new recovered
  request := none
  settled := false

structure Bump where
  node : Nat
  origin : PromotionOrigin
  epoch : UInt64
  deriving DecidableEq, Repr

def PromotionOrigin.term : PromotionOrigin → Option ElectionTerm
  | .manual => none
  | .election term => some term

def Bump.election (bump : Bump) : Option (UInt64 × Nat) :=
  bump.origin.term.map fun term => (term.term, bump.node)

structure Cluster where
  nodes : Nat → Candidate
  /-- The terms that elected a node, with that node. -/
  elected : List (UInt64 × Nat)
  bumps : List Bump
  /-- The epochs journaled before the run. -/
  inherited : List UInt64

inductive ClusterAct where
  | elect (term : UInt64) (node : Nat)
  /-- A node meets a journaled epoch: in its stream, or in a primary's handshake. -/
  | observe (node : Nat) (epoch : UInt64)
  | handshake (node : Nat) (peerEpoch : UInt64)
  | poll (node : Nat) (poll : LeaderPoll)
  | promote (node : Nat)
  | mint (node : Nat) (answer : Except LeaderConfirmError Unit)
  | restart (node : Nat) (recovered : UInt64)

namespace Cluster

def new (inherited : List UInt64) : Cluster where
  nodes := fun _ => Candidate.new 0
  elected := []
  bumps := []
  inherited := inherited

def journaled (cluster : Cluster) : List UInt64 :=
  cluster.inherited ++ cluster.bumps.map (·.epoch)

def setNode (cluster : Cluster) (node : Nat) (candidate : Candidate) : Cluster :=
  { cluster with
    nodes := fun other => if other = node then candidate else cluster.nodes other }

def mint (cluster : Cluster) (node : Nat) (origin : PromotionOrigin)
    (answer : Except LeaderConfirmError Unit) : Cluster :=
  let candidate := cluster.nodes node
  let settled := cluster.setNode node { candidate with settled := true }
  match journalPromotionEpochBump origin candidate.fence (fun _ => answer) with
  | .ok epoch => { settled with bumps := cluster.bumps ++ [⟨node, origin, epoch⟩] }
  | .error _ => settled

def step : ClusterAct → Cluster → Option Cluster
  | .elect term node, cluster =>
    -- A raft term elects at most one node.
    if term ∈ cluster.elected.map (·.1) then none
    else some { cluster with elected := (term, node) :: cluster.elected }
  | .observe node epoch, cluster =>
    let candidate := cluster.nodes node
    if epoch ∈ cluster.journaled then
      some (cluster.setNode node { candidate with fence := candidate.fence.observeEpoch epoch })
    else none
  | .handshake node peerEpoch, cluster =>
    let candidate := cluster.nodes node
    if peerEpoch ∈ cluster.journaled then
      match candidate.fence.fenceIfSuperseded peerEpoch with
      | some fence => some (cluster.setNode node { candidate with fence })
      | none => some cluster
    else none
  | .poll node poll, cluster =>
    let candidate := cluster.nodes node
    if (poll.term, node) ∈ cluster.elected then
      some (cluster.setNode node
        { candidate with
          request := considerAutoPromotion candidate.request candidate.fence poll })
    else none
  | .promote node, cluster =>
    let candidate := cluster.nodes node
    some (cluster.setNode node { candidate with request := candidate.request.request .manual })
  | .mint node answer, cluster =>
    match (cluster.nodes node).settled, (cluster.nodes node).request with
    | false, some origin => some (cluster.mint node origin answer)
    | _, _ => none
  | .restart node recovered, cluster =>
    if recovered = 0 ∨ recovered ∈ cluster.journaled then
      some (cluster.setNode node (Candidate.new recovered))
    else none

/-- An election's promotion mints while its node's epoch is still below the election's term. -/
def MintsAhead : ClusterAct → Cluster → Prop
  | .mint node _, cluster => ∀ term ∈ (cluster.nodes node).request.bind PromotionOrigin.term,
    (cluster.nodes node).fence.epoch < term.term
  | _, _ => True

instance : ∀ act cluster, Decidable (MintsAhead act cluster)
  | .mint _ _, _ => inferInstanceAs (Decidable (∀ _ ∈ (_ : Option ElectionTerm), _))
  | .elect _ _, _ | .observe _ _, _ | .handshake _ _, _ | .poll _ _, _ | .promote _, _
  | .restart _ _, _ => isTrue trivial

structure Aligned (cluster : Cluster) : Prop where
  once : ∀ term winner other, (term, winner) ∈ cluster.elected →
    (term, other) ∈ cluster.elected → winner = other
  filed : ∀ node term, (cluster.nodes node).request = some (.election term) →
    (term.term, node) ∈ cluster.elected
  minted : ∀ bump ∈ cluster.bumps, ∀ election, bump.election = some election →
    bump.epoch = election.1 ∧ election ∈ cluster.elected

end Cluster

theorem ElectionTerm.new_term {word : UInt64} {term : ElectionTerm}
    (carried : ElectionTerm.new word = some term) : term.term = word := by
  unfold ElectionTerm.new at carried
  split at carried
  · cases carried
  · split at carried
    · cases carried
    · cases carried
      rfl

theorem ok_of_check {A : Type} {check : Except PromotionRefusal Unit}
    {rest : Except PromotionRefusal A} {decided : A}
    (passed : (do check; rest) = Except.ok decided) : rest = .ok decided := by
  cases check with
  | error refusal => cases passed
  | ok _ => exact passed

theorem autoPromotionDecision_term {inputs : AutoPromotionInputs} {term : ElectionTerm}
    (decided : autoPromotionDecision inputs = .ok term) : term.term = inputs.term := by
  -- Nine checks stand before the term is handed over.
  have handed := ok_of_check <| ok_of_check <| ok_of_check <| ok_of_check <| ok_of_check <|
    ok_of_check <| ok_of_check <| ok_of_check <| ok_of_check decided
  cases carried : ElectionTerm.new inputs.term with
  | none =>
    rw [carried] at handed
    cases handed
  | some elected =>
    rw [carried] at handed
    cases handed
    exact ElectionTerm.new_term carried

theorem considerAutoPromotion_election {pending : PromotionRequest} {fence : FenceState}
    {poll : LeaderPoll} {term : ElectionTerm}
    (requested : considerAutoPromotion pending fence poll = some (.election term)) :
    pending = some (.election term) ∨ term.term = poll.term := by
  unfold considerAutoPromotion at requested
  split at requested
  · exact Or.inl requested
  · split at requested
    · case _ elected decided =>
      cases pending with
      | some origin => simp_all
      | none =>
        simp only [PromotionRequest.request, Option.getD_none, Option.some.injEq,
          PromotionOrigin.election.injEq] at requested
        subst requested
        exact Or.inr (autoPromotionDecision_term decided)
    · exact Or.inl requested

theorem mintedEpoch_of_lt {fence : FenceState} {term : ElectionTerm}
    (below : fence.epoch < term.term) : mintedEpoch (.election term) fence = term.term := by
  have next : nextEpoch fence.epoch ≤ term.term := by
    unfold nextEpoch
    split
    · case _ saturated =>
      rw [saturated] at below
      exact UInt64.le_of_lt below
    · rw [UInt64.le_iff_toNat_le, UInt64.toNat_add]
      rw [UInt64.lt_iff_toNat_lt] at below
      have := term.term.toNat_lt
      simp only [UInt64.toNat_one]
      omega
  unfold mintedEpoch PromotionOrigin.epochFloor
  rw [UInt64.max_def, if_pos next]

namespace Cluster

namespace Aligned

variable {cluster : Cluster}

theorem setNode (aligned : cluster.Aligned) {node : Nat} {candidate : Candidate}
    (names : ∀ term, candidate.request = some (.election term) →
      (term.term, node) ∈ cluster.elected) :
    (cluster.setNode node candidate).Aligned where
  once := aligned.once
  filed := by
    intro other term requested
    by_cases same : other = node
    · subst same
      exact names term (by simpa [Cluster.setNode] using requested)
    · exact aligned.filed other term (by simpa [Cluster.setNode, same] using requested)
  minted := aligned.minted

theorem mint (aligned : cluster.Aligned) {node : Nat} {origin : PromotionOrigin}
    {answer : Except LeaderConfirmError Unit}
    (requested : (cluster.nodes node).request = some origin)
    (ahead : ∀ term, origin = .election term → (cluster.nodes node).fence.epoch < term.term) :
    (cluster.mint node origin answer).Aligned := by
  have settled : (cluster.setNode node { cluster.nodes node with settled := true }).Aligned :=
    aligned.setNode (aligned.filed node)
  unfold Cluster.mint
  dsimp only
  split
  · case _ epoch journaled =>
    refine ⟨settled.once, settled.filed, ?_⟩
    intro bump member election won
    rcases List.mem_append.mp member with old | new
    · exact aligned.minted bump old election won
    · cases List.mem_singleton.mp new
      cases origin with
      | manual => cases won
      | election term =>
        cases won
        refine ⟨?_, aligned.filed node term requested⟩
        cases answer with
        | ok _ =>
          cases journaled
          exact mintedEpoch_of_lt (ahead term rfl)
        | error _ => cases journaled
  · exact settled

theorem step {after : Cluster} {act : ClusterAct} (ahead : MintsAhead act cluster)
    (stepped : Cluster.step act cluster = some after) (aligned : cluster.Aligned) :
    after.Aligned := by
  cases act with
  | elect term node =>
    simp only [Cluster.step] at stepped
    split at stepped
    · cases stepped
    · case _ fresh =>
      cases stepped
      have unused : ∀ winner, (term, winner) ∉ cluster.elected := fun winner won =>
        fresh (List.mem_map_of_mem won)
      refine ⟨?_, fun node filed requested => List.mem_cons_of_mem _
        (aligned.filed node filed requested), fun bump member election won =>
        ⟨(aligned.minted bump member election won).1,
          List.mem_cons_of_mem _ (aligned.minted bump member election won).2⟩⟩
      intro elected winner other first second
      rcases List.mem_cons.mp first with new | old <;>
        rcases List.mem_cons.mp second with new' | old'
      · cases new
        cases new'
        rfl
      · cases new
        exact absurd old' (unused _)
      · cases new'
        exact absurd old (unused _)
      · exact aligned.once elected winner other old old'
  | observe node epoch =>
    simp only [Cluster.step] at stepped
    split at stepped
    · cases stepped
      exact aligned.setNode (aligned.filed node)
    · cases stepped
  | handshake node peerEpoch =>
    simp only [Cluster.step] at stepped
    split at stepped
    · split at stepped
      · cases stepped
        exact aligned.setNode (aligned.filed node)
      · cases stepped
        exact aligned
    · cases stepped
  | poll node poll =>
    simp only [Cluster.step] at stepped
    split at stepped
    · case _ won =>
      cases stepped
      refine aligned.setNode ?_
      intro term requested
      rcases considerAutoPromotion_election requested with pending | judged
      · exact aligned.filed node term pending
      · rw [judged]
        exact won
    · cases stepped
  | promote node =>
    simp only [Cluster.step] at stepped
    cases stepped
    refine aligned.setNode ?_
    intro term requested
    cases pending : (cluster.nodes node).request with
    | none => simp [PromotionRequest.request, pending] at requested
    | some origin =>
      refine aligned.filed node term ?_
      simpa [PromotionRequest.request, pending] using requested
  | mint node answer =>
    simp only [Cluster.step] at stepped
    split at stepped
    · case _ origin _ requested =>
      cases stepped
      refine aligned.mint requested ?_
      rintro term rfl
      exact ahead term (by simp [requested, PromotionOrigin.term])
    · cases stepped
  | restart node recovered =>
    simp only [Cluster.step] at stepped
    split at stepped
    · cases stepped
      exact aligned.setNode (fun _ requested => nomatch requested)
    · cases stepped

end Aligned

theorem aligned_new (inherited : List UInt64) : (Cluster.new inherited).Aligned where
  once := fun _ _ _ won => nomatch won
  filed := fun _ _ requested => nomatch requested
  minted := fun _ member => nomatch member

end Cluster

section

def readyToPromote (term : UInt64) (peerTips : List (Nat × Option (JournalTip × Nat))) :
    LeaderPoll where
  term := term
  tipReady := true
  lineageAckPolicy := some AckPolicy.diskAndRam.toByte
  requestedPolicy := .disk
  primaryLinkUp := false
  primaryLinkDownFor := primaryDownGrace
  quorumAckAge := some 0
  primaryObserved := true
  journalTip := 7
  leaderFor := peerTipGrace + 1
  peerTips := peerTips

/-- While every election's promotion mints ahead of its node's epoch, two elections never journal
the same epoch. -/
theorem elections_journal_distinct_epochs {inherited : List UInt64} {acts : List ClusterAct}
    {cluster : Cluster}
    (ran : Lib.runActs Cluster.step acts (Cluster.new inherited) = some cluster)
    (ahead : Lib.EachAct Cluster.step Cluster.MintsAhead acts (Cluster.new inherited)) :
    ∀ first ∈ cluster.bumps, ∀ second ∈ cluster.bumps, ∀ election other,
      first.election = some election → second.election = some other → election ≠ other →
      first.epoch ≠ second.epoch := by
  have aligned : cluster.Aligned :=
    Lib.runActs_keeps_where Cluster.step (fun _ _ _ => Cluster.Aligned.step) ran ahead
      (Cluster.aligned_new inherited)
  intro first firstJournaled second secondJournaled election other won wonOther different same
  obtain ⟨epoch, elected⟩ := aligned.minted first firstJournaled election won
  obtain ⟨epoch', elected'⟩ := aligned.minted second secondJournaled other wonOther
  obtain ⟨term, winner⟩ := election
  obtain ⟨term', winner'⟩ := other
  obtain rfl : term = term' := epoch.symm.trans (same.trans epoch')
  exact different (by rw [aligned.once term winner winner' elected elected'])

/-- Two elections in turn, the second winner having streamed the first one's bump. -/
theorem elections_journal_distinct_epochs_in_turn :
    let acts := [.elect 1 0, .poll 0 (readyToPromote 1 [(1, some (⟨0, 7⟩, 100))]),
      .mint 0 (.ok ()), .observe 1 1, .elect 2 1, .poll 1 (readyToPromote 2 [(0, none)]),
      .mint 1 (.ok ())]
    ∃ cluster, Lib.runActs Cluster.step acts (Cluster.new []) = some cluster ∧
      cluster.bumps.map (·.epoch) = [1, 2] ∧
      ∀ first ∈ cluster.bumps, ∀ second ∈ cluster.bumps, ∀ election other,
        first.election = some election → second.election = some other → election ≠ other →
        first.epoch ≠ second.epoch := by
  intro acts
  obtain ⟨cluster, ran⟩ : ∃ cluster, Lib.runActs Cluster.step acts (Cluster.new []) = some cluster :=
    Option.isSome_iff_exists.mp (by decide +kernel)
  have epochs : (Lib.runActs Cluster.step acts (Cluster.new [])).map
      (fun cluster => cluster.bumps.map (·.epoch)) = some [1, 2] := by decide +kernel
  rw [ran] at epochs
  exact ⟨cluster, ran, Option.some.inj epochs,
    elections_journal_distinct_epochs ran (by decide +kernel)⟩

/-- A leader whose epoch a manual promotion raises before it mints takes the next election's
epoch. -/
theorem elections_journal_one_epoch :
    let acts := [.elect 1 0, .poll 0 (readyToPromote 1 [(1, none), (2, some (⟨0, 7⟩, 100))]),
      .promote 2, .mint 2 (.ok ()), .observe 2 1, .observe 1 1, .observe 0 1, .mint 0 (.ok ()),
      .handshake 2 2, .restart 2 1, .elect 2 1,
      .poll 1 (readyToPromote 2 [(0, none), (2, some (⟨1, 7⟩, 100))]), .mint 1 (.ok ())]
    (Lib.runActs Cluster.step acts (Cluster.new [])).map
        (fun cluster => cluster.bumps.map fun bump => (bump.election, bump.epoch))
      = some [(none, 1), (some (1, 0), 2), (some (2, 1), 2)] := by
  decide +kernel

end

end Melin
