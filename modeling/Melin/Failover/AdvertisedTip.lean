import Melin.Examples.CounterEvent
import Melin.Failover.JournalTip
import Melin.Lib.Runs

/-! The tip a replica advertises: an epoch and a sequence that move on different occasions. -/

namespace Melin

def highestEpoch (epochs : List UInt64) : UInt64 := epochs.foldl observeInto 0

def bumpedEpochs {E : Type} (entries : List (JournalEvent E)) : List UInt64 :=
  entries.filterMap fun
    | .epochBump epoch => some epoch
    | _ => none

/-- Where the receive thread stands. -/
inductive TipPhase where
  /-- Before recovery has seeded the tip. -/
  | booting
  /-- Between sessions, in a handshake, or streaming. -/
  | following
  /-- The lineage is archived and the advertised sequence not yet reset. -/
  | archived
  /-- A fresh replica that waits for a snapshot and its seed. -/
  | transferring
  | installed
  /-- The stream start after the transfer is accepted. -/
  | rebased
  deriving DecidableEq, Repr

structure ReplicaTip (E : Type) where
  phase : TipPhase
  /-- The entries of the node's own lineage, from the first sequence on. -/
  lineage : List (JournalEvent E)
  /-- How many of them the matching stage, or recovery, has applied. -/
  applied : Nat
  fence : FenceState
  journalTip : Nat
  /-- Recovery has seeded both halves of the tip. -/
  ready : Bool
  /-- Every epoch met since the process started, wherever it was read. -/
  met : List UInt64

inductive TipAct (E : Type) where
  | recover (disk : List (JournalEvent E))
  /-- A primary answers the handshake. -/
  | streamStart (epoch : UInt64)
  /-- A session starts at a resume point. -/
  | resume (position : Nat)
  /-- The receive thread takes entries off the stream. -/
  | accept (entries : List (JournalEvent E))
  /-- The receive thread moves the advertised sequence past what it took. -/
  | advance
  /-- The matching stage applies the next entry. -/
  | apply
  /-- The journal forked from the stream's: state is derived from the disk again. -/
  | rederive (disk : List (JournalEvent E))
  /-- A resync archives the local lineage. -/
  | archive
  /-- The advertised sequence shrinks with the holdings. -/
  | reset
  | retry
  /-- The snapshot of a primary's lineage, and its seed, are installed. -/
  | install (history : List (JournalEvent E))
  /-- The stream start that follows a transfer. -/
  | rebase (epoch : UInt64)
  /-- The advertised sequence is the snapshot's. -/
  | settle

namespace ReplicaTip

section

variable {E : Type}

def boot : ReplicaTip E where
  phase := .booting
  lineage := []
  applied := 0
  fence := FenceState.new 0
  journalTip := 0
  ready := false
  met := []

def localTip (node : ReplicaTip E) : JournalTip := ⟨node.fence.epoch, node.journalTip⟩

def observe (node : ReplicaTip E) (epoch : UInt64) : ReplicaTip E :=
  { node with fence := node.fence.observeEpoch epoch, met := node.met ++ [epoch] }

def adoptRecoveredLineage (node : ReplicaTip E) (lineage : List (JournalEvent E)) :
    ReplicaTip E :=
  { node with lineage, applied := lineage.length }.observe (highestEpoch (bumpedEpochs lineage))

def acceptStreamStart (node : ReplicaTip E) (epoch : UInt64) : ReplicaTip E :=
  if node.fence.refusesPrimary epoch then node else node.observe epoch

def observeLiveLineage (node : ReplicaTip E) : JournalEvent E → ReplicaTip E
  | .epochBump epoch => node.observe epoch
  | _ => node

def advance (node : ReplicaTip E) (sequence : Nat) : ReplicaTip E :=
  { node with journalTip := max node.journalTip sequence }

def step (act : TipAct E) (node : ReplicaTip E) : Option (ReplicaTip E) :=
  match node.phase, act with
  | .booting, .recover disk =>
    some { (node.adoptRecoveredLineage disk).advance disk.length with
      phase := .following, ready := true }
  | .following, .streamStart epoch => some (node.acceptStreamStart epoch)
  | .following, .resume position =>
    if position ≤ node.lineage.length then some (node.advance position) else none
  | .following, .accept entries => some { node with lineage := node.lineage ++ entries }
  | .following, .advance => some (node.advance node.lineage.length)
  | .following, .apply =>
    match node.lineage[node.applied]? with
    | some event => some { node.observeLiveLineage event with applied := node.applied + 1 }
    | none => none
  | .following, .rederive disk => some (node.adoptRecoveredLineage disk)
  | .following, .archive => some { node with phase := .archived, lineage := [], applied := 0 }
  | .archived, .reset => some { node with phase := .transferring, journalTip := 0 }
  | .transferring, .retry => some { node with phase := .following }
  | .transferring, .install history =>
    some { node.adoptRecoveredLineage history with phase := .installed }
  | .installed, .rebase epoch => some { node.observe epoch with phase := .rebased }
  | .rebased, .settle =>
    some { node with phase := .following, journalTip := node.lineage.length }
  | _, _ => none

def epochAtTip (node : ReplicaTip E) : UInt64 :=
  highestEpoch (bumpedEpochs (node.lineage.take node.localTip.lastSequence))

/-- No epoch was met beyond those journaled within the tip, and the highest of these was met. -/
def MetItsTip (node : ReplicaTip E) : Prop :=
  (∀ epoch ∈ node.met, epoch ≤ node.epochAtTip) ∧
    (node.epochAtTip = 0 ∨ node.epochAtTip ∈ node.met)

instance (node : ReplicaTip E) : Decidable node.MetItsTip :=
  have : Decidable (∀ epoch ∈ node.met, epoch ≤ node.epochAtTip) := List.decidableBAll _ _
  instDecidableAnd

end

end ReplicaTip

theorem highestEpoch_append (epochs : List UInt64) (epoch : UInt64) :
    highestEpoch (epochs ++ [epoch]) = observeInto (highestEpoch epochs) epoch := by
  simp [highestEpoch]

theorem observeInto_le_iff {current observed bound : UInt64} :
    observeInto current observed ≤ bound ↔ current ≤ bound ∧ observed ≤ bound := by
  unfold observeInto
  rw [UInt64.max_def]
  split <;> simp only [UInt64.le_iff_toNat_le] at * <;> omega

theorem highestEpoch_le_iff {epochs : List UInt64} {bound : UInt64} :
    highestEpoch epochs ≤ bound ↔ ∀ epoch ∈ epochs, epoch ≤ bound := by
  induction epochs using List.reverseRecOn with
  | nil => simp [highestEpoch]
  | append_singleton epochs epoch ih =>
    rw [highestEpoch_append, observeInto_le_iff, ih]
    simp [or_imp, forall_and]

theorem highestEpoch_mem (epochs : List UInt64) :
    highestEpoch epochs = 0 ∨ highestEpoch epochs ∈ epochs := by
  induction epochs using List.reverseRecOn with
  | nil => exact Or.inl rfl
  | append_singleton epochs epoch ih =>
    rw [highestEpoch_append]
    unfold observeInto
    rw [UInt64.max_def]
    split
    · exact Or.inr (by simp)
    · rcases ih with zero | member
      · exact Or.inl zero
      · exact Or.inr (List.mem_append_left _ member)

theorem highestEpoch_mono {fewer more : List UInt64} (within : fewer ⊆ more) :
    highestEpoch fewer ≤ highestEpoch more :=
  highestEpoch_le_iff.mpr fun epoch member =>
    highestEpoch_le_iff.mp (UInt64.le_refl _) epoch (within member)

namespace ReplicaTip

section

variable {E : Type}

def FencedByMet (node : ReplicaTip E) : Prop := node.fence.epoch = highestEpoch node.met

theorem FencedByMet.observe {node : ReplicaTip E} (fenced : node.FencedByMet) (epoch : UInt64) :
    (node.observe epoch).FencedByMet := by
  unfold FencedByMet
  simp only [ReplicaTip.observe, FenceState.observeEpoch, highestEpoch_append, observeInto]
  rw [fenced]

theorem FencedByMet.step {node after : ReplicaTip E} {act : TipAct E}
    (stepped : ReplicaTip.step act node = some after) (fenced : node.FencedByMet) :
    after.FencedByMet := by
  have adopted : ∀ lineage, (node.adoptRecoveredLineage lineage).FencedByMet := by
    intro lineage
    have taken : FencedByMet { node with lineage, applied := lineage.length } := fenced
    exact taken.observe _
  have applied : ∀ event, (node.observeLiveLineage event).FencedByMet := by
    intro event
    cases event with
    | epochBump epoch => exact fenced.observe epoch
    | tick _ | ackPolicyChange _ | shutdown | app _ => exact fenced
  unfold ReplicaTip.step at stepped
  split at stepped
  · cases stepped
    exact adopted _
  · cases stepped
    unfold acceptStreamStart
    split
    · exact fenced
    · exact fenced.observe _
  · split at stepped
    · cases stepped
      exact fenced
    · cases stepped
  · cases stepped
    exact fenced
  · cases stepped
    exact fenced
  · split at stepped
    · cases stepped
      exact applied _
    · cases stepped
  · cases stepped
    exact adopted _
  · cases stepped
    exact fenced
  · cases stepped
    exact fenced
  · cases stepped
    exact fenced
  · cases stepped
    exact adopted _
  · cases stepped
    exact fenced.observe _
  · cases stepped
    exact fenced
  · cases stepped

theorem fencedByMet_of_run {acts : List (TipAct E)} {node : ReplicaTip E}
    (ran : Lib.runActs step acts boot = some node) : node.FencedByMet :=
  Lib.runActs_keeps step (fun _ _ _ _ stepped => FencedByMet.step stepped) ran rfl

theorem FencedByMet.truthful_iff {node : ReplicaTip E} (fenced : node.FencedByMet) :
    node.localTip.epoch = node.epochAtTip ↔ node.MetItsTip := by
  show node.fence.epoch = node.epochAtTip ↔ _
  rw [fenced]
  constructor
  · intro same
    rw [MetItsTip, ← same]
    exact ⟨highestEpoch_le_iff.mp (UInt64.le_refl _), highestEpoch_mem node.met⟩
  · rintro ⟨bounded, reached⟩
    refine UInt64.le_antisymm (highestEpoch_le_iff.mpr bounded) ?_
    rcases reached with zero | member
    · rw [zero]
      exact UInt64.zero_le
    · exact highestEpoch_le_iff.mp (UInt64.le_refl _) _ member

end

end ReplicaTip

section

variable {E : Type}

end

section

def streamsBump : List (TipAct CounterEvent) :=
  [.recover [.tick 1, .tick 2, .tick 3], .streamStart 1, .accept [.epochBump 1], .advance, .apply]

def holdsTwo : List (TipAct CounterEvent) := [.recover [.tick 1, .tick 2]]

/-- A replica that accepted a new primary's stream start, and nothing of its stream. -/
def hearsEpoch : List (TipAct CounterEvent) := [.recover [.tick 1], .streamStart 1]

end

end Melin
