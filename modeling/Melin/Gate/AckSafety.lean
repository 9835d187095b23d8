import Melin.Lib.Lists
import Melin.Gate.GateSteps

/-! Ack safety: what the policy is said to back, an evaluation of that very policy has confirmed. -/

namespace Melin

def policyAfter (started : AckPolicy) (trace : List GateEvent) : AckPolicy :=
  trace.foldl (fun inForce event =>
    match event with
    | .applied _ policy _ => policy
    | .journal _ | .evaluated _ _ | .released _ _ _ => inForce) started

def Keeps (policy : AckPolicy) (trace : List GateEvent) : Prop :=
  ∀ wireSeq next before, .applied wireSeq next before ∈ trace → next = policy

/--
A record shows a position to be durable under a policy: an evaluation of that policy reached it, and
no other policy was put in force since.
-/
def Certified (trace : List GateEvent) (policy : AckPolicy) (position : Nat) : Prop :=
  ∃ before nodes since, trace = before ++ .evaluated policy nodes :: since ∧
    position ≤ (policy.toPolicy.evaluateWithStatus nodes).durablePos ∧ Keeps policy since

variable {policy : AckPolicy}

theorem Certified.snoc {trace : List GateEvent} {position : Nat} {event : GateEvent}
    (certified : Certified trace policy position) (keeps : Keeps policy [event]) :
    Certified (trace ++ [event]) policy position := by
  obtain ⟨before, nodes, since, rfl, reached, kept⟩ := certified
  refine ⟨before, nodes, since ++ [event], by simp, reached, ?_⟩
  intro wireSeq next previous member
  rcases List.mem_append.mp member with old | new
  · exact kept wireSeq next previous old
  · exact keeps wireSeq next previous new

theorem keeps_singleton {event : GateEvent}
    (other : ∀ wireSeq next before, event ≠ .applied wireSeq next before) :
    Keeps policy [event] := by
  intro wireSeq next before member
  exact absurd (List.mem_singleton.mp member).symm (other wireSeq next before)

def ReleaseCertified (before : List GateEvent) : GateEvent → Prop
  | .released wireSeq .policy policy => 1 ≤ wireSeq → Certified before policy wireSeq
  | .released _ .primaryOnly _ | .journal _ | .evaluated _ _ | .applied _ _ _ => True

/-- Every release names the policy in force, which the changes applied so far determine. -/
def NamesPolicy (started : AckPolicy) (before : List GateEvent) : GateEvent → Prop
  | .released _ _ policy => policy = policyAfter started before
  | .applied _ _ previous => previous = policyAfter started before
  | .evaluated policy _ => policy = policyAfter started before
  | .journal _ => True

namespace GateCore

/-- What holds of a gate's record at every point of a run. -/
structure Sound (started : AckPolicy) (core : GateCore) : Prop where
  inForce : core.inForce = policyAfter started core.trace
  /-- The cached position is only ever one the policy in force has confirmed. -/
  cached : ∀ position, 1 ≤ position → position ≤ core.cached →
    Certified core.trace core.inForce position
  released : Lib.EachAfter ReleaseCertified core.trace
  named : Lib.EachAfter (NamesPolicy started) core.trace

theorem policyAfter_snoc (started : AckPolicy) (trace : List GateEvent) (event : GateEvent) :
    policyAfter started (trace ++ [event]) =
      match event with
      | .applied _ policy _ => policy
      | .journal _ | .evaluated _ _ | .released _ _ _ => policyAfter started trace := by
  simp only [policyAfter, List.foldl_append, List.foldl_cons, List.foldl_nil]

variable {started : AckPolicy}

theorem Sound.apply {core : GateCore} (sound : Sound started core) (wireSeq : Nat)
    (policy : AckPolicy) : Sound started (core.apply wireSeq policy) := by
  unfold GateCore.apply
  split
  · exact sound
  · refine ⟨?_, ?_, sound.released.snoc trivial, sound.named.snoc sound.inForce⟩
    · simp only [policyAfter_snoc]
    · intro position positive covered
      by_cases same : policy = core.inForce
      · -- The change repeats the policy in force, and the certificate stands.
        subst same
        simp only [if_true] at covered
        refine (sound.cached position positive covered).snoc ?_
        intro _ next _ member
        simp only [List.mem_singleton, GateEvent.applied.injEq] at member
        exact member.2.1
      · simp only [if_neg same] at covered
        omega

theorem Sound.record {core : GateCore} (sound : Sound started core) {event : GateEvent}
    (other : ∀ wireSeq next before, event ≠ .applied wireSeq next before)
    (released : ReleaseCertified core.trace event) (named : NamesPolicy started core.trace event) :
    Sound started (core.record event) := by
  refine ⟨?_, fun position positive covered => ?_, sound.released.snoc released,
    sound.named.snoc named⟩
  · simp only [GateCore.record, policyAfter_snoc]
    cases event with
    | applied wireSeq next before => exact absurd rfl (other wireSeq next before)
    | journal | evaluated | released => exact sound.inForce
  · exact (sound.cached position positive covered).snoc (keeps_singleton other)

theorem Sound.step {source : ChangeSource} {before after : GateCore}
    (step : Step source before after) (sound : Sound started before) : Sound started after := by
  cases step with
  | journal position => exact sound.record (by simp) trivial trivial
  | evaluate nodes =>
    -- The evaluation itself certifies the position it caches.
    refine ⟨?_, fun position _ covered => ?_, sound.released.snoc trivial,
      sound.named.snoc sound.inForce⟩
    · simp only [GateCore.record, policyAfter_snoc]
      exact sound.inForce
    · exact ⟨before.trace, nodes, [], rfl, covered, by simp [Keeps]⟩
  | settle front rest isFront durable =>
    have dequeued : Sound started { before with pending := rest } :=
      ⟨sound.inForce, sound.cached, sound.released, sound.named⟩
    exact dequeued.apply front.wireSeq front.policy
  | force wireSeq byte policy => exact sound.apply wireSeq policy
  | order wireSeq change policy => exact sound.apply wireSeq policy
  | defer => exact ⟨sound.inForce, sound.cached, sound.released, sound.named⟩
  | release wireSeq backing confirmed =>
    refine sound.record (by simp) ?_ sound.inForce
    cases backing with
    | policy => exact fun positive => sound.cached wireSeq positive (confirmed rfl)
    | primaryOnly => trivial

theorem Sound.steps {source : ChangeSource} {before after : GateCore}
    (steps : Steps source before after) (sound : Sound started before) : Sound started after := by
  induction steps with
  | refl => exact sound
  | tail _ step ih => exact ih.step step

theorem sound_start (start : GateStart) : Sound start.inForce (.start start) :=
  ⟨rfl, fun position positive covered => by simp only [GateCore.start] at covered; omega,
    .nil _, .nil _⟩

end GateCore

/--
A record shows every clause of a policy to hold at a position: in one evaluation of that policy
enough nodes had reached it, and no other policy was put in force since.
-/
def BackedByEvaluation (trace : List GateEvent) (policy : AckPolicy) (position : Nat) : Prop :=
  ∃ before nodes since, trace = before ++ .evaluated policy nodes :: since ∧
    (∀ clause ∈ policy.toPolicy.clauses, clause.SatisfiedAt nodes position) ∧ Keeps policy since

theorem Certified.backed {trace : List GateEvent} {position : Nat} (positive : 1 ≤ position)
    (certified : Certified trace policy position) :
    BackedByEvaluation trace policy position := by
  obtain ⟨before, nodes, since, split, reached, kept⟩ := certified
  exact ⟨before, nodes, since, split, Policy.satisfiedAt_of_evaluate positive reached, kept⟩

namespace DurabilityGate

section

variable {R Q : Type}

def anySource : ChangeSource := ⟨fun _ _ => True, fun _ _ => True⟩

theorem opFrom_any (op : GateOp R Q) : OpFrom anySource op := by
  cases op with
  | admitOutput slot looks => exact ⟨fun _ _ => trivial, fun _ _ _ _ => trivial⟩
  | idleRecheck | afterBatch => trivial

theorem sound_run (start : GateStart) (degradedGrace : Option Nat) (first : Look)
    (ops : List (GateOp R Q)) :
    GateCore.Sound start.inForce (run (new start degradedGrace first) ops).core := by
  have started := steps_new anySource start degradedGrace first
  have ran := steps_run ops (new start degradedGrace first) fun op _ => opFrom_any op
  exact (GateCore.sound_start start).steps (started.trans ran)

/--
Whatever a run releases as backed by the policy, an evaluation of the policy in force at the release
has found every clause to hold at, with no other policy in force in between.
-/
theorem policyRelease_backed (start : GateStart) (degradedGrace : Option Nat) (first : Look)
    (ops : List (GateOp R Q)) {before after : List GateEvent} {wireSeq : Nat} {policy : AckPolicy}
    (released : (run (new start degradedGrace first) ops).trace
      = before ++ .released wireSeq .policy policy :: after)
    (positive : 1 ≤ wireSeq) :
    policy = policyAfter start.inForce before ∧ BackedByEvaluation before policy wireSeq := by
  have sound := sound_run start degradedGrace first ops
  refine ⟨sound.named before _ after released, ?_⟩
  exact (sound.released before _ after released positive).backed positive

end

/-- What a gate sees on a primary whose journal has reached a position and that has no replica. -/
def aloneLook (journalPos : Nat) : Look :=
  { shutdown := false, journalPos, forced := none, replicas := none, lastLoss := none, now := 0 }

/-- A reply whose event is on the primary's disk is released in full under the disk policy. -/
theorem policyRelease_backed_disk :
    let gate := run (new ⟨.disk, none⟩ none (aloneLook 1))
      [(.admitOutput ⟨7, 1, .report ()⟩ [] : GateOp Unit Unit)]
    ∃ before, gate.trace = before ++ .released 1 .policy .disk :: [] ∧
      BackedByEvaluation before .disk 1 :=
  have released : (run (new ⟨.disk, none⟩ none (aloneLook 1))
      [(.admitOutput ⟨7, 1, .report ()⟩ [] : GateOp Unit Unit)]).trace
        = [.journal 1, .evaluated .disk [⟨u64Max, 1⟩]] ++ .released 1 .policy .disk :: [] := by
    decide
  ⟨_, released, (policyRelease_backed _ _ _ _ released (by decide)).2⟩

/--
A query answered before anything was journaled is released as backed by `disk+ram`, though the
primary is alone and the two-node clause holds nowhere.
-/
theorem policyRelease_unbacked_at_zero :
    let gate := run (new ⟨.diskAndRam, none⟩ none (aloneLook 0))
      [(.admitOutput ⟨7, 0, .queryResponse ()⟩ [] : GateOp Unit Unit)]
    ∃ before, gate.trace = before ++ .released 0 .policy .diskAndRam :: [] ∧
      ¬ BackedByEvaluation before .diskAndRam 0 := by
  refine ⟨[.journal 0, .evaluated .diskAndRam [⟨u64Max, 0⟩]], by decide, ?_⟩
  rintro ⟨before, nodes, since, split, holds, -⟩
  -- The only evaluation on record saw the primary alone.
  have seen : GateEvent.evaluated .diskAndRam nodes
      ∈ [.journal 0, .evaluated .diskAndRam [⟨u64Max, 0⟩]] := by
    rw [split]
    simp
  simp only [List.mem_cons, reduceCtorEq, GateEvent.evaluated.injEq, true_and, List.not_mem_nil,
    or_false, false_or] at seen
  subst seen
  exact absurd holds (by decide)

end DurabilityGate

end Melin
