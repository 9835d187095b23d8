import Melin.Gate.AckPolicyLaws
import Melin.Gate.DurabilityGate

/-! What the response stage's view makes of a policy, and the policies the view's sentinel breaks. -/

namespace Melin

def blockerOf (place : Nat) : Blocker := if place = 0 then .journal else .replication

def Binds (nodes : List NodeCursors) (seen : List Clause) : Option (Nat × Blocker) → Prop
  | none => seen = []
  | some (value, blocker) =>
    (∃ clause ∈ seen, ∃ place < nodes.length, cursorAt nodes clause.level place = value ∧
      rankOf nodes clause.level place = clause.count ∧ blocker = blockerOf place ∧
        nthLargestCursor nodes clause.level clause.count = value) ∧
    ∀ clause ∈ seen, value ≤ nthLargestCursor nodes clause.level clause.count

variable {nodes : List NodeCursors}

theorem Binds.attributeBlockerLoop {seen rest : List Clause} {binding : Option (Nat × Blocker)}
    (start : Binds nodes seen binding)
    (counts : ∀ clause ∈ rest, 1 ≤ clause.count ∧ clause.count ≤ maxClusterSize)
    (room : ∀ clause ∈ rest, clause.count ≤ nodes.length) :
    ∃ bound, Melin.attributeBlockerLoop nodes rest binding = some bound ∧
      Binds nodes (seen ++ rest) bound := by
  induction rest generalizing seen binding with
  | nil => exact ⟨binding, rfl, by rwa [List.append_nil]⟩
  | cons clause rest ih =>
    obtain ⟨positive, capped⟩ := counts clause List.mem_cons_self
    obtain ⟨place, inside, found, rank⟩ := nthLargestWithNode_eq_some clause.level positive capped
      (room clause List.mem_cons_self)
    have value : nthLargestCursor nodes clause.level clause.count
        = cursorAt nodes clause.level place := by rw [nthLargestCursor, found]
    rw [Melin.attributeBlockerLoop, found, show seen ++ clause :: rest = (seen ++ [clause]) ++ rest
      by simp]
    refine ih ?_ (fun other later => counts other (List.mem_cons_of_mem _ later))
      (fun other later => room other (List.mem_cons_of_mem _ later))
    have new : clause ∈ seen ++ [clause] := List.mem_append_right _ (List.mem_singleton_self _)
    cases binding with
    | none =>
      rw [if_pos (by rfl)]
      refine ⟨⟨clause, new, place, inside, rfl, rank, rfl, value⟩, fun other member => ?_⟩
      rw [show seen = [] from start, List.nil_append, List.mem_singleton] at member
      rw [member, value]
    | some best =>
      obtain ⟨lowest, blocker⟩ := best
      obtain ⟨⟨source, isSeen, rest⟩, below⟩ := start
      by_cases lower : cursorAt nodes clause.level place < lowest
      · rw [if_pos (by simpa using lower)]
        refine ⟨⟨clause, new, place, inside, rfl, rank, rfl, value⟩, fun other member => ?_⟩
        rcases List.mem_append.mp member with earlier | latest
        · exact lower.le.trans (below other earlier)
        · rw [List.mem_singleton.mp latest, value]
      · rw [if_neg (by simpa using lower)]
        refine ⟨⟨source, List.mem_append_left _ isSeen, rest⟩, fun other member => ?_⟩
        rcases List.mem_append.mp member with earlier | latest
        · exact below other earlier
        · rw [List.mem_singleton.mp latest, value]
          exact Nat.le_of_not_lt lower

def Policy.Bounded (policy : Policy) (nodes : List NodeCursors) : Prop :=
  ∃ clause ∈ policy.clauses,
    clause.level = .persisted ∨ nodes.countP (·.inMemory = u64Max) < clause.count

/-- Every cursor fits its word, and every persisted one is below the sentinel. -/
structure Real (nodes : List NodeCursors) : Prop where
  inMemory : ∀ node ∈ nodes, node.inMemory ≤ u64Max
  persisted : ∀ node ∈ nodes, node.persisted < u64Max

theorem Real.cursorAt_le (real : Real nodes) (level : Level) (place : Nat) :
    cursorAt nodes level place ≤ u64Max := by
  rw [cursorAt]
  cases found : nodes[place]? with
  | none => exact Nat.zero_le _
  | some node =>
    have member := List.mem_of_getElem? found
    have low := real.inMemory node member
    have below := real.persisted node member
    rw [Option.map_some, Option.getD_some]
    cases level <;> rw [effectiveCursor] <;> omega

/-- A clause holds at the sentinel where enough in-memory cursors stand at it, and never on disk. -/
theorem Real.satisfiedAt_u64Max (real : Real nodes) {clause : Clause} (positive : 1 ≤ clause.count) :
    
    clause.SatisfiedAt nodes u64Max ↔
      ¬(clause.level = .persisted ∨ nodes.countP (·.inMemory = u64Max) < clause.count) := by
  rw [Clause.SatisfiedAt]
  cases level : clause.level with
  | inMemory =>
    have same : nodes.countP (fun node => decide (u64Max ≤ effectiveCursor node .inMemory))
        = nodes.countP (·.inMemory = u64Max) := by
      refine List.countP_congr fun node member => ?_
      have low := real.inMemory node member
      have below := real.persisted node member
      rw [decide_eq_true_iff, decide_eq_true_iff, effectiveCursor]
      omega
    rw [same]
    simp
  | persisted =>
    have none : nodes.countP (fun node => decide (u64Max ≤ effectiveCursor node .persisted)) = 0 := by
      refine List.countP_eq_zero.mpr fun node member => ?_
      have below := real.persisted node member
      rw [decide_eq_true_iff, effectiveCursor]
      omega
    rw [none]
    simp only [true_or, not_true_eq_false, iff_false]
    omega

theorem Policy.lowestSatisfied_eq_u64Max (policy : Policy) (real : Real nodes) :
    lowestSatisfied nodes policy.clauses = u64Max ↔ ¬policy.Bounded nodes := by
  have positive : 1 ≤ u64Max := by decide
  have capped : lowestSatisfied nodes policy.clauses ≤ u64Max :=
    ((le_lowestSatisfied_iff nodes policy.clauses).mp (Nat.le_refl _)).1
  calc lowestSatisfied nodes policy.clauses = u64Max
      ↔ u64Max ≤ lowestSatisfied nodes policy.clauses := by omega
    _ ↔ ∀ clause ∈ policy.clauses, clause.SatisfiedAt nodes u64Max := by
      rw [le_lowestSatisfied_iff, and_iff_right (Nat.le_refl _)]
      exact forall₂_congr fun clause member =>
        (Clause.satisfiedAt_iff (policy.counts clause member) positive).symm
    _ ↔ ¬policy.Bounded nodes := by
      rw [Policy.Bounded]
      push Not
      exact forall₂_congr fun clause member => by
        rw [real.satisfiedAt_u64Max (policy.counts clause member).1, not_or, Nat.not_lt]

/-- An evaluation is exact unless every clause is met by cursors at the sentinel alone. -/
theorem policy_evaluation_exact_iff (policy : Policy) {journalPos : Nat}
    {replicas : Option (ReplicaSlot × ReplicaSlot)} (real : Real (cursorView journalPos replicas)) :
    let view := cursorView journalPos replicas
    let status := policy.evaluateWithStatus view
    ((∀ position, 1 ≤ position → position ≤ u64Max → (position ≤ status.durablePos ↔
        ∀ clause ∈ policy.clauses, clause.SatisfiedAt view position)) ↔ policy.Bounded view) ∧
      (status.degraded = true ↔ ∃ clause ∈ policy.clauses, view.length < clause.count) ∧
      ∀ position, 1 ≤ position → position ≤ status.durablePos →
        ∃ clause ∈ policy.clauses, ∃ place < view.length,
          cursorAt view clause.level place = status.durablePos ∧
            rankOf view clause.level place = clause.count ∧
              policy.attributeBlocker view = some (blockerOf place) := by
  intro view status
  have sentinel := policy.lowestSatisfied_eq_u64Max real
  refine ⟨⟨fun exact' => ?_, fun bounded position positive fits => ?_⟩, ?_, ?_⟩
  · -- At the sentinel every clause holds at the first position, and none is reported.
    by_contra unbounded
    have lowest := sentinel.mpr unbounded
    have first := (exact' 1 (Nat.le_refl _) (by decide)).mpr fun clause member =>
      (Clause.satisfiedAt_iff (policy.counts clause member) (Nat.le_refl _)).mpr
        (((le_lowestSatisfied_iff view policy.clauses).mp (by rw [lowest]; decide)).2 clause member)
    have zero : status.durablePos = 0 := by
      show (policy.evaluateWithStatus view).durablePos = 0
      rw [Policy.evaluateWithStatus]
      exact if_pos lowest
    omega
  · have lowest : status.durablePos = lowestSatisfied view policy.clauses :=
      if_neg fun same => sentinel.mp same bounded
    rw [lowest, le_lowestSatisfied_iff, and_iff_right fits]
    exact forall₂_congr fun clause member =>
      (Clause.satisfiedAt_iff (policy.counts clause member) positive).symm
  · show policy.clauses.any (·.count > view.length) = true ↔ _
    simp
  · intro position positive opened
    have covered := policy.satisfiedAt_of_evaluate positive opened
    have room : ∀ clause ∈ policy.clauses, clause.count ≤ view.length := fun clause member =>
      (covered clause member).trans List.countP_le_length
    have lowest : status.durablePos = lowestSatisfied view policy.clauses :=
      if_neg fun same => by
        have zero : status.durablePos = 0 := if_pos same
        omega
    have start : Binds view [] none := rfl
    obtain ⟨bound, found, binds⟩ := start.attributeBlockerLoop policy.counts room
    rw [List.nil_append] at binds
    cases bound with
    | none => exact absurd binds policy.nonempty
    | some best =>
      obtain ⟨value, blocker⟩ := best
      obtain ⟨⟨clause, member, place, inside, cursor, rank, rfl, evaluated⟩, below⟩ := binds
      refine ⟨clause, member, place, inside, ?_, rank, ?_⟩
      · have capped := real.cursorAt_le clause.level place
        rw [cursor] at capped ⊢
        rw [lowest]
        refine Nat.le_antisymm ((le_lowestSatisfied_iff view _).mpr ⟨capped, below⟩) ?_
        rw [← evaluated]
        exact ((le_lowestSatisfied_iff view _).mp (Nat.le_refl _)).2 clause member
      · rw [Policy.attributeBlocker, found]
        rfl

/-- Two disks with one replica behind: the position is the replica's, and it is named. -/
theorem policy_evaluation_exact_twoDisks :
    (AckPolicy.twoDisks.toPolicy.evaluateWithStatus
        (cursorView 9 (some (⟨true, 8, 7⟩, ⟨false, 0, 0⟩)))).durablePos = 7 ∧
      AckPolicy.twoDisks.toPolicy.Bounded (cursorView 9 (some (⟨true, 8, 7⟩, ⟨false, 0, 0⟩))) ∧
      ∀ position, 1 ≤ position → position ≤ u64Max → (position ≤ 7 ↔
        ∀ clause ∈ AckPolicy.twoDisks.toPolicy.clauses, clause.SatisfiedAt
          (cursorView 9 (some (⟨true, 8, 7⟩, ⟨false, 0, 0⟩))) position) := by
  have real : Real (cursorView 9 (some (⟨true, 8, 7⟩, ⟨false, 0, 0⟩))) :=
    ⟨by decide, by decide⟩
  have bounded : AckPolicy.twoDisks.toPolicy.Bounded
      (cursorView 9 (some (⟨true, 8, 7⟩, ⟨false, 0, 0⟩))) :=
    ⟨⟨2, .persisted⟩, by decide, .inl rfl⟩
  exact ⟨by decide, bounded, (policy_evaluation_exact_iff _ real).1.mpr bounded⟩

/-- The policy that asks for one node in memory is met by the primary alone, yet opens nothing. -/
theorem policy_evaluation_drops_sentinel :
    ∃ policy, Policy.new [⟨1, .inMemory⟩] = .ok policy ∧
      (∀ clause ∈ policy.clauses, clause.SatisfiedAt (cursorView 5 none) 1) ∧
      (policy.evaluateWithStatus (cursorView 5 none)).durablePos = 0 ∧
      (policy.evaluateWithStatus (cursorView 5 none)).degraded = false :=
  ⟨⟨[⟨1, .inMemory⟩], by decide, by decide⟩, rfl, by decide, by decide, by decide⟩

/-- A node that is as far as another, or further, on both tracks. -/
def NodeCursors.Behind (node other : NodeCursors) : Prop :=
  node.inMemory ≤ other.inMemory ∧ node.persisted ≤ other.persisted

theorem countP_behind {later : List NodeCursors} (level : Level) (position : Nat)
    (ahead : List.SublistForall₂ NodeCursors.Behind nodes later) :
    nodes.countP (fun node => position ≤ effectiveCursor node level)
      ≤ later.countP (fun node => position ≤ effectiveCursor node level) := by
  induction ahead with
  | nil => exact Nat.zero_le _
  | @cons node other nodes later behind _ ih =>
    have further : effectiveCursor node level ≤ effectiveCursor other level := by
      cases level
      · exact max_le_max behind.1 behind.2
      · exact behind.2
    rw [List.countP_cons, List.countP_cons]
    simp only [decide_eq_true_eq]
    split <;> split <;> omega
  | cons_right _ ih => exact ih.trans ((List.sublist_cons_self ..).countP_le)

/--
As nodes advance and join, the durable position never goes back.

This is so under any policy that the view does not meet at the sentinel alone.
-/
theorem durable_position_advances (policy : Policy) {later : List NodeCursors} (real : Real later)
    (bounded : policy.Bounded later)
    (ahead : List.SublistForall₂ NodeCursors.Behind nodes later) :
    (policy.evaluateWithStatus nodes).durablePos
      ≤ (policy.evaluateWithStatus later).durablePos := by
  rcases Nat.eq_zero_or_pos (policy.evaluateWithStatus nodes).durablePos with zero | positive
  · omega
  have covered := policy.satisfiedAt_of_evaluate positive le_rfl
  have lowest : (policy.evaluateWithStatus later).durablePos
      = lowestSatisfied later policy.clauses :=
    if_neg fun same => (policy.lowestSatisfied_eq_u64Max real).mp same bounded
  rw [lowest, le_lowestSatisfied_iff]
  refine ⟨?_, fun clause member => ?_⟩
  · refine le_trans ?_ ((le_lowestSatisfied_iff nodes policy.clauses).mp le_rfl).1
    rw [Policy.evaluateWithStatus]
    dsimp only
    split <;> omega
  · exact (Clause.satisfiedAt_iff (policy.counts clause member) positive).mp
      ((covered clause member).trans (countP_behind _ _ ahead))

theorem durable_position_advances_join :
    (AckPolicy.twoDisks.toPolicy.evaluateWithStatus (cursorView 9 none)).durablePos
      ≤ (AckPolicy.twoDisks.toPolicy.evaluateWithStatus
        (cursorView 9 (some (⟨true, 8, 7⟩, ⟨false, 0, 0⟩)))).durablePos :=
  durable_position_advances _ ⟨by decide, by decide⟩ ⟨⟨2, .persisted⟩, by decide, .inl rfl⟩
    (.cons ⟨le_rfl, le_rfl⟩ .nil)

end Melin
