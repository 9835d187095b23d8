import Melin.Gate.AckPolicy

/-! An evaluation is exact: a clause is evaluated to the last position enough nodes have reached. -/

namespace Melin

def cursorAt (nodes : List NodeCursors) (level : Level) (place : Nat) : Nat :=
  ((nodes[place]?).map (effectiveCursor · level)).getD 0

/-- A node ranks up to another: its cursor is larger, or it is as large and its place no later. -/
def RanksUpTo (nodes : List NodeCursors) (level : Level) (place other : Nat) : Prop :=
  cursorAt nodes level other < cursorAt nodes level place ∨
    cursorAt nodes level other = cursorAt nodes level place ∧ place ≤ other

instance (nodes : List NodeCursors) (level : Level) (place other : Nat) :
    Decidable (RanksUpTo nodes level place other) := inferInstanceAs (Decidable (_ ∨ _))

def rankOf (nodes : List NodeCursors) (level : Level) (place : Nat) : Nat :=
  ((Finset.range nodes.length).filter (RanksUpTo nodes level · place)).card

theorem countP_eq_card (nodes : List NodeCursors) (level : Level) (position : Nat) :
    nodes.countP (fun node => position ≤ effectiveCursor node level)
      = ((Finset.range nodes.length).filter (position ≤ cursorAt nodes level ·)).card := by
  induction nodes using List.reverseRecOn with
  | nil => rfl
  | append_singleton nodes node ih =>
    have last : cursorAt (nodes ++ [node]) level nodes.length = effectiveCursor node level := by
      simp [cursorAt]
    have others : (Finset.range nodes.length).filter (position ≤ cursorAt (nodes ++ [node]) level ·)
        = (Finset.range nodes.length).filter (position ≤ cursorAt nodes level ·) := by
      refine Finset.filter_congr fun place inside => ?_
      rw [cursorAt, cursorAt, List.getElem?_append_left (Finset.mem_range.mp inside)]
    rw [List.countP_append, ih, List.length_append, List.length_singleton, Finset.range_add_one,
      Finset.filter_insert, last, others]
    by_cases reached : position ≤ effectiveCursor node level
    · rw [if_pos reached, Finset.card_insert_of_notMem (by simp)]
      simp [reached]
    · rw [if_neg reached]
      simp [reached]

section

variable {nodes : List NodeCursors} {level : Level} {taken : List Nat}

/-- The pick among the first nodes: the first in rank that no earlier rank has claimed. -/
def BestOf (nodes : List NodeCursors) (level : Level) (taken : List Nat) (seen : Nat) :
    Option (Nat × Nat) → Prop
  | none => ∀ place < seen, place ∈ taken
  | some (value, place) => place < seen ∧ place ∉ taken ∧ value = cursorAt nodes level place ∧
      ∀ other < seen, other ∉ taken → RanksUpTo nodes level place other

theorem BestOf.bestUntaken {seen : Nat} {rest : List NodeCursors} {best : Option (Nat × Nat)}
    (split : nodes.drop seen = rest) (start : BestOf nodes level taken seen best)
    (inside : seen ≤ nodes.length) :
    BestOf nodes level taken nodes.length (bestUntaken level taken rest seen best) := by
  induction rest generalizing seen best with
  | nil =>
    have all : seen = nodes.length := Nat.le_antisymm inside (List.drop_eq_nil_iff.mp split)
    rwa [← all]
  | cons node rest ih =>
    have here : nodes[seen]? = some node := by rw [← List.head?_drop, split, List.head?_cons]
    have cursor : cursorAt nodes level seen = effectiveCursor node level := by simp [cursorAt, here]
    have later : nodes.drop (seen + 1) = rest := by rw [← List.tail_drop, split, List.tail_cons]
    have room : seen + 1 ≤ nodes.length := (List.getElem?_eq_some_iff.mp here).1
    rw [Melin.bestUntaken]
    split
    · rename_i claimed
      refine ih later ?_ room
      -- A claimed node is no candidate.
      cases best with
      | none =>
        intro place isSeen
        rcases Nat.lt_succ_iff_lt_or_eq.mp isSeen with before | rfl
        · exact start place before
        · exact claimed
      | some pick =>
        refine ⟨Nat.lt_succ_of_lt start.1, start.2.1, start.2.2.1, fun other isSeen free => ?_⟩
        rcases Nat.lt_succ_iff_lt_or_eq.mp isSeen with before | rfl
        · exact start.2.2.2 other before free
        · exact absurd claimed free
    · rename_i unclaimed
      refine ih later ?_ room
      cases best with
      | none =>
        refine ⟨Nat.lt_succ_self _, unclaimed, cursor.symm, fun other isSeen free => ?_⟩
        rcases Nat.lt_succ_iff_lt_or_eq.mp isSeen with before | rfl
        · exact absurd (start other before) free
        · exact .inr ⟨rfl, Nat.le_refl _⟩
      | some pick =>
        obtain ⟨value, place⟩ := pick
        obtain ⟨before, free, rfl, leads⟩ := start
        by_cases ahead : cursorAt nodes level place < effectiveCursor node level
        · -- The node takes the lead, and what the old leader led falls behind it too.
          rw [if_pos (by simpa using ahead)]
          refine ⟨Nat.lt_succ_self _, unclaimed, cursor.symm, fun other isSeen isFree => ?_⟩
          rcases Nat.lt_succ_iff_lt_or_eq.mp isSeen with earlier | rfl
          · have behind := leads other earlier isFree
            rw [RanksUpTo] at behind ⊢
            omega
          · exact .inr ⟨rfl, Nat.le_refl _⟩
        · rw [if_neg (by simpa using ahead)]
          refine ⟨Nat.lt_succ_of_lt before, free, rfl, fun other isSeen isFree => ?_⟩
          rcases Nat.lt_succ_iff_lt_or_eq.mp isSeen with earlier | rfl
          · exact leads other earlier isFree
          · rw [RanksUpTo, cursor]
            omega

structure Claimed (nodes : List NodeCursors) (level : Level) (taken : List Nat) : Prop where
  distinct : taken.Nodup
  inside : ∀ place ∈ taken, place < nodes.length
  ahead : ∀ place ∈ taken, ∀ other < nodes.length, other ∉ taken → RanksUpTo nodes level place other

theorem Claimed.rankOf_pick (claimed : Claimed nodes level taken) {value place : Nat}
    (pick : BestOf nodes level taken nodes.length (some (value, place))) :
    rankOf nodes level place = taken.length + 1 := by
  obtain ⟨inside, free, -, leads⟩ := pick
  have up : (Finset.range nodes.length).filter (RanksUpTo nodes level · place)
      = insert place taken.toFinset := by
    ext other
    rw [Finset.mem_filter, Finset.mem_range, Finset.mem_insert, List.mem_toFinset]
    constructor
    · rintro ⟨isNode, before⟩
      by_contra neither
      have behind := leads other isNode fun isTaken => neither (.inr isTaken)
      have apart : other ≠ place := fun same => neither (.inl same)
      rw [RanksUpTo] at before behind
      omega
    · rintro (rfl | isTaken)
      · exact ⟨inside, .inr ⟨rfl, Nat.le_refl _⟩⟩
      · exact ⟨claimed.inside other isTaken, claimed.ahead other isTaken place inside free⟩
  rw [rankOf, up, Finset.card_insert_of_notMem (by simpa using free),
    List.toFinset_card_of_nodup claimed.distinct]

theorem Claimed.concat (claimed : Claimed nodes level taken) {value place : Nat}
    (pick : BestOf nodes level taken nodes.length (some (value, place))) :
    Claimed nodes level (taken ++ [place]) := by
  obtain ⟨inside, free, -, leads⟩ := pick
  refine ⟨List.nodup_append.mpr ⟨claimed.distinct, List.nodup_singleton _, ?_⟩, ?_, ?_⟩
  · rintro one isTaken other isPlace rfl
    rw [List.mem_singleton] at isPlace
    exact free (isPlace ▸ isTaken)
  · intro one member
    rcases List.mem_append.mp member with isTaken | isPlace
    · exact claimed.inside one isTaken
    · rwa [List.mem_singleton.mp isPlace]
  · intro one member other isNode isFree
    rw [List.mem_append, not_or] at isFree
    rcases List.mem_append.mp member with isTaken | isPlace
    · exact claimed.ahead one isTaken other isNode isFree.1
    · rw [List.mem_singleton.mp isPlace]
      exact leads other isNode isFree.1

theorem nthLargestLoop_eq {ranks : Nat} (claimed : Claimed nodes level taken) (some : 0 < ranks)
    (room : taken.length + ranks ≤ nodes.length) :
    ∃ place < nodes.length,
      nthLargestLoop nodes level ranks taken = .some (cursorAt nodes level place, place) ∧
        rankOf nodes level place = taken.length + ranks := by
  induction ranks generalizing taken with
  | zero => omega
  | succ ranks ih =>
    have pick : BestOf nodes level taken nodes.length (bestUntaken level taken nodes 0 none) :=
      BestOf.bestUntaken List.drop_zero (fun place none => absurd none (Nat.not_lt_zero _))
        (Nat.zero_le _)
    rw [nthLargestLoop]
    cases best : bestUntaken level taken nodes 0 none with
    | none =>
      -- There are fewer claimed nodes than nodes, so they are not all claimed.
      rw [best] at pick
      have covered : List.range nodes.length ⊆ taken := fun place inside =>
        pick place (List.mem_range.mp inside)
      have few := (List.subperm_of_subset List.nodup_range covered).length_le
      rw [List.length_range] at few
      omega
    | some found =>
      obtain ⟨value, place⟩ := found
      rw [best] at pick
      dsimp only
      split
      · rename_i last
        exact ⟨place, pick.1, by rw [pick.2.2.1], by rw [claimed.rankOf_pick pick, last]⟩
      · have next := ih (claimed.concat pick) (by omega)
          (by rw [List.length_append, List.length_singleton]; omega)
        rw [List.length_append, List.length_singleton] at next
        obtain ⟨other, inside, found, rank⟩ := next
        exact ⟨other, inside, found, by omega⟩

end

section

variable {nodes : List NodeCursors} {level : Level} {count : Nat}

theorem nthLargestWithNode_eq_some (level : Level) (positive : 1 ≤ count)
    (capped : count ≤ maxClusterSize) (room : count ≤ nodes.length) :
    ∃ place < nodes.length,
      nthLargestWithNode nodes level count = some (cursorAt nodes level place, place) ∧
        rankOf nodes level place = count := by
  have start : Claimed nodes level [] := ⟨List.nodup_nil, by simp, by simp⟩
  obtain ⟨place, inside, found, rank⟩ := nthLargestLoop_eq start positive
    (by rwa [List.length_nil, Nat.zero_add])
  rw [List.length_nil, Nat.zero_add] at rank
  exact ⟨place, inside, by rw [nthLargestWithNode, if_neg (by omega), found], rank⟩

theorem nthLargestWithNode_eq_none (short : nodes.length < count) :
    nthLargestWithNode nodes level count = none := by
  rw [nthLargestWithNode, if_pos (.inr (.inl short))]

theorem rankOf_le_card_iff {place position : Nat} (inside : place < nodes.length) :
    rankOf nodes level place
        ≤ ((Finset.range nodes.length).filter (position ≤ cursorAt nodes level ·)).card ↔
      position ≤ cursorAt nodes level place := by
  constructor
  · intro enough
    by_contra short
    -- Every node at the position ranks before this one, and this one is not among them.
    refine Nat.not_lt.mpr enough (Finset.card_lt_card ⟨fun other member => ?_, fun back => ?_⟩)
    · rw [Finset.mem_filter] at member ⊢
      exact ⟨member.1, .inl (by omega)⟩
    · have self := back (Finset.mem_filter.mpr
        ⟨Finset.mem_range.mpr inside, .inr ⟨rfl, Nat.le_refl _⟩⟩)
      exact short (Finset.mem_filter.mp self).2
  · intro reached
    refine Finset.card_le_card fun other member => ?_
    rw [Finset.mem_filter] at member ⊢
    refine ⟨member.1, ?_⟩
    rcases member.2 with larger | ⟨same, -⟩ <;> omega

end

theorem Clause.satisfiedAt_iff {clause : Clause} {nodes : List NodeCursors} {position : Nat}
    (counts : 1 ≤ clause.count ∧ clause.count ≤ maxClusterSize) (positive : 1 ≤ position) :
    clause.SatisfiedAt nodes position ↔
      position ≤ nthLargestCursor nodes clause.level clause.count := by
  rw [SatisfiedAt, nthLargestCursor, countP_eq_card]
  by_cases room : clause.count ≤ nodes.length
  · obtain ⟨place, inside, found, rank⟩ :=
      nthLargestWithNode_eq_some clause.level counts.1 counts.2 room
    rw [found, ← rankOf_le_card_iff inside, rank]
  · rw [nthLargestWithNode_eq_none (Nat.lt_of_not_le room)]
    have few := Finset.card_filter_le (Finset.range nodes.length)
      (position ≤ cursorAt nodes clause.level ·)
    rw [Finset.card_range] at few
    exact ⟨fun enough => by omega, fun reached => by dsimp only at reached; omega⟩

theorem le_lowestSatisfied_iff (nodes : List NodeCursors) (clauses : List Clause) {position : Nat} :
    position ≤ lowestSatisfied nodes clauses ↔ position ≤ u64Max ∧
      ∀ clause ∈ clauses, position ≤ nthLargestCursor nodes clause.level clause.count := by
  -- The fold is followed from any value it can start at.
  suffices follows : ∀ start, position ≤ clauses.foldl (fun result clause =>
      min result (nthLargestCursor nodes clause.level clause.count)) start ↔
        position ≤ start ∧
          ∀ clause ∈ clauses, position ≤ nthLargestCursor nodes clause.level clause.count from
    follows u64Max
  induction clauses with
  | nil => simp
  | cons clause rest ih =>
    intro start
    rw [List.foldl_cons, ih, le_min_iff, List.forall_mem_cons, and_assoc]

theorem Policy.satisfiedAt_of_evaluate {policy : Policy} {nodes : List NodeCursors}
    {position : Nat} (positive : 1 ≤ position)
    (covered : position ≤ (policy.evaluateWithStatus nodes).durablePos) :
    ∀ clause ∈ policy.clauses, clause.SatisfiedAt nodes position := by
  intro clause member
  apply (Clause.satisfiedAt_iff (policy.counts clause member) positive).mpr
  simp only [evaluateWithStatus] at covered
  split at covered
  · omega
  · exact ((le_lowestSatisfied_iff nodes policy.clauses).mp covered).2 clause member

end Melin
