import Melin.Journal.Event

/-! Ack policies: what must hold an event before its reply goes out, and how that is evaluated. -/

namespace Melin

/-- Level of durability a clause asks for. -/
inductive Level where
  | inMemory
  | persisted
  deriving DecidableEq, Repr

structure Clause where
  count : Nat
  level : Level
  deriving DecidableEq, Repr

def maxClusterSize : Nat := 3

inductive PolicyError where
  | empty
  | zeroCount (clause : Clause)
  | countExceedsClusterCap (count max : Nat)
  deriving DecidableEq, Repr

/-- A conjunction of clauses, none of them trivial or beyond the cluster cap. -/
structure Policy where
  clauses : List Clause
  nonempty : clauses ≠ []
  counts : ∀ clause ∈ clauses, 1 ≤ clause.count ∧ clause.count ≤ maxClusterSize

def Policy.new (clauses : List Clause) : Except PolicyError Policy :=
  if nonempty : clauses = [] then .error .empty
  else
    match zero : clauses.find? (·.count = 0) with
    | some clause => .error (.zeroCount clause)
    | none =>
      match capped : clauses.find? (·.count > maxClusterSize) with
      | some clause => .error (.countExceedsClusterCap clause.count maxClusterSize)
      | none =>
        .ok { clauses, nonempty, counts := fun clause member => by
                simp only [List.find?_eq_none, decide_eq_true_eq] at zero capped
                have positive := zero clause member
                have bounded := capped clause member
                omega }

/-- Highest sequence a node has reached at each level. -/
structure NodeCursors where
  inMemory : Nat
  persisted : Nat
  deriving DecidableEq, Repr

def effectiveCursor (node : NodeCursors) : Level → Nat
  | .inMemory => max node.inMemory node.persisted
  | .persisted => node.persisted

def bestUntaken (level : Level) (taken : List Nat) :
    List NodeCursors → Nat → Option (Nat × Nat) → Option (Nat × Nat)
  | [], _, best => best
  | node :: nodes, index, best =>
    if index ∈ taken then bestUntaken level taken nodes (index + 1) best
    else
      let value := effectiveCursor node level
      -- Strictly greater: among equal cursors the lowest index wins.
      bestUntaken level taken nodes (index + 1)
        (if best.all (fun (bestValue, _) => value > bestValue) then some (value, index) else best)

/-- Take the running maximum once per rank left, skipping nodes already claimed. -/
def nthLargestLoop (nodes : List NodeCursors) (level : Level) : Nat → List Nat → Option (Nat × Nat)
  | 0, _ => none
  | ranks + 1, taken =>
    match bestUntaken level taken nodes 0 none with
    | none => none
    | some (value, node) =>
      if ranks = 0 then some (value, node) else nthLargestLoop nodes level ranks (taken ++ [node])

def nthLargestWithNode (nodes : List NodeCursors) (level : Level) (count : Nat) :
    Option (Nat × Nat) :=
  if count = 0 ∨ count > nodes.length ∨ count > maxClusterSize then none
  else nthLargestLoop nodes level count []

def nthLargestCursor (nodes : List NodeCursors) (level : Level) (count : Nat) : Nat :=
  match nthLargestWithNode nodes level count with
  | some (value, _) => value
  | none => 0

def u64Max : Nat := 2 ^ 64 - 1

/-- Outcome of one policy evaluation. -/
structure EvalStatus where
  /-- Highest sequence at which every clause is satisfied. -/
  durablePos : Nat
  /-- Some clause asks for more nodes than there are. -/
  degraded : Bool
  deriving DecidableEq, Repr

def lowestSatisfied (nodes : List NodeCursors) (clauses : List Clause) : Nat :=
  clauses.foldl (fun result clause => min result (nthLargestCursor nodes clause.level clause.count))
    u64Max

def Policy.evaluateWithStatus (policy : Policy) (nodes : List NodeCursors) : EvalStatus :=
  let result := lowestSatisfied nodes policy.clauses
  { durablePos := if result = u64Max then 0 else result
    degraded := policy.clauses.any (·.count > nodes.length) }

/-- Which subsystem the gate was waiting on. -/
inductive Blocker where
  | journal
  | replication
  deriving DecidableEq, Repr

/-- The subsystem that supplied the binding clause, the first one on a tie. -/
def attributeBlockerLoop (nodes : List NodeCursors) :
    List Clause → Option (Nat × Blocker) → Option (Option (Nat × Blocker))
  | [], binding => some binding
  | clause :: clauses, binding =>
    match nthLargestWithNode nodes clause.level clause.count with
    | none => none
    | some (value, node) =>
      let blocker := if node = 0 then .journal else .replication
      attributeBlockerLoop nodes clauses
        (if binding.all (fun (best, _) => value < best) then some (value, blocker) else binding)

/-- Attribute an open gate to the subsystem it waited for, if the cluster can satisfy the policy. -/
def Policy.attributeBlocker (policy : Policy) (nodes : List NodeCursors) : Option Blocker :=
  match attributeBlockerLoop nodes policy.clauses none with
  | none => none
  | some binding => binding.map (·.2)

/-- The four policies an operator can name. -/
inductive AckPolicy where
  | disk
  | ram
  | diskAndRam
  | twoDisks
  deriving DecidableEq, Repr

def AckPolicy.clauses : AckPolicy → List Clause
  | .disk => [⟨1, .persisted⟩]
  | .ram => [⟨2, .inMemory⟩]
  | .diskAndRam => [⟨1, .persisted⟩, ⟨2, .inMemory⟩]
  | .twoDisks => [⟨2, .persisted⟩]

def AckPolicy.toPolicy (policy : AckPolicy) : Policy where
  clauses := policy.clauses
  nonempty := by cases policy <;> simp [clauses]
  counts := by cases policy <;> simp [clauses, maxClusterSize]

def AckPolicy.needsReplica (policy : AckPolicy) : Bool :=
  policy.toPolicy.clauses.any (·.count > 1)

def AckPolicy.toByte : AckPolicy → AckPolicyByte
  | .disk => ⟨0⟩
  | .diskAndRam => ⟨1⟩
  | .twoDisks => ⟨2⟩
  | .ram => ⟨3⟩

def AckPolicy.fromByte (byte : AckPolicyByte) : Option AckPolicy :=
  if byte.byte = 0 then some .disk
  else if byte.byte = 1 then some .diskAndRam
  else if byte.byte = 2 then some .twoDisks
  else if byte.byte = 3 then some .ram
  else none

@[simp] theorem AckPolicy.fromByte_toByte (policy : AckPolicy) :
    AckPolicy.fromByte policy.toByte = some policy := by
  cases policy <;> rfl

def Clause.SatisfiedAt (clause : Clause) (nodes : List NodeCursors) (position : Nat) : Prop :=
  clause.count ≤ nodes.countP (fun node => position ≤ effectiveCursor node clause.level)

instance (clause : Clause) (nodes : List NodeCursors) (position : Nat) :
    Decidable (clause.SatisfiedAt nodes position) := inferInstanceAs (Decidable (_ ≤ _))

end Melin
