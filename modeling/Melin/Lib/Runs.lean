import Mathlib.Data.List.Basic

/-! Runs of a machine whose acts are enabled or not, and invariants along them. -/

namespace Lib

section

variable {S A : Type} (step : A → S → Option S)

def runActs : List A → S → Option S
  | [], state => some state
  | act :: acts, state => (step act state).bind (runActs acts)

theorem runActs_keeps {P : S → Prop} {acts : List A} {state last : S}
    (keeps : ∀ act ∈ acts, ∀ before after, step act before = some after → P before → P after)
    (ran : runActs step acts state = some last) (held : P state) : P last := by
  induction acts generalizing state with
  | nil =>
    cases ran
    exact held
  | cons act acts ih =>
    obtain ⟨after, stepped, rest⟩ := Option.bind_eq_some_iff.mp ran
    exact ih (fun act member => keeps act (List.mem_cons_of_mem _ member)) rest
      (keeps act List.mem_cons_self state after stepped held)

def EachAct (condition : A → S → Prop) : List A → S → Prop
  | [], _ => True
  | act :: acts, state =>
    condition act state ∧ ∀ after, step act state = some after → EachAct condition acts after

instance decidableEachAct {condition : A → S → Prop}
    [∀ act state, Decidable (condition act state)] :
    ∀ acts state, Decidable (EachAct step condition acts state)
  | [], _ => isTrue trivial
  | act :: acts, state =>
    match next : step act state with
    | none => decidable_of_iff (condition act state) (by simp [EachAct, next])
    | some after =>
      have : Decidable (EachAct step condition acts after) := decidableEachAct acts after
      decidable_of_iff (condition act state ∧ EachAct step condition acts after)
        (by simp [EachAct, next])

theorem runActs_keeps_where {P : S → Prop} {condition : A → S → Prop} {acts : List A}
    {state last : S}
    (keeps : ∀ act before after, condition act before → step act before = some after →
      P before → P after)
    (ran : runActs step acts state = some last) (each : EachAct step condition acts state)
    (held : P state) : P last := by
  induction acts generalizing state with
  | nil =>
    cases ran
    exact held
  | cons act acts ih =>
    obtain ⟨after, stepped, rest⟩ := Option.bind_eq_some_iff.mp ran
    exact ih rest (each.2 after stepped) (keeps act state after each.1 stepped held)

end

end Lib
