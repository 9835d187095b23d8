import Mathlib.Logic.Basic

/-!
Calls of one thread on state it shares with others, with rules of pre- and postconditions.

What the others do between two of its accesses is part of the state's own transitions.
-/

namespace Lib

inductive Ending (ε α : Type) where
  | done (value : α)
  | failed (err : ε)
  | waiting

def Call (σ ε α : Type) : Type := σ → σ × Ending ε α

namespace Call

variable {σ ε α β : Type}

def andThen (first : Call σ ε α) (second : α → Call σ ε β) : Call σ ε β := fun state =>
  match first state with
  | (after, .done value) => second value after
  | (after, .failed err) => (after, .failed err)
  | (after, .waiting) => (after, .waiting)

instance : Monad (Call σ ε) where
  pure value := fun state => (state, .done value)
  bind := andThen

def look : Call σ ε σ := fun state => (state, .done state)

def change (update : σ → σ) : Call σ ε Unit := fun state => (update state, .done ())

def update (access : σ → α × σ) : Call σ ε α := fun state =>
  ((access state).2, .done (access state).1)

def fail (err : ε) : Call σ ε α := fun state => (state, .failed err)

def wait : Call σ ε α := fun state => (state, .waiting)

def ofExcept : Except ε α → Call σ ε α
  | .ok value => pure value
  | .error err => fail err

def iterate (body : α → Call σ ε (α ⊕ β)) : Nat → α → Call σ ε β
  | 0, _ => wait
  | rounds + 1, turn => do
    match ← body turn with
    | .inl next => iterate body rounds next
    | .inr result => return result

def recover (call : Call σ ε α) (handler : ε → Call σ ε α) : Call σ ε α := fun state =>
  match call state with
  | (after, .failed err) => handler err after
  | ended => ended

def attempt (call : Call σ ε α) : Call σ ε (Except ε α) :=
  recover (do return .ok (← call)) fun err => return .error err

/--
From every state of the precondition a call is done in the postcondition.

Where it fails, the error and the state meet the condition for that, and where it still waits, the
state does.
-/
def EndsAs (call : Call σ ε α) (before : σ → Prop) (after : α → σ → Prop) (failed : ε → σ → Prop)
    (waiting : σ → Prop) : Prop :=
  ∀ state, before state →
    match call state with
    | (left, .done value) => after value left
    | (left, .failed err) => failed err left
    | (left, .waiting) => waiting left

abbrev Ends (call : Call σ ε α) (before : σ → Prop) (after : α → σ → Prop)
    (failed waiting : σ → Prop) : Prop :=
  call.EndsAs before after (fun _ => failed) waiting

/-- The same, with one condition for a call that fails and for one that still waits. -/
abbrev Meets (call : Call σ ε α) (before : σ → Prop) (after : α → σ → Prop) (stopped : σ → Prop) :
    Prop :=
  call.Ends before after stopped stopped

section

variable {before before' : σ → Prop} {after : α → σ → Prop} {failed : ε → σ → Prop}
  {waiting : σ → Prop}

theorem ends_pure {value : α} (holds : ∀ state, before state → after value state) :
    (pure value : Call σ ε α).EndsAs before after failed waiting := holds

theorem ends_fail (err : ε) (holds : ∀ state, before state → failed err state) :
    (fail err : Call σ ε α).EndsAs before after failed waiting := holds

theorem ends_change {update : σ → σ} {after : Unit → σ → Prop}
    (holds : ∀ state, before state → after () (update state)) :
    (change update : Call σ ε Unit).EndsAs before after failed waiting := holds

theorem ends_update {access : σ → α × σ}
    (holds : ∀ state, before state → after (access state).1 (access state).2) :
    (update access : Call σ ε α).EndsAs before after failed waiting := holds

variable {last : β → σ → Prop} {call : Call σ ε α} {choice : Prop} {after' : α → σ → Prop}

theorem ends_bind {first : Call σ ε α} {second : α → Call σ ε β} (between : α → σ → Prop)
    (firstEnds : first.EndsAs before between failed waiting)
    (secondEnds : ∀ value, (second value).EndsAs (between value) last failed waiting) :
    (first >>= second).EndsAs before last failed waiting := by
  intro state holds
  show match first.andThen second state with
    | (left, .done value) => last value left
    | (left, .failed err) => failed err left
    | (left, .waiting) => waiting left
  have met := firstEnds state holds
  rw [andThen]
  generalize first state = ended at met
  obtain ⟨left, ending⟩ := ended
  cases ending with
  | done value => exact secondEnds value left met
  | failed err => exact met
  | waiting => exact met

theorem ends_look_bind {second : σ → Call σ ε β}
    (secondEnds : ∀ seen, before seen → (second seen).EndsAs (· = seen) last failed waiting) :
    ((look : Call σ ε σ) >>= second).EndsAs before last failed waiting :=
  fun state holds => secondEnds state holds state rfl

theorem ends_looking {second : σ → Call σ ε β}
    (secondEnds : ∀ seen, before seen → (second seen).EndsAs before last failed waiting) :
    ((look : Call σ ε σ) >>= second).EndsAs before last failed waiting :=
  fun state holds => secondEnds state holds state holds

theorem ends_ofExcept {result : Except ε α} (holds : ∀ value, result = .ok value →
      ∀ state, before state → after value state)
    (refused : ∀ err, result = .error err → ∀ state, before state → failed err state) :
    (ofExcept result : Call σ ε α).EndsAs before after failed waiting := by
  cases result with
  | ok value => exact holds value rfl
  | error err => exact refused err rfl

theorem ends_and {fact : Prop} (ends : fact → call.EndsAs before after failed waiting) :
    call.EndsAs (fun state => fact ∧ before state) after failed waiting :=
  fun state ⟨known, holds⟩ => ends known state holds

theorem ends_ite [Decidable choice] {yes no : Call σ ε α}
    (ifYes : choice → yes.EndsAs before after failed waiting)
    (ifNo : ¬choice → no.EndsAs before after failed waiting) :
    (if choice then yes else no).EndsAs before after failed waiting := by
  split
  · exact ifYes ‹_›
  · exact ifNo ‹_›

theorem ends_when [Decidable choice] {first : Call σ ε Unit} {rest : Call σ ε α}
    (between : σ → Prop) (ifYes : choice → first.EndsAs before (fun _ => between) failed waiting)
    (ifNo : ¬choice → ∀ state, before state → between state)
    (restEnds : rest.EndsAs between after failed waiting) :
    (if choice then first >>= fun _ => rest else rest).EndsAs before after failed waiting :=
  ends_ite (fun yes => ends_bind (fun _ => between) (ifYes yes) fun _ => restEnds)
    fun no state holds => restEnds state (ifNo no state holds)

theorem ends_refuse [Decidable choice] {err : ε} {rest : Call σ ε α}
    (stops : ∀ state, before state → failed err state)
    (restEnds : rest.EndsAs before after failed waiting) :
    (if choice then (fail err : Call σ ε Unit) >>= fun _ => rest else rest).EndsAs before after
      failed waiting :=
  ends_when before (fun _ => ends_fail err stops) (fun _ _ holds => holds) restEnds

theorem ends_iterate {body : α → Call σ ε (α ⊕ β)} (keeps : α → σ → Prop)
    (round : ∀ turn, (body turn).EndsAs (keeps turn)
      (fun next state => Sum.elim (fun turn => keeps turn state) (fun result => last result state) next)
      failed waiting)
    (waits : ∀ turn state, keeps turn state → waiting state) (rounds : Nat) (turn : α) :
    (iterate body rounds turn).EndsAs (keeps turn) last failed waiting := by
  induction rounds generalizing turn with
  | zero => exact waits turn
  | succ rounds ih =>
    refine ends_bind _ (round turn) fun next => ?_
    cases next with
    | inl next => exact ih next
    | inr result => exact ends_pure fun _ holds => holds

theorem ends_recover {handler : ε → Call σ ε α} {failedAt : ε → σ → Prop}
    (callEnds : call.EndsAs before after failedAt waiting)
    (handlerEnds : ∀ err, (handler err).EndsAs (failedAt err) after failed waiting) :
    (recover call handler).EndsAs before after failed waiting := by
  intro state holds
  have met := callEnds state holds
  simp only [recover]
  generalize call state = ended at met
  obtain ⟨left, ending⟩ := ended
  cases ending with
  | done value => exact met
  | failed err => exact handlerEnds err left met
  | waiting => exact met

theorem ends_attempt {failedAt : ε → σ → Prop}
    (callEnds : call.EndsAs before after failedAt waiting) :
    (attempt call).EndsAs before (fun result state => match result with
      | .ok value => after value state
      | .error err => failedAt err state) failed waiting :=
  ends_recover (ends_bind _ callEnds fun _ => ends_pure fun _ holds => holds)
    fun _ => ends_pure fun _ holds => holds

theorem EndsAs.imp {failed' : ε → σ → Prop} {waiting' : σ → Prop}
    (ends : call.EndsAs before after failed waiting) (from' : ∀ state, before' state → before state)
    (yields : ∀ value state, after value state → after' value state)
    (fails : ∀ err state, failed err state → failed' err state)
    (waits : ∀ state, waiting state → waiting' state) :
    call.EndsAs before' after' failed' waiting' := by
  intro state holds
  have met := ends state (from' state holds)
  generalize call state = ended at met
  obtain ⟨left, ending⟩ := ended
  cases ending with
  | done value => exact yields value left met
  | failed err => exact fails err left met
  | waiting => exact waits left met

theorem EndsAs.and (one : call.EndsAs before after failed waiting)
    (other : call.EndsAs before' after' (fun _ _ => True) fun _ => True) :
    call.EndsAs (fun state => before state ∧ before' state)
      (fun value state => after value state ∧ after' value state) failed waiting := by
  intro state ⟨holds, holds'⟩
  have met := one state holds
  have met' := other state holds'
  generalize call state = ended at met met'
  obtain ⟨left, ending⟩ := ended
  cases ending with
  | done value => exact ⟨met, met'⟩
  | failed err => exact met
  | waiting => exact met

theorem Ends.imp {failed failed' waiting' : σ → Prop} (ends : call.Ends before after failed waiting)
    (from' : ∀ state, before' state → before state)
    (yields : ∀ value state, after value state → after' value state)
    (fails : ∀ state, failed state → failed' state)
    (waits : ∀ state, waiting state → waiting' state) :
    call.Ends before' after' failed' waiting' :=
  EndsAs.imp ends from' yields (fun _ => fails) waits

theorem Meets.imp {stopped stopped' : σ → Prop} (meets : call.Meets before after stopped)
    (from' : ∀ state, before' state → before state)
    (yields : ∀ value state, after value state → after' value state)
    (stops : ∀ state, stopped state → stopped' state) : call.Meets before' after' stopped' :=
  Ends.imp meets from' yields stops stops

end

end Call

end Lib
