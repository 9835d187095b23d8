import Melin.Lib.Calls

/-! Calls of a thread whose accesses to shared state the acts of other threads come between. -/

namespace Lib

/-- State shared with other threads, which holds what they will do before each access in turn. -/
class Interleaved (σ : Type) (α : outParam Type) where
  turns : σ → List (List α)
  withTurns : σ → List (List α) → σ
  act : σ → α → σ

section

variable {σ ε α β γ : Type} [Interleaved σ γ]

def beat : Call σ ε Unit := fun state =>
  match Interleaved.turns state with
  | [] => (state, .waiting)
  | acts :: later => (acts.foldl Interleaved.act (Interleaved.withTurns state later), .done ())

def access (update : σ → α × σ) : Call σ ε α := do
  beat
  Call.update update

def observe (read : σ → α) : Call σ ε α := access fun state => (read state, state)

/-- A loop whose every round accesses something shared, so that the others' turns bound it. -/
def loop (body : α → Call σ ε (α ⊕ β)) (turn : α) : Call σ ε β := do
  let state ← Call.look
  Call.iterate body ((Interleaved.turns state).length + 1) turn

variable {before : σ → Prop} {failed : ε → σ → Prop} {waiting : σ → Prop}

theorem ends_beat {after : Unit → σ → Prop}
    (turn : ∀ state acts later, before state → Interleaved.turns state = acts :: later →
      after () (acts.foldl Interleaved.act (Interleaved.withTurns state later)))
    (none : ∀ state, before state → waiting state) :
    (beat : Call σ ε Unit).EndsAs before after failed waiting := by
  intro state holds
  simp only [beat]
  cases turns : Interleaved.turns state with
  | nil => exact none state holds
  | cons acts later => exact turn state acts later holds turns

theorem ends_access {between : σ → Prop} {update : σ → α × σ} {after : α → σ → Prop}
    (turn : (beat : Call σ ε Unit).EndsAs before (fun _ => between) failed waiting)
    (holds : ∀ state, between state → after (update state).1 (update state).2) :
    (access update : Call σ ε α).EndsAs before after failed waiting :=
  Call.ends_bind _ turn fun _ => Call.ends_update holds

theorem ends_loop {body : α → Call σ ε (α ⊕ β)} (keeps : α → σ → Prop) {last : β → σ → Prop}
    (round : ∀ turn, (body turn).EndsAs (keeps turn)
      (fun next state => Sum.elim (fun turn => keeps turn state) (fun result => last result state) next)
      failed waiting)
    (waits : ∀ turn state, keeps turn state → waiting state) (turn : α) :
    (loop body turn).EndsAs (keeps turn) last failed waiting :=
  Call.ends_look_bind fun _ holds => (Call.ends_iterate keeps round waits _ turn).imp
    (fun _ same => same ▸ holds) (fun _ _ met => met) (fun _ _ met => met) fun _ met => met

end

end Lib
