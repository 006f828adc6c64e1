import Mathlib

/-!
# Machines

A machine is a partial step function over states and actions, with a condition on the actions that its
environment may take. An invariant is kept by every step (`invariant`), a simulation maps every step to
steps of another machine (`simulation`), and a list of actions that can be checked is a run (`run_reaches`).
-/

namespace Machine

variable {S T A : Type*}

/-- A step by an action that is allowed. -/
def Next (step : S → A → Option S) (ok : S → A → Prop) (s s' : S) : Prop :=
  ∃ a, ok s a ∧ step s a = some s'

/-- What holds in every state that can be reached. -/
theorem invariant {next : S → S → Prop} {I : S → Prop} {s₀ s : S} (h₀ : I s₀)
    (hstep : ∀ s s', I s → next s s' → I s') (h : Relation.ReflTransGen next s₀ s) : I s := by
  induction h with
  | refl => exact h₀
  | tail _ hs ih => exact hstep _ _ ih hs

/-- A machine all of whose steps are matched, under an invariant, runs as the machine that matches. -/
theorem simulation {next : S → S → Prop} {next' : T → T → Prop} {I : S → Prop} (abs : S → T) {s₀ s : S}
    (h₀ : I s₀) (hstep : ∀ s s', I s → next s s' → I s')
    (hsim : ∀ s s', I s → next s s' → Relation.ReflTransGen next' (abs s) (abs s'))
    (h : Relation.ReflTransGen next s₀ s) : I s ∧ Relation.ReflTransGen next' (abs s₀) (abs s) := by
  induction h with
  | refl => exact ⟨h₀, .refl⟩
  | tail _ hs ih => exact ⟨hstep _ _ ih.1 hs, ih.2.trans (hsim _ _ ih.1 hs)⟩

/-- The state after a list of actions, if all of them are allowed. -/
def run (step : S → A → Option S) (ok : S → A → Prop) [∀ s a, Decidable (ok s a)] : S → List A → Option S
  | s, [] => some s
  | s, a :: as => if ok s a then (step s a).bind fun s' => run step ok s' as else none

theorem run_reaches {step : S → A → Option S} {ok : S → A → Prop} [∀ s a, Decidable (ok s a)]
    {as : List A} {s s' : S} (h : run step ok s as = some s') :
    Relation.ReflTransGen (Next step ok) s s' := by
  induction as generalizing s with
  | nil => cases h; exact .refl
  | cons a as ih =>
    simp only [run] at h
    split at h
    next hok =>
      obtain ⟨s1, hs1, hrest⟩ := Option.bind_eq_some_iff.1 h
      exact (Relation.ReflTransGen.single ⟨a, hok, hs1⟩).trans (ih hrest)
    next => cases h

end Machine
