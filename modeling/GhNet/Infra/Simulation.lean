import GhNet.Infra.Run

/-!
# Simulations

One system of steps carries out another one: along a relation between their states, a step of the
first is nothing to the second, or one step of it. What is reached in the first then stands for
something that is reached in the second, so what holds there of every state reached holds here too,
as far as the relation shows it.
-/

namespace GhNet

variable {σ τ α β : Type*} {init : σ → Prop} {step : σ → α → Option σ} {ok : σ → α → Prop}
  {init' : τ → Prop} {step' : τ → β → Option τ} {ok' : τ → β → Prop} {R : σ → τ → Prop}

/-- Steps that meet `ok` are carried over along `R` to at most one step that meets `ok'`. -/
structure Simulation (init : σ → Prop) (step : σ → α → Option σ) (ok : σ → α → Prop)
    (init' : τ → Prop) (step' : τ → β → Option τ) (ok' : τ → β → Prop) (R : σ → τ → Prop) :
    Prop where
  start : ∀ s, init s → ∃ t, init' t ∧ R s t
  step : ∀ s t a s', R s t → ok s a → step s a = some s' →
    R s' t ∨ ∃ b t', ok' t b ∧ step' t b = some t' ∧ R s' t'

namespace Simulation

/-- **Every state reached stands for one that is reached.** -/
theorem reach (h : Simulation init step ok init' step' ok' R) {s : σ}
    (hr : Reach init step ok s) : ∃ t, Reach init' step' ok' t ∧ R s t := by
  induction hr with
  | start hs =>
    obtain ⟨t, ht, hR⟩ := h.start _ hs
    exact ⟨t, .start ht, hR⟩
  | next _ hok hs ih =>
    obtain ⟨t, ht, hR⟩ := ih
    rcases h.step _ _ _ _ hR hok hs with hR' | ⟨b, t', hb, hs', hR'⟩
    · exact ⟨t, ht, hR'⟩
    · exact ⟨t', .next ht hb hs', hR'⟩

/-- **What holds of every state reached there holds here**, if the relation shows it. -/
theorem transfer (h : Simulation init step ok init' step' ok' R) {P : σ → Prop} {Q : τ → Prop}
    (hQ : ∀ t, Reach init' step' ok' t → Q t) (hshow : ∀ s t, R s t → Q t → P s) {s : σ}
    (hr : Reach init step ok s) : P s := by
  obtain ⟨t, ht, hR⟩ := h.reach hr
  exact hshow s t hR (hQ t ht)

end Simulation

end GhNet
