import Mathlib.Logic.Basic

/-!
# Runs of a step function

A system is a partial step function `step : σ → α → Option σ`: `none` means that the action
cannot happen in that state. This file has the notion of reachability that every module above
uses, restricted to steps that meet a condition `ok`, and its one induction rule.

`exec` runs a list of actions, so that concrete runs can be evaluated.
-/

namespace GhNet

variable {σ α : Type*} {init : σ → Prop} {step : σ → α → Option σ} {ok ok' : σ → α → Prop}

/-- The states reached from `init` by steps that each meet `ok`. -/
inductive Reach (init : σ → Prop) (step : σ → α → Option σ) (ok : σ → α → Prop) : σ → Prop
  | start {s : σ} (h : init s) : Reach init step ok s
  | next {s s' : σ} {a : α} (hr : Reach init step ok s) (hok : ok s a) (h : step s a = some s') :
      Reach init step ok s'

/-- No condition on the steps. -/
def anyStep : σ → α → Prop := fun _ _ => True

namespace Reach

/-- **The invariant rule.** What holds at the start and is kept by every step that meets `ok`
holds in every state reached. -/
theorem invariant (Inv : σ → Prop) (h0 : ∀ s, init s → Inv s)
    (hstep : ∀ s a s', Inv s → ok s a → step s a = some s' → Inv s') {s : σ}
    (hr : Reach init step ok s) : Inv s := by
  induction hr with
  | start h => exact h0 _ h
  | next _ hok h ih => exact hstep _ _ _ ih hok h

/-- A weaker condition on the steps reaches more. -/
theorem mono (hok : ∀ s a, ok s a → ok' s a) {s : σ} (hr : Reach init step ok s) :
    Reach init step ok' s := by
  induction hr with
  | start h => exact .start h
  | next _ h hs ih => exact .next ih (hok _ _ h) hs

theorem any {s : σ} (hr : Reach init step ok s) : Reach init step anyStep s :=
  hr.mono fun _ _ _ => trivial

end Reach

/-! ## Concrete runs -/

/-- Runs a list of actions. -/
def exec (step : σ → α → Option σ) : σ → List α → Option σ
  | s, [] => some s
  | s, a :: as =>
    match step s a with
    | none => none
    | some s' => exec step s' as

theorem exec_cons {s t : σ} {a : α} {as : List α} (h : step s a = some t) :
    exec step s (a :: as) = exec step t as := by rw [exec, h]

/-- A run with a first action has a step of it. -/
theorem exec_uncons {s u : σ} {a : α} {as : List α} (h : exec step s (a :: as) = some u) :
    ∃ t, step s a = some t ∧ exec step t as = some u := by
  cases hs : step s a with
  | none =>
    rw [exec, hs] at h
    cases h
  | some t => exact ⟨t, rfl, (exec_cons hs).symm.trans h⟩

theorem exec_append (s : σ) (as bs : List α) :
    exec step s (as ++ bs) = (exec step s as).bind fun t => exec step t bs := by
  induction as generalizing s with
  | nil => rfl
  | cons a as ih =>
    simp only [List.cons_append, exec]
    cases step s a with
    | none => rfl
    | some s' => exact ih s'

/-- A prefix of a run is a run, and the last action is a step from where it ends. -/
theorem exec_concat {s t : σ} {as : List α} {a : α} (h : exec step s (as ++ [a]) = some t) :
    ∃ u, exec step s as = some u ∧ step u a = some t := by
  rw [exec_append] at h
  cases hu : exec step s as with
  | none => rw [hu] at h; cases h
  | some u =>
    rw [hu, Option.bind_some, exec] at h
    cases hs : step u a with
    | none => rw [hs] at h; cases h
    | some v =>
      rw [hs] at h
      exact ⟨u, rfl, h ▸ hs⟩

/-- A run can be cut anywhere. -/
theorem exec_prefix {s t : σ} {as bs : List α} (h : exec step s (as ++ bs) = some t) :
    ∃ u, exec step s as = some u := by
  rw [exec_append] at h
  cases hu : exec step s as with
  | none => rw [hu] at h; cases h
  | some u => exact ⟨u, rfl⟩

/-- Every step of the run meets `ok`. -/
def Along (step : σ → α → Option σ) (ok : σ → α → Prop) : σ → List α → Prop
  | _, [] => True
  | s, a :: as =>
    ok s a ∧
      match step s a with
      | none => True
      | some s' => Along step ok s' as

instance Along.decidable [∀ s a, Decidable (ok s a)] :
    ∀ (s : σ) (as : List α), Decidable (Along step ok s as)
  | _, [] => .isTrue trivial
  | s, a :: as =>
    have : Decidable (match step s a with
        | none => True
        | some s' => Along step ok s' as) := by
      cases step s a with
      | none => exact .isTrue trivial
      | some s' => exact Along.decidable s' as
    inferInstanceAs (Decidable (_ ∧ _))

instance (s : σ) (a : α) : Decidable (anyStep s a) := .isTrue trivial

/-- **The simulation rule.** If each action that meets `ok` can be taken, keeps `Inv` and changes
what `abs` shows as `spec` says, then a run of such actions does not get stuck and shows what the
run of `spec` comes to. -/
theorem exec_simulates {τ : Type*} (Inv : σ → Prop) (abs : σ → τ) (spec : τ → α → τ)
    (hstep : ∀ s a, Inv s → ok s a →
      ∃ s', step s a = some s' ∧ Inv s' ∧ abs s' = spec (abs s) a)
    (as : List α) {s : σ} (h0 : Inv s) (hal : Along step ok s as) :
    ∃ s', exec step s as = some s' ∧ Inv s' ∧ abs s' = as.foldl spec (abs s) := by
  induction as generalizing s with
  | nil => exact ⟨s, rfl, h0, rfl⟩
  | cons a as ih =>
    obtain ⟨s₁, hs, h1, habs⟩ := hstep s a h0 hal.1
    have hal₁ : Along step ok s₁ as := by
      have h := hal.2
      rw [hs] at h
      exact h
    obtain ⟨s', hexec, hinv, habs'⟩ := ih h1 hal₁
    refine ⟨s', ?_, hinv, ?_⟩
    · rw [exec, hs]
      exact hexec
    · rw [habs', habs, List.foldl_cons]

/-- The part of a run in front of its last action meets the condition, and so does the last. -/
theorem Along.concat {as : List α} {a : α} {s : σ} (h : Along step ok s (as ++ [a])) :
    Along step ok s as ∧ ∀ t, exec step s as = some t → ok t a := by
  induction as generalizing s with
  | nil =>
    refine ⟨trivial, fun t ht => ?_⟩
    obtain rfl := Option.some.inj ht
    exact h.1
  | cons b as ih =>
    obtain ⟨hok, h⟩ := h
    cases hs : step s b with
    | none =>
      refine ⟨⟨hok, by rw [hs]; trivial⟩, fun t ht => ?_⟩
      rw [exec, hs] at ht
      cases ht
    | some s' =>
      rw [List.append_eq, hs] at h
      obtain ⟨hal, hlast⟩ := ih h
      refine ⟨⟨hok, by rw [hs]; exact hal⟩, fun t ht => ?_⟩
      rw [exec, hs] at ht
      exact hlast t ht

/-- The end of a concrete run is reached. -/
theorem Reach.of_exec : ∀ {as : List α} {s t : σ}, Reach init step ok s → Along step ok s as →
    exec step s as = some t → Reach init step ok t
  | [], s, t, hr, _, h => by
    simp only [exec, Option.some.injEq] at h
    exact h ▸ hr
  | a :: as, s, t, hr, hal, h => by
    simp only [exec, Along] at h hal
    obtain ⟨hok, hal⟩ := hal
    cases hs : step s a with
    | none => rw [hs] at h; simp at h
    | some s' =>
      rw [hs] at h hal
      exact Reach.of_exec (.next hr hok hs) hal h

end GhNet
