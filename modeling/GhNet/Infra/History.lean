import Mathlib.Data.List.Induction

/-!
# What has happened so far

A log has its entries in the order of time. `Since e c log` is the since of temporal logic: there
is an entry `e` behind which there is no `c`. It is what a log says about something that comes and
goes, such as a lock or an element of a pool.
-/

namespace GhNet

variable {α : Type*} {l log before after : List α} {e c x y : α}

/-- An entry of a log that has grown by one is in the old part, or it is the new one. -/
theorem split_concat (h : l ++ [x] = before ++ y :: after) :
    (before = l ∧ y = x) ∨ ∃ after', l = before ++ y :: after' ∧ after = after' ++ [x] := by
  rcases List.eq_nil_or_concat after with rfl | ⟨after', z, rfl⟩
  · obtain ⟨rfl, hxy⟩ := List.append_inj' h rfl
    exact .inl ⟨rfl, (List.singleton_inj.mp hxy).symm⟩
  · rw [List.concat_eq_append, ← List.cons_append, ← List.append_assoc] at h
    obtain ⟨rfl, hxz⟩ := List.append_inj' h rfl
    rw [List.concat_eq_append, List.singleton_inj.mp hxz]
    exact .inr ⟨after', rfl, rfl⟩

/-- There is an `e`, and no `c` since. -/
def Since (e c : α) (log : List α) : Prop :=
  ∃ before after, log = before ++ e :: after ∧ c ∉ after

theorem not_since_nil : ¬Since e c [] := by
  rintro ⟨before, after, h, -⟩
  exact List.append_ne_nil_of_right_ne_nil _ (List.cons_ne_nil _ _) h.symm

theorem Since.mem (h : Since e c log) : e ∈ log := by
  obtain ⟨before, after, rfl, -⟩ := h
  exact List.mem_append_right _ List.mem_cons_self

theorem since_cons : Since e c (x :: log) ↔ x = e ∧ c ∉ log ∨ Since e c log := by
  constructor
  · rintro ⟨before, after, h, hc⟩
    cases before with
    | nil =>
      injection h with hx hlog
      exact .inl ⟨hx, hlog ▸ hc⟩
    | cons y before =>
      injection h with _ hlog
      exact .inr ⟨before, after, hlog, hc⟩
  · rintro (⟨rfl, hc⟩ | ⟨before, after, rfl, hc⟩)
    · exact ⟨[], log, rfl, hc⟩
    · exact ⟨x :: before, after, rfl, hc⟩

instance Since.decidable [DecidableEq α] (e c : α) : ∀ log, Decidable (Since e c log)
  | [] => .isFalse not_since_nil
  | _ :: log =>
    haveI := Since.decidable e c log
    decidable_of_iff _ since_cons.symm

/-- What one more entry does. -/
theorem since_concat : Since e c (log ++ [x]) ↔ x = e ∨ x ≠ c ∧ Since e c log := by
  constructor
  · rintro ⟨before, after, h, hc⟩
    rcases split_concat h with ⟨-, hx⟩ | ⟨after', hlog, rfl⟩
    · exact .inl hx.symm
    · rw [List.mem_append, List.mem_singleton, not_or] at hc
      exact .inr ⟨Ne.symm hc.2, before, after', hlog, hc.1⟩
  · rintro (rfl | ⟨hx, before, after, rfl, hc⟩)
    · exact ⟨log, [], rfl, List.not_mem_nil⟩
    · refine ⟨before, after ++ [x], List.append_assoc .., ?_⟩
      rw [List.mem_append, List.mem_singleton, not_or]
      exact ⟨hc, Ne.symm hx⟩

/-- Of two entries one is the later. -/
theorem Since.not_swap (hne : e ≠ c) (h : Since e c log) : ¬Since c e log := by
  induction log using List.reverseRecOn with
  | nil => exact fun _ => not_since_nil h
  | append_singleton log x ih =>
    rw [since_concat] at h ⊢
    rintro (rfl | ⟨hx, hc⟩)
    · exact h.elim (fun hx => hne hx.symm) fun hx => hx.1 rfl
    · exact h.elim hx fun he => ih he.2 hc

end GhNet
