import Mathlib.Logic.Basic

/-!
# Code that works on a state and may throw

An action of `EStateM` that is made of parts does what its parts do one after the other, up to the
first exception. The lemmas take it apart at the two ends: where the result of the first part is
known, and where the whole has gone well.
-/

namespace GhNet

variable {ε σ α β : Type} {x : EStateM ε σ α} {f : α → EStateM ε σ β} {s s' : σ} {a : α} {b : β}
  {e : ε}

theorem bind_ok (h : x s = .ok a s') : (x >>= f) s = f a s' := by
  show EStateM.bind x f s = _
  rw [EStateM.bind, h]

theorem bind_error (h : x s = .error e s') : (x >>= f) s = .error e s' := by
  show EStateM.bind x f s = _
  rw [EStateM.bind, h]

theorem get_eq : (get : EStateM ε σ σ) s = .ok s s := rfl

/-- What has gone well has gone well in its parts. -/
theorem exists_of_bind (h : (x >>= f) s = .ok b s') :
    ∃ a t, x s = .ok a t ∧ f a t = .ok b s' := by
  change EStateM.bind x f s = _ at h
  unfold EStateM.bind at h
  split at h
  · next a t hx => exact ⟨a, t, hx, h⟩
  · cases h

/-! ## Loops -/

variable {g : α → EStateM ε σ PUnit} {u : PUnit}

/-- The state that an action leaves, whether it throws or not. -/
def final : EStateM.Result ε σ α → σ
  | .ok _ s | .error _ s => s

/-- The state at the end stands in the relation to the one at the start. -/
def Keeps (R : σ → σ → Prop) (x : EStateM ε σ α) : Prop := ∀ s, R s (final (x s))

/-- The action does not throw `e`. -/
def Never (e : ε) (x : EStateM ε σ α) : Prop := ∀ s s', x s ≠ .error e s'

section Ends

variable {R : σ → σ → Prop} {γ : Type} {h : β → α → EStateM ε σ β}

/-- What comes behind the first part starts where that one has ended. -/
theorem final_bind (hrefl : ∀ s, R s s) (hf : ∀ a, Keeps R (f a)) (s : σ) :
    R (final (x s)) (final ((x >>= f) s)) := by
  cases hxs : x s with
  | error e t =>
    rw [bind_error hxs]
    exact hrefl t
  | ok a t =>
    rw [bind_ok hxs]
    exact hf a t

theorem Keeps.bind (htrans : ∀ {s t u}, R s t → R t u → R s u) (hx : Keeps R x)
    (hf : ∀ a, Keeps R (f a)) : Keeps R (x >>= f) := by
  intro s
  have hs := hx s
  cases hxs : x s with
  | error e t =>
    rw [bind_error hxs]
    rw [hxs] at hs
    exact hs
  | ok a t =>
    rw [bind_ok hxs]
    rw [hxs] at hs
    exact htrans hs (hf a t)

theorem Keeps.foldlM (hrefl : ∀ s, R s s) (htrans : ∀ {s t u}, R s t → R t u → R s u)
    (hh : ∀ b a, Keeps R (h b a)) : ∀ (l : List α) (b : β), Keeps R (l.foldlM h b)
  | [], _ => hrefl
  | a :: l, b => Keeps.bind htrans (hh b a) fun b' => Keeps.foldlM hrefl htrans hh l b'

theorem Never.bind (hx : Never e x) (hf : ∀ a, Never e (f a)) : Never e (x >>= f) := by
  intro s s' h
  cases hxs : x s with
  | error e' t =>
    rw [bind_error hxs] at h
    injection h with he hs
    exact hx s t (he ▸ hxs)
  | ok a t =>
    rw [bind_ok hxs] at h
    exact hf a t s' h

theorem Never.foldlM : ∀ {l : List α} {b : β}, (∀ b, ∀ a ∈ l, Never e (h b a)) →
    Never e (l.foldlM h b)
  | [], _, _ => fun _ _ h => by cases h
  | a :: l, b, hh =>
    Never.bind (hh b a List.mem_cons_self) fun _ =>
      Never.foldlM fun b c hc => hh b c (List.mem_cons_of_mem _ hc)

theorem Never.forM : ∀ {l : List α}, (∀ a ∈ l, Never e (g a)) → Never e (l.forM g)
  | [], _ => fun _ _ h => by cases h
  | a :: l, hg =>
    Never.bind (hg a List.mem_cons_self) fun _ =>
      Never.forM fun c hc => hg c (List.mem_cons_of_mem _ hc)

end Ends

end GhNet
