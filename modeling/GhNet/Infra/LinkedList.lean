import Mathlib.Data.List.Basic
import Mathlib.Logic.Function.Basic

/-!
# Linked lists

`Linked next p l`: from the pointer `p` one comes along `next` to the elements of `l`, one after
the other, and then to the end.
-/

namespace GhNet

variable {ι : Type*} {next next' : ι → Option ι} {p : Option ι} {l : List ι} {a : ι}

/-- The elements of a linked list. -/
def Linked (next : ι → Option ι) : Option ι → List ι → Prop
  | p, [] => p = none
  | p, a :: l => p = some a ∧ Linked next (next a) l

/-- A linked list depends on the pointers of its own elements only. -/
theorem Linked.congr (h : Linked next p l) (heq : ∀ a ∈ l, next' a = next a) :
    Linked next' p l := by
  induction l generalizing p with
  | nil => exact h
  | cons a l ih =>
    obtain ⟨hp, hl⟩ := h
    refine ⟨hp, ?_⟩
    rw [heq a (List.mem_cons_self ..)]
    exact ih hl fun b hb => heq b (List.mem_cons_of_mem _ hb)

/-- There is one list behind a pointer. -/
theorem Linked.unique {l' : List ι} (h : Linked next p l) (h' : Linked next p l') : l = l' := by
  induction l generalizing p l' with
  | nil =>
    obtain rfl : p = none := h
    cases l' with
    | nil => rfl
    | cons b l' => cases h'.1
  | cons a l ih =>
    obtain ⟨rfl, hl⟩ := h
    cases l' with
    | nil => cases h'
    | cons b l' =>
      obtain ⟨hab, hl'⟩ := h'
      obtain rfl := Option.some.inj hab
      rw [ih hl hl']

/-- A new element in front that points to the old first one. -/
theorem Linked.push [DecidableEq ι] (h : Linked next p l) (ha : a ∉ l) :
    Linked (Function.update next a p) (some a) (a :: l) := by
  refine ⟨rfl, ?_⟩
  rw [Function.update_self]
  refine h.congr fun b hb => Function.update_of_ne ?_ _ _
  rintro rfl
  exact ha hb

/-- The pointer of an element that is not on the list may change. -/
theorem Linked.update [DecidableEq ι] (h : Linked next p l) (ha : a ∉ l) (q : Option ι) :
    Linked (Function.update next a q) p l := by
  refine h.congr fun b hb => Function.update_of_ne ?_ _ _
  rintro rfl
  exact ha hb

end GhNet
