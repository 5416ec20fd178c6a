import GhNet.Base.FreeList
import GhNet.Iocp.Contexts

/-!
# The pool of the IO contexts in memory

The IO service has its `FreeList<IOContext>` as the list of the addresses on it, and `new` gives
one address after the other. The pool in memory, with that `new`, does on its nodes what the
service sees on the list.
-/

namespace GhNet.Iocp.FreeList

open GhNet Base.FreeList

variable {T : Type} {s : Pool T Nat} {l : FreeList} {p : Nat} {held : List Nat}

/-- The pool in memory is the one that the service sees. -/
structure Represents (s : Pool T Nat) (l : FreeList) : Prop where
  listed : s.Listed l.free_list_
  live : ∀ p, s.nodes p ≠ none ↔ p < l.fresh

theorem Represents.allocElem (h : Represents s l) (n : Base.FreeList.Node T Nat) :
    ∃ s', Base.FreeList.allocElem (some (l.fresh, n)) s = .ok l.allocElem.1 s' ∧
      Represents s' l.allocElem.2 := by
  obtain ⟨free, fresh⟩ := l
  cases free with
  | cons p rest =>
    obtain ⟨s', hcall, hnodes, hlisted⟩ := h.listed.allocElem_cons (some (fresh, n))
    exact ⟨s', hcall, hlisted, fun q => by rw [hnodes]; exact h.live q⟩
  | nil =>
    obtain ⟨s', hcall, hnodes, hlisted⟩ := h.listed.allocElem_nil fresh n
    refine ⟨s', hcall, hlisted, fun q => ?_⟩
    show s'.nodes q ≠ none ↔ q < fresh + 1
    rw [hnodes, Pool.nodes_setNode, h.live]
    show q = fresh ∨ q < fresh ↔ q < fresh + 1
    omega

/-- A context that is held can be given back. -/
theorem Represents.freeElem (h : Represents s l) (hheld : l.Accounts (p :: held)) :
    ∃ s', Base.FreeList.freeElem (some p) s = .ok () s' ∧ Represents s' (l.freeElem p) := by
  have hnot : p ∉ l.free_list_ := fun hp =>
    (List.nodup_append.mp hheld.nodup).2.2 p hp p List.mem_cons_self rfl
  have hlt : p < l.fresh := by
    rw [← List.mem_range, ← hheld.mem_iff]
    exact List.mem_append_right _ List.mem_cons_self
  obtain ⟨n, hn⟩ := Option.ne_none_iff_exists'.mp ((h.live p).mpr hlt)
  obtain ⟨s', hcall, hnodes, hlisted⟩ := h.listed.freeElem hn hnot
  refine ⟨s', hcall, hlisted, fun q => ?_⟩
  show s'.nodes q ≠ none ↔ q < l.fresh
  rw [hnodes, Pool.nodes_setNode, h.live]
  refine or_iff_right_of_imp ?_
  rintro rfl
  exact hlt

end GhNet.Iocp.FreeList
