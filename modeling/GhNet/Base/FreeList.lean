import Mathlib.Logic.Function.Basic
import GhNet.Infra.History
import GhNet.Infra.LinkedList
import GhNet.Infra.Run
import GhNet.Infra.Sequencing

/-!
# `FreeList`

The pool of `yy_freelist.h`. An element that is given back is put in front of a list that goes
through the nodes themselves, and is handed out again before a new node is made. The data comes
first in a node, so the address of an element is that of its node.

What the code does with the nodes is recorded, and it stops where it comes to a node that is not
there. The lock of the pool does nothing where the calls come one after the other.
-/

namespace GhNet.Base.FreeList

open GhNet

/-! ## The nodes -/

/-- An element and the pointer that strings the free ones together. -/
structure Node (T Addr : Type) where
  data_ : T
  next_node_ : Option Addr

/-- What the code does with a node. -/
inductive Access (Addr : Type)
  | read (p : Addr)
  | write (p : Addr)
  | delete (p : Addr)
  deriving DecidableEq

/-- Why a call does not return. Without `badAlloc` these are not exceptions of the code. -/
inductive Fault
  /-- `new` has thrown `std::bad_alloc`. -/
  | badAlloc
  /-- A node is used, or deleted, that is not there or not there any more. -/
  | dangling
  /-- The rounds of a loop run out. -/
  | rounds
  deriving DecidableEq

/-- The nodes that are there, and what has been done with them. -/
structure Pool (T Addr : Type) where
  nodes : Addr → Option (Node T Addr)
  free_list_ : Option Addr
  accesses : List (Access Addr)

/-- Code that works on a pool and may go wrong. -/
abbrev PoolM (T Addr : Type) := EStateM Fault (Pool T Addr)

variable {T Addr : Type}

namespace Pool

/-- The pointer in a node. -/
def next (s : Pool T Addr) (p : Addr) : Option Addr := (s.nodes p).bind Node.next_node_

/-- An address is used. -/
def record (s : Pool T Addr) (a : Access Addr) : Pool T Addr :=
  { s with accesses := s.accesses ++ [a] }

variable [DecidableEq Addr]

/-- What is at an address has changed. -/
def setNode (s : Pool T Addr) (p : Addr) (n : Option (Node T Addr)) : Pool T Addr :=
  { s with nodes := Function.update s.nodes p n }

end Pool

/-! ## The calls -/

section Calls

/-- Reads `p->next_node_`. -/
def readNext (p : Addr) : PoolM T Addr (Option Addr) := fun s =>
  match s.nodes p with
  | some n => .ok n.next_node_ (s.record (.read p))
  | none => .error .dangling (s.record (.read p))

/-- `free_list_ = p` -/
def setFreeList (p : Option Addr) : PoolM T Addr Unit := fun s =>
  .ok () { s with free_list_ := p }

variable [DecidableEq Addr]

/-- `p->next_node_ = q` -/
def writeNext (p : Addr) (q : Option Addr) : PoolM T Addr Unit := fun s =>
  match s.nodes p with
  | some n => .ok () ((s.setNode p (some { n with next_node_ := q })).record (.write p))
  | none => .error .dangling (s.record (.write p))

/-- `delete p`, which does nothing with a null pointer -/
def delete : Option Addr → PoolM T Addr Unit
  | none => pure ()
  | some p => fun s =>
    match s.nodes p with
    | some _ => .ok () ((s.setNode p none).record (.delete p))
    | none => .error .dangling (s.record (.delete p))

/-- `new Node`, with the address and what the constructor leaves in the node, or without memory -/
def new : Option (Addr × Node T Addr) → PoolM T Addr Addr
  | none => throw .badAlloc
  | some (p, n) => fun s => .ok p (s.setNode p (some n))

/-- A new element. -/
def newElem (fresh : Option (Addr × Node T Addr)) : PoolM T Addr Addr := do
  let p ← new fresh
  writeNext p none
  return p

/-- The first element of the free list. -/
def firstElem (p : Addr) : PoolM T Addr Addr := do
  let q ← readNext p
  setFreeList q
  return p

/-- `allocElem`: the first of the list, or what `new` gives. -/
def allocElem (fresh : Option (Addr × Node T Addr)) : PoolM T Addr Addr := do
  match (← get).free_list_ with
  | some _ =>
    -- behind the lock the list is looked at again
    match (← get).free_list_ with
    | some p => firstElem p
    | none => newElem fresh
  | none => newElem fresh

/-- `freeElem`, which does nothing with a null pointer. -/
def freeElem : Option Addr → PoolM T Addr Unit
  | none => pure ()
  | some p => do
    writeNext p (← get).free_list_
    setFreeList (some p)

/-- The loop of `clear`. The node that is deleted is not the one that has been left behind, but
the one that comes next. -/
def clearLoop : Nat → Option Addr → PoolM T Addr Unit
  | 0, _ => throw .rounds
  | _ + 1, none => pure ()
  | fuel + 1, some t => do
    let p ← readNext t
    delete p
    clearLoop fuel p

/-- `fuel` is the number of rounds. -/
def clear (fuel : Nat) : PoolM T Addr Unit := do
  clearLoop fuel (← get).free_list_
  setFreeList none

end Calls

/-! ## Runs -/

/-- What the calls have come to. -/
inductive Call (Addr : Type)
  | handedOut (p : Addr)
  | freed (p : Addr)
  | raised (e : Fault)
  deriving DecidableEq

/-- The pool and its calls so far. -/
structure State (T Addr : Type) where
  pool : Pool T Addr
  log : List (Call Addr)

/-- What happens: a call of the program, with what `new` would give, or the program writes into an
element. -/
inductive Action (T Addr : Type)
  | allocElem (fresh : Option (Addr × Node T Addr))
  | freeElem (pData : Option Addr)
  | write (p : Addr) (data : T)

namespace State

variable [DecidableEq Addr]

/-- A pool that has just been made. -/
def made : State T Addr := ⟨⟨fun _ => none, none, []⟩, []⟩

/-- The call comes to an end. -/
def ended {α : Type} (s : State T Addr) (call : α → List (Call Addr)) :
    EStateM.Result Fault (Pool T Addr) α → State T Addr
  | .ok a pool => ⟨pool, s.log ++ call a⟩
  | .error e pool => ⟨pool, s.log ++ [.raised e]⟩

/-- One call. -/
def step (s : State T Addr) : Action T Addr → Option (State T Addr)
  | .allocElem fresh =>
    -- a new node is where there is none
    if fresh.all fun x => (s.pool.nodes x.1).isNone then
      some (s.ended (fun p => [.handedOut p]) (FreeList.allocElem fresh s.pool))
    else none
  | .freeElem pData =>
    some (s.ended (fun _ => (pData.map Call.freed).toList) (FreeList.freeElem pData s.pool))
  | .write p data =>
    match s.pool.nodes p with
    | some n => some { s with pool := s.pool.setNode p (some { n with data_ := data }) }
    | none => none

end State

/-- The program has the element. -/
def Allocated (log : List (Call Addr)) (p : Addr) : Prop := Since (.handedOut p) (.freed p) log

/-- The element was freed and not handed out again. -/
def Freed (log : List (Call Addr)) (p : Addr) : Prop := Since (.freed p) (.handedOut p) log

instance [DecidableEq Addr] (log : List (Call Addr)) (p : Addr) : Decidable (Allocated log p) :=
  Since.decidable _ _ log

instance [DecidableEq Addr] (log : List (Call Addr)) (p : Addr) : Decidable (Freed log p) :=
  Since.decidable _ _ log

section Log

variable {log : List (Call Addr)} {p q : Addr}

theorem Freed.not_allocated (h : Freed log p) : ¬Allocated log p :=
  Since.not_swap (by simp) h

theorem freed_handedOut : Freed (log ++ [.handedOut q]) p ↔ q ≠ p ∧ Freed log p := by
  simp [Freed, since_concat]

theorem allocated_handedOut : Allocated (log ++ [.handedOut q]) p ↔ q = p ∨ Allocated log p := by
  simp [Allocated, since_concat]

theorem freed_freed : Freed (log ++ [.freed q]) p ↔ q = p ∨ Freed log p := by
  simp [Freed, since_concat]

theorem allocated_freed : Allocated (log ++ [.freed q]) p ↔ q ≠ p ∧ Allocated log p := by
  simp [Allocated, since_concat]

theorem freed_raised {e : Fault} : Freed (log ++ [.raised e]) p ↔ Freed log p := by
  simp [Freed, since_concat]

theorem allocated_raised {e : Fault} : Allocated (log ++ [.raised e]) p ↔ Allocated log p := by
  simp [Allocated, since_concat]

end Log

/-- The program frees, and writes into, what it has. -/
def Owns (s : State T Addr) : Action T Addr → Prop
  | .allocElem _ | .freeElem none => True
  | .freeElem (some p) | .write p _ => Allocated s.log p

instance [DecidableEq Addr] (s : State T Addr) (a : Action T Addr) : Decidable (Owns s a) :=
  match a with
  | .allocElem _ | .freeElem none => .isTrue trivial
  | .freeElem (some p) | .write p _ => inferInstanceAs (Decidable (Allocated s.log p))

/-! ## What should hold -/

/-- One comes to the element along the list. -/
def Pool.OnFreeList (s : Pool T Addr) (p : Addr) : Prop :=
  ∃ l, Linked s.next s.free_list_ l ∧ p ∈ l

/-- **Who has the elements.** The list comes to an end, and on it are those that were freed. -/
structure Ownership [DecidableEq Addr] (s : State T Addr) : Prop where
  exclusive : ∀ fresh s' p, s.step (.allocElem fresh) = some s' →
    s'.log = s.log ++ [.handedOut p] → ¬Allocated s.log p
  ends : ∃ l, Linked s.pool.next s.pool.free_list_ l
  listed : ∀ p, s.pool.OnFreeList p ↔ Freed s.log p
  /-- No call uses a node that is not there. -/
  sound : ∀ e, .raised e ∈ s.log → e = .badAlloc

/-- What `clear` should leave, if nothing was recorded before it. -/
structure Cleared [DecidableEq Addr] (s s' : Pool T Addr) : Prop where
  once : ∀ p, s.OnFreeList p → s'.accesses.count (.delete p) = 1
  others : ∀ p, ¬s.OnFreeList p → .delete p ∉ s'.accesses
  unread : ∀ p before after, s'.accesses = before ++ .delete p :: after → .read p ∉ after
  empty : s'.free_list_ = none

/-- **The destruction of the pool.** -/
def Teardown [DecidableEq Addr] (s : Pool T Addr) : Prop :=
  ∃ fuel s', clear fuel { s with accesses := [] } = .ok () s' ∧ Cleared s s'

/-! ## What the calls do -/

variable [DecidableEq Addr] {s : Pool T Addr} {p q : Addr} {n : Node T Addr} {l : List Addr}
  {fresh : Option (Addr × Node T Addr)} {fuel : Nat}

namespace Pool

omit [DecidableEq Addr] in
theorem next_of_node (hn : s.nodes p = some n) : s.next p = n.next_node_ := by
  rw [next, hn, Option.bind_some]

theorem setNode_self (s : Pool T Addr) (p : Addr) (o : Option (Node T Addr)) :
    (s.setNode p o).nodes p = o := Function.update_self ..

theorem setNode_ne {o : Option (Node T Addr)} (hq : q ≠ p) :
    (s.setNode p o).nodes q = s.nodes q := Function.update_of_ne hq ..

theorem next_setNode : (s.setNode p (some n)).next = Function.update s.next p n.next_node_ := by
  funext q
  by_cases hq : q = p
  · subst hq
    rw [next, setNode_self, Function.update_self, Option.bind_some]
  · rw [next, setNode_ne hq, Function.update_of_ne hq, next]

theorem nodes_setNode (q : Addr) :
    (s.setNode p (some n)).nodes q ≠ none ↔ q = p ∨ s.nodes q ≠ none := by
  by_cases hq : q = p
  · subst hq
    simp [setNode_self]
  · simp [setNode_ne hq, hq]

end Pool

omit [DecidableEq Addr] in
theorem readNext_eq (hn : s.nodes p = some n) :
    readNext p s = .ok n.next_node_ (s.record (.read p)) := by
  rw [readNext, hn]

omit [DecidableEq Addr] in
theorem readNext_eq_error (hn : s.nodes p = none) :
    readNext p s = .error .dangling (s.record (.read p)) := by
  rw [readNext, hn]

theorem writeNext_eq (hn : s.nodes p = some n) (q : Option Addr) : writeNext p q s =
    .ok () ((s.setNode p (some { n with next_node_ := q })).record (.write p)) := by
  rw [writeNext, hn]

theorem delete_eq (hn : s.nodes p = some n) :
    delete (some p) s = .ok () ((s.setNode p none).record (.delete p)) := by
  show (match s.nodes p with
    | some _ => _
    | none => _) = _
  rw [hn]

theorem delete_eq_error (hn : s.nodes p = none) :
    delete (some p) s = .error .dangling (s.record (.delete p)) := by
  show (match s.nodes p with
    | some _ => _
    | none => _) = _
  rw [hn]

/-- A node is not there any more once it is deleted. -/
theorem nodes_delete {u : Unit} {s' : Pool T Addr} (h : delete (some p) s = .ok u s') :
    s'.nodes p = none := by
  cases hn : s.nodes p with
  | none =>
    rw [delete_eq_error hn] at h
    cases h
  | some n =>
    rw [delete_eq hn] at h
    injection h with _ hs'
    subst hs'
    exact Pool.setNode_self ..

theorem newElem_eq : newElem (some (p, n)) s =
    .ok p ((s.setNode p (some { n with next_node_ := none })).record (.write p)) := by
  have hn : (s.setNode p (some n)).nodes p = some n := s.setNode_self p _
  have hset : (s.setNode p (some n)).setNode p (some { n with next_node_ := none }) =
      s.setNode p (some { n with next_node_ := none }) := by
    simp [Pool.setNode]
  have hnew : new (some (p, n)) s = .ok p (s.setNode p (some n)) := rfl
  rw [newElem, bind_ok hnew, bind_ok (writeNext_eq hn none), hset]
  rfl

theorem newElem_eq_error : newElem none s = .error .badAlloc s := rfl

theorem allocElem_first (hp : s.free_list_ = some p) (hn : s.nodes p = some n) :
    allocElem fresh s = .ok p { s.record (.read p) with free_list_ := n.next_node_ } := by
  rw [allocElem, bind_ok get_eq, hp]
  dsimp only
  rw [bind_ok get_eq, hp]
  dsimp only
  rw [firstElem, bind_ok (readNext_eq hn)]
  rfl

theorem allocElem_new (hp : s.free_list_ = none) : allocElem fresh s = newElem fresh s := by
  rw [allocElem, bind_ok get_eq, hp]

theorem freeElem_eq (hn : s.nodes p = some n) : freeElem (some p) s =
    .ok () { (s.setNode p (some { n with next_node_ := s.free_list_ })).record (.write p) with
      free_list_ := some p } := by
  rw [freeElem, bind_ok get_eq, bind_ok (writeNext_eq hn _)]
  rfl

/-! ## The list -/

/-- The nodes of `l` are there, and they are the free list. -/
structure Pool.Listed (s : Pool T Addr) (l : List Addr) : Prop where
  linked : Linked s.next s.free_list_ l
  nodup : l.Nodup
  live : ∀ p ∈ l, s.nodes p ≠ none

namespace Pool.Listed

omit [DecidableEq Addr] in
theorem onFreeList (h : s.Listed l) : s.OnFreeList p ↔ p ∈ l := by
  constructor
  · rintro ⟨l', hl', hp⟩
    exact hl'.unique h.linked ▸ hp
  · exact fun hp => ⟨l, h.linked, hp⟩

/-- The first element is handed out. -/
theorem allocElem_cons (h : s.Listed (p :: l)) (fresh : Option (Addr × Node T Addr)) :
    ∃ s', allocElem fresh s = .ok p s' ∧ s'.nodes = s.nodes ∧ s'.Listed l := by
  obtain ⟨hp, hl⟩ := h.linked
  obtain ⟨n, hn⟩ := Option.ne_none_iff_exists'.mp (h.live p List.mem_cons_self)
  refine ⟨_, allocElem_first hp hn, rfl, ?_, (List.nodup_cons.mp h.nodup).2,
    fun q hq => h.live q (List.mem_cons_of_mem _ hq)⟩
  rw [next_of_node hn] at hl
  exact hl

/-- Where the list is empty, a new node is made. -/
theorem allocElem_nil (h : s.Listed []) (p : Addr) (n : Node T Addr) :
    ∃ s', allocElem (some (p, n)) s = .ok p s' ∧
      s'.nodes = (s.setNode p (some { n with next_node_ := none })).nodes ∧ s'.Listed [] := by
  have hp : s.free_list_ = none := h.linked
  refine ⟨_, (allocElem_new hp).trans newElem_eq, rfl, ?_, List.nodup_nil, List.forall_mem_nil _⟩
  exact hp

theorem allocElem_badAlloc (h : s.Listed []) : allocElem none s = .error .badAlloc s :=
  (allocElem_new h.linked).trans newElem_eq_error

/-- An element that is not on the list is put in front of it. -/
theorem freeElem (h : s.Listed l) (hn : s.nodes p = some n) (hp : p ∉ l) :
    ∃ s', FreeList.freeElem (some p) s = .ok () s' ∧
      s'.nodes = (s.setNode p (some { n with next_node_ := s.free_list_ })).nodes ∧
      s'.Listed (p :: l) := by
  refine ⟨_, freeElem_eq hn, rfl, ?_, List.nodup_cons.mpr ⟨hp, h.nodup⟩, fun q hq => ?_⟩
  · show Linked (s.setNode p _).next (some p) (p :: l)
    rw [next_setNode]
    exact h.linked.push hp
  · refine (nodes_setNode q).mpr ?_
    rcases List.mem_cons.mp hq with rfl | hq
    · exact .inl rfl
    · exact .inr (h.live q hq)

/-- What is written into an element does not touch the list. -/
theorem write (h : s.Listed l) (hn : s.nodes p = some n) (data : T) :
    (s.setNode p (some { n with data_ := data })).Listed l := by
  refine ⟨?_, h.nodup, fun q hq => (nodes_setNode q).mpr (.inr (h.live q hq))⟩
  rw [next_setNode, ← next_of_node hn, Function.update_eq_self]
  exact h.linked

end Pool.Listed

/-! ## Every run -/

/-- The list has the elements that were freed, and there are no nodes but these and those that the
program has. -/
structure Inv (s : State T Addr) : Prop where
  list : ∃ l, s.pool.Listed l ∧ ∀ p, p ∈ l ↔ Freed s.log p
  live : ∀ p, s.pool.nodes p ≠ none ↔ Freed s.log p ∨ Allocated s.log p
  sound : ∀ e, .raised e ∈ s.log → e = .badAlloc

namespace Inv

variable {s s' : State T Addr}

omit [DecidableEq Addr] in
theorem made : Inv (State.made : State T Addr) where
  list := ⟨[], ⟨rfl, List.nodup_nil, List.forall_mem_nil _⟩, fun _ =>
    iff_of_false List.not_mem_nil not_since_nil⟩
  live _ := iff_of_false (fun h => h rfl) fun h => h.elim not_since_nil not_since_nil
  sound _ he := absurd he List.not_mem_nil

omit [DecidableEq Addr] in
theorem sound_concat (h : Inv s) {c : Call Addr} (hc : ∀ e, c = .raised e → e = .badAlloc)
    (e : Fault) (he : .raised e ∈ s.log ++ [c]) : e = .badAlloc := by
  rw [List.mem_append, List.mem_singleton] at he
  exact he.elim (h.sound e) fun he => hc e he.symm

/-- The first element of the list is handed out. -/
theorem first {pool : Pool T Addr} (h : Inv s) (hl : s.pool.Listed (p :: l))
    (hmem : ∀ q, q ∈ p :: l ↔ Freed s.log q) (hnodes : pool.nodes = s.pool.nodes)
    (hpool : pool.Listed l) : Inv ⟨pool, s.log ++ [.handedOut p]⟩ := by
  have hp : p ∉ l := (List.nodup_cons.mp hl.nodup).1
  refine ⟨⟨l, hpool, fun q => ?_⟩, fun q => ?_, h.sound_concat fun e he => by cases he⟩
  · rw [freed_handedOut, ← hmem, List.mem_cons]
    constructor
    · intro hq
      refine ⟨?_, .inr hq⟩
      rintro rfl
      exact hp hq
    · exact fun hq => hq.2.resolve_left fun hqp => hq.1 hqp.symm
  · rw [freed_handedOut, allocated_handedOut, hnodes, h.live q]
    by_cases hq : p = q
    · subst hq
      simp [← hmem]
    · simp [hq]

/-- A new node is handed out. -/
theorem newNode {pool : Pool T Addr} (h : Inv s)
    (hmem : ∀ q, q ∈ ([] : List Addr) ↔ Freed s.log q)
    (hnodes : pool.nodes = (s.pool.setNode p (some n)).nodes) (hpool : pool.Listed []) :
    Inv ⟨pool, s.log ++ [.handedOut p]⟩ := by
  refine ⟨⟨[], hpool, fun q => ?_⟩, fun q => ?_, h.sound_concat fun e he => by cases he⟩
  · rw [freed_handedOut, ← hmem]
    simp
  · rw [freed_handedOut, allocated_handedOut, hnodes, Pool.nodes_setNode, h.live q, ← hmem]
    simp [eq_comm]

omit [DecidableEq Addr] in
theorem raise (h : Inv s) : Inv ⟨s.pool, s.log ++ [.raised .badAlloc]⟩ := by
  obtain ⟨l, hl, hmem⟩ := h.list
  refine ⟨⟨l, hl, fun q => ?_⟩, fun q => ?_, h.sound_concat fun e he => ?_⟩
  · rw [freed_raised]
    exact hmem q
  · rw [freed_raised, allocated_raised]
    exact h.live q
  · injection he with he
    exact he.symm

/-- An element that the program has is put on the list. -/
theorem freed {pool : Pool T Addr} (h : Inv s) (hmem : ∀ q, q ∈ l ↔ Freed s.log q)
    (hnodes : pool.nodes = (s.pool.setNode p (some n)).nodes) (hpool : pool.Listed (p :: l)) :
    Inv ⟨pool, s.log ++ [.freed p]⟩ := by
  refine ⟨⟨p :: l, hpool, fun q => ?_⟩, fun q => ?_, h.sound_concat fun e he => by cases he⟩
  · rw [freed_freed, List.mem_cons, hmem, eq_comm]
  · rw [freed_freed, allocated_freed, hnodes, Pool.nodes_setNode, h.live q]
    by_cases hq : p = q
    · simp [hq]
    · simp [hq, Ne.symm hq]

theorem written {data : T} (h : Inv s) (hn : s.pool.nodes p = some n) :
    Inv { s with pool := s.pool.setNode p (some { n with data_ := data }) } := by
  obtain ⟨l, hl, hmem⟩ := h.list
  refine ⟨⟨l, hl.write hn data, hmem⟩, fun q => ?_, h.sound⟩
  rw [Pool.nodes_setNode, ← h.live q]
  refine or_iff_right_of_imp ?_
  rintro rfl
  rw [hn]
  exact Option.some_ne_none n

end Inv

/-- What a call of a program that keeps to its elements does. -/
inductive Stepping (s : State T Addr) : Action T Addr → State T Addr → Prop
  | first {fresh : Option (Addr × Node T Addr)} {p : Addr} {l : List Addr} {pool : Pool T Addr}
      (hl : s.pool.Listed (p :: l)) (hmem : ∀ q, q ∈ p :: l ↔ Freed s.log q)
      (hnodes : pool.nodes = s.pool.nodes) (hpool : pool.Listed l) :
      Stepping s (.allocElem fresh) ⟨pool, s.log ++ [.handedOut p]⟩
  | newNode {p : Addr} {n : Node T Addr} {pool : Pool T Addr} (hn : s.pool.nodes p = none)
      (hmem : ∀ q, q ∈ ([] : List Addr) ↔ Freed s.log q)
      (hnodes : pool.nodes = (s.pool.setNode p (some { n with next_node_ := none })).nodes)
      (hpool : pool.Listed []) :
      Stepping s (.allocElem (some (p, n))) ⟨pool, s.log ++ [.handedOut p]⟩
  | badAlloc : Stepping s (.allocElem none) ⟨s.pool, s.log ++ [.raised .badAlloc]⟩
  | null : Stepping s (.freeElem none) s
  | freed {p : Addr} {n : Node T Addr} {l : List Addr} {pool : Pool T Addr}
      (hn : s.pool.nodes p = some n) (hmem : ∀ q, q ∈ l ↔ Freed s.log q)
      (hnodes : pool.nodes =
        (s.pool.setNode p (some { n with next_node_ := s.pool.free_list_ })).nodes)
      (hpool : pool.Listed (p :: l)) :
      Stepping s (.freeElem (some p)) ⟨pool, s.log ++ [.freed p]⟩
  | written {p : Addr} {n : Node T Addr} {data : T} (hn : s.pool.nodes p = some n) :
      Stepping s (.write p data)
        { s with pool := s.pool.setNode p (some { n with data_ := data }) }

section Steps

variable {s s' : State T Addr} {a : Action T Addr}

theorem Inv.allocElem (h : Inv s) (hs : s.step (.allocElem fresh) = some s') :
    Stepping s (.allocElem fresh) s' := by
  obtain ⟨l, hl, hmem⟩ := h.list
  rw [State.step] at hs
  split at hs
  · next hfresh =>
    obtain rfl := Option.some.inj hs
    cases l with
    | cons p l =>
      obtain ⟨pool, hcall, hnodes, hpool⟩ := hl.allocElem_cons fresh
      rw [hcall]
      exact .first hl hmem hnodes hpool
    | nil =>
      cases fresh with
      | none =>
        rw [hl.allocElem_badAlloc]
        exact .badAlloc
      | some x =>
        obtain ⟨p, n⟩ := x
        obtain ⟨pool, hcall, hnodes, hpool⟩ := hl.allocElem_nil p n
        rw [hcall]
        exact .newNode (by simpa using hfresh) hmem hnodes hpool
  · cases hs

theorem Inv.freeElem (h : Inv s) (hp : Allocated s.log p)
    (hs : s.step (.freeElem (some p)) = some s') : Stepping s (.freeElem (some p)) s' := by
  obtain ⟨l, hl, hmem⟩ := h.list
  obtain ⟨n, hn⟩ := Option.ne_none_iff_exists'.mp ((h.live p).mpr (.inr hp))
  have hnot : p ∉ l := fun hm => ((hmem p).mp hm).not_allocated hp
  obtain ⟨pool, hcall, hnodes, hpool⟩ := hl.freeElem hn hnot
  obtain rfl := Option.some.inj hs
  rw [hcall]
  exact .freed hn hmem hnodes hpool

theorem Inv.stepping (h : Inv s) (ha : Owns s a) (hs : s.step a = some s') : Stepping s a s' := by
  cases a with
  | allocElem fresh => exact h.allocElem hs
  | freeElem pData =>
    cases pData with
    | some p => exact h.freeElem ha hs
    | none =>
      have hs' : s' = s := by
        rw [← Option.some.inj hs]
        show (⟨s.pool, s.log ++ []⟩ : State T Addr) = s
        rw [List.append_nil]
      rw [hs']
      exact .null
  | write p data =>
    rw [State.step] at hs
    split at hs
    · next n hn =>
      obtain rfl := Option.some.inj hs
      exact .written hn
    · cases hs

theorem Inv.step (h : Inv s) (hs : Stepping s a s') : Inv s' := by
  cases hs with
  | first hl hmem hnodes hpool => exact h.first hl hmem hnodes hpool
  | newNode _ hmem hnodes hpool => exact h.newNode hmem hnodes hpool
  | badAlloc => exact h.raise
  | null => exact h
  | freed _ hmem hnodes hpool => exact h.freed hmem hnodes hpool
  | written hn => exact h.written hn

/-- **What is handed out nobody has.** -/
theorem Inv.exclusive (h : Inv s) (hs : Stepping s a s')
    (hlog : s'.log = s.log ++ [.handedOut p]) : ¬Allocated s.log p := by
  cases hs with
  | @first _ q l _ hl hmem hnodes hpool =>
    obtain rfl : q = p := by simpa using hlog
    exact ((hmem q).mp List.mem_cons_self).not_allocated
  | @newNode q _ _ hn hmem hnodes hpool =>
    obtain rfl : q = p := by simpa using hlog
    exact fun ha => (h.live q).mpr (.inr ha) hn
  | badAlloc => simp at hlog
  | null => simp at hlog
  | freed hn hmem hnodes hpool => simp at hlog
  | written hn => simp at hlog

/-- **The pool leaves the data alone**: an element that is handed out again has what the program
has last written into it. -/
theorem Stepping.data_kept (hs : Stepping s a s') (hw : ∀ data, a ≠ .write p data)
    (hn : s.pool.nodes p = some n) : (s'.pool.nodes p).map Node.data_ = some n.data_ := by
  cases hs with
  | first hl hmem hnodes hpool =>
    rw [hnodes, hn, Option.map_some]
  | @newNode q _ _ hq hmem hnodes hpool =>
    have hne : p ≠ q := by
      rintro rfl
      rw [hn] at hq
      cases hq
    rw [hnodes, Pool.setNode_ne hne, hn, Option.map_some]
  | badAlloc => rw [hn, Option.map_some]
  | null => rw [hn, Option.map_some]
  | @freed q m _ _ hq hmem hnodes hpool =>
    rw [hnodes]
    by_cases hpq : p = q
    · subst hpq
      obtain rfl := Option.some.inj (hn.symm.trans hq)
      rw [Pool.setNode_self, Option.map_some]
    · rw [Pool.setNode_ne hpq, hn, Option.map_some]
  | @written q _ data hq =>
    have hne : p ≠ q := by
      rintro rfl
      exact hw data rfl
    rw [Pool.setNode_ne hne, hn, Option.map_some]

end Steps

/-- The pools that a program comes to from one that has just been made. -/
abbrev Reached (s : State T Addr) : Prop := Reach (· = State.made) State.step Owns s

theorem inv_of_reach {s : State T Addr} (hr : Reached s) : Inv s :=
  hr.invariant Inv (fun _ h => h ▸ .made) fun _ _ _ h ha hs => h.step (h.stepping ha hs)

/-! ## The destruction -/

/-- **The loop of `clear` comes back from a list of one only**, and it has not deleted that one:
behind a longer list it reads the node that it has just deleted. -/
theorem clearLoop_eq_ok {u : Unit} {s' : Pool T Addr}
    (h : clearLoop (fuel + 1) (some p) s = .ok u s') :
    s.next p = none ∧ s' = s.record (.read p) := by
  obtain ⟨q, s1, hread, h⟩ := exists_of_bind h
  cases hn : s.nodes p with
  | none =>
    rw [readNext_eq_error hn] at hread
    cases hread
  | some n =>
    rw [readNext_eq hn] at hread
    injection hread with hq hs1
    subst hq hs1
    obtain ⟨_, s2, hdelete, h⟩ := exists_of_bind h
    cases hnext : n.next_node_ with
    | none =>
      rw [hnext] at hdelete h
      injection hdelete with _ hs2
      subst hs2
      refine ⟨(Pool.next_of_node hn).trans hnext, ?_⟩
      cases fuel with
      | zero => cases h
      | succ fuel =>
        injection h with _ h
        exact h.symm
    | some q =>
      rw [hnext] at hdelete h
      have hgone : s2.nodes q = none := nodes_delete hdelete
      cases fuel with
      | zero => cases h
      | succ fuel =>
        -- the next round begins with the node that is gone
        obtain ⟨_, _, hread, -⟩ := exists_of_bind h
        rw [readNext_eq_error hgone] at hread
        cases hread

theorem clear_eq : clear fuel s =
    (clearLoop fuel s.free_list_ >>= fun _ => setFreeList none) s := bind_ok get_eq

/-- **The destruction is right exactly where there is nothing to delete.** -/
theorem teardown_iff : Teardown s ↔ s.free_list_ = none := by
  constructor
  · rintro ⟨fuel, s', h, hc⟩
    rw [clear_eq] at h
    obtain ⟨_, s1, hloop, h⟩ := exists_of_bind h
    injection h with _ h
    subst h
    cases hp : s.free_list_ with
    | none => rfl
    | some p =>
      cases fuel with
      | zero => cases hloop
      | succ fuel =>
        rw [hp] at hloop
        obtain ⟨hnext, rfl⟩ := clearLoop_eq_ok hloop
        have hlist : s.OnFreeList p := by
          refine ⟨[p], ?_, List.mem_singleton_self p⟩
          rw [hp]
          exact ⟨rfl, hnext⟩
        have honce := hc.once p hlist
        simp [Pool.record] at honce
  · intro hp
    refine ⟨1, { s with accesses := [] }, ?_, ⟨fun p ⟨l, hl, hmem⟩ => ?_,
      fun p _ => List.not_mem_nil, fun p before after h => ?_, hp⟩⟩
    · rw [clear_eq, hp]
      rfl
    · rw [hp] at hl
      cases l with
      | nil => cases hmem
      | cons q l => cases hl.1
    · exact absurd h.symm (by simp)

/-- A single element on the list is read, and it stays in memory. -/
theorem clear_one (h : s.Listed [p]) (fuel : Nat) : clear (fuel + 2) s =
    .ok () { s.record (.read p) with free_list_ := none } := by
  obtain ⟨hp, hnext⟩ := h.linked
  obtain ⟨n, hn⟩ := Option.ne_none_iff_exists'.mp (h.live p (List.mem_singleton_self p))
  rw [Pool.next_of_node hn] at hnext
  have hnext : n.next_node_ = none := hnext
  have hloop : clearLoop (fuel + 2) (some p) s = .ok () (s.record (.read p)) := by
    rw [clearLoop, bind_ok (readNext_eq hn), hnext]
    rfl
  rw [clear_eq, hp, bind_ok hloop]
  rfl

/-- Of a longer list the second element is deleted, and then it is read. -/
theorem clear_more (h : s.Listed (p :: q :: l)) (fuel : Nat) : clear (fuel + 2) s =
    .error .dangling ((((s.record (.read p)).setNode q none).record (.delete q)).record
      (.read q)) := by
  obtain ⟨hp, hnext, -⟩ := h.linked
  obtain ⟨n, hn⟩ := Option.ne_none_iff_exists'.mp (h.live p (by simp))
  obtain ⟨m, hm⟩ := Option.ne_none_iff_exists'.mp (h.live q (by simp))
  rw [Pool.next_of_node hn] at hnext
  have hdelete := delete_eq (s := s.record (.read p)) hm
  rw [clear_eq, hp]
  refine bind_error ?_
  rw [clearLoop, bind_ok (readNext_eq hn), hnext, bind_ok hdelete, clearLoop]
  exact bind_error (readNext_eq_error (Pool.setNode_self ..))

omit [DecidableEq Addr] in
theorem freeList_eq_none (h : s.Listed l) : s.free_list_ = none ↔ l = [] := by
  cases l with
  | nil => exact iff_of_true h.linked rfl
  | cons p l =>
    refine iff_of_false ?_ (List.cons_ne_nil p l)
    rw [h.linked.1]
    exact Option.some_ne_none p

/-- **Who has the elements is right in every run, the destruction exactly where every element that
was freed has been handed out again.** -/
theorem ownership_of_reach {s : State T Addr} (hr : Reached s) :
    Ownership s ∧ (Teardown s.pool ↔ ∀ p, ¬Freed s.log p) := by
  have h := inv_of_reach hr
  obtain ⟨l, hl, hmem⟩ := h.list
  refine ⟨⟨fun fresh s' p hs hlog => h.exclusive (h.allocElem hs) hlog, ⟨l, hl.linked⟩,
    fun p => hl.onFreeList.trans (hmem p), h.sound⟩, ?_⟩
  rw [teardown_iff, freeList_eq_none hl, List.eq_nil_iff_forall_not_mem]
  exact forall_congr' fun p => not_congr (hmem p)

/-! ### Two runs -/

/-- Two elements are handed out and freed. -/
def freedTwo : List (Action Nat Nat) :=
  [.allocElem (some (10, ⟨0, none⟩)), .allocElem (some (20, ⟨0, none⟩)), .freeElem (some 10),
    .freeElem (some 20)]

/-- Then both are handed out again. -/
def handedOutAgain : List (Action Nat Nat) :=
  freedTwo ++ [.allocElem none, .allocElem none]

theorem freedTwo_runs : (exec State.step State.made freedTwo).isSome = true := by decide

theorem handedOutAgain_runs : (exec State.step State.made handedOutAgain).isSome = true := by
  decide

/-- The pool after `handedOutAgain`. -/
def emptied : State Nat Nat := (exec State.step State.made handedOutAgain).get handedOutAgain_runs

theorem ownership_emptied : Ownership emptied ∧ Teardown emptied.pool := by
  have h := ownership_of_reach (s := emptied)
    (.of_exec (.start rfl) (by decide) (Option.some_get handedOutAgain_runs).symm)
  refine ⟨h.1, h.2.mpr fun p hp => ?_⟩
  have hmem : p = 10 ∨ p = 20 := by
    have hlog : emptied.log = [.handedOut 10, .handedOut 20, .freed 10, .freed 20, .handedOut 20,
      .handedOut 10] := by decide
    have hp' := hp.mem
    simpa [hlog] using hp'
  rcases hmem with rfl | rfl
  · exact absurd hp (by decide)
  · exact absurd hp (by decide)

/-- **The pool is destroyed with two elements on the list.** -/
theorem not_teardown_freedTwo :
    ¬∀ s : State Nat Nat, Reached s → Ownership s ∧ Teardown s.pool := by
  intro h
  have ht := (h _ (.of_exec (.start rfl) (by decide) (Option.some_get freedTwo_runs).symm)).2
  rw [teardown_iff] at ht
  exact absurd ht (by decide)

end GhNet.Base.FreeList
