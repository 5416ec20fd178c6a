import Mathlib.Data.List.Flatten
import Mathlib.Logic.Function.Basic
import GhNet.Infra.Run

/-!
# Pipes

One end of a number of connections, as far as data is concerned. A connection has two queues: what
was sent and is not transmitted yet, and what was received and is not consumed yet. It sits in a
slot, which another connection may have after it, and is told apart by its number.

The history says what went through the queues of each connection. Nothing gets lost or comes twice
or in another order: what went in is what came out and what is still there.
-/

namespace GhNet

variable {ι α : Type*}

/-- Data that enters or leaves a queue. -/
inductive Transfer (α : Type*)
  | sent (xs : List α)
  | transmitted (xs : List α)
  | received (xs : List α)
  | consumed (xs : List α)

/-- A connection. -/
structure Pipe (α : Type*) where
  number : Nat
  unsent : List α
  unread : List α

/-- Takes data from the front of a queue. -/
def dequeue [DecidableEq α] (xs q : List α) : Option (List α) :=
  if xs <+: q then some (q.drop xs.length) else none

theorem dequeue_eq_some [DecidableEq α] {xs q q' : List α} :
    dequeue xs q = some q' ↔ q = xs ++ q' := by
  unfold dequeue
  constructor
  · intro h
    split at h
    · next hp =>
      obtain ⟨ys, rfl⟩ := hp
      rw [List.drop_left] at h
      rw [Option.some.inj h]
    · cases h
  · rintro rfl
    rw [if_pos (List.prefix_append xs q'), List.drop_left]

@[simp] theorem dequeue_take [DecidableEq α] (q : List α) (n : Nat) :
    dequeue (q.take n) q = some (q.drop n) :=
  dequeue_eq_some.mpr (List.take_append_drop n q).symm

/-- The connection behind a transfer. -/
def Pipe.carry [DecidableEq α] (c : Pipe α) : Transfer α → Option (Pipe α)
  | .sent xs => some { c with unsent := c.unsent ++ xs }
  | .transmitted xs => (dequeue xs c.unsent).map fun q => { c with unsent := q }
  | .received xs => some { c with unread := c.unread ++ xs }
  | .consumed xs => (dequeue xs c.unread).map fun q => { c with unread := q }

/-- The slots, the number of the next connection and the history. -/
structure Pipes (ι α : Type*) where
  slots : ι → Option (Pipe α)
  count : Nat
  log : List (Nat × Transfer α)

namespace Pipes

/-- What happens to a slot. -/
inductive Op (ι α : Type*)
  | open_ (i : ι)
  | close (i : ι)
  | carry (i : ι) (x : Transfer α)

/-- No slot is taken. -/
def Init (p : Pipes ι α) : Prop := p.slots = (fun _ => none) ∧ p.log = []

section Step

variable [DecidableEq ι] [DecidableEq α]

/-- One operation, if it is possible. -/
def step (p : Pipes ι α) : Op ι α → Option (Pipes ι α)
  | .open_ i =>
    if (p.slots i).isNone then
      some { p with
        slots := Function.update p.slots i (some ⟨p.count, [], []⟩), count := p.count + 1 }
    else none
  | .close i => some { p with slots := Function.update p.slots i none }
  | .carry i x =>
    (p.slots i).bind fun c => (c.carry x).map fun c' =>
      { p with slots := Function.update p.slots i (some c'), log := p.log ++ [(c.number, x)] }

theorem step_open {p : Pipes ι α} {i : ι} (h : p.slots i = none) : p.step (.open_ i) =
    some { p with
      slots := Function.update p.slots i (some ⟨p.count, [], []⟩), count := p.count + 1 } :=
  if_pos (by rw [h]; rfl)

theorem step_carry {p : Pipes ι α} {i : ι} {c c' : Pipe α} {x : Transfer α}
    (h : p.slots i = some c) (hc : c.carry x = some c') : p.step (.carry i x) =
    some { p with
      slots := Function.update p.slots i (some c'), log := p.log ++ [(c.number, x)] } := by
  rw [step, h, Option.bind_some, hc, Option.map_some]

end Step

/-! ## The history of a connection -/

namespace Transfer

/-- What a transfer sends. -/
def sentData : Transfer α → List α
  | .sent xs => xs
  | _ => []

/-- What it transmits. -/
def transmittedData : Transfer α → List α
  | .transmitted xs => xs
  | _ => []

/-- What it receives. -/
def receivedData : Transfer α → List α
  | .received xs => xs
  | _ => []

/-- What it consumes. -/
def consumedData : Transfer α → List α
  | .consumed xs => xs
  | _ => []

end Transfer

/-- The transfers of a connection, joined. -/
def joined (f : Transfer α → List α) (r : Nat) (log : List (Nat × Transfer α)) : List α :=
  log.flatMap fun e => if e.1 = r then f e.2 else []

/-- What was sent on the connection `r`. -/
def sent (r : Nat) (log : List (Nat × Transfer α)) : List α := joined Transfer.sentData r log

/-- What went out for a connection. -/
def transmitted (r : Nat) (log : List (Nat × Transfer α)) : List α :=
  joined Transfer.transmittedData r log

/-- What came in for a connection. -/
def received (r : Nat) (log : List (Nat × Transfer α)) : List α :=
  joined Transfer.receivedData r log

/-- What was read for a connection. -/
def consumed (r : Nat) (log : List (Nat × Transfer α)) : List α :=
  joined Transfer.consumedData r log

variable {f : Transfer α → List α} {r r' : Nat} {log : List (Nat × Transfer α)} {x : Transfer α}

theorem joined_self : joined f r (log ++ [(r, x)]) = joined f r log ++ f x := by
  simp [joined]

theorem joined_ne (h : r' ≠ r) : joined f r (log ++ [(r', x)]) = joined f r log := by
  simp [joined, h]

/-- The connection's number does not occur in the history. -/
theorem joined_fresh (h : ∀ e ∈ log, e.1 ≠ r) : joined f r log = [] :=
  List.flatMap_eq_nil_iff.mpr fun e he => if_neg (h e he)

/-! ## What is conserved -/

/-- What went into the queues of the connection is what came out and what is still there. -/
structure Conserved (c : Pipe α) (log : List (Nat × Transfer α)) : Prop where
  output : sent c.number log = transmitted c.number log ++ c.unsent
  input : received c.number log = consumed c.number log ++ c.unread

/-- What came out of the queues of the connection `r` is the front of what went in. -/
structure InOrder (r : Nat) (log : List (Nat × Transfer α)) : Prop where
  output : transmitted r log <+: sent r log
  input : consumed r log <+: received r log

theorem Conserved.inOrder {c : Pipe α} (h : Conserved c log) : InOrder c.number log :=
  ⟨⟨c.unsent, h.output.symm⟩, ⟨c.unread, h.input.symm⟩⟩

/-- The transfers of other connections do not matter. -/
theorem Conserved.other {c : Pipe α} (h : Conserved c log) (hr : r' ≠ c.number) :
    Conserved c (log ++ [(r', x)]) := by
  refine ⟨?_, ?_⟩
  · rw [sent, transmitted, joined_ne hr, joined_ne hr]
    exact h.output
  · rw [received, consumed, joined_ne hr, joined_ne hr]
    exact h.input

theorem InOrder.other (h : InOrder r log) (hr : r' ≠ r) : InOrder r (log ++ [(r', x)]) := by
  refine ⟨?_, ?_⟩
  · rw [transmitted, sent, joined_ne hr, joined_ne hr]
    exact h.output
  · rw [consumed, received, joined_ne hr, joined_ne hr]
    exact h.input

/-- Nothing has gone through the queues of a connection that is new. -/
theorem Conserved.fresh (h : ∀ e ∈ log, e.1 ≠ r) : Conserved ⟨r, [], []⟩ log := by
  refine ⟨?_, ?_⟩
  · rw [sent, transmitted, joined_fresh h, joined_fresh h, List.append_nil]
  · rw [received, consumed, joined_fresh h, joined_fresh h, List.append_nil]

theorem InOrder.nil (r : Nat) : InOrder r ([] : List (Nat × Transfer α)) :=
  ⟨List.nil_prefix, List.nil_prefix⟩

section Carry

variable [DecidableEq α] {c c' : Pipe α}

theorem carry_number (h : c.carry x = some c') : c'.number = c.number := by
  cases x with
  | sent xs | received xs =>
    obtain rfl := Option.some.inj h
    rfl
  | transmitted xs | consumed xs =>
    obtain ⟨q, -, rfl⟩ := Option.map_eq_some_iff.mp h
    rfl

/-- What a transfer adds to the first queue and takes from it. -/
theorem carry_unsent (h : c.carry x = some c') :
    c.unsent ++ Transfer.sentData x = Transfer.transmittedData x ++ c'.unsent := by
  cases x with
  | sent xs | received xs =>
    obtain rfl := Option.some.inj h
    simp [Transfer.sentData, Transfer.transmittedData]
  | transmitted xs =>
    obtain ⟨q, hq, rfl⟩ := Option.map_eq_some_iff.mp h
    simp [Transfer.sentData, Transfer.transmittedData, dequeue_eq_some.mp hq]
  | consumed xs =>
    obtain ⟨q, -, rfl⟩ := Option.map_eq_some_iff.mp h
    simp [Transfer.sentData, Transfer.transmittedData]

theorem carry_unread (h : c.carry x = some c') :
    c.unread ++ Transfer.receivedData x = Transfer.consumedData x ++ c'.unread := by
  cases x with
  | sent xs | received xs =>
    obtain rfl := Option.some.inj h
    simp [Transfer.receivedData, Transfer.consumedData]
  | transmitted xs =>
    obtain ⟨q, -, rfl⟩ := Option.map_eq_some_iff.mp h
    simp [Transfer.receivedData, Transfer.consumedData]
  | consumed xs =>
    obtain ⟨q, hq, rfl⟩ := Option.map_eq_some_iff.mp h
    simp [Transfer.receivedData, Transfer.consumedData, dequeue_eq_some.mp hq]

/-- **A transfer conserves.** -/
theorem Conserved.carry (h : Conserved c log) (hc : c.carry x = some c') :
    Conserved c' (log ++ [(c.number, x)]) := by
  have hn := carry_number hc
  have ho := h.output
  have hi := h.input
  rw [sent, transmitted] at ho
  rw [received, consumed] at hi
  refine ⟨?_, ?_⟩
  · rw [hn, sent, transmitted, joined_self, joined_self, ho, List.append_assoc, carry_unsent hc,
      List.append_assoc]
  · rw [hn, received, consumed, joined_self, joined_self, hi, List.append_assoc, carry_unread hc,
      List.append_assoc]

end Carry

/-- The invariant of the pipes. -/
structure Inv (p : Pipes ι α) : Prop where
  numbered : ∀ {i c}, p.slots i = some c → c.number < p.count
  apart : ∀ {i j c d}, p.slots i = some c → p.slots j = some d → c.number = d.number → i = j
  past : ∀ e ∈ p.log, e.1 < p.count
  conserved : ∀ {i c}, p.slots i = some c → Conserved c p.log
  inOrder : ∀ r, InOrder r p.log

/-- What a slot has after another value was put into one. -/
theorem update_eq_some [DecidableEq ι] {slots : ι → Option (Pipe α)} {i j : ι}
    {v : Option (Pipe α)} {d : Pipe α} (h : Function.update slots i v j = some d) :
    j = i ∧ v = some d ∨ j ≠ i ∧ slots j = some d := by
  by_cases hji : j = i
  · subst hji
    rw [Function.update_self] at h
    exact .inl ⟨rfl, h⟩
  · rw [Function.update_of_ne hji] at h
    exact .inr ⟨hji, h⟩

namespace Inv

variable {p p' : Pipes ι α} {i : ι}

theorem init (h : Init p) : Inv p := by
  obtain ⟨hs, hl⟩ := h
  have hno : ∀ {i c}, p.slots i ≠ some c := by simp [hs]
  refine ⟨fun h => absurd h hno, fun h => absurd h hno, ?_, fun h => absurd h hno, fun r => ?_⟩
  · simp [hl]
  · rw [hl]
    exact .nil r

variable [DecidableEq ι]

theorem open_ (h : Inv p) :
    Inv { p with
      slots := Function.update p.slots i (some ⟨p.count, [], []⟩), count := p.count + 1 } := by
  have hold : ∀ {j c}, Function.update p.slots i (some ⟨p.count, [], []⟩) j = some c →
      j = i ∧ c = ⟨p.count, [], []⟩ ∨ j ≠ i ∧ p.slots j = some c :=
    fun hj => (update_eq_some hj).imp_left fun ⟨hji, hc⟩ => ⟨hji, (Option.some.inj hc).symm⟩
  refine ⟨fun hj => ?_, fun hj hk hn => ?_, fun e he => Nat.lt_succ_of_lt (h.past e he),
    fun hj => ?_, h.inOrder⟩
  · rcases hold hj with ⟨-, rfl⟩ | ⟨-, hj⟩
    · exact Nat.lt_succ_self _
    · exact Nat.lt_succ_of_lt (h.numbered hj)
  · rcases hold hj with ⟨hji, rfl⟩ | ⟨-, hj'⟩
    · rcases hold hk with ⟨hki, -⟩ | ⟨-, hk'⟩
      · exact hji.trans hki.symm
      · exact absurd hn (Nat.ne_of_gt (h.numbered hk'))
    · rcases hold hk with ⟨-, rfl⟩ | ⟨-, hk'⟩
      · exact absurd hn (Nat.ne_of_lt (h.numbered hj'))
      · exact h.apart hj' hk' hn
  · rcases hold hj with ⟨-, rfl⟩ | ⟨-, hj⟩
    · exact .fresh fun e he => Nat.ne_of_lt (h.past e he)
    · exact h.conserved hj

theorem close (h : Inv p) : Inv { p with slots := Function.update p.slots i none } := by
  have hold : ∀ {j c}, Function.update p.slots i none j = some c → p.slots j = some c := by
    intro j c hj
    rcases update_eq_some hj with ⟨-, hnone⟩ | ⟨-, hj⟩
    · cases hnone
    · exact hj
  exact ⟨fun hj => h.numbered (hold hj), fun hj hk => h.apart (hold hj) (hold hk), h.past,
    fun hj => h.conserved (hold hj), h.inOrder⟩

theorem carry [DecidableEq α] {c c' : Pipe α} (h : Inv p) (hi : p.slots i = some c)
    (hc : c.carry x = some c') : Inv { p with
      slots := Function.update p.slots i (some c'), log := p.log ++ [(c.number, x)] } := by
  have hn := carry_number hc
  -- a slot has the connection that it had
  have hold : ∀ {j d}, Function.update p.slots i (some c') j = some d →
      j = i ∧ d = c' ∨ j ≠ i ∧ p.slots j = some d :=
    fun hj => (update_eq_some hj).imp_left fun ⟨hji, hd⟩ => ⟨hji, (Option.some.inj hd).symm⟩
  refine ⟨fun hj => ?_, fun hj hk hjk => ?_, fun e he => ?_, fun hj => ?_, fun r => ?_⟩
  · rcases hold hj with ⟨-, rfl⟩ | ⟨-, hj'⟩
    · exact hn.symm ▸ h.numbered hi
    · exact h.numbered hj'
  · rcases hold hj with ⟨hji, rfl⟩ | ⟨-, hj'⟩
    · rcases hold hk with ⟨hki, -⟩ | ⟨-, hk'⟩
      · exact hji.trans hki.symm
      · exact hji.trans (h.apart hi hk' (hn.symm.trans hjk))
    · rcases hold hk with ⟨hki, rfl⟩ | ⟨-, hk'⟩
      · exact (h.apart hj' hi (hjk.trans hn)).trans hki.symm
      · exact h.apart hj' hk' hjk
  · rcases List.mem_append.mp he with he | he
    · exact h.past e he
    · obtain rfl := List.mem_singleton.mp he
      exact h.numbered hi
  · rcases hold hj with ⟨-, rfl⟩ | ⟨hji, hj'⟩
    · exact (h.conserved hi).carry hc
    · exact (h.conserved hj').other fun hne => hji (h.apart hi hj' hne).symm
  · by_cases hr : c.number = r
    · have hown := ((h.conserved hi).carry hc).inOrder
      rw [hn] at hown
      exact hr ▸ hown
    · exact (h.inOrder r).other hr

theorem step [DecidableEq α] {o : Op ι α} (h : Inv p) (hs : Pipes.step p o = some p') :
    Inv p' := by
  cases o with
  | open_ i =>
    obtain ⟨-, hs⟩ := Option.ite_none_right_eq_some.mp hs
    exact Option.some.inj hs ▸ h.open_
  | close i =>
    obtain rfl := Option.some.inj hs
    exact h.close
  | carry i x =>
    obtain ⟨c, hi, hs⟩ := Option.bind_eq_some_iff.mp hs
    obtain ⟨c', hc, rfl⟩ := Option.map_eq_some_iff.mp hs
    exact h.carry hi hc

end Inv

/-- **Nothing gets lost**, in any order of what happens. -/
theorem inv_of_reach [DecidableEq ι] [DecidableEq α] {p : Pipes ι α}
    (hr : Reach Init step anyStep p) : Inv p :=
  hr.invariant Inv (fun _ h => .init h) fun _ _ _ h _ hs => h.step hs

end Pipes

end GhNet
