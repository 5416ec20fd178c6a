import GhNet.Iocp.Effects

/-!
# What a step can do

`Stepping` lists the steps of the machine with their guards, in terms of the outcomes of the
functions they run. An invariant of the service is proved by cases on it.
-/

namespace GhNet.Iocp

open GhNet Service

variable {s s' : Service} {i n : Nat}

/-- The innermost frame is gone. -/
def Service.popped (s : Service) (rest : List Frame) : Service := { s with stack := rest }

/-- The request has left the hands of the system. -/
def Service.took (s : Service) (r : Request) : Service := { s with posted := s.posted.erase r }

namespace Service

@[simp] theorem popped_peer (s : Service) (rest : List Frame) :
    (s.popped rest).m_peer_array = s.m_peer_array := rfl
@[simp] theorem popped_posted (s : Service) (rest : List Frame) :
    (s.popped rest).posted = s.posted := rfl
@[simp] theorem popped_stack (s : Service) (rest : List Frame) : (s.popped rest).stack = rest := rfl
@[simp] theorem popped_log (s : Service) (rest : List Frame) : (s.popped rest).log = s.log := rfl
@[simp] theorem popped_m_serial (s : Service) (rest : List Frame) :
    (s.popped rest).m_serial = s.m_serial := rfl

@[simp] theorem took_peer (s : Service) (r : Request) :
    (s.took r).m_peer_array = s.m_peer_array := rfl
@[simp] theorem took_posted (s : Service) (r : Request) :
    (s.took r).posted = s.posted.erase r := rfl
@[simp] theorem took_stack (s : Service) (r : Request) : (s.took r).stack = s.stack := rfl
@[simp] theorem took_log (s : Service) (r : Request) : (s.took r).log = s.log := rfl

/-! ## The end of `closePeer` -/

@[simp] theorem closePeerEnd_peer_self (s : Service) (i : Nat) :
    (s.closePeerEnd i).m_peer_array i = (s.m_peer_array i).withSocket none := by
  unfold closePeerEnd deletePeer
  dsimp only
  split <;> exact setPeer_self _ _ _

theorem closePeerEnd_peer_ne {j : Nat} (h : j ≠ i) (s : Service) :
    (s.closePeerEnd i).m_peer_array j = s.m_peer_array j := by
  unfold closePeerEnd deletePeer
  dsimp only
  split <;> exact setPeer_ne h _ _

@[simp] theorem closePeerEnd_posted (s : Service) (i : Nat) :
    (s.closePeerEnd i).posted = s.posted := by
  unfold closePeerEnd deletePeer
  dsimp only
  split <;> rfl

@[simp] theorem closePeerEnd_stack (s : Service) (i : Nat) :
    (s.closePeerEnd i).stack = s.stack := by
  unfold closePeerEnd deletePeer
  dsimp only
  split <;> rfl

@[simp] theorem closePeerEnd_m_serial (s : Service) (i : Nat) :
    (s.closePeerEnd i).m_serial = s.m_serial := by
  unfold closePeerEnd deletePeer
  dsimp only
  split <;> rfl

/-- Only a slot that still has a socket is closed. -/
theorem closePeerEnd_log (s : Service) (i : Nat) :
    (s.m_peer_array i).socket = none ∧ (s.closePeerEnd i).log = s.log ∨
      (s.m_peer_array i).socket ≠ none ∧
        (s.closePeerEnd i).log = s.log ++ [.closesocket i (s.m_peer_array i).serial] := by
  unfold closePeerEnd
  by_cases h : (s.m_peer_array i).socket = none
  · exact Or.inl ⟨h, by simp only [h, if_true]; rfl⟩
  · exact Or.inr ⟨h, by simp only [h, if_false]; rfl⟩

end Service

/-! ## Steps -/

/-- The steps of the machine. -/
inductive Stepping (s : Service) : Action → Service → Prop
  | send {i n : Nat} {buf : Bytes} {accepted : Bool} {s' : Service} (hu : s.userRuns = true)
      (h : Sending s i n buf accepted s') : Stepping s (.send i n buf accepted) s'
  | closePeer {i n : Nat} {s' : Service} (hu : s.userRuns = true) (h : Closing s i n s') :
      Stepping s (.closePeer i n) s'
  | connectPeer {sd : Nat} {loc rem : Addr} {bound : Bool} {s' : Service}
      (hu : s.userRuns = true) (h : Registering s s') :
      Stepping s (.connectPeer sd loc rem bound) s'
  | accept {sd : Nat} {loc rem : Addr} {bound : Bool} {s' : Service} (hu : s.userRuns = true)
      (h : Registering s s') : Stepping s (.accept sd loc rem bound) s'
  | readMove {len i n : Nat} {rest : List Frame} (hs : s.stack = .onRead i n :: rest) (k : Nat)
      (s' : Service) (h : s' = s.setPeer i ((s.m_peer_array i).withReadBuf
          ((s.m_peer_array i).read_buf.setRead k)) ∨
        ∃ e, s' = (s.setPeer i ((s.m_peer_array i).withReadBuf
          ((s.m_peer_array i).read_buf.setRead k))).throw e) :
      Stepping s (.readMove len) s'
  | onCon {ret : Int} {accepted : Bool} {i n : Nat} {rest : List Frame} {s' : Service}
      (hs : s.stack = .onCon i n :: rest)
      (h : RecvPosting (s.popped rest) i (s.m_peer_array i).serial s') :
      Stepping s (.return_ ret accepted) s'
  | onReadNegative {ret : Int} {accepted : Bool} {i n : Nat} {rest : List Frame} {s' : Service}
      (hs : s.stack = .onRead i n :: rest) (hret : ret < 0)
      (h : Closing (s.popped rest) i (s.m_peer_array i).serial s') :
      Stepping s (.return_ ret accepted) s'
  | onRead {ret : Int} {accepted : Bool} {i n : Nat} {rest : List Frame} {s' : Service}
      (hs : s.stack = .onRead i n :: rest) (hret : 0 ≤ ret)
      (h : RecvPosting (s.popped rest) i (s.m_peer_array i).serial s') :
      Stepping s (.return_ ret accepted) s'
  | onDisCon {ret : Int} {accepted : Bool} {i n : Nat} {rest : List Frame}
      (hs : s.stack = .onDisCon i n :: rest) :
      Stepping s (.return_ ret accepted) ((s.popped rest).closePeerEnd i)
  | raise (hs : s.stack ≠ []) : Stepping s .raise (s.throw .user)
  | dequeue {r : Request} {c : Completion} {accepted : Bool} {s' : Service} (hs : s.stack = [])
      (hr : r ∈ s.posted) (hc : c.Fits r) (h : Ticking (s.took r) r c accepted s') :
      Stepping s (.dequeue r c accepted) s'
  | finish {r : Request} {rest : List Frame} (hs : s.stack = .tick r :: rest) :
      Stepping s .finish ((s.popped rest).deleteIOCxt r.io_context)
  | unwind {f : Frame} {rest : List Frame} (hs : s.stack = f :: rest) :
      Stepping s .unwind (s.popped rest)
  | catch_ : Stepping s .catch_ { s with thrown := none }

/-- `readMove` moves the read index whether it throws or not. -/
theorem readMove_outcome (s : Service) (i len : Nat) :
    ∃ k, s.onPeer i (Peer.onReadBuf (SockBuf.readMove len)) (fun _ t => t)
        = s.setPeer i ((s.m_peer_array i).withReadBuf ((s.m_peer_array i).read_buf.setRead k)) ∨
      ∃ e, s.onPeer i (Peer.onReadBuf (SockBuf.readMove len)) (fun _ t => t)
        = (s.setPeer i ((s.m_peer_array i).withReadBuf
            ((s.m_peer_array i).read_buf.setRead k))).throw e := by
  refine ⟨(s.m_peer_array i).read_buf.m_read_index + len, ?_⟩
  cases hm : SockBuf.readMove len (s.m_peer_array i).read_buf with
  | ok a b =>
    have hb : b = (s.m_peer_array i).read_buf.setRead
        ((s.m_peer_array i).read_buf.m_read_index + len) := by
      unfold SockBuf.readMove at hm
      dsimp only at hm
      split at hm
      · simp at hm
      · simpa using hm.symm
    have hm' : Peer.onReadBuf (SockBuf.readMove len) (s.m_peer_array i)
        = .ok a ((s.m_peer_array i).withReadBuf b) := by rw [Peer.onReadBuf, hm]
    exact Or.inl (by rw [onPeer_ok hm', hb])
  | error e b =>
    have hb : b = (s.m_peer_array i).read_buf.setRead
        ((s.m_peer_array i).read_buf.m_read_index + len) := by
      unfold SockBuf.readMove at hm
      dsimp only at hm
      split at hm
      · simp only [EStateM.Result.error.injEq] at hm
        exact hm.2.symm
      · simp at hm
    have hm' : Peer.onReadBuf (SockBuf.readMove len) (s.m_peer_array i)
        = .error e ((s.m_peer_array i).withReadBuf b) := by rw [Peer.onReadBuf, hm]
    exact Or.inr ⟨e, by rw [onPeer_error hm', hb]⟩

/-- **Every step is one of `Stepping`.** -/
theorem stepping {a : Action} (h : step s a = some s') : Stepping s a s' := by
  cases a with
  | send i n buf accepted =>
    simp only [step, Option.ite_none_right_eq_some, Option.some.injEq] at h
    exact h.2 ▸ .send h.1.1 (send_outcome _ _ _ _ _)
  | closePeer i n =>
    simp only [step, Option.ite_none_right_eq_some, Option.some.injEq] at h
    exact h.2 ▸ .closePeer h.1 (closePeer_outcome _ _ _)
  | connectPeer sd loc rem bound =>
    simp only [step, Option.ite_none_right_eq_some, Option.some.injEq] at h
    exact h.2 ▸ .connectPeer h.1 (registerSocket_outcome _ _ _ _ _)
  | accept sd loc rem bound =>
    simp only [step, Option.ite_none_right_eq_some, Option.some.injEq] at h
    exact h.2 ▸ .accept h.1.1 (registerSocket_outcome _ _ _ _ _)
  | readMove len =>
    simp only [step] at h
    split at h
    · next i n rest _ hst =>
      simp only [Option.some.injEq] at h
      obtain ⟨k, hk⟩ := readMove_outcome s i len
      rw [h] at hk
      exact .readMove hst k s' hk
    · simp at h
  | return_ ret accepted =>
    simp only [step] at h
    split at h
    · next i n rest _ hst =>
      simp only [Option.some.injEq] at h
      exact h ▸ .onCon hst (postRecvRequest_outcome _ _ _ _)
    · next i n rest _ hst =>
      simp only [Option.some.injEq, processReadEnd] at h
      by_cases hret : ret < 0
      · rw [if_pos hret] at h
        exact h ▸ .onReadNegative hst hret (closePeer_outcome _ _ _)
      · rw [if_neg hret] at h
        exact h ▸ .onRead hst (by omega) (postRecvRequest_outcome _ _ _ _)
    · next i n rest _ hst =>
      simp only [Option.some.injEq] at h
      exact h ▸ .onDisCon hst
    · simp at h
  | raise =>
    simp only [step, Option.ite_none_right_eq_some, Option.some.injEq] at h
    exact h.2 ▸ .raise h.1.2
  | dequeue r c accepted =>
    simp only [step, Option.ite_none_right_eq_some, Option.some.injEq] at h
    obtain ⟨⟨-, hst, hr, hc⟩, h⟩ := h
    exact h ▸ .dequeue hst hr hc (onEventTick_outcome _ _ _ _)
  | finish =>
    simp only [step] at h
    split at h
    · next r rest _ hst =>
      simp only [Option.some.injEq] at h
      exact h ▸ .finish hst
    · simp at h
  | unwind =>
    simp only [step] at h
    split at h
    · next e f rest _ hst =>
      simp only [Option.some.injEq] at h
      exact h ▸ .unwind hst
    · simp at h
  | catch_ =>
    simp only [step] at h
    split at h
    · simp at h
    · simp only [Option.some.injEq] at h
      exact h ▸ .catch_
    · simp at h

/-! ## What a callback goes on to -/

/-- Nothing returns while an exception is in flight. -/
theorem thrown_of_return {ret : Int} {accepted : Bool}
    (h : step s (.return_ ret accepted) = some s') : s.thrown = none := by
  cases hthrown : s.thrown with
  | none => rfl
  | some e => simp [step, hthrown] at h

theorem step_onCon {ret : Int} {accepted : Bool} {rest : List Frame} (hthrown : s.thrown = none)
    (hst : s.stack = .onCon i n :: rest) :
    step s (.return_ ret accepted) = some ((s.popped rest).registerSocketEnd i accepted) := by
  simp only [step, hthrown, hst, popped]

theorem step_onRead {ret : Int} {accepted : Bool} {rest : List Frame} (hthrown : s.thrown = none)
    (hst : s.stack = .onRead i n :: rest) :
    step s (.return_ ret accepted) = some ((s.popped rest).processReadEnd i ret accepted) := by
  simp only [step, hthrown, hst, popped]

theorem step_onDisCon {ret : Int} {accepted : Bool} {rest : List Frame} (hthrown : s.thrown = none)
    (hst : s.stack = .onDisCon i n :: rest) :
    step s (.return_ ret accepted) = some ((s.popped rest).closePeerEnd i) := by
  simp only [step, hthrown, hst, popped]

theorem step_readMove {len : Nat} {rest : List Frame} (hst : s.stack = .onRead i n :: rest)
    (h : step s (.readMove len) = some s') :
    s' = s.onPeer i (Peer.onReadBuf (SockBuf.readMove len)) fun _ t => t := by
  cases hthrown : s.thrown with
  | none => simpa [step, hthrown, hst, eq_comm] using h
  | some e => simp [step, hthrown] at h

/-! ## The call stack -/

theorem Closing.stack_eq (h : Closing s i n s') :
    s'.stack = s.stack ∨ s.Live i n ∧ s'.stack = .onDisCon i n :: s.stack := by
  cases h with
  | outOfRange _ e => exact Or.inl rfl
  | stale _ => exact Or.inl rfl
  | callback hl remote => exact Or.inr ⟨hl, rfl⟩

theorem live_setPeer {p' : Peer} {j m : Nat} (hs : p'.socket = (s.m_peer_array i).socket)
    (hn : p'.serial = (s.m_peer_array i).serial) : (s.setPeer i p').Live j m ↔ s.Live j m := by
  unfold Live
  by_cases hj : j = i
  · subst hj
    rw [setPeer_self, hs, hn]
  · rw [setPeer_ne hj]

theorem RecvPosting.stack_eq (h : RecvPosting s i n s') :
    s'.stack = s.stack ∨ s.Live i n ∧ s'.stack = .onDisCon i n :: s.stack := by
  cases h with
  | outOfRange _ e => exact Or.inl rfl
  | stale _ => exact Or.inl rfl
  | failed _ e p' _ => exact Or.inl rfl
  | accepted _ w p' _ => exact Or.inl rfl
  | refused hl p' _ _ hc =>
    rcases hc.stack_eq with hc | ⟨-, hc⟩
    · exact Or.inl hc
    · exact Or.inr ⟨hl, hc⟩

theorem SendPosting.stack_eq {accepted : Bool} (h : SendPosting s i n accepted s') :
    s'.stack = s.stack ∨ s.Live i n ∧ s'.stack = .onDisCon i n :: s.stack := by
  cases h with
  | outOfRange _ e => exact Or.inl rfl
  | stale _ => exact Or.inl rfl
  | failed _ e p' _ _ => exact Or.inl rfl
  | accepted _ _ w p' _ _ => exact Or.inl rfl
  | refused hl _ p' _ _ hc =>
    rcases hc.stack_eq with hc | ⟨-, hc⟩
    · exact Or.inl hc
    · exact Or.inr ⟨hl, hc⟩

theorem Sending.stack_eq {buf : Bytes} {accepted : Bool} (h : Sending s i n buf accepted s') :
    s'.stack = s.stack := by
  cases h <;> rfl

theorem Registering.stack_eq (h : Registering s s') :
    s'.stack = s.stack ∨ ∃ i, s'.stack = .onCon i s.m_serial :: s.stack := by
  cases h with
  | full e => exact Or.inl rfl
  | unbound i _ e => exact Or.inl rfl
  | callback i => exact Or.inr ⟨i, rfl⟩

theorem Writing.stack_eq {size : Nat} {accepted : Bool} (h : Writing s i size accepted s') :
    s'.stack = s.stack ∨ (s.m_peer_array i).socket ≠ none ∧
      s'.stack = .onDisCon i (s.m_peer_array i).serial :: s.stack := by
  cases h with
  | outOfRange _ e => exact Or.inl rfl
  | closed _ => exact Or.inl rfl
  | failed _ e p' _ => exact Or.inl rfl
  | drained _ p' _ => exact Or.inl rfl
  | more hsock k _ p' _ _ hs =>
    rcases hs.stack_eq with hs | ⟨-, hs⟩
    · exact Or.inl hs
    · exact Or.inr ⟨hsock, hs⟩

theorem Reading.stack_eq {size : Nat} (h : Reading s i size s') :
    s'.stack = s.stack ∨ (s.m_peer_array i).socket ≠ none ∧
      s'.stack = .onRead i (s.m_peer_array i).serial :: s.stack := by
  cases h with
  | outOfRange _ e => exact Or.inl rfl
  | closed _ => exact Or.inl rfl
  | failed _ e p' _ => exact Or.inl rfl
  | callback hsock p' _ => exact Or.inr ⟨hsock, rfl⟩

/-- A completion puts its `tick` on the stack, and at most one callback on top of it: one of the
connection that the slot holds. -/
theorem Ticking.stack_eq {r : Request} {c : Completion} {accepted : Bool}
    (h : Ticking s r c accepted s') :
    s'.stack = s.stack ∨ s'.stack = .tick r :: s.stack ∨
      (s.m_peer_array r.index).socket ≠ none ∧
        (s'.stack = .onDisCon r.index (s.m_peer_array r.index).serial :: .tick r :: s.stack ∨
          s'.stack = .onRead r.index (s.m_peer_array r.index).serial :: .tick r :: s.stack) := by
  cases h with
  | lost _ _ h =>
    rcases h.stack_eq with h | ⟨⟨hl, -⟩, h⟩
    · exact Or.inr (Or.inl h)
    · exact Or.inr (Or.inr ⟨hl, Or.inl h⟩)
  | other _ e => exact Or.inl rfl
  | outOfRange _ size received _ e => exact Or.inl (arrived_stack s r size received)
  | free size received _ _ => exact Or.inl (arrived_stack s r size received)
  | shutdown received _ _ _ h =>
    rcases h.stack_eq with h | ⟨⟨hl, -⟩, h⟩
    · exact Or.inr (Or.inl (by rw [h, push_stack, arrived_stack]))
    · refine Or.inr (Or.inr ⟨?_, Or.inl ?_⟩)
      · rwa [push_peer, arrived_socket] at hl
      · rw [h, push_stack, arrived_stack, arrived_serial]
  | read size received _ _ _ _ h =>
    rcases h.stack_eq with h | ⟨hl, h⟩
    · exact Or.inr (Or.inl (by rw [h, push_stack, arrived_stack]))
    · refine Or.inr (Or.inr ⟨?_, Or.inr ?_⟩)
      · rwa [push_peer, arrived_socket] at hl
      · rw [h, push_stack, push_peer, arrived_stack, arrived_serial]
  | write size received _ _ _ h =>
    rcases h.stack_eq with h | ⟨hl, h⟩
    · exact Or.inr (Or.inl (by rw [h, push_stack, arrived_stack]))
    · refine Or.inr (Or.inr ⟨?_, Or.inl ?_⟩)
      · rwa [push_peer, arrived_socket] at hl
      · rw [h, push_stack, push_peer, arrived_stack, arrived_serial]
  | unknown size received _ _ e =>
    exact Or.inr (Or.inl (by rw [throw_stack, push_stack, arrived_stack]))

/-- `onCon` is called by a registration only. -/
theorem Stepping.registers {a : Action} (h : Stepping s a s')
    (hst : s'.stack = .onCon i n :: s.stack) : Registering s s' := by
  have hne : ∀ {f : Frame} {l : List Frame}, l ≠ f :: l := fun h =>
    absurd (congrArg List.length h) (by simp)
  -- a stack that has lost its top frame is shorter
  have hpop : ∀ {f : Frame} {rest : List Frame}, s.stack = f :: rest → s'.stack ≠ rest := by
    intro f rest hs hs'
    have hlen := congrArg List.length hst
    rw [hs, hs', List.length_cons, List.length_cons] at hlen
    omega
  cases h with
  | connectPeer _ h | accept _ h => exact h
  | send _ h => exact absurd (hst.symm.trans h.stack_eq).symm hne
  | closePeer _ h =>
    rcases h.stack_eq with h | ⟨-, h⟩
    · exact absurd (h.symm.trans hst) hne
    · cases hst.symm.trans h
  | readMove _ _ _ heq => rcases heq with rfl | ⟨e, rfl⟩ <;> exact absurd hst hne
  | onCon hs h | onRead hs _ h =>
    rcases h.stack_eq with h | ⟨-, h⟩
    · exact absurd h (hpop hs)
    · cases hst.symm.trans h
  | onReadNegative hs _ h =>
    rcases h.stack_eq with h | ⟨-, h⟩
    · exact absurd h (hpop hs)
    · cases hst.symm.trans h
  | onDisCon hs => exact absurd (closePeerEnd_stack _ _) (hpop hs)
  | finish hs | unwind hs => exact absurd rfl (hpop hs)
  | raise _ | catch_ => exact absurd hst hne
  | dequeue hs _ _ h =>
    rcases h.stack_eq with h | h | ⟨-, h | h⟩ <;> rw [h, took_stack, hs] at hst <;> simp at hst

/-! ## Connections that stay -/

/-- No connection has come or gone. -/
structure Standing (s s' : Service) : Prop where
  socket : ∀ j, (s'.m_peer_array j).socket = (s.m_peer_array j).socket
  serial : ∀ j, (s'.m_peer_array j).serial = (s.m_peer_array j).serial
  m_serial : s'.m_serial = s.m_serial

namespace Standing

theorem of_eq (hp : s'.m_peer_array = s.m_peer_array) (hm : s'.m_serial = s.m_serial) :
    Standing s s' :=
  ⟨fun j => by rw [hp], fun j => by rw [hp], hm⟩

theorem refl (s : Service) : Standing s s := of_eq rfl rfl

theorem newIOCxt (s : Service) : Standing s s.newIOCxt.2 := of_eq rfl rfl

theorem trans {t : Service} (h1 : Standing s s') (h2 : Standing s' t) : Standing s t :=
  ⟨fun j => (h2.socket j).trans (h1.socket j), fun j => (h2.serial j).trans (h1.serial j),
    h2.m_serial.trans h1.m_serial⟩

theorem live (h : Standing s s') (j m : Nat) : s'.Live j m ↔ s.Live j m := by
  unfold Live
  rw [h.serial, h.socket]

theorem setPeer {p : Peer} (hs : p.socket = (s.m_peer_array i).socket)
    (hn : p.serial = (s.m_peer_array i).serial) : Standing s (s.setPeer i p) := by
  refine ⟨fun j => ?_, fun j => ?_, rfl⟩
  all_goals
    by_cases hj : j = i
    · subst hj
      rw [setPeer_self]
      assumption
    · rw [setPeer_ne hj]

end Standing

/-- The event does not say that a connection comes or goes. -/
def Event.Inner : Event → Prop
  | .onCon .. | .closesocket .. => False
  | .onRead .. | .onDisCon .. | .sent .. | .transmitted .. => True

/-- The action hands a socket to `registerSocket`. -/
def Action.registers : Action → Bool
  | .connectPeer .. | .accept .. => true
  | _ => false

/-- A relation between the beginning of a run of code and its end that every change keeps in which
no connection comes or goes. -/
structure Stable (R : Service → Service → Prop) : Prop where
  refl : ∀ s, R s s
  setPeer : ∀ {s t : Service} {i p}, R s t → p.socket = (t.m_peer_array i).socket →
    p.serial = (t.m_peer_array i).serial → R s (t.setPeer i p)
  record : ∀ {s t : Service} {e : Event}, R s t → e.Inner → R s (t.record e)
  of_eq : ∀ {s t u : Service}, R s t → u.m_peer_array = t.m_peer_array →
    u.m_serial = t.m_serial → u.log = t.log → R s u

namespace Stable

variable {R : Service → Service → Prop} {t : Service} (hR : Stable R)

include hR

theorem throw (h : R s t) (e : Exception) : R s (t.throw e) := hR.of_eq h rfl rfl rfl
theorem push (h : R s t) (f : Frame) : R s (t.push f) := hR.of_eq h rfl rfl rfl
theorem post (h : R s t) (r : Request) : R s (t.post r) := hR.of_eq h rfl rfl rfl
theorem newIOCxt (h : R s t) : R s t.newIOCxt.2 := hR.of_eq h rfl rfl rfl
theorem popped (h : R s t) (rest : List Frame) : R s (t.popped rest) := hR.of_eq h rfl rfl rfl
theorem took (h : R s t) (r : Request) : R s (t.took r) := hR.of_eq h rfl rfl rfl

theorem closing (h0 : R s t) (h : Closing t i n s') : R s s' := by
  cases h with
  | outOfRange _ e => exact hR.throw h0 e
  | stale _ => exact h0
  | callback _ remote =>
    have hcall : R s (t.record (.onDisCon i n remote)) := hR.record h0 trivial
    exact hR.push hcall _

theorem recvPosting (h0 : R s t) (h : RecvPosting t i n s') : R s s' := by
  have hset : ∀ p', ReadSide (t.m_peer_array i) p' → R s (t.newIOCxt.2.setPeer i p') :=
    fun p' hp => hR.setPeer (hR.newIOCxt h0) hp.socket hp.serial
  cases h with
  | outOfRange _ e => exact hR.throw h0 e
  | stale _ => exact h0
  | failed _ e p' hp => exact hR.throw (hset p' hp) e
  | accepted _ w p' hm => exact hR.post (hset p' (keeps_offerRead.ok hm)) _
  | refused _ p' hp _ hc => exact hR.closing (hset p' hp) hc

theorem sendPosting {accepted : Bool} (h0 : R s t) (h : SendPosting t i n accepted s') :
    R s s' := by
  have hset : R s (t.newIOCxt.2.setPeer i ((t.m_peer_array i).withWsaSend true)) :=
    hR.setPeer (hR.newIOCxt h0) rfl rfl
  cases h with
  | outOfRange _ e => exact hR.throw h0 e
  | stale _ => exact h0
  | failed _ e p' hp _ => exact hp ▸ hR.throw hset e
  | accepted _ _ w p' hp _ => exact hp ▸ hR.post hset _
  | refused _ _ p' hp _ hc =>
    subst hp
    exact hR.closing hset hc

theorem sending {buf : Bytes} {accepted : Bool} (h0 : R s t) (h : Sending t i n buf accepted s') :
    R s s' := by
  have hrec : R s (t.record (.sent i n buf)) := hR.record h0 trivial
  have hset : ∀ p', SendSide (t.m_peer_array i) p' →
      R s ((t.record (.sent i n buf)).setPeer i p') :=
    fun p' hp => hR.setPeer hrec hp.socket hp.serial
  have hflag : ∀ p', SendSide (t.m_peer_array i) p' →
      R s ((t.record (.sent i n buf)).newIOCxt.2.setPeer i (p'.withWsaSend true)) :=
    fun p' hp => hR.setPeer (hR.newIOCxt hrec) hp.socket hp.serial
  have hkeep := keeps_onBackup (SockBuf.apendBuf buf)
  cases h with
  | outOfRange _ e => exact hR.throw h0 e
  | stale _ => exact h0
  | failed _ e p' hm => exact hR.throw (hset p' (hkeep.error hm)) e
  | queued _ p' hm _ => exact hset p' (hkeep.ok hm)
  | signalled _ _ p' hm _ => exact hR.post (hflag p' (hkeep.ok hm)) _
  | refused _ _ p' hm _ => exact hR.throw (hflag p' (hkeep.ok hm)) _

theorem writing {size : Nat} {accepted : Bool} (h0 : R s t) (h : Writing t i size accepted s') :
    R s s' := by
  have hset : ∀ p', SendSide (t.m_peer_array i) p' → R s (t.setPeer i p') :=
    fun p' hp => hR.setPeer h0 hp.socket hp.serial
  have hkeep := keeps_drainWrite size
  cases h with
  | outOfRange _ e => exact hR.throw h0 e
  | closed _ => exact h0
  | failed _ e p' hm => exact hR.throw (hset p' (hkeep.error hm)) e
  | drained _ p' hm => exact hset p' (hkeep.ok hm)
  | more _ k _ p' hm _ hs => exact hR.sendPosting (hset p' (hkeep.ok hm)) hs

theorem reading {size : Nat} (h0 : R s t) (h : Reading t i size s') : R s s' := by
  have hset : ∀ p', ReadSide (t.m_peer_array i) p' → R s (t.setPeer i p') :=
    fun p' hp => hR.setPeer h0 hp.socket hp.serial
  have hkeep := keeps_onReadBuf (SockBuf.writeMove size)
  cases h with
  | outOfRange _ e => exact hR.throw h0 e
  | closed _ => exact h0
  | failed _ e p' hm => exact hR.throw (hset p' (hkeep.error hm)) e
  | callback _ p' hm =>
    have hread : R s ((t.setPeer i p').record (.onRead i (t.m_peer_array i).serial)) :=
      hR.record (hset p' (hkeep.ok hm)) trivial
    exact hR.push hread _

theorem arrived (h0 : R s t) (r : Request) (size : Nat) (received : Bytes) :
    R s (t.arrived r size received) := by
  have hdeliver : R s (t.deliver r received) := by
    unfold deliver
    dsimp only
    split
    · split
      · exact hR.setPeer h0 rfl rfl
      · exact h0
    · exact h0
  unfold Service.arrived transmit
  split
  · exact hR.record hdeliver trivial
  · exact hdeliver

/-- The handling of a completion only begins to close connections. -/
theorem ticking {r : Request} {c : Completion} {accepted : Bool} (h0 : R s t)
    (h : Ticking t r c accepted s') : R s s' := by
  have harr : ∀ size received, R s ((t.arrived r size received).push (.tick r)) :=
    fun size received => hR.push (hR.arrived h0 r size received) _
  cases h with
  | lost _ _ h => exact hR.closing (hR.push h0 (.tick r)) h
  | other _ e => exact hR.throw h0 e
  | outOfRange _ size received _ e => exact hR.throw (hR.arrived h0 r size received) e
  | free size received _ _ => exact hR.arrived h0 r size received
  | shutdown received _ _ _ h => exact hR.closing (harr 0 received) h
  | read size received _ _ _ _ h => exact hR.reading (harr size received) h
  | write size received _ _ _ h => exact hR.writing (harr size received) h
  | unknown size received _ _ e => exact hR.throw (harr size received) e

/-- **A step registers a socket, or ends a `closePeer`, or is one in which no connection comes or
goes.** -/
theorem step {a : Action} (h : Stepping s a s') :
    R s s' ∨ (a.registers = true ∧ Registering s s') ∨
      ∃ i n rest ret accepted, s.stack = .onDisCon i n :: rest ∧
        a = .return_ ret accepted ∧ s' = (s.popped rest).closePeerEnd i := by
  have h0 := hR.refl s
  cases h with
  | send _ h => exact Or.inl (hR.sending h0 h)
  | closePeer _ h => exact Or.inl (hR.closing h0 h)
  | connectPeer _ h | accept _ h => exact Or.inr (Or.inl ⟨rfl, h⟩)
  | @readMove _ i _ _ _ k _ heq =>
    have hset : R s (s.setPeer i ((s.m_peer_array i).withReadBuf
        ((s.m_peer_array i).read_buf.setRead k))) := hR.setPeer h0 rfl rfl
    rcases heq with rfl | ⟨e, rfl⟩
    · exact Or.inl hset
    · exact Or.inl (hR.throw hset e)
  | onCon _ h | onRead _ _ h => exact Or.inl (hR.recvPosting (hR.popped h0 _) h)
  | onReadNegative _ _ h => exact Or.inl (hR.closing (hR.popped h0 _) h)
  | onDisCon hst => exact Or.inr (Or.inr ⟨_, _, _, _, _, hst, rfl, rfl⟩)
  | dequeue _ _ _ h => exact Or.inl (hR.ticking (hR.took h0 _) h)
  | raise _ | finish _ | unwind _ | catch_ => exact Or.inl (hR.of_eq h0 rfl rfl rfl)

end Stable

namespace Standing

theorem stable : Stable Standing where
  refl := refl
  setPeer h hs hn := h.trans (setPeer hs hn)
  record h _ := h.trans (of_eq rfl rfl)
  of_eq h hp hm _ := h.trans (of_eq hp hm)

theorem sending {buf : Bytes} {accepted : Bool} (h : Sending s i n buf accepted s') :
    Standing s s' := stable.sending (refl s) h

theorem arrived (s : Service) (r : Request) (size : Nat) (received : Bytes) :
    Standing s (s.arrived r size received) := stable.arrived (refl s) r size received

end Standing

/-- After the end of `closePeer` the slot is free and the other connections are there. -/
theorem closePeerEnd_live (s : Service) (i j m : Nat) :
    (s.closePeerEnd i).Live j m ↔ j ≠ i ∧ s.Live j m := by
  unfold Live
  by_cases hj : j = i
  · subst hj
    simp [Peer.withSocket]
  · rw [closePeerEnd_peer_ne hj]
    simp [hj]

/-- A registration takes away no connection. -/
theorem Registering.live (h : Registering s s') {j m : Nat} (hl : s.Live j m) : s'.Live j m := by
  have hne : ∀ i, (s.m_peer_array i).socket = none → j ≠ i := by
    rintro i hfree rfl
    exact hl.1 hfree
  cases h with
  | full e => exact hl
  | unbound i hfree e =>
    unfold Live
    rw [throw_peer, setPeer_ne (hne i hfree)]
    exact hl
  | callback i hi hfree p' sd loc rem hp =>
    unfold Live
    rw [push_peer, record_peer, setPeer_ne (hne i hfree)]
    exact hl

/-- **A connection goes only when a `closePeer` of its slot ends.** -/
theorem live_step {a : Action} (h : Stepping s a s') {j m : Nat} (hl : s.Live j m) :
    s'.Live j m ∨ ∃ n rest ret accepted, s.stack = .onDisCon j n :: rest ∧
      a = .return_ ret accepted ∧ s' = (s.popped rest).closePeerEnd j := by
  rcases Standing.stable.step h with hs | ⟨-, hs⟩ | ⟨i, n, rest, ret, accepted, hst, ha, rfl⟩
  · exact Or.inl ((hs.live j m).mpr hl)
  · exact Or.inl (hs.live hl)
  · by_cases hj : j = i
    · subst hj
      exact Or.inr ⟨n, rest, ret, accepted, hst, ha, rfl⟩
    · exact Or.inl ((closePeerEnd_live _ i j m).mpr ⟨hj, hl⟩)

/-- No user code runs directly on top of a `tick`. -/
theorem userRuns_not_tick (h : s.userRuns = true) (r : Request) (rest : List Frame) :
    s.stack ≠ .tick r :: rest := by
  intro hst
  have hfalse : s.userRuns = false := by
    unfold userRuns
    rw [hst]
    cases s.thrown <;> rfl
  rw [hfalse] at h
  exact Bool.false_ne_true h

end GhNet.Iocp
