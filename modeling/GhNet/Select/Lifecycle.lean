import GhNet.Iocp.Lifecycle
import GhNet.Select.Marks

/-!
# The callbacks of the select service

The select service keeps to the same life of a connection as the service with completion ports:
`onCon` once, `onRead` any number of times, then `onDisCon` once and nothing behind it. A connection
is told apart by its number, so the word is that of one connection, whoever had its slot.

The callbacks are read off the stack: a step calls at most one, and its frame is on top then.
-/

namespace GhNet.Select

open GhNet Service
open GhNet.Iocp (Callback OpenWord ClosedWord LifeWord)

variable {s s' t u : Service} {a : Action} {i j n r : Nat} {f g : Frame} {rest : List Frame}

/-! ## The callbacks of a run -/

/-- The callback that the code waits for, with the number of its connection. -/
def Service.inCallback (s : Service) : List (Nat × Callback) :=
  match s.stack with
  | .onCon i _ :: _ => [(s.reg i, .onCon)]
  | .onRead _ i :: _ => [(s.reg i, .onRead)]
  | .onDisCon i _ _ :: _ => [(s.reg i, .onDisCon)]
  | _ => []

/-- The callback that a step has called. Where the stack is shorter one has returned. -/
def called (s s' : Service) : List (Nat × Callback) :=
  if s'.stack = s.stack ∨ s'.stack.length < s.stack.length then [] else s'.inCallback

/-- The service and the callbacks that it has called. -/
structure Calls where
  service : Service
  log : List (Nat × Callback)

namespace Calls

/-- A step, and the callbacks it calls. -/
def step (h : Calls) (a : Action) : Option Calls :=
  (Select.step h.service a).map fun s' => ⟨s', h.log ++ called h.service s'⟩

/-- No callback was called yet. -/
def Init (h : Calls) : Prop := Select.Init h.service ∧ h.log = []

end Calls

/-- The callbacks that were called for the connection `r`, in order. -/
def word (r : Nat) (log : List (Nat × Callback)) : List Callback :=
  log.filterMap fun e => if e.1 = r then some e.2 else none

theorem word_append (r : Nat) (l m : List (Nat × Callback)) :
    word r (l ++ m) = word r l ++ word r m := List.filterMap_append

theorem word_self (r : Nat) (c : Callback) : word r [(r, c)] = [c] := by simp [word]

theorem word_ne {r' : Nat} (h : r' ≠ r) (c : Callback) : word r [(r', c)] = [] := by
  simp [word, h]

/-- `closePeer` is not called, from its `onDisCon`, for the peer that is being closed, and no
exception leaves `onDisCon`. -/
def orderly (s : Service) (a : Action) : Bool :=
  allowed s a &&
    match a, s.stack with
    | .unwind, .onDisCon .. :: _ => false
    | _, _ => true

/-! ## What a step calls -/

section Called

theorem called_same (h : s'.stack = s.stack) : called s s' = [] := if_pos (.inl h)

theorem called_pop (h : s.stack = f :: s'.stack) : called s s' = [] := by
  refine if_pos (.inr ?_)
  rw [h, List.length_cons]
  exact Nat.lt_succ_self _

theorem called_longer (h : s.stack.length < s'.stack.length) : called s s' = s'.inCallback := by
  refine if_neg (not_or.mpr ⟨fun he => ?_, Nat.not_lt.mpr (Nat.le_of_lt h)⟩)
  rw [he] at h
  exact Nat.lt_irrefl _ h

theorem called_push (h : s'.stack = f :: s.stack) : called s s' = s'.inCallback :=
  called_longer (by rw [h]; exact Nat.lt_succ_self _)

end Called

/-- A frame on the stack is about to close the slot. -/
def Service.Closes (s : Service) (i : Nat) : Prop := ∃ f ∈ s.stack, f.closes = some i

theorem closes_of_stack (h : s'.stack = s.stack) (i : Nat) : s'.Closes i ↔ s.Closes i := by
  rw [Service.Closes, Service.Closes, h]

theorem closes_cons (h : s'.stack = f :: rest) (i : Nat) :
    s'.Closes i ↔ f.closes = some i ∨ ∃ g ∈ rest, g.closes = some i := by
  simp only [Service.Closes, h, List.mem_cons, exists_eq_or_imp]

/-- Only `onDisCon` waits to close a slot. -/
theorem not_closes_of_inTick (h : f.inTick = true) : f.closes = none := by
  cases f <;> first | rfl | cases h

theorem not_closes_of_not_isCallback (h : f.isCallback = false) : f.closes = none := by
  cases f <;> first | rfl | cases h

/-- No connection has come or gone. -/
structure Alike (s s' : Service) : Prop where
  live : ∀ j, s'.Live j ↔ s.Live j
  reg : s'.reg = s.reg
  count : s'.count = s.count

namespace Alike

theorem refl (s : Service) : Alike s s := ⟨fun _ => .rfl, rfl, rfl⟩

theorem trans (h : Alike s t) (h' : Alike t u) : Alike s u :=
  ⟨fun j => (h'.live j).trans (h.live j), h'.reg.trans h.reg, h'.count.trans h.count⟩

theorem of_eq (hp : s'.m_peer_array = s.m_peer_array) (hr : s'.reg = s.reg)
    (hc : s'.count = s.count) : Alike s s' :=
  ⟨fun j => by rw [Service.Live, Service.Live, hp], hr, hc⟩

theorem quiet (hq : Quiet s t) : Alike s t := by
  have hlive := hq.live
  have hreg := hq.reg
  obtain ⟨p, e, -, rfl⟩ := hq
  exact ⟨hlive, hreg, rfl⟩

end Alike

/-- What a step does to the connections, with the callback it calls. -/
inductive Called (s s' : Service) : List (Nat × Callback) → Prop
  | nothing (h : Alike s s') (hc : ∀ i, s'.Closes i ↔ s.Closes i) : Called s s' []
  | onCon {i : Nat} (hfree : ¬s.Live i) (hl : ∀ j, s'.Live j ↔ j = i ∨ s.Live j)
      (hi : s'.reg i = s.count) (hr : ∀ j, j ≠ i → s'.reg j = s.reg j)
      (hn : s'.count = s.count + 1) (hc : ∀ i, s'.Closes i ↔ s.Closes i) :
      Called s s' [(s.count, .onCon)]
  | onRead {i : Nat} (h : Alike s s') (hc : ∀ i, s'.Closes i ↔ s.Closes i) (hl : s.Live i)
      (hno : ¬s.Closes i) : Called s s' [(s.reg i, .onRead)]
  | onDisCon {i : Nat} (h : Alike s s') (hc : ∀ j, s'.Closes j ↔ j = i ∨ s.Closes j)
      (hl : s.Live i) (hno : ¬s.Closes i) : Called s s' [(s.reg i, .onDisCon)]
  | closed {i : Nat} (hi : s.Closes i) (hl : ∀ j, s'.Live j ↔ j ≠ i ∧ s.Live j)
      (hr : s'.reg = s.reg) (hn : s'.count = s.count)
      (hc : ∀ j, s'.Closes j ↔ j ≠ i ∧ s.Closes j) : Called s s' []

namespace Called

/-- The stack is as it was. -/
theorem of_same (h : Alike s s') (hst : s'.stack = s.stack) : Called s s' (called s s') := by
  rw [called_same hst]
  exact .nothing h (closes_of_stack hst)

theorem of_quiet (hq : Quiet s t) : Called s t (called s t) := of_same (.quiet hq) hq.stack

/-- A frame is gone that does not close anything. -/
theorem of_pop (h : Alike s s') (hst : s.stack = f :: s'.stack) (hf : f.closes = none) :
    Called s s' (called s s') := by
  rw [called_pop hst]
  refine .nothing h fun i => ?_
  rw [closes_cons hst, hf]
  exact (or_iff_right (Option.some_ne_none i).symm).symm

/-- `closePeer`, up to its callback. -/
theorem of_closing {b : Option Which} (hc : Closing s i n b s') (hno : (s.m_peer_array i).serial = n →
    ¬s.Closes i) : Called s s' (called s s') := by
  cases hc with
  | quiet hq => exact of_quiet hq
  | callback hl hn =>
    have hst : (s.push (.onDisCon i n b)).stack = .onDisCon i n b :: s.stack := rfl
    rw [called_push hst]
    refine .onDisCon (.of_eq rfl rfl rfl) (fun j => ?_) hl (hno hn)
    rw [closes_cons hst]
    exact or_congr_left (Option.some_inj.trans eq_comm)

/-- `registerSocket`, up to its callback. -/
theorem of_registering {sd : Nat} (hr : Registering s sd s') : Called s s' (called s s') := by
  cases hr with
  | full hq => exact of_quiet hq
  | @callback i p hi hfree hsd hp =>
    have hst : (s.registered i p).stack = .onCon i s.m_serial :: s.stack := rfl
    have hself : (s.registered i p).reg i = s.count := if_pos rfl
    have hcall : (s.registered i p).inCallback = [(s.count, .onCon)] := by
      rw [← hself]
      rfl
    rw [called_push hst, hcall]
    refine .onCon hfree (fun j => ?_) hself (fun j hj => if_neg hj) rfl fun j => ?_
    · by_cases hj : j = i
      · subst hj
        refine iff_of_true ?_ (.inl rfl)
        rw [Service.Live, registered_self, hsd]
        exact Option.some_ne_none sd
      · rw [Service.Live, registered_ne hj]
        exact (or_iff_right hj).symm
    · rw [closes_cons hst]
      exact or_iff_right (Option.some_ne_none j).symm

/-- What is done in front of a step does not matter, if no callback is called there. -/
theorem of_alike {l : List (Nat × Callback)} (h : Alike s t) (hc : ∀ i, t.Closes i ↔ s.Closes i)
    (ht : Called t u l) : Called s u l := by
  have hcount := h.count
  have hreg := h.reg
  cases ht with
  | nothing h' hc' => exact .nothing (h.trans h') fun i => (hc' i).trans (hc i)
  | @onCon i hfree hl hi hr hn hc' =>
    rw [hcount] at hi hn ⊢
    exact .onCon (fun hs => hfree ((h.live i).mpr hs)) (fun j => (hl j).trans (or_congr_right
      (h.live j))) hi (fun j hj => (hr j hj).trans (by rw [hreg])) hn fun i => (hc' i).trans (hc i)
  | @onRead i h' hc' hl hno =>
    rw [hreg]
    exact .onRead (h.trans h') (fun i => (hc' i).trans (hc i)) ((h.live i).mp hl)
      fun hcl => hno ((hc i).mpr hcl)
  | @onDisCon i h' hc' hl hno =>
    rw [hreg]
    exact .onDisCon (h.trans h') (fun j => (hc' j).trans (or_congr_right (hc j)))
      ((h.live i).mp hl) fun hcl => hno ((hc i).mpr hcl)
  | @closed i hi hl hr hn hc' =>
    exact .closed ((hc i).mp hi) (fun j => (hl j).trans (and_congr_right' (h.live j)))
      (hr.trans hreg) (hn.trans hcount) fun j => (hc' j).trans (and_congr_right' (hc j))

/-- Where the code waits outside a callback, none is called. -/
theorem inCallback_eq_nil (hst : s.stack = f :: rest) (hf : f.isCallback = false) :
    s.inCallback = [] := by
  unfold Service.inCallback
  rw [hst]
  cases f <;> first | rfl | cases hf

/-- A frame of the tick is gone, and the loop calls something or waits somewhere else. It does not
wait for the same callback again. -/
theorem of_tick (hst : s.stack = [f]) (hf : f.inTick = true)
    (h : Called (s.popped []) s' (called (s.popped []) s'))
    (hne : s'.stack = [f] → f.isCallback = false) : Called s s' (called s s') := by
  have hsame : called s s' = called (s.popped []) s' := by
    by_cases hnil : s'.stack = []
    · rw [called_same (s := s.popped []) hnil]
      exact called_pop (by rw [hst, hnil])
    · have hlong : called (s.popped []) s' = s'.inCallback :=
        called_longer (List.length_pos_iff.mpr hnil)
      rw [hlong]
      by_cases heq : s'.stack = s.stack
      · rw [called_same heq, inCallback_eq_nil (heq.trans hst) (hne (heq.trans hst))]
      · have hpos := List.length_pos_iff.mpr hnil
        refine if_neg (not_or.mpr ⟨heq, ?_⟩)
        rw [hst, List.length_singleton]
        omega
  rw [hsame]
  refine of_alike (t := s.popped []) (.of_eq rfl rfl rfl) (fun i => ?_) h
  rw [closes_cons hst, not_closes_of_inTick hf]
  exact (or_iff_right (Option.some_ne_none i).symm).symm

/-- The loop calls `onRead` for a live peer. -/
theorem of_onRead (hst : s.stack = []) (h : Alike s t) (hst' : t.stack = [])
    (hl : s.Live j) : Called s (t.push (.onRead i j)) (called s (t.push (.onRead i j))) := by
  have hpush : (t.push (.onRead i j)).stack = .onRead i j :: s.stack := by
    rw [hst, ← hst']
    rfl
  have hcall : (t.push (.onRead i j)).inCallback = [(s.reg j, .onRead)] := by
    rw [← h.reg]
    rfl
  rw [called_push hpush, hcall]
  refine .onRead (h.trans (.of_eq rfl rfl rfl)) (fun k => ?_) hl fun hc => ?_
  · rw [closes_cons hpush]
    exact or_iff_right (Option.some_ne_none k).symm
  · obtain ⟨g, hg, -⟩ := hc
    exact List.not_mem_nil (hst ▸ hg)

/-- The code waits at a frame that is no callback. -/
theorem of_wait (h : Alike s s') (hst : s'.stack = f :: s.stack) (hf : f.isCallback = false) :
    Called s s' (called s s') := by
  rw [called_push hst, inCallback_eq_nil hst hf]
  refine .nothing h fun k => ?_
  rw [closes_cons hst]
  rw [not_closes_of_not_isCallback hf]
  exact or_iff_right (Option.some_ne_none k).symm

/-- Where nothing lies below, nothing is being closed. -/
theorem not_closes_nil (hst : s.stack = []) (i : Nat) : ¬s.Closes i := by
  rintro ⟨g, hg, -⟩
  exact List.not_mem_nil (hst ▸ hg)

/-- Behind a call of `recv` or `::send`, `closePeer` may be called. -/
theorem of_closing_from (hst : s.stack = []) (h : Alike s t) (hst' : t.stack = [])
    {b : Option Which} (hc : Closing t i n b s') : Called s s' (called s s') := by
  have hsame : called s s' = called t s' := by
    unfold called
    rw [hst, hst']
  rw [hsame]
  exact of_alike h (closes_of_stack (hst'.trans hst.symm)) (of_closing hc fun _ => not_closes_nil hst' i)

theorem of_looking (hb : Books s) (hst : s.stack = []) (hl : Looking s i s') :
    Called s s' (called s s') := by
  cases hl with
  | ended => exact of_same (.refl s) rfl
  | failed hq => exact of_quiet hq
  | unmarked _ => exact of_wait (.of_eq rfl rfl rfl) rfl rfl
  | @received j t _ hi _ hq h' =>
    have ha : Alike s t := Alike.trans (t := s.record (.recv (s.reg j))) (.of_eq rfl rfl rfl)
      (.quiet hq)
    have hst' : t.stack = [] := hq.stack.trans hst
    obtain rfl | rfl | hc := h'
    · exact of_same ha (hst'.trans hst.symm)
    · exact of_onRead hst ha hst' ((hb.online j).mp (List.mem_of_getElem? hi)).2
    · exact of_closing_from hst ha hst' hc

theorem of_writing (hst : s.stack = []) (hw : Writing s i j s') : Called s s' (called s s') := by
  cases hw with
  | failed hq => exact of_quiet hq
  | skipped hq =>
    exact of_wait ((Alike.quiet hq).trans (.of_eq rfl rfl rfl)) (congrArg (_ :: ·) hq.stack) rfl
  | @sent t _ _ _ hq h' =>
    have ha : Alike s t := Alike.trans (t := s.record (.send (s.reg j))) (.of_eq rfl rfl rfl)
      (.quiet hq)
    have hst' : t.stack = [] := hq.stack.trans hst
    obtain rfl | rfl | hc := h'
    · exact of_same ha (hst'.trans hst.symm)
    · exact of_wait (ha.trans (.of_eq rfl rfl rfl)) (congrArg (_ :: ·) hq.stack) rfl
    · exact of_closing_from hst ha hst' hc

theorem of_lookEnd {ret : Int} (hst : s.stack = []) :
    Called s (s.lookEnd i j ret) (called s (s.lookEnd i j ret)) := by
  unfold Service.lookEnd
  split
  · exact of_closing (closePeer_outcome _ _ _ _) fun _ => not_closes_nil hst j
  · exact of_wait (.of_eq rfl rfl rfl) rfl rfl

/-- The loop does not call `onRead` twice in a round. -/
theorem lookEnd_stack_ne {ret : Int} {k l : Nat} (hst : s.stack = []) :
    (s.lookEnd i j ret).stack ≠ [.onRead k l] := by
  unfold Service.lookEnd
  split
  · have hc := closePeer_outcome s j (s.m_peer_array j).serial (some .read)
    generalize s.closePeer j (s.m_peer_array j).serial (some .read) = s' at hc
    cases hc with
    | quiet hq =>
      rw [hq.stack, hst]
      exact List.cons_ne_nil _ _ ∘ Eq.symm
    | callback => exact fun h => Frame.noConfusion (List.head_eq_of_cons_eq h)
  · exact fun h => Frame.noConfusion (List.head_eq_of_cons_eq h)

end Called

/-- `initSets` only reads the slots. -/
theorem alike_initSets (hb : Books s) : Alike s s.initSets := by
  have hput : Alike s s.zeroSets.putListen := by
    refine ⟨putListen_live s, ?_, ?_⟩ <;> unfold Service.putListen <;> split <;> rfl
  exact putPeers_invariant (P := Alike s) (fun h hq => h.trans (.quiet hq))
    (fun _ h _ => h.trans (.of_eq rfl rfl rfl)) (fun _ h _ _ => h.trans (.of_eq rfl rfl rfl))
    (fun _ h _ _ => h.trans (.of_eq rfl rfl rfl)) s.m_online_peers hput
    fun i hi => (putListen_live s i).mpr ((hb.online i).mp hi).2

namespace Called

theorem of_connectPeer (s : Service) (c : Connected) :
    Called s (s.connectPeer c) (called s (s.connectPeer c)) := by
  have hopen : ∀ sd, Alike s (s.opening sd) := fun sd => .of_eq rfl rfl rfl
  cases c with
  | createError => exact of_quiet (.throw _ _)
  | refused => exact of_same (.refl s) rfl
  | nonBlockingError sd => exact of_same ((hopen sd).trans (.of_eq rfl rfl rfl)) rfl
  | socket sd loc rem =>
    exact of_alike (hopen sd) (closes_of_stack rfl) (of_registering (registerSocket_outcome _ _ _ _))

theorem of_listen (s : Service) (l : Listened) :
    Called s (s.listen l) (called s (s.listen l)) := by
  cases l <;> exact of_same (.of_eq rfl rfl rfl) rfl

theorem of_accept (s : Service) (c : Accepted) :
    Called s (s.accept c) (called s (s.accept c)) := by
  cases c with
  | wouldBlock => exact of_wait (.of_eq rfl rfl rfl) rfl rfl
  | error => exact of_quiet (.throw _ _)
  | nonBlockingError sd => exact of_same (.of_eq rfl rfl rfl) rfl
  | socket sd loc rem =>
    -- the loop waits below `onCon`
    have hpush : Alike s ((s.opening sd).push (.loop 0)) := .of_eq rfl rfl rfl
    have hc : ∀ i, ((s.opening sd).push (.loop 0)).Closes i ↔ s.Closes i := fun i => by
      rw [closes_cons (show ((s.opening sd).push (.loop 0)).stack = .loop 0 :: s.stack from rfl)]
      exact or_iff_right (Option.some_ne_none i).symm
    have hreg : ∀ {u}, Registering ((s.opening sd).push (.loop 0)) sd u →
        Called s u (called s u) := by
      intro u hr
      cases hr with
      | full hq => exact of_wait (hpush.trans (.quiet hq)) hq.stack rfl
      | @callback i p hi hfree hsd hp =>
        have hlong : s.stack.length < (((s.opening sd).push (.loop 0)).registered i p).stack.length :=
          Nat.lt_add_of_pos_right Nat.zero_lt_two
        have hsame : called ((s.opening sd).push (.loop 0))
            (((s.opening sd).push (.loop 0)).registered i p)
              = (((s.opening sd).push (.loop 0)).registered i p).inCallback := called_push rfl
        rw [called_longer hlong, ← hsame]
        exact of_alike hpush hc (of_registering (.callback hi hfree hsd hp))
    exact hreg (registerSocket_outcome _ _ _ _)

theorem of_tick_begins (hb : Books s) {x : Selected} (ht : Ticking s x s') :
    Called s s' (called s s') := by
  have hinit := alike_initSets hb
  have hst' := hb.initSets_stack
  cases ht with
  | idle => exact of_same (.refl s) rfl
  | failed hq => exact of_same (hinit.trans (.quiet hq)) (hq.stack.trans hst')
  | ready _ h' =>
    obtain rfl | ⟨f, hf, rfl⟩ := h'
    · exact of_same (hinit.trans (.of_eq rfl rfl rfl)) hst'
    · refine of_wait (hinit.trans (.of_eq rfl rfl rfl)) (congrArg (f :: ·) hst') ?_
      rcases hf with rfl | rfl <;> rfl

end Called

/-- **One step** and the callback that it calls. -/
theorem step_called (hb : Books s) (ha : orderly s a = true) (hs : Select.step s a = some s') :
    Called s s' (called s s') := by
  obtain ⟨hall, hunwind⟩ := Bool.and_eq_true_iff.mp ha
  cases (stepping hs).1 with
  | send => exact .of_quiet (send_quiet _ _ _ _)
  | @closePeer i n =>
    refine .of_closing (closePeer_outcome s i n none) fun hn => ?_
    -- a frame that closes the slot names the connection that the slot holds
    rintro ⟨g, hg, hgc⟩
    cases g with
    | onDisCon j m c =>
      obtain rfl := Option.some.inj hgc
      have hm : m = n := (hb.frames _ hg).2.symm.trans hn
      have hother := List.all_eq_true.mp hall _ hg
      simp [Frame.closing, hm] at hother
    | _ => cases hgc
  | connectPeer c => exact .of_connectPeer s c
  | listen l => exact .of_listen s l
  | tick => exact .of_tick_begins hb (onEventTick_outcome _ _)
  | accept hst c =>
    obtain rfl := hb.bottom hst rfl
    exact .of_tick hst rfl (.of_accept _ c) fun _ => rfl
  | look hst =>
    obtain rfl := hb.bottom hst rfl
    exact .of_tick hst rfl (.of_looking (hb.popped hst) rfl (look_outcome _ _ _)) fun _ => rfl
  | write hst =>
    obtain rfl := hb.bottom hst rfl
    exact .of_tick hst rfl (.of_writing rfl (write_outcome _ _ _ _)) fun _ => rfl
  | readMove => exact .of_quiet (readMove_quiet _ _ _)
  | onCon hst => exact .of_pop (.of_eq rfl rfl rfl) hst rfl
  | onRead hst =>
    obtain rfl := hb.bottom hst rfl
    exact .of_tick hst rfl (.of_lookEnd rfl) fun h => absurd h (Called.lookEnd_stack_ne rfl)
  | @onDisCon _ i n b rest hst =>
    rw [closePeerEnd_eq]
    have hpop : s.stack = .onDisCon i n b :: ((s.popped rest).closed i b).stack := hst
    rw [called_pop hpop]
    refine .closed (i := i) ⟨_, hst ▸ List.mem_cons_self, rfl⟩ (closed_live (s.popped rest) i b)
      rfl rfl fun j => ?_
    rw [closes_cons hst]
    have hn := hb.nested
    rw [hst, List.pairwise_cons] at hn
    -- what lies below closes another slot
    refine ⟨fun hc => ⟨?_, .inr hc⟩, fun hc => hc.2.resolve_left fun hi => ?_⟩
    · rintro rfl
      obtain ⟨g, hg, hgc⟩ := hc
      exact (hn.1 g hg).2 j rfl hgc
    · exact hc.1 (Option.some.inj hi).symm
  | raise => exact .of_quiet (.throw _ _)
  | @unwind f rest hst =>
    refine .of_pop (.of_eq rfl rfl rfl) hst ?_
    cases f with
    | onDisCon => simp [hst] at hunwind
    | _ => rfl
  | catch_ => exact .of_same (.of_eq rfl rfl rfl) rfl

/-! ## The life of a connection -/

/-- The words of the connections that are still to come, open, being closed, and gone. -/
structure Lives (s : Service) (log : List (Nat × Callback)) : Prop where
  reg_lt : ∀ {j}, s.Live j → s.reg j < s.count
  apart : ∀ {j k}, s.Live j → s.Live k → s.reg j = s.reg k → j = k
  fresh : ∀ r, s.count ≤ r → word r log = []
  open_ : ∀ {j}, s.Live j → ¬s.Closes j → OpenWord (word (s.reg j) log)
  closing : ∀ {j}, s.Live j → s.Closes j → ClosedWord (word (s.reg j) log)
  gone : ∀ r < s.count, (∀ j, s.Live j → s.reg j ≠ r) → ClosedWord (word r log)

namespace Lives

variable {log : List (Nat × Callback)}

theorem new : Lives Service.new [] where
  reg_lt h := absurd rfl h
  apart h := absurd rfl h
  fresh _ _ := rfl
  open_ h := absurd rfl h
  closing h := absurd rfl h
  gone _ hr := absurd hr (Nat.not_lt_zero _)

/-- Connections and frames as they were. -/
theorem alike (h : Lives s log) (ha : Alike s s') (hc : ∀ i, s'.Closes i ↔ s.Closes i) :
    Lives s' log where
  reg_lt hl := by
    rw [ha.reg, ha.count]
    exact h.reg_lt ((ha.live _).mp hl)
  apart hj hk hr := by
    rw [ha.reg] at hr
    exact h.apart ((ha.live _).mp hj) ((ha.live _).mp hk) hr
  fresh r hr := h.fresh r (ha.count ▸ hr)
  open_ hl hno := by
    rw [ha.reg]
    exact h.open_ ((ha.live _).mp hl) fun hcl => hno ((hc _).mpr hcl)
  closing hl hcl := by
    rw [ha.reg]
    exact h.closing ((ha.live _).mp hl) ((hc _).mp hcl)
  gone r hr hno := by
    refine h.gone r (ha.count ▸ hr) fun j hl => ?_
    rw [← ha.reg]
    exact hno j ((ha.live j).mpr hl)

/-- A callback for another connection. -/
theorem word_other {r' : Nat} (h : r' ≠ r) (c : Callback) :
    word r (log ++ [(r', c)]) = word r log := by
  rw [word_append, word_ne h, List.append_nil]

theorem word_own (c : Callback) : word r (log ++ [(r, c)]) = word r log ++ [c] := by
  rw [word_append, word_self]

/-- `onRead` of an open connection. -/
theorem read (h : Lives s log) (hl : s.Live i) (hno : ¬s.Closes i) :
    Lives s (log ++ [(s.reg i, .onRead)]) where
  reg_lt := h.reg_lt
  apart := h.apart
  fresh r hr := by
    rw [word_other (Nat.ne_of_lt (Nat.lt_of_lt_of_le (h.reg_lt hl) hr))]
    exact h.fresh r hr
  open_ := by
    intro j hj hnoj
    by_cases hij : s.reg i = s.reg j
    · rw [← hij, word_own]
      exact (h.open_ hl hno).read
    · rw [word_other hij]
      exact h.open_ hj hnoj
  closing := by
    intro j hj hcl
    have hij : s.reg i ≠ s.reg j := fun he => hno (h.apart hl hj he ▸ hcl)
    rw [word_other hij]
    exact h.closing hj hcl
  gone r hr hnone := by
    rw [word_other (hnone i hl)]
    exact h.gone r hr hnone

/-- `onDisCon` of an open connection. -/
theorem disCon (h : Lives s log) (ha : Alike s s') (hc : ∀ j, s'.Closes j ↔ j = i ∨ s.Closes j)
    (hl : s.Live i) (hno : ¬s.Closes i) : Lives s' (log ++ [(s.reg i, .onDisCon)]) where
  reg_lt hl := by
    rw [ha.reg, ha.count]
    exact h.reg_lt ((ha.live _).mp hl)
  apart hj hk hr := by
    rw [ha.reg] at hr
    exact h.apart ((ha.live _).mp hj) ((ha.live _).mp hk) hr
  fresh r hr := by
    rw [ha.count] at hr
    rw [word_other (Nat.ne_of_lt (Nat.lt_of_lt_of_le (h.reg_lt hl) hr))]
    exact h.fresh r hr
  open_ := by
    intro j hj hnoj
    obtain ⟨hji, hnoj⟩ := not_or.mp fun hor => hnoj ((hc j).mpr hor)
    have hlj := (ha.live j).mp hj
    rw [ha.reg, word_other fun he => hji (h.apart hl hlj he).symm]
    exact h.open_ hlj hnoj
  closing := by
    intro j hj hcl
    have hlj := (ha.live j).mp hj
    rw [ha.reg]
    by_cases hji : j = i
    · subst hji
      rw [word_own]
      exact (h.open_ hl hno).close
    · rw [word_other fun he => hji (h.apart hl hlj he).symm]
      exact h.closing hlj (((hc j).mp hcl).resolve_left hji)
  gone r hr hnone := by
    have hnone' : ∀ j, s.Live j → s.reg j ≠ r := fun j hj => by
      rw [← ha.reg]
      exact hnone j ((ha.live j).mpr hj)
    rw [word_other (hnone' i hl)]
    exact h.gone r (ha.count ▸ hr) hnone'

/-- `onCon` of a new connection. Nothing is being closed in its slot, which was free. -/
theorem con (h : Lives s log) (hb : Books s) (hfree : ¬s.Live i)
    (hl : ∀ j, s'.Live j ↔ j = i ∨ s.Live j) (hi : s'.reg i = s.count)
    (hr : ∀ j, j ≠ i → s'.reg j = s.reg j) (hn : s'.count = s.count + 1)
    (hc : ∀ i, s'.Closes i ↔ s.Closes i) : Lives s' (log ++ [(s.count, .onCon)]) := by
  have hne : ∀ {j}, s.Live j → j ≠ i := fun hj he => hfree (he ▸ hj)
  have hlt : ∀ {j}, s.Live j → s.count ≠ s.reg j := fun hj => Nat.ne_of_gt (h.reg_lt hj)
  have hnew : word s.count (log ++ [(s.count, .onCon)]) = [.onCon] := by
    rw [word_own, h.fresh _ (Nat.le_refl _), List.nil_append]
  refine ⟨fun {j} hj => ?_, fun {j k} hj hk hjk => ?_, fun r hcount => ?_, fun {j} hj hno => ?_,
    fun {j} hj hcl => ?_, fun r hcount hnone => ?_⟩
  · rcases (hl j).mp hj with rfl | hj
    · rw [hi, hn]
      exact Nat.lt_succ_self _
    · rw [hr j (hne hj), hn]
      exact Nat.lt_succ_of_lt (h.reg_lt hj)
  · rcases (hl j).mp hj with rfl | hj
    · rcases (hl k).mp hk with rfl | hk
      · rfl
      · rw [hi, hr k (hne hk)] at hjk
        exact absurd hjk (hlt hk)
    · rcases (hl k).mp hk with rfl | hk
      · rw [hi, hr j (hne hj)] at hjk
        exact absurd hjk.symm (hlt hj)
      · rw [hr j (hne hj), hr k (hne hk)] at hjk
        exact h.apart hj hk hjk
  · rw [hn] at hcount
    rw [word_other (Nat.ne_of_lt hcount)]
    exact h.fresh r (Nat.le_of_succ_le hcount)
  · rcases (hl j).mp hj with rfl | hj
    · rw [hi, hnew]
      exact .start
    · rw [hr j (hne hj), word_other (hlt hj)]
      exact h.open_ hj fun hcl => hno ((hc j).mpr hcl)
  · have hcl := (hc j).mp hcl
    rcases (hl j).mp hj with rfl | hj
    · -- a slot that is being closed is live
      obtain ⟨g, hg, hgc⟩ := hcl
      have hheld := hb.frames g hg
      cases g with
      | onDisCon l m b => exact absurd hheld.1 (Option.some.inj hgc ▸ hfree)
      | _ => cases hgc
    · rw [hr j (hne hj), word_other (hlt hj)]
      exact h.closing hj hcl
  · have hself : s.count ≠ r := hi ▸ hnone i ((hl i).mpr (.inl rfl))
    rw [word_other hself]
    refine h.gone r (by omega) fun j hj => ?_
    rw [← hr j (hne hj)]
    exact hnone j ((hl j).mpr (.inr hj))

/-- The connection of the slot is gone. -/
theorem close (h : Lives s log) (hi : s.Closes i) (hl : ∀ j, s'.Live j ↔ j ≠ i ∧ s.Live j)
    (hr : s'.reg = s.reg) (hn : s'.count = s.count) (hc : ∀ j, s'.Closes j ↔ j ≠ i ∧ s.Closes j) :
    Lives s' log where
  reg_lt hj := by
    rw [hr, hn]
    exact h.reg_lt ((hl _).mp hj).2
  apart hj hk hjk := by
    rw [hr] at hjk
    exact h.apart ((hl _).mp hj).2 ((hl _).mp hk).2 hjk
  fresh r hcount := h.fresh r (hn ▸ hcount)
  open_ := by
    intro j hj hno
    obtain ⟨hji, hj⟩ := (hl j).mp hj
    rw [hr]
    exact h.open_ hj fun hcl => hno ((hc j).mpr ⟨hji, hcl⟩)
  closing := by
    intro j hj hcl
    rw [hr]
    exact h.closing ((hl j).mp hj).2 ((hc j).mp hcl).2
  gone r hcount hnone := by
    rw [hn] at hcount
    by_cases hown : ∃ j, s.Live j ∧ s.reg j = r
    · -- only the closed slot can have had the number
      obtain ⟨j, hj, rfl⟩ := hown
      have hji : j = i := by_contra fun hji => hnone j ((hl j).mpr ⟨hji, hj⟩) (by rw [hr])
      exact h.closing hj (hji ▸ hi)
    · exact h.gone r hcount fun j hj he => hown ⟨j, hj, he⟩

theorem called {l : List (Nat × Callback)} (h : Lives s log) (hb : Books s) (hc : Called s s' l) :
    Lives s' (log ++ l) := by
  cases hc with
  | nothing ha hc =>
    rw [List.append_nil]
    exact h.alike ha hc
  | onCon hfree hl hi hr hn hc => exact h.con hb hfree hl hi hr hn hc
  | onRead ha hc hl hno => exact (h.read hl hno).alike ha hc
  | onDisCon ha hc hl hno => exact h.disCon ha hc hl hno
  | closed hi hl hr hn hc =>
    rw [List.append_nil]
    exact h.close hi hl hr hn hc

theorem of_reach {h : Calls}
    (hr : Reach Calls.Init Calls.step (fun h a => orderly h.service a = true) h) :
    Books h.service ∧ Lives h.service h.log := by
  refine hr.invariant (fun h => Books h.service ∧ Lives h.service h.log) (fun h hi => ?_)
    fun h a h' hinv ha hs => ?_
  · obtain ⟨hs, hl⟩ := hi
    have hs : h.service = Service.new := hs
    rw [hs, hl]
    exact ⟨.new, .new⟩
  · obtain ⟨s', hstep, rfl⟩ := Option.map_eq_some_iff.mp hs
    exact ⟨hinv.1.step (Bool.and_eq_true_iff.mp ha).1 hstep,
      hinv.2.called hinv.1 (step_called hinv.1 ha hstep)⟩

end Lives

/-- **The callbacks of a connection are `onCon onRead* onDisCon`.** In every run in which `closePeer`
is not called from its own `onDisCon` and no exception leaves `onDisCon`, they are called in this
order, once for the first and the last, whoever has the slot before and after: `onDisCon` comes with
the end of the connection and nothing behind it. -/
theorem callbacks_in_order {h : Calls}
    (hr : Reach Calls.Init Calls.step (fun h a => orderly h.service a = true) h) (r : Nat) :
    LifeWord (word r h.log) ∧
      (h.service.count ≤ r → word r h.log = []) ∧
      (∀ j, h.service.Live j → h.service.reg j = r →
        (h.service.Closes j → ClosedWord (word r h.log)) ∧
          (¬h.service.Closes j → OpenWord (word r h.log))) ∧
      (r < h.service.count → (∀ j, h.service.Live j → h.service.reg j ≠ r) →
        ClosedWord (word r h.log)) := by
  obtain ⟨-, hlives⟩ := Lives.of_reach hr
  have hslot : ∀ j, h.service.Live j → h.service.reg j = r →
      (h.service.Closes j → ClosedWord (word r h.log)) ∧
        (¬h.service.Closes j → OpenWord (word r h.log)) := by
    rintro j hj rfl
    exact ⟨hlives.closing hj, hlives.open_ hj⟩
  refine ⟨?_, hlives.fresh r, hslot, hlives.gone r⟩
  rcases Nat.lt_or_ge r h.service.count with hlt | hge
  · by_cases hown : ∃ j, h.service.Live j ∧ h.service.reg j = r
    · obtain ⟨j, hj, hjr⟩ := hown
      by_cases hcl : h.service.Closes j
      · exact .inr (.inr ((hslot j hj hjr).1 hcl))
      · exact .inr (.inl ((hslot j hj hjr).2 hcl))
    · exact .inr (.inr (hlives.gone r hlt fun j hj he => hown ⟨j, hj, he⟩))
  · exact .inl (hlives.fresh r hge)

/-- A peer sends a byte, and the negative result of `onRead` closes it. -/
theorem refused_calls : (exec Calls.step ⟨Service.new, []⟩ refused).isSome = true := by
  decide +kernel

theorem callbacks_in_order_refused :
    ∃ h : Calls, word 0 h.log = [.onCon, .onRead, .onDisCon] ∧ LifeWord (word 0 h.log) ∧
      ClosedWord (word 0 h.log) := by
  have hinit : Calls.Init ⟨Service.new, []⟩ := ⟨rfl, rfl⟩
  have hr : Reach Calls.Init Calls.step (fun h a => orderly h.service a = true)
      ((exec Calls.step ⟨Service.new, []⟩ refused).get refused_calls) :=
    Reach.of_exec (.start hinit) (by decide +kernel) (Option.some_get refused_calls).symm
  have hlife := callbacks_in_order hr 0
  have hword : word 0 ((exec Calls.step ⟨Service.new, []⟩ refused).get refused_calls).log
      = [.onCon, .onRead, .onDisCon] := by decide +kernel
  exact ⟨_, hword, hlife.1, by rw [hword]; exact ⟨[.onCon, .onRead], ⟨1, rfl⟩, rfl⟩⟩

end GhNet.Select
