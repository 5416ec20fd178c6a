import GhNet.Select.Steps

/-!
# The list of the online peers

`m_online_peers` lists the live slots without duplicates in every run in which `closePeer` is not
called, from its `onDisCon`, for the very peer that is being closed.
-/

namespace GhNet.Select

open GhNet Service
open GhNet.Iocp (Addr Peer MAX_PEER_NUM)

variable {s s' t u : Service} {a : Action} {i n : Nat} {f : Frame} {rest : List Frame}

/-- `m_online_peers` has no duplicates and is the set of the slots with a live socket. -/
structure Service.Booked (s : Service) : Prop where
  nodup : s.m_online_peers.Nodup
  online : ∀ j, j ∈ s.m_online_peers ↔ j < MAX_PEER_NUM ∧ s.Live j

/-! ## The condition -/

/-- The frame waits for `onDisCon` of this connection. -/
def Frame.closing (index serial : Nat) : Frame → Bool
  | .onDisCon i n _ => i == index && n == serial
  | _ => false

/-- `closePeer` is not called, from its `onDisCon`, for the peer that is being closed. -/
def allowed (s : Service) : Action → Bool
  | .closePeer index serial => s.stack.all fun f => !f.closing index serial
  | _ => true

/-! ## The books -/

namespace Frame

/-- The slot that the frame is about to close. -/
def closes : Frame → Option Nat
  | .onDisCon index _ _ => some index
  | _ => none

/-- The frame belongs to `onEventTick`. -/
def inTick : Frame → Bool
  | .onRead .. | .accepting | .loop _ | .write .. => true
  | .onCon .. | .onDisCon .. => false

/-- `closePeer` has not lost its connection. -/
def Held (s : Service) : Frame → Prop
  | .onDisCon index serial _ => s.Live index ∧ (s.m_peer_array index).serial = serial
  | _ => True

/-- What lies below a frame: nothing below a tick, and no `closePeer` of the slot that it closes. -/
def Above (f g : Frame) : Prop :=
  f.inTick = false ∧ ∀ i, f.closes = some i → g.closes ≠ some i

end Frame

/-- The invariant of the vector and the slots. -/
structure Books (s : Service) : Prop extends s.Booked where
  index_lt : ∀ {j}, s.Live j → j < MAX_PEER_NUM
  frames : ∀ f ∈ s.stack, f.Held s
  nested : s.stack.Pairwise Frame.Above

/-- Below a frame of the tick there is nothing. -/
theorem Books.bottom (h : Books s) (hs : s.stack = f :: rest) (hf : f.inTick = true) :
    rest = [] := by
  have hn := h.nested
  rw [hs, List.pairwise_cons] at hn
  cases rest with
  | nil => rfl
  | cons g rest => exact absurd (hn.1 g List.mem_cons_self).1 (by rw [hf]; decide)

namespace Books

theorem new : Books Service.new where
  nodup := List.nodup_nil
  online _ := ⟨fun h => absurd h List.not_mem_nil, fun h => absurd rfl h.2⟩
  index_lt h := absurd rfl h
  frames := List.forall_mem_nil _
  nested := .nil

theorem quiet (h : Books s) (hq : Quiet s t) : Books t := by
  have hlive := hq.live
  obtain ⟨p, e, hp, rfl⟩ := hq
  refine ⟨⟨h.nodup, fun j => ?_⟩, fun hl => h.index_lt ((hlive _).mp hl), fun f hf => ?_, h.nested⟩
  · rw [hlive]
    exact h.online j
  · have hheld := h.frames f hf
    cases f with
    | onDisCon i n b => exact ⟨(hlive i).mpr hheld.1, (hp i).2.trans hheld.2⟩
    | _ => trivial

theorem popped (h : Books s) (hs : s.stack = f :: rest) : Books (s.popped rest) := by
  have hn := h.nested
  rw [hs, List.pairwise_cons] at hn
  exact ⟨⟨h.nodup, h.online⟩, h.index_lt,
    fun g hg => h.frames g (hs ▸ List.mem_cons_of_mem _ hg), hn.2⟩

theorem record (h : Books s) (x : Act) : Books (s.record x) :=
  ⟨⟨h.nodup, h.online⟩, h.index_lt, h.frames, h.nested⟩

theorem push (h : Books s) (hf : f.Held s) (ha : ∀ g ∈ s.stack, f.Above g) : Books (s.push f) :=
  ⟨⟨h.nodup, h.online⟩, h.index_lt, List.forall_mem_cons.mpr ⟨hf, h.frames⟩,
    List.pairwise_cons.mpr ⟨ha, h.nested⟩⟩

/-- `closePeer` may call its callback where the slot is not being closed already. -/
theorem closing {b : Option Which} (h : Books s) (hc : Closing s i n b s')
    (ha : (s.m_peer_array i).serial = n → ∀ g ∈ s.stack, g.closes ≠ some i) : Books s' := by
  cases hc with
  | quiet hq => exact h.quiet hq
  | callback hl hn =>
    refine h.push ⟨hl, hn⟩ fun g hg => ⟨rfl, fun j hj => ?_⟩
    obtain rfl := Option.some.inj hj
    exact ha hn g hg

theorem registering {sd : Nat} (h : Books s) (hr : Registering s sd s') : Books s' := by
  cases hr with
  | full hq => exact h.quiet hq
  | @callback i p hi hfree hsd hp =>
    have hself : (s.registered i p).Live i := by
      rw [Service.Live, registered_self, hsd]
      exact Option.some_ne_none sd
    have hlive : ∀ j, (s.registered i p).Live j ↔ j = i ∨ s.Live j := by
      intro j
      by_cases hj : j = i
      · subst hj
        exact iff_of_true hself (.inl rfl)
      · rw [Service.Live, registered_ne hj]
        exact (or_iff_right hj).symm
    have hnot : i ∉ s.m_online_peers := fun hm => hfree ((h.online i).mp hm).2
    refine ⟨⟨List.nodup_append.mpr ⟨h.nodup, List.nodup_singleton i, ?_⟩, fun j => ?_⟩,
      fun hl => ?_, List.forall_mem_cons.mpr ⟨trivial, fun f hf => ?_⟩,
      List.pairwise_cons.mpr ⟨fun g _ => ⟨rfl, fun _ hj => by cases hj⟩, h.nested⟩⟩
    · rintro _ hj _ hi' rfl
      exact hnot (List.mem_singleton.mp hi' ▸ hj)
    · show j ∈ s.m_online_peers ++ [i] ↔ _
      rw [List.mem_append, List.mem_singleton, h.online, hlive, or_comm]
      constructor
      · rintro (rfl | ⟨hj, hl⟩)
        · exact ⟨hi, .inl rfl⟩
        · exact ⟨hj, .inr hl⟩
      · rintro ⟨hj, rfl | hl⟩
        · exact .inl rfl
        · exact .inr ⟨hj, hl⟩
    · rcases (hlive _).mp hl with rfl | hl
      · exact hi
      · exact h.index_lt hl
    · have hheld := h.frames f hf
      cases f with
      | onDisCon j m b =>
        have hj : j ≠ i := by
          rintro rfl
          exact hfree hheld.1
        exact ⟨(hlive j).mpr (.inr hheld.1), by rw [registered_ne hj]; exact hheld.2⟩
      | _ => trivial

end Books

/-- The frame's connection is closed: the frames below keep theirs. -/
theorem Books.closed {b : Option Which} (h : Books s) (hs : s.stack = .onDisCon i n b :: rest) :
    Books ((s.popped rest).closed i b) := by
  have hn := h.nested
  rw [hs, List.pairwise_cons] at hn
  have hlive := closed_live (s.popped rest) i b
  refine ⟨⟨h.nodup.erase i, fun j => ?_⟩, fun hl => h.index_lt ((hlive _).mp hl).2, fun g hg => ?_,
    hn.2⟩
  · show j ∈ s.m_online_peers.erase i ↔ _
    rw [h.nodup.mem_erase_iff, h.online, hlive]
    exact and_left_comm
  · have hheld := h.frames g (hs ▸ List.mem_cons_of_mem _ hg)
    cases g with
    | onDisCon j m c =>
      have hj : j ≠ i := by
        rintro rfl
        exact (hn.1 _ hg).2 j rfl rfl
      exact ⟨(hlive j).mpr ⟨hj, hheld.1⟩, by rw [closed_ne hj]; exact hheld.2⟩
    | _ => trivial

theorem Books.putListen (h : Books s) : Books s.zeroSets.putListen := by
  unfold Service.putListen
  split <;> exact ⟨⟨h.nodup, h.online⟩, h.index_lt, h.frames, h.nested⟩

theorem Books.initSets (h : Books s) : Books s.initSets :=
  putPeers_invariant Books.quiet
    (fun _ h _ => ⟨⟨h.nodup, h.online⟩, h.index_lt, h.frames, h.nested⟩)
    (fun _ h _ _ => ⟨⟨h.nodup, h.online⟩, h.index_lt, h.frames, h.nested⟩)
    (fun _ h _ _ => ⟨⟨h.nodup, h.online⟩, h.index_lt, h.frames, h.nested⟩)
    s.m_online_peers h.putListen
    fun i hi => (putListen_live s i).mpr ((h.online i).mp hi).2

theorem Books.initSets_stack (h : Books s) : s.initSets.stack = s.stack := by
  have hput : s.zeroSets.putListen.stack = s.stack := by
    unfold Service.putListen
    split <;> rfl
  exact putPeers_invariant (P := fun t => t.stack = s.stack) (fun h hq => hq.stack.trans h)
    (fun _ h _ => h) (fun _ h _ _ => h) (fun _ h _ _ => h) s.m_online_peers hput
    fun i hi => (putListen_live s i).mpr ((h.online i).mp hi).2

/-- Nothing lies below the frame of a tick that has begun. -/
theorem Books.pushBottom (h : Books s) (hs : s.stack = []) (hf : f.Held s) : Books (s.push f) :=
  h.push hf fun _ hg => absurd (hs ▸ hg) List.not_mem_nil

theorem Books.opening (h : Books s) (sd : Nat) : Books (s.opening sd) :=
  ⟨⟨h.nodup, h.online⟩, h.index_lt, h.frames, h.nested⟩

theorem Books.connectPeer (h : Books s) (c : Connected) : Books (s.connectPeer c) := by
  cases c with
  | createError => exact h.quiet (.throw _ _)
  | refused => exact h
  | nonBlockingError sd => exact (h.opening sd).quiet (.throw _ _)
  | socket sd loc rem => exact (h.opening sd).registering (registerSocket_outcome _ _ _ _)

theorem Books.listen (h : Books s) (l : Listened) : Books (s.listen l) := by
  have hset : ∀ sd, Books (s.setListen sd) := fun sd =>
    ⟨⟨h.nodup, h.online⟩, h.index_lt, h.frames, h.nested⟩
  cases l with
  | ipNull | createError => exact h.quiet (.throw _ _)
  | bindError sd | listenError sd => exact (hset sd).quiet (.throw _ _)
  | socket sd => exact hset sd

theorem Books.accept (h : Books s) (hs : s.stack = []) (c : Accepted) : Books (s.accept c) := by
  cases c with
  | wouldBlock => exact h.pushBottom hs trivial
  | error => exact h.quiet (.throw _ _)
  | nonBlockingError sd => exact (h.opening sd).quiet (.throw _ _)
  | socket sd loc rem =>
    have hpush : Books ((s.opening sd).push (.loop 0)) := (h.opening sd).pushBottom hs trivial
    exact hpush.registering (registerSocket_outcome _ _ _ _)

theorem Books.ticking {a : Selected} (h : Books s) (hs : s.stack = []) (ht : Ticking s a s') :
    Books s' := by
  have hset : ∀ rs ws, Books { s.initSets with m_read_set := rs, m_write_set := ws } :=
    fun rs ws => ⟨⟨h.initSets.nodup, h.initSets.online⟩, h.initSets.index_lt, h.initSets.frames,
      h.initSets.nested⟩
  cases ht with
  | idle => exact h
  | failed hq => exact h.initSets.quiet hq
  | @ready rs ws _ ha h' =>
    obtain h' | ⟨f, hf, h'⟩ := h'
    · exact h' ▸ hset rs ws
    · rw [h']
      refine (hset rs ws).pushBottom (h.initSets_stack.trans hs) ?_
      rcases hf with rfl | rfl <;> trivial

/-- Where nothing lies below, `closePeer` may always call its callback. -/
theorem Books.closingBottom {b : Option Which} (h : Books s) (hs : s.stack = [])
    (hc : Closing s i n b s') : Books s' :=
  h.closing hc fun _ _ hg => absurd (hs ▸ hg) List.not_mem_nil

/-- Behind a call of `recv` or `::send`. -/
theorem Books.going {x : Act} {g : Frame} {w : Which} {index m : Nat} (h : Books s)
    (hs : s.stack = []) (hq : Quiet (s.record x) t)
    (h' : s' = t ∨ s' = t.push g ∨ Closing t index m (some w) s') (hg : g.Held t) : Books s' := by
  have ht := (h.record x).quiet hq
  have hst := hq.stack.trans hs
  obtain h' | h' | hc := h'
  · exact h' ▸ ht
  · exact h' ▸ ht.pushBottom hst hg
  · exact ht.closingBottom hst hc

theorem Books.looking (h : Books s) (hs : s.stack = []) (hl : Looking s i s') : Books s' := by
  cases hl with
  | ended => exact h
  | failed hq => exact h.quiet hq
  | unmarked _ => exact h.pushBottom hs trivial
  | received _ _ hq h' => exact h.going hs hq h' trivial

theorem Books.writing {index : Nat} (h : Books s) (hs : s.stack = []) (hw : Writing s i index s') :
    Books s' := by
  cases hw with
  | failed hq => exact h.quiet hq
  | skipped hq => exact (h.quiet hq).pushBottom (hq.stack.trans hs) trivial
  | sent _ _ hq h' => exact h.going hs hq h' trivial

theorem Books.lookEnd {index : Nat} {ret : Int} (h : Books s) (hs : s.stack = []) :
    Books (s.lookEnd i index ret) := by
  unfold Service.lookEnd
  split
  · exact h.closingBottom hs (closePeer_outcome _ _ _ _)
  · exact h.pushBottom hs trivial

/-- **One step** keeps the books, if it does not close the peer that is being closed. -/
theorem Books.step (h : Books s) (ha : allowed s a = true) (hs : Select.step s a = some s') :
    Books s' := by
  cases (stepping hs).1 with
  | send => exact h.quiet (send_quiet _ _ _ _)
  | @closePeer i n =>
    refine h.closing (closePeer_outcome s i n none) fun hn g hg hgc => ?_
    -- a frame that closes the slot names the connection that the slot holds
    cases g with
    | onDisCon j m c =>
      obtain rfl := Option.some.inj hgc
      have hm : m = n := (h.frames _ hg).2.symm.trans hn
      have hother := List.all_eq_true.mp ha _ hg
      simp [Frame.closing, hm] at hother
    | _ => cases hgc
  | connectPeer c => exact h.connectPeer c
  | listen l => exact h.listen l
  | tick hst _ => exact h.ticking hst (onEventTick_outcome _ _)
  | accept hst c => exact (h.popped hst).accept (h.bottom hst rfl) c
  | look hst => exact (h.popped hst).looking (h.bottom hst rfl) (look_outcome _ _ _)
  | write hst => exact (h.popped hst).writing (h.bottom hst rfl) (write_outcome _ _ _ _)
  | readMove => exact h.quiet (readMove_quiet _ _ _)
  | onCon hst => exact h.popped hst
  | onRead hst => exact (h.popped hst).lookEnd (h.bottom hst rfl)
  | onDisCon hst =>
    rw [closePeerEnd_eq]
    exact h.closed hst
  | raise => exact h.quiet (.throw _ _)
  | unwind hst => exact h.popped hst
  | catch_ => exact ⟨⟨h.nodup, h.online⟩, h.index_lt, h.frames, h.nested⟩

theorem books_of_reach (hr : Reach Init step (fun s a => allowed s a = true) s) : Books s :=
  hr.invariant Books (fun s h => (show s = Service.new from h) ▸ .new) fun _ _ _ h ha hs => h.step ha hs

end GhNet.Select
