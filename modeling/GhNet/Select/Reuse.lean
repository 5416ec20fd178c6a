import GhNet.Select.Marks

/-!
# Handles and slots that come again

`fresh` asks at each place of the loop whether the connection it meets is one that `initSets` has
seen. Here it follows from what the system and the callbacks do: while the loop runs, no handle that
is still marked in the sets is given out again, and an `onRead` that answers with a value below zero
has left its slot to the connection that was there or to none.
-/

namespace GhNet.Select

open GhNet Service
open GhNet.Iocp (Addr Peer MAX_PEER_NUM)

variable {s s' t : Service} {a : Action} {i n sd : Nat} {f : Frame} {rest : List Frame}

/-! ## The condition -/

/-- The loop of a tick is running. -/
def Service.inTick (s : Service) : Bool := s.stack.any Frame.inTick

/-- The handle is in one of the sets. As it is not open, it was closed since `initSets`. -/
def Service.marked (s : Service) (sd : Nat) : Bool :=
  FD_ISSET (some sd) s.m_read_set || FD_ISSET (some sd) s.m_write_set

/-- No handle that was closed within the tick is given out again, and no `onRead` that answers with
a value below zero has had its slot registered again. -/
def tidy (s : Service) (a : Action) : Bool :=
  a.handle.all (fun sd => !s.inTick || !s.marked sd) &&
    match a with
    | .return_ ret =>
      match s.stack with
      | .onRead _ index :: _ =>
        decide (0 ≤ ret) || decide ((s.m_peer_array index).socket = none) ||
          decide (s.reg index ∈ s.known)
      | _ => true
    | _ => true

/-! ## The connections that are marked -/

/-- A connection whose handle is marked was there when `initSets` filled the sets. -/
def Service.Seen (s : Service) : Prop :=
  ∀ j, s.Live j → (s.m_peer_array j).socket ∈ s.m_read_set ∨
    (s.m_peer_array j).socket ∈ s.m_write_set → s.reg j ∈ s.known

theorem Service.Seen.not_stale (h : s.Seen) (hl : s.Live i) :
    s.stale i s.m_read_set = false ∧ s.stale i s.m_write_set = false := by
  simp only [stale, FD_ISSET, Bool.and_eq_false_imp, decide_eq_true_eq, Bool.not_eq_false']
  exact ⟨fun hm => h i hl (.inl hm), fun hm => h i hl (.inr hm)⟩

/-- While the loop runs. -/
def Watched (s : Service) : Prop := s.inTick = true → s.Seen

namespace Service.Seen

theorem quiet (h : s.Seen) (hq : Quiet s t) : t.Seen := by
  have hlive := hq.live
  obtain ⟨p, e, hp, rfl⟩ := hq
  exact fun j hj hm => h j ((hlive j).mp hj) ((hp j).1 ▸ hm)

theorem closing {b : Option Which} (h : s.Seen) (hc : Closing s i n b s') : s'.Seen := by
  cases hc with
  | quiet hq => exact h.quiet hq
  | callback => exact h

/-- The handle of a new connection must not be marked. -/
theorem registering (h : s.Seen) (hsd : s.marked sd = false) (hr : Registering s sd s') :
    s'.Seen := by
  cases hr with
  | full hq => exact h.quiet hq
  | @callback i p hi hfree hself hp =>
    intro j hj hm
    by_cases hji : j = i
    · subst hji
      rw [registered_self, hself] at hm
      rw [marked, Bool.or_eq_false_iff] at hsd
      exact absurd hm (not_or.mpr ⟨of_decide_eq_false hsd.1, of_decide_eq_false hsd.2⟩)
    · rw [Service.Live, registered_ne hji] at hj
      rw [registered_ne hji] at hm
      show (if j = i then s.count else s.reg j) ∈ s.known
      rw [if_neg hji]
      exact h j hj hm

theorem closed {b : Option Which} (h : s.Seen) : (s.closed i b).Seen := by
  intro j hj hm
  obtain ⟨hji, hj⟩ := (closed_live s i b j).mp hj
  rw [closed_ne hji] at hm
  exact h j hj hm

/-- Behind a call of `recv` or `::send`. -/
theorem going {x : Act} {g : Frame} {w : Which} {index m : Nat} (h : s.Seen)
    (hq : Quiet (s.record x) t) (h' : s' = t ∨ s' = t.push g ∨ Closing t index m (some w) s') :
    s'.Seen := by
  have ht : t.Seen := quiet (s := s.record x) h hq
  obtain rfl | rfl | hc := h'
  · exact ht
  · exact ht
  · exact ht.closing hc

theorem looking (h : s.Seen) (hl : Looking s i s') : s'.Seen := by
  cases hl with
  | ended | unmarked _ => exact h
  | failed hq => exact h.quiet hq
  | received _ _ hq h' => exact h.going hq h'

theorem writing {index : Nat} (h : s.Seen) (hw : Writing s i index s') : s'.Seen := by
  cases hw with
  | failed hq => exact h.quiet hq
  | @skipped t hq => exact (h.quiet hq : t.Seen)
  | sent _ _ hq h' => exact h.going hq h'

theorem lookEnd {index : Nat} {ret : Int} (h : s.Seen) : (s.lookEnd i index ret).Seen := by
  unfold Service.lookEnd
  split
  · exact h.closing (closePeer_outcome _ _ _ _)
  · exact h

theorem accept {c : Accepted} (h : s.Seen)
    (hsd : ∀ sd, (Action.accept c).handle = some sd → s.marked sd = false) :
    (s.accept c).Seen := by
  cases c with
  | wouldBlock | error | nonBlockingError => exact h
  | socket sd loc rem =>
    have hopen : ((s.opening sd).push (.loop 0)).Seen := h
    exact hopen.registering (hsd sd rfl) (registerSocket_outcome _ _ _ _)

end Service.Seen

/-- While the sets are filled: what is in them is the listener's or a connection's that was seen. -/
structure Filling (s : Service) : Prop where
  read : ∀ x ∈ s.m_read_set, x = s.m_listen_sd ∨
    ∃ j, s.Live j ∧ (s.m_peer_array j).socket = x ∧ s.reg j ∈ s.known
  write : ∀ x ∈ s.m_write_set, ∃ j, s.Live j ∧ (s.m_peer_array j).socket = x ∧ s.reg j ∈ s.known

namespace Filling

theorem quiet (h : Filling s) (hq : Quiet s t) : Filling t := by
  have hlive := hq.live
  obtain ⟨p, e, hp, rfl⟩ := hq
  refine ⟨fun x hx => (h.read x hx).imp_right ?_, fun x hx => ?_⟩
  · rintro ⟨j, hj, hs, hr⟩
    exact ⟨j, (hlive j).mpr hj, (hp j).1.trans hs, hr⟩
  · obtain ⟨j, hj, hs, hr⟩ := h.write x hx
    exact ⟨j, (hlive j).mpr hj, (hp j).1.trans hs, hr⟩

theorem see (h : Filling s) (i : Nat) : Filling (s.see i) := by
  refine ⟨fun x hx => (h.read x hx).imp_right ?_, fun x hx => ?_⟩
  · rintro ⟨j, hj, hs, hr⟩
    exact ⟨j, hj, hs, List.mem_cons_of_mem _ hr⟩
  · obtain ⟨j, hj, hs, hr⟩ := h.write x hx
    exact ⟨j, hj, hs, List.mem_cons_of_mem _ hr⟩

theorem putWrite (h : Filling s) (hl : s.Live i) (hk : s.reg i ∈ s.known) :
    Filling (s.putWrite i) := by
  refine ⟨h.read, fun x hx => ?_⟩
  rcases mem_FD_SET hx with rfl | hx
  · exact ⟨i, hl, rfl, hk⟩
  · exact h.write x hx

theorem putRead (h : Filling s) (hl : s.Live i) (hk : s.reg i ∈ s.known) :
    Filling (s.putRead i) := by
  refine ⟨fun x hx => ?_, h.write⟩
  rcases mem_FD_SET hx with rfl | hx
  · exact .inr ⟨i, hl, rfl, hk⟩
  · exact h.read x hx

theorem putListen (s : Service) : Filling s.zeroSets.putListen := by
  unfold Service.putListen
  split
  · exact ⟨List.forall_mem_nil _, List.forall_mem_nil _⟩
  · next sd hsd =>
    refine ⟨fun x hx => ?_, List.forall_mem_nil _⟩
    have hx : x ∈ FD_SET (some sd) [] := hx
    rcases mem_FD_SET hx with rfl | hx
    · exact .inl hsd.symm
    · exact absurd hx List.not_mem_nil

theorem initSets (hb : Books s) : Filling s.initSets :=
  putPeers_invariant Filling.quiet (fun i h _ => h.see i) (fun _ h hl hk => h.putWrite hl hk)
    (fun _ h hl hk => h.putRead hl hk) s.m_online_peers (putListen s)
    fun i hi => (putListen_live s i).mpr ((hb.online i).mp hi).2

/-- The sets that `select` leaves are parts of them. -/
theorem seen {rs ws : FdSet} (h : Filling s) (hh : Handles s)
    (hr : ∀ x ∈ rs, x ∈ s.m_read_set) (hw : ∀ x ∈ ws, x ∈ s.m_write_set) :
    Service.Seen { s with m_read_set := rs, m_write_set := ws } := by
  intro j hl hm
  obtain ⟨sd, hsd⟩ := Option.ne_none_iff_exists'.mp hl
  obtain ⟨k, hks, hk⟩ : ∃ k, (s.m_peer_array k).socket = (s.m_peer_array j).socket ∧
      s.reg k ∈ s.known := by
    rcases hm with hm | hm
    · rcases h.read _ (hr _ hm) with he | ⟨k, -, hks, hk⟩
      · exact absurd (he.symm.trans hsd) (hh.apart hsd)
      · exact ⟨k, hks, hk⟩
    · obtain ⟨k, -, hks, hk⟩ := h.write _ (hw _ hm)
      exact ⟨k, hks, hk⟩
  obtain rfl := hh.unique (hks.trans hsd) hsd
  exact hk

end Filling

/-! ## Runs -/

namespace Watched

theorem quiet (h : Watched s) (hq : Quiet s t) : Watched t := fun ht =>
  (h ((congrArg (List.any · Frame.inTick) hq.stack).symm.trans ht)).quiet hq

theorem popped (h : Watched s) (hs : s.stack = f :: rest) : Watched (s.popped rest) := fun ht =>
  h (by rw [inTick, hs, List.any_cons, show rest.any Frame.inTick = true from ht, Bool.or_true])

theorem closing (h : Watched s) (hc : Closing s i n none s') : Watched s' := by
  cases hc with
  | quiet hq => exact h.quiet hq
  | callback => exact h

theorem registering (h : Watched s) (hsd : s.inTick = true → s.marked sd = false)
    (hr : Registering s sd s') : Watched s' := by
  intro ht
  have hin : s.inTick = true := by
    cases hr with
    | full hq => exact (congrArg (List.any · Frame.inTick) hq.stack).symm.trans ht
    | callback => exact ht
  exact (h hin).registering (hsd hin) hr

theorem connectPeer {c : Connected} (h : Watched s)
    (hsd : ∀ sd, (Action.connectPeer c).handle = some sd → s.inTick = true → s.marked sd = false) :
    Watched (s.connectPeer c) := by
  cases c with
  | createError | refused | nonBlockingError => exact h
  | socket sd loc rem =>
    have hopen : Watched (s.opening sd) := h
    exact hopen.registering (hsd sd rfl) (registerSocket_outcome _ _ _ _)

theorem listen {l : Listened} (h : Watched s) : Watched (s.listen l) := by
  cases l <;> exact h

theorem ticking {a : Selected} (hi : Inv s) (hs : s.stack = []) (ha : s.initSets.selects a = true)
    (ht : Ticking s a s') : Watched s' := by
  have hnone : ∀ {t : Service}, t.stack = [] → Watched t := fun hst ht => by
    rw [inTick, hst] at ht
    cases ht
  have hst := hi.books.initSets_stack.trans hs
  cases ht with
  | idle => exact hnone hs
  | failed hq => exact hnone (hq.stack.trans hst)
  | @ready rs ws _ ha' h' =>
    subst ha'
    rw [selects, Bool.and_eq_true, List.all_eq_true, List.all_eq_true] at ha
    have hseen := (Filling.initSets hi.books).seen (Filled.initSets hi.books hi.handles).handles
      (fun x hx => of_decide_eq_true (ha.1 x hx)) fun x hx => of_decide_eq_true (ha.2 x hx)
    obtain rfl | ⟨f, -, rfl⟩ := h'
    · exact fun _ => hseen
    · exact fun _ => hseen

/-- **One step** that meets the condition. -/
theorem step (h : Watched s) (hi : Inv s) (ht : tidy s a = true)
    (hs : Select.step s a = some s') : Watched s' := by
  unfold tidy at ht
  rw [Bool.and_eq_true] at ht
  have hsd : ∀ sd, a.handle = some sd → s.inTick = true → s.marked sd = false := by
    intro sd ha hin
    have hall := ht.1
    rw [ha, Option.all_some, hin] at hall
    exact (Bool.not_eq_true' _).mp hall
  have htop : ∀ {f rest}, s.stack = f :: rest → f.inTick = true → s.inTick = true := by
    intro f rest hst hf
    rw [inTick, hst, List.any_cons, hf, Bool.true_or]
  cases (stepping hs).1 with
  | send => exact h.quiet (send_quiet _ _ _ _)
  | closePeer => exact h.closing (closePeer_outcome _ _ _ _)
  | connectPeer c => exact h.connectPeer hsd
  | listen l => exact h.listen
  | tick hst hsel => exact ticking hi hst hsel (onEventTick_outcome _ _)
  | @accept rest hst c =>
    have hin := htop hst rfl
    have hseen : (s.popped rest).Seen := h hin
    exact fun _ => hseen.accept fun sd ha => hsd sd ha hin
  | @look _ _ rest hst =>
    have hseen : (s.popped rest).Seen := h (htop hst rfl)
    exact fun _ => hseen.looking (look_outcome _ _ _)
  | @write _ _ _ rest hst =>
    have hseen : (s.popped rest).Seen := h (htop hst rfl)
    exact fun _ => hseen.writing (write_outcome _ _ _ _)
  | readMove => exact h.quiet (readMove_quiet _ _ _)
  | onCon hst => exact h.popped hst
  | @onRead _ _ _ rest hst =>
    have hseen : (s.popped rest).Seen := h (htop hst rfl)
    exact fun _ => hseen.lookEnd
  | onDisCon hst =>
    rw [closePeerEnd_eq]
    exact fun hin => (h.popped hst hin).closed
  | raise => exact h.quiet (.throw _ _)
  | unwind hst => exact h.popped hst
  | catch_ => exact h

end Watched

/-- A step that meets the condition meets no connection that has come up within the tick. -/
theorem fresh_of_tidy (h : Watched s) (hi : Inv s) (ht : tidy s a = true) : fresh s a = true := by
  unfold tidy at ht
  rw [Bool.and_eq_true] at ht
  cases a with
  | look pending =>
    simp only [fresh]
    split
    · next i rest hst =>
      have hseen := h (by rw [inTick, hst]; rfl)
      rw [Option.all_eq_true]
      intro index hindex
      have hlive := ((hi.books.online index).mp (List.mem_of_getElem? hindex)).2
      rw [(hseen.not_stale hlive).1]
      rfl
    · rfl
  | write taken =>
    simp only [fresh]
    split
    · next i index rest hst =>
      have hseen := h (by rw [inTick, hst]; rfl)
      rw [Bool.or_eq_true, Bool.not_eq_true']
      left
      by_cases hlive : s.Live index
      · exact (hseen.not_stale hlive).2
      · -- no handle is not marked for writing
        rw [stale, not_not.mp hlive, FD_ISSET, decide_eq_false hi.marks.live, Bool.false_and]
    · rfl
  | return_ ret => exact ht.2
  | _ => rfl

/-- **The condition on the loop follows from one on handles and slots.** -/
theorem reach_ok_of_tidy
    (hr : Reach Init step (fun s a => allowed s a = true ∧ tidy s a = true) s) :
    Reach Init step ok s ∧ Watched s := by
  induction hr with
  | start h =>
    obtain rfl := h
    exact ⟨.start rfl, fun hin => by cases hin⟩
  | next hr ha hs ih =>
    have hi := inv_of_reach ih.1
    exact ⟨.next ih.1 ⟨ha.1, fresh_of_tidy ih.2 hi ha.2⟩ hs, ih.2.step hi ha.2 hs⟩

/-- The bookkeeping of the service, in every run in which no handle comes again within a tick. -/
theorem Service.books_of_tidy
    (hr : Reach Init step (fun s a => allowed s a = true ∧ tidy s a = true) s) :
    s.Booked ∧ s.Own :=
  have hi := inv_of_reach (reach_ok_of_tidy hr).1
  ⟨hi.books.toBooked, hi.marks.own⟩

end GhNet.Select
