import GhNet.Select.Books

/-!
# The connections that the loop touches

The loop of a tick finds out by its handle whether a peer is marked in the sets, and it reads the
serial again from the slot behind `onRead`. Both can name another connection than the one that
`initSets` saw. Where no such connection is met, the loop receives, sends and closes only what
this tick's `initSets` put into the sets.
-/

namespace GhNet.Select

open GhNet Service
open GhNet.Iocp (Addr Peer MAX_PEER_NUM)

variable {s s' t u : Service} {a : Action} {i n sd : Nat} {f : Frame} {rest : List Frame}

/-- The connections that `initSets` put into one of the sets. -/
def Service.put (s : Service) : Which → List Nat
  | .read => s.inRead
  | .write => s.inWrite

/-- The connection was put into the set that the act belongs to. -/
def Act.Own (s : Service) : Act → Prop
  | .recv r => r ∈ s.inRead
  | .send r => r ∈ s.inWrite
  | .close w r => r ∈ s.put w

/-- The loop has kept to the connections of this tick's sets. -/
def Service.Own (s : Service) : Prop := ∀ a ∈ s.acts, a.Own s

/-! ## The condition -/

/-- The slot's handle is marked in the set, though `initSets` has not seen its connection. -/
def Service.stale (s : Service) (index : Nat) (set : FdSet) : Bool :=
  FD_ISSET (s.m_peer_array index).socket set && !decide (s.reg index ∈ s.known)

/-- The loop does not take a connection that has come up within the tick for the one that had its
handle or its slot. -/
def fresh (s : Service) : Action → Bool
  | .look _ =>
    match s.stack with
    | .loop i :: _ => (s.m_online_peers[i]?).all fun index => !s.stale index s.m_read_set
    | _ => true
  | .write _ =>
    match s.stack with
    | .write _ index :: _ =>
      -- with nothing to send the mark does not matter
      !s.stale index s.m_write_set || decide ((s.m_peer_array index).write_buf.m_read_index =
        (s.m_peer_array index).write_buf.m_write_index)
    | _ => true
  | .return_ ret =>
    match s.stack with
    | .onRead _ index :: _ =>
      decide (0 ≤ ret) || decide ((s.m_peer_array index).socket = none) ||
        decide (s.reg index ∈ s.known)
    | _ => true
  | _ => true

/-! ## Handles -/

/-- Every handle in use is open, and it belongs to one slot or to the listener. The serial of a
connection is its number. -/
structure Handles (s : Service) : Prop where
  opened : ∀ {j sd}, (s.m_peer_array j).socket = some sd → sd ∈ s.opened
  listen : ∀ {sd}, s.m_listen_sd = some sd → sd ∈ s.opened
  apart : ∀ {j sd}, (s.m_peer_array j).socket = some sd → s.m_listen_sd ≠ some sd
  unique : ∀ {j k sd}, (s.m_peer_array j).socket = some sd →
    (s.m_peer_array k).socket = some sd → j = k
  reg_lt : ∀ {j}, s.Live j → s.reg j < s.count
  serial : ∀ {j}, s.Live j → (s.m_peer_array j).serial = s.reg j % 2 ^ 64
  next : s.m_serial = s.count % 2 ^ 64

namespace Handles

theorem new : Handles Service.new where
  opened h := by cases h
  listen h := by cases h
  apart h := by cases h
  unique h := by cases h
  reg_lt h := absurd rfl h
  serial h := absurd rfl h
  next := rfl

theorem quiet (h : Handles s) (hq : Quiet s t) : Handles t := by
  have hlive := hq.live
  obtain ⟨p, e, hp, rfl⟩ := hq
  exact ⟨fun hj => h.opened ((hp _).1 ▸ hj), h.listen, fun hj => h.apart ((hp _).1 ▸ hj),
    fun hj hk => h.unique ((hp _).1 ▸ hj) ((hp _).1 ▸ hk), fun hl => h.reg_lt ((hlive _).mp hl),
    fun hl => (hp _).2.trans (h.serial ((hlive _).mp hl)), h.next⟩

/-- The stack, the history and the sets do not matter. -/
theorem of_eq (h : Handles s) (hp : t.m_peer_array = s.m_peer_array)
    (hl : t.m_listen_sd = s.m_listen_sd) (ho : t.opened = s.opened) (hr : t.reg = s.reg)
    (hc : t.count = s.count) (hm : t.m_serial = s.m_serial) : Handles t := by
  have hlive : ∀ {j}, t.Live j → s.Live j := fun hj => by
    rw [Service.Live, ← hp]
    exact hj
  refine ⟨fun hj => ?_, fun hj => ?_, fun hj => ?_, fun hj hk => ?_, fun hj => ?_, fun hj => ?_,
    ?_⟩
  · exact ho ▸ h.opened (hp ▸ hj)
  · exact ho ▸ h.listen (hl ▸ hj)
  · exact hl ▸ h.apart (hp ▸ hj)
  · exact h.unique (hp ▸ hj) (hp ▸ hk)
  · rw [hr, hc]
    exact h.reg_lt (hlive hj)
  · rw [hp, hr]
    exact h.serial (hlive hj)
  · rw [hm, hc]
    exact h.next

theorem opening (h : Handles s) (sd : Nat) : Handles (s.opening sd) :=
  ⟨fun hj => List.mem_cons_of_mem _ (h.opened hj), fun hj => List.mem_cons_of_mem _ (h.listen hj),
    h.apart, h.unique, h.reg_lt, h.serial, h.next⟩

theorem setListen (h : Handles s) (hsd : sd ∉ s.opened) : Handles (s.setListen sd) := by
  refine ⟨fun hj => List.mem_cons_of_mem _ (h.opened hj), fun hj => ?_, fun hj hl => ?_,
    h.unique, h.reg_lt, h.serial, h.next⟩
  · obtain rfl := Option.some.inj hj
    exact List.mem_cons_self
  · obtain rfl := Option.some.inj hl
    exact hsd (h.opened hj)

/-- A socket with a handle that nobody has is registered. -/
theorem registering (h : Handles s) (hopen : sd ∈ s.opened)
    (hnew : ∀ j, (s.m_peer_array j).socket ≠ some sd) (hlisten : s.m_listen_sd ≠ some sd)
    (hr : Registering s sd s') : Handles s' := by
  cases hr with
  | full hq => exact h.quiet hq
  | @callback i p hi hfree hsd hp =>
    have hself : ((s.registered i p).m_peer_array i).socket = some sd := by
      rw [registered_self, hsd]
    refine ⟨fun {j x} hj => ?_, h.listen, fun {j x} hj => ?_, fun {j k x} hj hk => ?_,
      fun {j} hl => ?_, fun {j} hl => ?_, ?_⟩
    · by_cases hji : j = i
      · rw [hji, hself] at hj
        obtain rfl := Option.some.inj hj
        exact hopen
      · exact h.opened (registered_ne hji s p ▸ hj)
    · by_cases hji : j = i
      · rw [hji, hself] at hj
        obtain rfl := Option.some.inj hj
        exact hlisten
      · exact h.apart (registered_ne hji s p ▸ hj)
    · by_cases hji : j = i
      · by_cases hki : k = i
        · exact hji.trans hki.symm
        · rw [hji, hself] at hj
          obtain rfl := Option.some.inj hj
          exact absurd (registered_ne hki s p ▸ hk) (hnew k)
      · by_cases hki : k = i
        · rw [hki, hself] at hk
          obtain rfl := Option.some.inj hk
          exact absurd (registered_ne hji s p ▸ hj) (hnew j)
        · exact h.unique (registered_ne hji s p ▸ hj) (registered_ne hki s p ▸ hk)
    · show (if j = i then s.count else s.reg j) < s.count + 1
      split
      · exact Nat.lt_succ_self _
      · next hji =>
        rw [Service.Live, registered_ne hji] at hl
        exact Nat.lt_succ_of_lt (h.reg_lt hl)
    · show _ = (if j = i then s.count else s.reg j) % 2 ^ 64
      by_cases hji : j = i
      · rw [hji, registered_self, if_pos rfl]
        exact hp.trans h.next
      · rw [Service.Live, registered_ne hji] at hl
        rw [registered_ne hji, if_neg hji]
        exact h.serial hl
    · show (s.m_serial + 1) % 2 ^ 64 = (s.count + 1) % 2 ^ 64
      rw [h.next, Nat.mod_add_mod]

/-- The new handle of a socket is one that nobody has. -/
theorem registerSocket (h : Handles s) (hsd : sd ∉ s.opened) {f : List Frame} (loc rem : Addr) :
    Handles (((s.opening sd).popped f).registerSocket sd loc rem) := by
  have ho : Handles ((s.opening sd).popped f) := (h.opening sd).of_eq rfl rfl rfl rfl rfl rfl
  exact ho.registering List.mem_cons_self (fun j hj => hsd (h.opened hj))
    (fun hl => hsd (h.listen hl)) (registerSocket_outcome _ _ _ _)

theorem closed (h : Handles s) (i : Nat) (b : Option Which) : Handles (s.closed i b) := by
  have hlive := closed_live s i b
  have hsock : ∀ {j x}, ((s.closed i b).m_peer_array j).socket = some x →
      j ≠ i ∧ (s.m_peer_array j).socket = some x := by
    intro j x hj
    have hji : j ≠ i := ((hlive j).mp (by rw [Service.Live, hj]; exact Option.some_ne_none x)).1
    exact ⟨hji, closed_ne hji s b ▸ hj⟩
  -- what is still in use is not the handle that is given back
  have hkeep : ∀ {x}, x ∈ s.opened → (s.m_peer_array i).socket ≠ some x →
      x ∈ (s.closed i b).opened := by
    intro x hx hne
    show x ∈ (s.m_peer_array i).socket.elim s.opened s.opened.erase
    cases hi : (s.m_peer_array i).socket with
    | none => exact hx
    | some sd =>
      refine (List.mem_erase_of_ne ?_).mpr hx
      rintro rfl
      exact hne hi
  refine ⟨fun {j x} hj => ?_, fun {x} hl => ?_, fun hj => h.apart (hsock hj).2,
    fun hj hk => h.unique (hsock hj).2 (hsock hk).2, fun hl => h.reg_lt ((hlive _).mp hl).2,
    fun hl => ?_, h.next⟩
  · exact hkeep (h.opened (hsock hj).2) fun hi => (hsock hj).1 (h.unique (hsock hj).2 hi)
  · exact hkeep (h.listen hl) fun hi => h.apart hi hl
  · obtain ⟨hji, hl⟩ := (hlive _).mp hl
    rw [closed_ne hji]
    exact h.serial hl

theorem closing {b : Option Which} (h : Handles s) (hc : Closing s i n b s') : Handles s' := by
  cases hc with
  | quiet hq => exact h.quiet hq
  | callback _ _ => exact h.of_eq rfl rfl rfl rfl rfl rfl

/-- Behind a call of `recv` or `::send`. -/
theorem going {x : Act} {g : Frame} {w : Which} {index m : Nat} (h : Handles s)
    (hq : Quiet (s.record x) t) (h' : s' = t ∨ s' = t.push g ∨ Closing t index m (some w) s') :
    Handles s' := by
  have hrec : Handles (s.record x) := h.of_eq rfl rfl rfl rfl rfl rfl
  obtain h' | h' | hc := h'
  · exact h' ▸ hrec.quiet hq
  · rw [h']
    exact (hrec.quiet hq).of_eq rfl rfl rfl rfl rfl rfl
  · exact (hrec.quiet hq).closing hc

theorem looking (h : Handles s) (hl : Looking s i s') : Handles s' := by
  cases hl with
  | ended => exact h
  | failed hq => exact h.quiet hq
  | unmarked _ => exact h.of_eq rfl rfl rfl rfl rfl rfl
  | received _ _ hq h' => exact h.going hq h'

theorem writing {index : Nat} (h : Handles s) (hw : Writing s i index s') : Handles s' := by
  cases hw with
  | failed hq => exact h.quiet hq
  | skipped hq => exact (h.quiet hq).of_eq rfl rfl rfl rfl rfl rfl
  | sent _ _ hq h' => exact h.going hq h'

theorem lookEnd {index : Nat} {ret : Int} (h : Handles s) : Handles (s.lookEnd i index ret) := by
  unfold Service.lookEnd
  split
  · exact h.closing (closePeer_outcome _ _ _ _)
  · exact h.of_eq rfl rfl rfl rfl rfl rfl

end Handles

/-! ## A tick begins -/

theorem mem_FD_SET {x fd : Option Nat} {set : FdSet} (h : x ∈ FD_SET fd set) :
    x = fd ∨ x ∈ set := by
  unfold FD_SET at h
  split at h
  · exact .inr h
  · split at h
    · rw [List.mem_append, List.mem_singleton] at h
      exact h.symm
    · exact .inr h

theorem mem_ite_cons {r r' : Nat} {l : List Nat} {c : Prop} [Decidable c] (h : r ∈ l) :
    r ∈ (if c then r' :: l else l) := by
  split
  · exact List.mem_cons_of_mem _ h
  · exact h

/-- While the sets are filled: what is in them belongs to the listener or to a connection that is
put down as such. -/
structure Filled (s : Service) : Prop where
  handles : Handles s
  known_lt : ∀ r ∈ s.known, r < s.count
  read : ∀ x ∈ s.m_read_set, x = s.m_listen_sd ∨
    ∃ j, s.Live j ∧ (s.m_peer_array j).socket = x ∧ s.reg j ∈ s.inRead
  write : ∀ x ∈ s.m_write_set, ∃ j, s.Live j ∧ (s.m_peer_array j).socket = x ∧ s.reg j ∈ s.inWrite
  acts : s.acts = []

namespace Filled

theorem quiet (h : Filled s) (hq : Quiet s t) : Filled t := by
  have hh := h.handles.quiet hq
  have hlive := hq.live
  obtain ⟨p, e, hp, rfl⟩ := hq
  refine ⟨hh, h.known_lt, fun x hx => ?_, fun x hx => ?_, h.acts⟩
  · obtain hl | ⟨j, hj, hs, hr⟩ := h.read x hx
    · exact .inl hl
    · exact .inr ⟨j, (hlive j).mpr hj, (hp j).1.trans hs, hr⟩
  · obtain ⟨j, hj, hs, hr⟩ := h.write x hx
    exact ⟨j, (hlive j).mpr hj, (hp j).1.trans hs, hr⟩

theorem see (h : Filled s) (hl : s.Live i) : Filled (s.see i) :=
  ⟨h.handles.of_eq rfl rfl rfl rfl rfl rfl,
    List.forall_mem_cons.mpr ⟨h.handles.reg_lt hl, h.known_lt⟩, h.read, h.write, h.acts⟩

theorem putWrite (h : Filled s) (hl : s.Live i) : Filled (s.putWrite i) := by
  refine ⟨h.handles.of_eq rfl rfl rfl rfl rfl rfl, h.known_lt, h.read, fun x hx => ?_, h.acts⟩
  rcases mem_FD_SET hx with rfl | hx'
  · refine ⟨i, hl, rfl, ?_⟩
    have hin : (s.putWrite i).inWrite = s.reg i :: s.inWrite := if_pos hx
    rw [hin]
    exact List.mem_cons_self
  · obtain ⟨j, hj, hs, hr⟩ := h.write x hx'
    exact ⟨j, hj, hs, mem_ite_cons hr⟩

theorem putRead (h : Filled s) (hl : s.Live i) : Filled (s.putRead i) := by
  refine ⟨h.handles.of_eq rfl rfl rfl rfl rfl rfl, h.known_lt, fun x hx => ?_, h.write, h.acts⟩
  rcases mem_FD_SET hx with rfl | hx'
  · refine .inr ⟨i, hl, rfl, ?_⟩
    have hin : (s.putRead i).inRead = s.reg i :: s.inRead := if_pos hx
    rw [hin]
    exact List.mem_cons_self
  · obtain hl' | ⟨j, hj, hs, hr⟩ := h.read x hx'
    · exact .inl hl'
    · exact .inr ⟨j, hj, hs, mem_ite_cons hr⟩

theorem putListen (h : Handles s) : Filled s.zeroSets.putListen := by
  unfold Service.putListen
  split
  · exact ⟨h.of_eq rfl rfl rfl rfl rfl rfl, List.forall_mem_nil _, List.forall_mem_nil _,
      List.forall_mem_nil _, rfl⟩
  · next sd hsd =>
    refine ⟨h.of_eq rfl rfl rfl rfl rfl rfl, List.forall_mem_nil _, fun x hx => ?_,
      List.forall_mem_nil _, rfl⟩
    have hx : x ∈ FD_SET (some sd) [] := hx
    rcases mem_FD_SET hx with rfl | hx
    · exact .inl hsd.symm
    · exact absurd hx List.not_mem_nil

theorem initSets (hb : Books s) (h : Handles s) : Filled s.initSets :=
  putPeers_invariant Filled.quiet (fun _ h hl => h.see hl) (fun _ h hl _ => h.putWrite hl)
    (fun _ h hl _ => h.putRead hl) s.m_online_peers (putListen h)
    fun i hi => (putListen_live s i).mpr ((hb.online i).mp hi).2

end Filled

theorem Handles.ticking {a : Selected} (hb : Books s) (h : Handles s) (ht : Ticking s a s') :
    Handles s' := by
  have hf := (Filled.initSets hb h).handles
  cases ht with
  | idle => exact h
  | failed hq => exact hf.quiet hq
  | ready _ h' =>
    obtain h' | ⟨f, -, h'⟩ := h'
    · exact h' ▸ hf.of_eq rfl rfl rfl rfl rfl rfl
    · exact h' ▸ hf.of_eq rfl rfl rfl rfl rfl rfl

/-! ## The marks -/

/-- What the frame will do to its connection is in order. -/
def Frame.Marked (s : Service) : Frame → Prop
  | .onDisCon index _ (some w) => s.reg index ∈ s.put w
  | .onRead _ index => s.reg index ∈ s.known → s.reg index ∈ s.inRead
  | _ => True

/-- A mark of a connection that `initSets` has seen is its own. -/
structure Marks (s : Service) : Prop where
  known_lt : ∀ r ∈ s.known, r < s.count
  read : ∀ {j}, s.Live j → s.reg j ∈ s.known → (s.m_peer_array j).socket ∈ s.m_read_set →
    s.reg j ∈ s.inRead
  write : ∀ {j}, s.Live j → s.reg j ∈ s.known → (s.m_peer_array j).socket ∈ s.m_write_set →
    s.reg j ∈ s.inWrite
  live : none ∉ s.m_write_set
  frames : ∀ f ∈ s.stack, f.Marked s
  own : s.Own

namespace Marks

theorem new : Marks Service.new where
  known_lt := List.forall_mem_nil _
  read hl := absurd rfl hl
  write hl := absurd rfl hl
  live := List.not_mem_nil
  frames := List.forall_mem_nil _
  own := List.forall_mem_nil _

theorem quiet (h : Marks s) (hq : Quiet s t) : Marks t := by
  have hlive := hq.live
  obtain ⟨p, e, hp, rfl⟩ := hq
  refine ⟨h.known_lt, fun hl hk hm => ?_, fun hl hk hm => ?_, h.live, h.frames, h.own⟩
  · exact h.read ((hlive _).mp hl) hk ((hp _).1 ▸ hm)
  · exact h.write ((hlive _).mp hl) hk ((hp _).1 ▸ hm)

theorem popped (h : Marks s) (hs : s.stack = f :: rest) : Marks (s.popped rest) :=
  ⟨h.known_lt, h.read, h.write, h.live, fun g hg => h.frames g (hs ▸ List.mem_cons_of_mem _ hg),
    h.own⟩

theorem push (h : Marks s) (hf : f.Marked s) : Marks (s.push f) :=
  ⟨h.known_lt, h.read, h.write, h.live, List.forall_mem_cons.mpr ⟨hf, h.frames⟩, h.own⟩

theorem record {x : Act} (h : Marks s) (hx : x.Own s) : Marks (s.record x) :=
  ⟨h.known_lt, h.read, h.write, h.live, h.frames, List.forall_mem_cons.mpr ⟨hx, h.own⟩⟩

theorem opening (h : Marks s) (sd : Nat) : Marks (s.opening sd) :=
  ⟨h.known_lt, h.read, h.write, h.live, h.frames, h.own⟩

theorem setListen (h : Marks s) (sd : Nat) : Marks (s.setListen sd) :=
  ⟨h.known_lt, h.read, h.write, h.live, h.frames, h.own⟩

/-- `closePeer` by the program, or by the loop for a connection that was put into the set. -/
theorem closing {b : Option Which} (h : Marks s) (hc : Closing s i n b s')
    (hb : ∀ w, b = some w → s.reg i ∈ s.put w) : Marks s' := by
  cases hc with
  | quiet hq => exact h.quiet hq
  | callback _ _ =>
    cases b with
    | none => exact h.push trivial
    | some w => exact h.push (hb w rfl)

/-- The new connection has a number that is not known. -/
theorem registering (hb : Books s) (h : Marks s) (hr : Registering s sd s') : Marks s' := by
  cases hr with
  | full hq => exact h.quiet hq
  | @callback i p hi hfree hsd hp =>
    have hreg : ∀ {j}, j ≠ i → (s.registered i p).reg j = s.reg j := fun hj => if_neg hj
    have hnew : (s.registered i p).reg i ∉ s.known := by
      show (if i = i then s.count else s.reg i) ∉ s.known
      rw [if_pos rfl]
      exact fun hm => Nat.lt_irrefl _ (h.known_lt _ hm)
    refine ⟨fun r hr => Nat.lt_succ_of_lt (h.known_lt r hr), fun {j} hl hk hm => ?_,
      fun {j} hl hk hm => ?_, h.live, List.forall_mem_cons.mpr ⟨trivial, fun f hf => ?_⟩, h.own⟩
    · by_cases hji : j = i
      · exact absurd (hji ▸ hk) hnew
      · rw [Service.Live, registered_ne hji] at hl
        rw [registered_ne hji] at hm
        rw [hreg hji] at hk ⊢
        exact h.read hl hk hm
    · by_cases hji : j = i
      · exact absurd (hji ▸ hk) hnew
      · rw [Service.Live, registered_ne hji] at hl
        rw [registered_ne hji] at hm
        rw [hreg hji] at hk ⊢
        exact h.write hl hk hm
    · have hmarked := h.frames f hf
      have hheld := hb.frames f hf
      cases f with
      | onDisCon j m c =>
        cases c with
        | none => trivial
        | some w =>
          have hji : j ≠ i := by
            rintro rfl
            exact hfree hheld.1
          show (s.registered i p).reg j ∈ _
          rw [hreg hji]
          exact hmarked
      | onRead _ j =>
        intro hk
        by_cases hji : j = i
        · exact absurd (hji ▸ hk) hnew
        · rw [hreg hji] at hk ⊢
          exact hmarked hk
      | _ => trivial

theorem closed {b : Option Which} (h : Marks s) (hs : s.stack = .onDisCon i n b :: rest) :
    Marks ((s.popped rest).closed i b) := by
  have hlive := closed_live (s.popped rest) i b
  refine ⟨h.known_lt, fun {j} hl hk hm => ?_, fun {j} hl hk hm => ?_, h.live,
    fun g hg => h.frames g (hs ▸ List.mem_cons_of_mem _ hg), ?_⟩
  · obtain ⟨hji, hl⟩ := (hlive j).mp hl
    rw [closed_ne hji] at hm
    exact h.read hl hk hm
  · obtain ⟨hji, hl⟩ := (hlive j).mp hl
    rw [closed_ne hji] at hm
    exact h.write hl hk hm
  · have hmarked := h.frames _ (hs ▸ List.mem_cons_self)
    cases b with
    | none => exact h.own
    | some w => exact List.forall_mem_cons.mpr ⟨hmarked, h.own⟩

/-- The sets that `select` leaves are parts of the ones that `initSets` has filled. -/
theorem filled {rs ws : FdSet} (h : Filled s) (hs : s.stack = [])
    (hr : ∀ x ∈ rs, x ∈ s.m_read_set) (hw : ∀ x ∈ ws, x ∈ s.m_write_set) :
    Marks { s with m_read_set := rs, m_write_set := ws } := by
  refine ⟨h.known_lt, fun {j} hl _ hm => ?_, fun {j} hl _ hm => ?_, fun hm => ?_,
    fun f hf => absurd (hs ▸ hf) List.not_mem_nil, fun x hx => absurd (h.acts ▸ hx)
      List.not_mem_nil⟩
  · obtain ⟨x, hx⟩ := Option.ne_none_iff_exists'.mp hl
    rcases h.read _ (hr _ hm) with he | ⟨k, hk, hks, hin⟩
    · exact absurd (he.symm.trans hx) (h.handles.apart hx)
    · obtain rfl := h.handles.unique (hks.trans hx) hx
      exact hin
  · obtain ⟨x, hx⟩ := Option.ne_none_iff_exists'.mp hl
    obtain ⟨k, hk, hks, hin⟩ := h.write _ (hw _ hm)
    obtain rfl := h.handles.unique (hks.trans hx) hx
    exact hin
  · obtain ⟨k, hk, hks, -⟩ := h.write _ (hw _ hm)
    exact hk hks

theorem ticking {a : Selected} (hb : Books s) (hh : Handles s) (h : Marks s) (hs : s.stack = [])
    (ha : s.initSets.selects a = true) (ht : Ticking s a s') : Marks s' := by
  have hf := Filled.initSets hb hh
  have hst := hb.initSets_stack.trans hs
  cases ht with
  | idle => exact h
  | failed hq => exact (filled hf hst (fun _ hx => hx) fun _ hx => hx).quiet hq
  | @ready rs ws _ ha' h' =>
    subst ha'
    rw [selects, Bool.and_eq_true, List.all_eq_true, List.all_eq_true] at ha
    have hm := filled hf hst (fun x hx => of_decide_eq_true (ha.1 x hx))
      fun x hx => of_decide_eq_true (ha.2 x hx)
    obtain h' | ⟨f, hf, h'⟩ := h'
    · exact h' ▸ hm
    · rw [h']
      refine hm.push ?_
      rcases hf with rfl | rfl <;> trivial

/-- A slot whose mark is not stale. -/
theorem inRead (h : Marks s) (hl : s.Live i) (hm : (s.m_peer_array i).socket ∈ s.m_read_set)
    (hf : s.stale i s.m_read_set = false) : s.reg i ∈ s.inRead := by
  rw [stale, FD_ISSET, decide_eq_true hm, Bool.true_and, Bool.not_eq_false', decide_eq_true_eq] at hf
  exact h.read hl hf hm

theorem inWrite (h : Marks s) (hm : (s.m_peer_array i).socket ∈ s.m_write_set)
    (hf : s.stale i s.m_write_set = false) : s.reg i ∈ s.inWrite := by
  rw [stale, FD_ISSET, decide_eq_true hm, Bool.true_and, Bool.not_eq_false', decide_eq_true_eq] at hf
  exact h.write (fun hn => h.live (hn ▸ hm)) hf hm

theorem looking (hb : Books s) (h : Marks s)
    (hf : ∀ index, s.m_online_peers[i]? = some index → s.stale index s.m_read_set = false)
    (hl : Looking s i s') : Marks s' := by
  cases hl with
  | ended => exact h
  | failed hq => exact h.quiet hq
  | unmarked _ => exact h.push trivial
  | @received index t _ hi hm hq h' =>
    have hlive : s.Live index := ((hb.online index).mp (List.mem_of_getElem? hi)).2
    have hin := h.inRead hlive hm (hf index hi)
    have ht : Marks t := (h.record (x := .recv (s.reg index)) hin).quiet hq
    have hin' : t.reg index ∈ t.inRead := by
      obtain ⟨p, e, -, rfl⟩ := hq
      exact hin
    obtain h' | h' | hc := h'
    · exact h' ▸ ht
    · rw [h']
      exact ht.push fun _ => hin'
    · refine ht.closing hc fun w hw => ?_
      obtain rfl := Option.some.inj hw
      exact hin'

theorem writing {index : Nat} (h : Marks s)
    (hf : s.stale index s.m_write_set = false ∨ (s.m_peer_array index).write_buf.m_read_index =
      (s.m_peer_array index).write_buf.m_write_index)
    (hw : Writing s i index s') : Marks s' := by
  cases hw with
  | failed hq => exact h.quiet hq
  | skipped hq => exact (h.quiet hq).push trivial
  | @sent t _ hm hne hq h' =>
    have hin := h.inWrite hm (hf.resolve_right hne)
    have ht : Marks t := (h.record (x := .send (s.reg index)) hin).quiet hq
    have hin' : t.reg index ∈ t.inWrite := by
      obtain ⟨p, e, -, rfl⟩ := hq
      exact hin
    obtain h' | h' | hc := h'
    · exact h' ▸ ht
    · exact h' ▸ ht.push trivial
    · refine ht.closing hc fun w hw => ?_
      obtain rfl := Option.some.inj hw
      exact hin'

/-- Behind `onRead` the slot may have another connection, which must not be closed then. -/
theorem lookEnd {index : Nat} {ret : Int} (h : Marks s)
    (hr : s.reg index ∈ s.known → s.reg index ∈ s.inRead)
    (hf : 0 ≤ ret ∨ ¬s.Live index ∨ s.reg index ∈ s.known) :
    Marks (s.lookEnd i index ret) := by
  unfold Service.lookEnd
  split
  · next hret =>
    rcases hf with h0 | hdead | hk
    · exact absurd hret (Int.not_lt.mpr h0)
    · exact h.quiet ((closePeer_outcome _ _ _ _).quiet_of_dead hdead)
    · refine h.closing (closePeer_outcome _ _ _ _) fun w hw => ?_
      obtain rfl := Option.some.inj hw
      exact hr hk
  · exact h.push trivial

end Marks

/-! ## Runs -/

/-- What holds in every state that is reached. -/
structure Inv (s : Service) : Prop where
  books : Books s
  handles : Handles s
  marks : Marks s

namespace Inv

theorem new : Inv Service.new := ⟨.new, .new, .new⟩

theorem connectPeer {c : Connected} (h : Inv s)
    (hsd : ∀ sd, (Action.connectPeer c).handle = some sd → sd ∉ s.opened) :
    Inv (s.connectPeer c) := by
  refine ⟨h.books.connectPeer c, ?_, ?_⟩
  · cases c with
    | createError => exact h.handles.quiet (.throw _ _)
    | refused => exact h.handles
    | nonBlockingError sd => exact (h.handles.opening sd).quiet (.throw _ _)
    | socket sd loc rem => exact h.handles.registerSocket (hsd sd rfl) loc rem
  · cases c with
    | createError => exact h.marks.quiet (.throw _ _)
    | refused => exact h.marks
    | nonBlockingError sd => exact (h.marks.opening sd).quiet (.throw _ _)
    | socket sd loc rem =>
      exact (h.marks.opening sd).registering (h.books.opening sd) (registerSocket_outcome _ _ _ _)

theorem listen {l : Listened} (h : Inv s)
    (hsd : ∀ sd, (Action.listen l).handle = some sd → sd ∉ s.opened) : Inv (s.listen l) := by
  refine ⟨h.books.listen l, ?_, ?_⟩
  · cases l with
    | ipNull | createError => exact h.handles.quiet (.throw _ _)
    | bindError sd | listenError sd => exact (h.handles.setListen (hsd sd rfl)).quiet (.throw _ _)
    | socket sd => exact h.handles.setListen (hsd sd rfl)
  · cases l with
    | ipNull | createError => exact h.marks.quiet (.throw _ _)
    | bindError sd | listenError sd => exact (h.marks.setListen sd).quiet (.throw _ _)
    | socket sd => exact h.marks.setListen sd

theorem popped (h : Inv s) (hs : s.stack = f :: rest) : Inv (s.popped rest) :=
  ⟨h.books.popped hs, h.handles.of_eq rfl rfl rfl rfl rfl rfl, h.marks.popped hs⟩

theorem quiet (h : Inv s) (hq : Quiet s t) : Inv t :=
  ⟨h.books.quiet hq, h.handles.quiet hq, h.marks.quiet hq⟩

theorem accept {c : Accepted} (h : Inv s) (hs : s.stack = [])
    (hsd : ∀ sd, (Action.accept c).handle = some sd → sd ∉ s.opened) : Inv (s.accept c) := by
  refine ⟨h.books.accept hs c, ?_, ?_⟩
  · cases c with
    | wouldBlock => exact h.handles.of_eq rfl rfl rfl rfl rfl rfl
    | error => exact h.handles.quiet (.throw _ _)
    | nonBlockingError sd => exact (h.handles.opening sd).quiet (.throw _ _)
    | socket sd loc rem => exact h.handles.registerSocket (hsd sd rfl) loc rem
  · cases c with
    | wouldBlock => exact h.marks.push trivial
    | error => exact h.marks.quiet (.throw _ _)
    | nonBlockingError sd => exact (h.marks.opening sd).quiet (.throw _ _)
    | socket sd loc rem =>
      have hb : Books ((s.opening sd).push (.loop 0)) :=
        (h.books.opening sd).pushBottom hs trivial
      have hm : Marks ((s.opening sd).push (.loop 0)) := (h.marks.opening sd).push trivial
      exact hm.registering hb (registerSocket_outcome _ _ _ _)

/-- **One step** that meets both conditions keeps the invariant. -/
theorem step (h : Inv s) (ha : allowed s a = true) (hf : fresh s a = true)
    (hs : Select.step s a = some s') : Inv s' := by
  have hb' := h.books.step ha hs
  obtain ⟨hst, hsd⟩ := stepping hs
  cases hst with
  | send => exact h.quiet (send_quiet _ _ _ _)
  | @closePeer i n =>
    have hc := closePeer_outcome s i n none
    exact ⟨hb', h.handles.closing hc, h.marks.closing hc fun w hw => by cases hw⟩
  | connectPeer c => exact h.connectPeer hsd
  | listen l => exact h.listen hsd
  | @tick a hst hsel =>
    have ht := onEventTick_outcome s a
    exact ⟨hb', h.handles.ticking h.books ht, h.marks.ticking h.books h.handles hst hsel ht⟩
  | accept hst c => exact (h.popped hst).accept (h.books.bottom hst rfl) hsd
  | @look i pending rest hst =>
    have hl := look_outcome (s.popped rest) i pending
    refine ⟨hb', (h.popped hst).handles.looking hl,
      (h.popped hst).marks.looking (h.popped hst).books (fun index hi => ?_) hl⟩
    simp only [fresh, hst] at hf
    have hi : s.m_online_peers[i]? = some index := hi
    rw [hi] at hf
    exact (Bool.not_eq_true' _).mp hf
  | @write i index taken rest hst =>
    have hw := write_outcome (s.popped rest) i index taken
    refine ⟨hb', (h.popped hst).handles.writing hw, (h.popped hst).marks.writing ?_ hw⟩
    simp only [fresh, hst, Bool.or_eq_true, Bool.not_eq_true', decide_eq_true_eq] at hf
    exact hf
  | readMove => exact h.quiet (readMove_quiet _ _ _)
  | onCon hst => exact h.popped hst
  | @onRead _ i index _ hst =>
    have hm : Frame.Marked s (.onRead i index) := h.marks.frames _ (hst ▸ List.mem_cons_self)
    refine ⟨hb', (h.popped hst).handles.lookEnd, (h.popped hst).marks.lookEnd hm ?_⟩
    simp only [fresh, hst, Bool.or_eq_true, decide_eq_true_eq, or_assoc] at hf
    exact hf.imp_right (Or.imp_left not_not.mpr)
  | onDisCon hst =>
    rw [closePeerEnd_eq] at hb' ⊢
    exact ⟨hb', (h.popped hst).handles.closed _ _, h.marks.closed hst⟩
  | raise => exact h.quiet (.throw _ _)
  | unwind hst => exact h.popped hst
  | catch_ =>
    have hq : Quiet s { s with thrown := none } := ⟨_, none, fun _ => ⟨rfl, rfl⟩, rfl⟩
    exact h.quiet hq

end Inv

/-- Both conditions on a step. -/
def ok (s : Service) (a : Action) : Prop := allowed s a = true ∧ fresh s a = true

instance (s : Service) (a : Action) : Decidable (ok s a) := inferInstanceAs (Decidable (_ ∧ _))

theorem inv_of_reach (hr : Reach Init step ok s) : Inv s :=
  hr.invariant Inv (fun s h => (show s = Service.new from h) ▸ .new)
    fun _ _ _ h ha hs => h.step ha.1 ha.2 hs

/-- The serial of a live connection is its number in the run. -/
theorem serial_of_reach (hr : Reach Init step ok s) (hl : s.Live i) :
    (s.m_peer_array i).serial = s.reg i % 2 ^ 64 := (inv_of_reach hr).handles.serial hl

/-- **The bookkeeping of the service.** In every run whose steps meet the conditions
`m_online_peers` lists the live slots, and the loop keeps to the connections of the tick's sets. -/
theorem Service.bookkeeping_of_reach (hr : Reach Init step ok s) : s.Booked ∧ s.Own :=
  ⟨(inv_of_reach hr).books.toBooked, (inv_of_reach hr).marks.own⟩

/-- An address, which nothing depends on. -/
def anAddr : Addr := ⟨"127.0.0.1", 80⟩

/-- A peer sends a byte, and `onRead` answers with -1. -/
def refused : List Action :=
  [.connectPeer (.socket 10 anAddr anAddr), .return_ 0, .tick (.ready [some 10] []),
    .look (some [1]), .return_ (-1), .return_ 0]

theorem refused_runs : (exec step Service.new refused).isSome = true := by decide +kernel

theorem Service.bookkeeping_refused :
    ∃ s : Service, s.acts = [.close .read 0, .recv 0] ∧ s.Booked ∧ s.Own := by
  refine ⟨(exec step Service.new refused).get refused_runs, by decide +kernel,
    Service.bookkeeping_of_reach ?_⟩
  exact Reach.of_exec (.start rfl) (by decide +kernel) (Option.some_get refused_runs).symm

/-- Both peers are ready. The callback of the first closes the second and connects again: slot and
handle are the old ones. -/
def reconnected : List Action :=
  [.connectPeer (.socket 10 anAddr anAddr), .return_ 0,
    .connectPeer (.socket 11 anAddr anAddr), .return_ 0,
    .tick (.ready [some 10, some 11] []), .look (some [1]),
    .closePeer 1 1, .return_ 0, .connectPeer (.socket 11 anAddr anAddr), .return_ 0,
    .return_ 0, .write none, .look (some [2])]

theorem reconnected_runs : (exec step Service.new reconnected).isSome = true := by
  decide +kernel

/-- **A mark outlives its connection.** The loop receives from the third connection, which
`initSets` has not put into the set. -/
theorem not_bookkeeping_reconnected :
    ¬∀ s, Reach Init step (fun s a => allowed s a = true) s → s.Booked ∧ s.Own := by
  intro h
  have hr : Reach Init step (fun s a => allowed s a = true)
      ((exec step Service.new reconnected).get reconnected_runs) :=
    Reach.of_exec (.start rfl) (by decide +kernel) (Option.some_get reconnected_runs).symm
  have hrecv : .recv 2 ∈ ((exec step Service.new reconnected).get reconnected_runs).acts ∧
      2 ∉ ((exec step Service.new reconnected).get reconnected_runs).inRead := by
    decide +kernel
  exact hrecv.2 ((h _ hr).2 _ hrecv.1)

end GhNet.Select
