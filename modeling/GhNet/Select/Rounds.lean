import GhNet.Select.Fidelity

/-!
# A tick serves every connection that is ready

The loop of a tick goes through `m_online_peers` while callbacks may change it. As long as nothing
is closed the list only grows at its end, so no position is passed over: what the system reports as
readable is received from, and where data waits and the handle is writable, `::send` is called.

A connection that is closed inside the tick moves the ones behind it up by one, or ends the loop.
The next tick finds those again.
-/

namespace GhNet.Select

open GhNet Service
open GhNet.Iocp (Addr Peer MAX_PEER_NUM)

variable {s s' s₁ t u : Service} {a : Action} {i j n : Nat} {f : Frame} {rest : List Frame}

/-! ## The condition -/

/-- No tick begins, no exception is handled and no connection is closed. -/
def calm (s : Service) (a : Action) : Bool :=
  prudent s a &&
    match a with
    | .tick _ | .unwind | .catch_ => false
    | .return_ _ =>
      match s.stack with
      | .onDisCon .. :: _ => false
      | _ => true
    | _ => true

/-- With an exception in flight nothing else can happen. -/
theorem unthrown_of_step (ha : calm s a = true) (hs : Select.step s a = some s') :
    s.thrown = none := by
  have hact := (Option.ite_none_right_eq_some.mp hs).2
  have huser : s.userRuns = true → s.thrown = none := by
    intro h
    cases ht : s.thrown with
    | none => rfl
    | some e =>
      rw [userRuns, ht] at h
      cases h
  cases a with
  | send | raise => exact huser (Option.ite_none_right_eq_some.mp hact).1.1
  | closePeer | connectPeer | listen => exact huser (Option.ite_none_right_eq_some.mp hact).1
  | tick | unwind | catch_ => simp [calm] at ha
  | accept | look | write | readMove | return_ =>
    simp only [act] at hact
    split at hact <;> first | assumption | cases hact

/-! ## What stays in a tick -/

/-- The list of the online peers only grows, the sets stay, and so do the connections. -/
structure Onward (s s' : Service) : Prop where
  online : s.m_online_peers <+: s'.m_online_peers
  read : s'.m_read_set = s.m_read_set
  write : s'.m_write_set = s.m_write_set
  kept : ∀ {j}, s.Live j →
    (s'.m_peer_array j).socket = (s.m_peer_array j).socket ∧ s'.reg j = s.reg j
  acts : ∀ {x}, x ∈ s.acts → x ∈ s'.acts

namespace Onward

theorem of_eq (ho : s'.m_online_peers = s.m_online_peers) (hr : s'.m_read_set = s.m_read_set)
    (hw : s'.m_write_set = s.m_write_set) (hp : s'.m_peer_array = s.m_peer_array)
    (hg : s'.reg = s.reg) (ha : s'.acts = s.acts) : Onward s s' :=
  ⟨ho ▸ List.prefix_refl _, hr, hw, fun _ => ⟨by rw [hp], by rw [hg]⟩, fun hx => ha ▸ hx⟩

theorem refl (s : Service) : Onward s s := of_eq rfl rfl rfl rfl rfl rfl

theorem live (h : Onward s t) (hl : s.Live j) : t.Live j := by
  rw [Service.Live, (h.kept hl).1]
  exact hl

theorem trans (h : Onward s t) (h' : Onward t u) : Onward s u where
  online := h.online.trans h'.online
  read := h'.read.trans h.read
  write := h'.write.trans h.write
  kept hl := ⟨(h'.kept (h.live hl)).1.trans (h.kept hl).1,
    (h'.kept (h.live hl)).2.trans (h.kept hl).2⟩
  acts hx := h'.acts (h.acts hx)

theorem quiet (hq : Quiet s t) : Onward s t := by
  obtain ⟨p, e, hp, rfl⟩ := hq
  exact ⟨List.prefix_refl _, rfl, rfl, fun _ => ⟨(hp _).1, rfl⟩, id⟩

theorem push (s : Service) (f : Frame) : Onward s (s.push f) := of_eq rfl rfl rfl rfl rfl rfl

theorem popped (s : Service) (rest : List Frame) : Onward s (s.popped rest) :=
  of_eq rfl rfl rfl rfl rfl rfl

theorem record (s : Service) (x : Act) : Onward s (s.record x) :=
  ⟨List.prefix_refl _, rfl, rfl, fun _ => ⟨rfl, rfl⟩, fun hx => List.mem_cons_of_mem _ hx⟩

theorem opening (s : Service) (sd : Nat) : Onward s (s.opening sd) :=
  of_eq rfl rfl rfl rfl rfl rfl

theorem closing {b : Option Which} (hc : Closing s i n b s') : Onward s s' := by
  cases hc with
  | quiet hq => exact quiet hq
  | callback => exact push _ _

theorem registering {sd : Nat} (hr : Registering s sd s') : Onward s s' := by
  cases hr with
  | full hq => exact quiet hq
  | @callback i p hi hfree hsd hp =>
    refine ⟨List.prefix_append _ _, rfl, rfl, fun {j} hl => ?_, id⟩
    have hji : j ≠ i := by
      rintro rfl
      exact hfree hl
    exact ⟨by rw [registered_ne hji], if_neg hji⟩

theorem connectPeer (s : Service) (c : Connected) : Onward s (s.connectPeer c) := by
  cases c with
  | createError => exact quiet (.throw _ _)
  | refused => exact .refl s
  | nonBlockingError sd => exact (opening s sd).trans (quiet (.throw _ _))
  | socket sd loc rem =>
    exact (opening s sd).trans (registering (registerSocket_outcome _ _ _ _))

theorem listen (s : Service) (l : Listened) : Onward s (s.listen l) := by
  have hset : ∀ sd, Onward s (s.setListen sd) := fun sd => of_eq rfl rfl rfl rfl rfl rfl
  cases l with
  | ipNull | createError => exact quiet (.throw _ _)
  | bindError sd | listenError sd => exact (hset sd).trans (quiet (.throw _ _))
  | socket sd => exact hset sd

theorem accept (s : Service) (c : Accepted) : Onward s (s.accept c) := by
  cases c with
  | wouldBlock => exact push _ _
  | error => exact quiet (.throw _ _)
  | nonBlockingError sd => exact (opening s sd).trans (quiet (.throw _ _))
  | socket sd loc rem =>
    have hpush : Onward s ((s.opening sd).push (.loop 0)) := (opening s sd).trans (push _ _)
    exact hpush.trans (registering (registerSocket_outcome _ _ _ _))

/-- The same peer is at the position. -/
theorem getElem (h : Onward s t) (hi : s.m_online_peers[i]? = some j) :
    t.m_online_peers[i]? = some j := by
  obtain ⟨more, hmore⟩ := h.online
  have hlt := (List.getElem?_eq_some_iff.mp hi).1
  rw [← hmore, List.getElem?_append_left hlt]
  exact hi

end Onward

/-! ## What waits -/

/-- Something waits to be sent to the peer. -/
def Service.Waits (s : Service) (j : Nat) : Prop := (s.m_peer_array j).write_buf.content ≠ []

/-- Only the write event takes data to the system. -/
theorem moved_transmitted {xs : Bytes} (h : moved s a = some (i, .transmitted xs)) :
    ∃ taken, a = .write taken := by
  cases a with
  | write taken => exact ⟨taken, rfl⟩
  | look pending =>
    cases pending with
    | none => cases h
    | some bytes => grind [moved]
  | _ => grind [moved]

theorem entry_transmitted {r : Nat} {xs : Bytes} (h : (r, .transmitted xs) ∈ entry s a) :
    ∃ taken, a = .write taken := by
  unfold entry at h
  split at h
  · next i x hm =>
    split at h
    · cases h
    · obtain ⟨-, rfl⟩ := Prod.mk.inj (List.mem_singleton.mp h)
      exact moved_transmitted hm
  · cases h

/-- What waits goes on waiting if nothing is taken. -/
theorem Carried.waits {l : List (Nat × Transfer UInt8)} (hc : Carried s l s')
    (hno : ∀ r xs, (r, Transfer.transmitted xs) ∉ l) (hl : s.Live j) (hl' : s'.Live j)
    (hw : s.Waits j) : s'.Waits j := by
  -- one slot changes at most
  have hsame : s'.pipe j = s.pipe j → s'.Waits j := by
    intro hp
    rw [pipe_of_live hl, pipe_of_live hl'] at hp
    injection hp with hp
    injection hp with _ hp
    rw [Service.Waits, hp]
    exact hw
  have hne : s'.pipe j ≠ none := by
    rw [pipe_of_live hl']
    exact Option.some_ne_none _
  cases hc with
  | same hp => exact hsame (by rw [hp])
  | @opened i _ hi hp =>
    have hji : j ≠ i := by
      rintro rfl
      rw [pipe_of_live hl] at hi
      cases hi
    exact hsame (by rw [hp, Function.update_of_ne hji])
  | @closed i _ hp =>
    have hji : j ≠ i := by
      rintro rfl
      exact hne (by rw [hp, Function.update_self])
    exact hsame (by rw [hp, Function.update_of_ne hji])
  | @through i c c' x _ hi hx hp =>
    by_cases hji : j = i
    · subst hji
      have hc : c.unsent ≠ [] := by
        rw [pipe_of_live hl] at hi
        exact Option.some.inj hi ▸ hw
      have hc' : c'.unsent ≠ [] := by
        cases x with
        | transmitted xs => exact absurd List.mem_cons_self (hno _ xs)
        | sent xs =>
          obtain rfl := Option.some.inj hx
          exact fun h => hc (List.append_eq_nil_iff.mp h).1
        | received xs =>
          obtain rfl := Option.some.inj hx
          exact hc
        | consumed xs =>
          obtain ⟨q, -, rfl⟩ := Option.map_eq_some_iff.mp hx
          exact hc
      have hp' : s'.pipe j = some c' := by rw [hp, Function.update_self]
      rw [pipe_of_live hl'] at hp'
      obtain rfl := Option.some.inj hp'
      exact hc'
    · exact hsame (by rw [hp, Function.update_of_ne hji])

/-! ## The places in the loop -/

/-- The peers at the first `n` positions have been served. -/
def Served (s₁ s : Service) (n : Nat) : Prop :=
  ∀ k < n, ∀ j, s₁.m_online_peers[k]? = some j →
    ((s₁.m_peer_array j).socket ∈ s₁.m_read_set → .recv (s₁.reg j) ∈ s.acts) ∧
      ((s₁.m_peer_array j).socket ∈ s₁.m_write_set → s₁.Waits j → .send (s₁.reg j) ∈ s.acts)

/-- What has been done where the frame of the tick waits. Above an empty stack the tick is over. -/
def Frame.Progress (s₁ s : Service) : Frame → Prop
  | .accepting => True
  | .loop i => Served s₁ s i
  | .onRead i j => Served s₁ s i ∧ s.m_online_peers[i]? = some j ∧ .recv (s.reg j) ∈ s.acts
  | .write i j => Served s₁ s i ∧ s.m_online_peers[i]? = some j ∧
      ((s.m_peer_array j).socket ∈ s.m_read_set → .recv (s.reg j) ∈ s.acts)
  | .onCon .. => Served s₁ s s₁.m_online_peers.length
  | .onDisCon .. => True

/-- The lowest frame is the one of the tick. -/
def Progress (s₁ s : Service) : Prop :=
  match s.stack.getLast? with
  | none => Served s₁ s s₁.m_online_peers.length
  | some f => f.Progress s₁ s

theorem Served.mono {s₁ : Service} (h : Served s₁ s n) (ho : Onward s s') : Served s₁ s' n :=
  fun k hk j hj => ⟨fun hr => ho.acts ((h k hk j hj).1 hr),
    fun hw hne => ho.acts ((h k hk j hj).2 hw hne)⟩

theorem Frame.Progress.mono {s₁ : Service} (hb : Books s) (ho : Onward s s')
    (h : f.Progress s₁ s) : f.Progress s₁ s' := by
  cases f with
  | accepting | onDisCon => trivial
  | loop | onCon => exact Served.mono h ho
  | onRead i j =>
    have hl : s.Live j := ((hb.online j).mp (List.mem_of_getElem? h.2.1)).2
    exact ⟨h.1.mono ho, ho.getElem h.2.1, by rw [(ho.kept hl).2]; exact ho.acts h.2.2⟩
  | write i j =>
    have hl : s.Live j := ((hb.online j).mp (List.mem_of_getElem? h.2.1)).2
    refine ⟨h.1.mono ho, ho.getElem h.2.1, fun hm => ?_⟩
    rw [(ho.kept hl).1, ho.read] at hm
    rw [(ho.kept hl).2]
    exact ho.acts (h.2.2 hm)

namespace Progress

variable {s₁ : Service}

/-- The stack is as it was. -/
theorem keep (h : Progress s₁ s) (hb : Books s) (ho : Onward s s')
    (hst : s'.stack = s.stack) : Progress s₁ s' := by
  unfold Progress at h ⊢
  rw [hst]
  split
  · next hnone =>
    rw [hnone] at h
    exact Served.mono h ho
  · next f hf =>
    rw [hf] at h
    exact Frame.Progress.mono hb ho h

/-- A callback of the program's own calls. -/
theorem call (h : Progress s₁ s) (hb : Books s) (ho : Onward s s')
    (hst : s'.stack = f :: s.stack) (hf : Served s₁ s' s₁.m_online_peers.length → f.Progress s₁ s') :
    Progress s₁ s' := by
  unfold Progress at h ⊢
  rw [hst]
  cases hs : s.stack with
  | nil =>
    rw [hs] at h
    exact hf (Served.mono h ho)
  | cons g rest =>
    rw [List.getLast?_cons_cons]
    rw [hs] at h
    split
    · next hnone => simp at hnone
    · next g hg =>
      rw [hg] at h
      exact Frame.Progress.mono hb ho h

/-- The tick waits at a frame with nothing below. -/
theorem at_frame (hst : s.stack = [f]) (hf : f.Progress s₁ s) : Progress s₁ s := by
  unfold Progress
  rw [hst]
  exact hf

theorem of_frame (h : Progress s₁ s) (hst : s.stack = [f]) : f.Progress s₁ s := by
  unfold Progress at h
  rw [hst] at h
  exact h

theorem closing {b : Option Which} (h : Progress s₁ s) (hb : Books s) (hc : Closing s i n b s') :
    Progress s₁ s' := by
  have ho := Onward.closing hc
  cases hc with
  | quiet hq => exact h.keep hb ho hq.stack
  | callback _ _ => exact h.call hb ho rfl fun _ => trivial

theorem registering {sd : Nat} (h : Progress s₁ s) (hb : Books s) (hr : Registering s sd s') :
    Progress s₁ s' := by
  have ho := Onward.registering hr
  cases hr with
  | full hq => exact h.keep hb ho hq.stack
  | callback _ _ _ _ => exact h.call hb ho rfl id

theorem connectPeer (h : Progress s₁ s) (hb : Books s) (c : Connected) :
    Progress s₁ (s.connectPeer c) := by
  have hopen : ∀ sd, Progress s₁ (s.opening sd) := fun sd => h.keep hb (.opening s sd) rfl
  cases c with
  | createError => exact h.keep hb (.quiet (.throw _ _)) rfl
  | refused => exact h
  | nonBlockingError sd => exact (hopen sd).keep (hb.opening sd) (.quiet (.throw _ _)) rfl
  | socket sd loc rem =>
    exact (hopen sd).registering (hb.opening sd) (registerSocket_outcome _ _ _ _)

theorem listen (h : Progress s₁ s) (hb : Books s) (l : Listened) : Progress s₁ (s.listen l) :=
  h.keep hb (.listen s l) (by cases l <;> rfl)

/-- `onCon` returns. -/
theorem onCon {i n : Nat} (h : Progress s₁ s) (hb : Books s) (hst : s.stack = .onCon i n :: rest) :
    Progress s₁ (s.popped rest) := by
  cases rest with
  | nil =>
    have hserved : Served s₁ s s₁.m_online_peers.length := h.of_frame hst
    exact hserved.mono (.popped s [])
  | cons g rest =>
    unfold Progress at h ⊢
    rw [hst, List.getLast?_cons_cons] at h
    have hst' : (s.popped (g :: rest)).stack = g :: rest := rfl
    rw [hst']
    split
    · next hnone => simp at hnone
    · next f hf =>
      rw [hf] at h
      exact Frame.Progress.mono hb (.popped s _) h

end Progress

/-! ## The loop -/

/-- `closePeer` of the loop, for the peer that it looks at. -/
theorem closePeer_eq {b : Option Which} (hlt : i < MAX_PEER_NUM) (hl : s.Live i) :
    s.closePeer i (s.m_peer_array i).serial b
      = s.push (.onDisCon i (s.m_peer_array i).serial b) := by
  rw [closePeer, getPeer, if_neg (Nat.not_le.mpr hlt)]
  exact if_neg fun h => h.elim (fun hne => hne rfl) hl

/-- What the loop does at a position, with no exception. -/
inductive Looked (s : Service) (i : Nat) : Service → Prop
  | ended (hi : s.m_online_peers[i]? = none) : Looked s i s
  | unmarked {j : Nat} (hi : s.m_online_peers[i]? = some j)
      (hm : (s.m_peer_array j).socket ∉ s.m_read_set) : Looked s i (s.push (.write i j))
  | received {j : Nat} {t : Service} {f : Frame} (hi : s.m_online_peers[i]? = some j)
      (ht : Onward (s.record (.recv (s.reg j))) t) (hst : t.stack = s.stack)
      (hf : f = .onRead i j ∨ ∃ n b, f = .onDisCon j n b) : Looked s i (t.push f)

/-- The read event comes to a callback. -/
theorem readEvent_calls (h : Sound s) (hlt : j < MAX_PEER_NUM) (hl : s.Live j) (ret : Int)
    {bytes : Bytes} (hroom : (s.m_peer_array j).read_buf.m_write_index + bytes.length ≤
      (s.m_peer_array j).read_buf.m_size) :
    ∃ t f, Onward s t ∧ t.stack = s.stack ∧ (f = .onRead i j ∨ ∃ n b, f = .onDisCon j n b) ∧
      s.readEvent i j ret bytes = t.push f := by
  have hclose : ∃ t f, Onward s t ∧ t.stack = s.stack ∧
      (f = .onRead i j ∨ ∃ n b, f = .onDisCon j n b) ∧
      s.closePeer j (s.m_peer_array j).serial (some .read) = t.push f :=
    ⟨s, _, .refl s, rfl, .inr ⟨_, _, rfl⟩, closePeer_eq hlt hl⟩
  unfold readEvent
  split
  · exact hclose
  · split
    · exact hclose
    · obtain ⟨b, hb, -, -⟩ := received_eq (h.peers j).read hroom
      rw [onReadBuf_of_ok hb]
      exact ⟨s.setPeer j ((s.m_peer_array j).withReadBuf b), _, .quiet (.setPeer s rfl rfl), rfl,
        .inl rfl, rfl⟩

theorem look_looked (hb : Books s) (h : Sound s) {pending : Option Bytes}
    (hthrown : (s.look i pending).thrown = none) : Looked s i (s.look i pending) := by
  revert hthrown
  unfold Service.look
  cases hi : s.m_online_peers[i]? with
  | none => exact fun _ => .ended hi
  | some j =>
    obtain ⟨hlt, hl⟩ := (hb.online j).mp (List.mem_of_getElem? hi)
    dsimp only
    rw [getPeer, if_neg (Nat.not_le.mpr hlt)]
    split
    · rcases offerRead_cases (h.peers j).read with ⟨e, he⟩ | ⟨len, b, hoffer, hv, -, hroom⟩
      · rw [onReadBuf_of_error he]
        exact fun ht => absurd ht (Option.some_ne_none _)
      · rw [onReadBuf_of_ok hoffer]
        have hq : Quiet s (s.setPeer j ((s.m_peer_array j).withReadBuf b)) := .setPeer s rfl rfl
        have hself : (s.setPeer j ((s.m_peer_array j).withReadBuf b)).m_peer_array j
            = (s.m_peer_array j).withReadBuf b := setPeer_self s j _
        have hs := (Still.record _ (.recv (s.reg j))).sound
          (h.setPeer j (p := (s.m_peer_array j).withReadBuf b) ⟨(h.peers j).write, hv⟩)
        have hlen := (recv_fits pending len).2
        obtain ⟨t, f, ht, hst, hf, heq⟩ := readEvent_calls hs hlt (i := i) (j := j)
          ((hq.live j).mpr hl) (recv pending len).1 (by
            show ((s.setPeer j _).m_peer_array j).read_buf.m_write_index + _ ≤
              ((s.setPeer j _).m_peer_array j).read_buf.m_size
            rw [hself]
            exact Nat.le_trans (Nat.add_le_add_left hlen _) hroom)
        intro _
        exact heq ▸ .received hi ((Onward.quiet (hq.record _)).trans ht) hst hf
    · next hm => exact fun _ => .unmarked hi fun hin => hm (decide_eq_true hin)

/-- What the write event does, with no exception. -/
inductive Wrote (s : Service) (i j : Nat) : Service → Prop
  | skipped (h : (s.m_peer_array j).socket ∉ s.m_write_set ∨ ¬s.Waits j) :
      Wrote s i j (s.push (.loop (i + 1)))
  | sent {t : Service} {f : Frame} (ht : Onward (s.record (.send (s.reg j))) t)
      (hst : t.stack = s.stack) (hf : f = .loop (i + 1) ∨ ∃ n b, f = .onDisCon j n b)
      (hne : ∀ k, k ≠ j → t.m_peer_array k = s.m_peer_array k) : Wrote s i j (t.push f)

theorem write_wrote (h : Sound s) (hlt : j < MAX_PEER_NUM) (hl : s.Live j) {taken : Option Nat} :
    Wrote s i j (s.write i j taken) := by
  unfold Service.write
  split
  · rw [onWriteBuf_of_pure (SockBuf.readableBytes_eq (h.peers j).write)]
    split
    · cases taken with
      | none =>
        have hrec : (s.record (.send (s.reg j))).Live j := hl
        rw [writeEvent, closePeer_eq hlt hrec]
        exact .sent (.refl _) rfl (.inr ⟨_, _, rfl⟩) fun _ _ => rfl
      | some n =>
        obtain ⟨b, hb, -⟩ := SockBuf.readMove_spec (h.peers j).write
          (Nat.min_le_right n (s.m_peer_array j).write_buf.content.length)
        rw [writeEvent, onWriteBuf_of_ok (s := s.record _) hb]
        exact .sent (.quiet (.setPeer _ rfl rfl)) rfl (.inl rfl) fun k hk => if_neg hk
    · next hk =>
      refine .skipped (.inr fun hw => hk ?_)
      exact List.length_pos_iff.mpr hw
  · next hm => exact .skipped (.inl fun hin => hm (decide_eq_true hin))

/-! ## A step of the tick -/

/-- What holds within a tick that began in `s₁`. -/
structure Round (s₁ s : Service) : Prop where
  books : Books s
  sound : Sound s
  onward : Onward s₁ s
  waiting : ∀ j ∈ s₁.m_online_peers, s₁.Waits j → .send (s₁.reg j) ∈ s.acts ∨ s.Waits j
  progress : Progress s₁ s

namespace Round

variable {s₁ : Service}

/-- The peers of the tick are there. -/
theorem live (h : Round s₁ s) (hb : Books s₁) (hj : j ∈ s₁.m_online_peers) : s.Live j :=
  h.onward.live ((hb.online j).mp hj).2

theorem keep (h : Round s₁ s) (hb₁ : Books s₁) (hb' : Books s') (hs' : Sound s')
    (ho : Onward s s') (hc : Carried s (entry s a) s') (ha : ∀ taken, a ≠ .write taken)
    (hp : Progress s₁ s') : Round s₁ s' where
  books := hb'
  sound := hs'
  onward := h.onward.trans ho
  progress := hp
  waiting j hj hw := by
    have hl := h.live hb₁ hj
    refine (h.waiting j hj hw).imp ho.acts fun hwaits => ?_
    refine hc.waits (fun r xs hmem => ?_) hl (ho.live hl) hwaits
    obtain ⟨taken, rfl⟩ := entry_transmitted hmem
    exact ha taken rfl

/-- The peer at the position of the write event has been served behind it. -/
theorem served (h : Round s₁ s) (ho : Onward s s')
    (hserved : Served s₁ s i) (hi : s.m_online_peers[i]? = some j)
    (hrecv : (s.m_peer_array j).socket ∈ s.m_read_set → .recv (s.reg j) ∈ s.acts)
    (hb₁ : Books s₁) (hsend : (s.m_peer_array j).socket ∈ s.m_write_set → s.Waits j →
      .send (s.reg j) ∈ s'.acts) : Served s₁ s' (i + 1) := by
  intro k hk l hl
  by_cases hki : k = i
  · subst hki
    obtain rfl : l = j := Option.some.inj ((h.onward.getElem hl).symm.trans hi)
    have hmem := List.mem_of_getElem? hl
    have hkept := h.onward.kept ((hb₁.online l).mp hmem).2
    rw [← hkept.1, ← hkept.2, ← h.onward.read, ← h.onward.write]
    refine ⟨fun hm => ho.acts (hrecv hm), fun hm hw => ?_⟩
    rcases h.waiting l hmem hw with hin | hwaits
    · exact ho.acts (hkept.2.symm ▸ hin)
    · exact hsend hm hwaits
  · exact hserved.mono ho k (by omega) l hl

/-- A connection is accepted, and the loop begins. -/
theorem accepting (h : Round s₁ s) (hst : s.stack = [.accepting]) (c : Accepted)
    (ht : ((s.popped []).accept c).thrown = none) : Progress s₁ ((s.popped []).accept c) := by
  have hzero : ∀ {t}, Served s₁ t 0 := fun _ hk => absurd hk (Nat.not_lt_zero _)
  cases c with
  | wouldBlock => exact .at_frame rfl hzero
  | error | nonBlockingError => exact absurd ht (Option.some_ne_none _)
  | socket sd loc rem =>
    have hpush : Books (((s.popped []).opening sd).push (.loop 0)) :=
      ((h.books.popped hst).opening sd).pushBottom rfl trivial
    have hp : Progress s₁ (((s.popped []).opening sd).push (.loop 0)) := .at_frame rfl hzero
    exact hp.registering hpush (registerSocket_outcome _ _ _ _)

/-- `onRead` returns. -/
theorem returning (h : Round s₁ s) (hst : s.stack = [.onRead i j]) (ret : Int) :
    Onward s ((s.popped []).lookEnd i j ret) ∧ Progress s₁ ((s.popped []).lookEnd i j ret) := by
  obtain ⟨hserved, hi, hrecv⟩ : Frame.Progress s₁ s (.onRead i j) := h.progress.of_frame hst
  obtain ⟨hlt, hl⟩ := (h.books.online j).mp (List.mem_of_getElem? hi)
  have hpop := Onward.popped s []
  unfold Service.lookEnd
  split
  · rw [closePeer_eq hlt (hpop.live hl)]
    exact ⟨hpop.trans (.push _ _), .at_frame rfl trivial⟩
  · have ho := hpop.trans (.push _ (.write i j))
    exact ⟨ho, .at_frame rfl ⟨hserved.mono ho, hi, fun _ => hrecv⟩⟩

/-- The loop looks at a position. -/
theorem looking (h : Round s₁ s) (hst : s.stack = [.loop i]) (hl : Looked (s.popped []) i s') :
    Onward s s' ∧ Progress s₁ s' := by
  have hserved : Served s₁ s i := h.progress.of_frame hst
  have hpop := Onward.popped s []
  cases hl with
  | ended hi =>
    refine ⟨hpop, fun k hk => hserved.mono hpop k (Nat.lt_of_lt_of_le hk ?_)⟩
    have hi : s.m_online_peers[i]? = none := hi
    exact Nat.le_trans h.onward.online.length_le (List.getElem?_eq_none_iff.mp hi)
  | @unmarked j hi hm =>
    have ho := hpop.trans (.push _ (.write i j))
    exact ⟨ho, .at_frame rfl ⟨hserved.mono ho, hi, fun hin => absurd hin hm⟩⟩
  | @received j t f hi ht hst' hf =>
    have hrec := (hpop.trans (.record _ (.recv (s.reg j)))).trans ht
    have ho := hrec.trans (.push t f)
    have hstack : (t.push f).stack = [f] := congrArg (f :: ·) hst'
    refine ⟨ho, .at_frame hstack ?_⟩
    rcases hf with rfl | ⟨n, b, rfl⟩
    · have hlive : s.Live j := ((h.books.online j).mp (List.mem_of_getElem? hi)).2
      refine ⟨hserved.mono ho, ho.getElem hi, ?_⟩
      rw [(ho.kept hlive).2]
      exact ht.acts List.mem_cons_self
    · trivial

/-- The loop comes to the write event. -/
theorem writing (h : Round s₁ s) (hb₁ : Books s₁) (hst : s.stack = [.write i j])
    (hw : Wrote (s.popped []) i j s') : Onward s s' ∧ Progress s₁ s' := by
  obtain ⟨hserved, hi, hrecv⟩ : Frame.Progress s₁ s (.write i j) := h.progress.of_frame hst
  have hpop := Onward.popped s []
  cases hw with
  | skipped hno =>
    have ho := hpop.trans (.push _ (.loop (i + 1)))
    exact ⟨ho, .at_frame rfl (h.served ho hserved hi hrecv hb₁ fun hm hw =>
      absurd hw (hno.resolve_left fun hno => hno hm))⟩
  | @sent t f ht hst' hf _ =>
    have hrec := (hpop.trans (.record _ (.send (s.reg j)))).trans ht
    have ho := hrec.trans (.push t f)
    have hstack : (t.push f).stack = [f] := congrArg (f :: ·) hst'
    refine ⟨ho, .at_frame hstack ?_⟩
    rcases hf with rfl | ⟨n, b, rfl⟩
    · exact h.served ho hserved hi hrecv hb₁ fun _ _ => ht.acts List.mem_cons_self
    · trivial

/-- What waits, behind a write event. -/
theorem waiting_of_wrote (h : Round s₁ s) (hb₁ : Books s₁) (hw : Wrote (s.popped []) i j s')
    (ho : Onward s s') : ∀ k ∈ s₁.m_online_peers, s₁.Waits k →
      .send (s₁.reg k) ∈ s'.acts ∨ s'.Waits k := by
  intro k hk hwk
  rcases h.waiting k hk hwk with hin | hwaits
  · exact .inl (ho.acts hin)
  · cases hw with
    | skipped => exact .inr hwaits
    | @sent t f ht _ _ hne =>
      by_cases hkj : k = j
      · subst hkj
        have hreg : s.reg k = s₁.reg k := (h.onward.kept ((hb₁.online k).mp hk).2).2
        exact .inl (hreg ▸ ht.acts List.mem_cons_self)
      · refine .inr ?_
        show (t.m_peer_array k).write_buf.content ≠ []
        rw [hne k hkj]
        exact hwaits

/-- **One step** of the tick that throws nothing. -/
theorem step (h : Round s₁ s) (hb₁ : Books s₁) (ha : calm s a = true)
    (hs : Select.step s a = some s') (ht : s'.thrown = none) : Round s₁ s' := by
  have hpru := (Bool.and_eq_true_iff.mp ha).1
  have hb' := h.books.step (Bool.and_eq_true_iff.mp hpru).1 hs
  obtain ⟨hs', hc⟩ := step_carried h.books h.sound hpru hs
  have hkeep : (∀ taken, a ≠ .write taken) → Onward s s' ∧ Progress s₁ s' → Round s₁ s' :=
    fun hno hop => h.keep hb₁ hb' hs' hop.1 hc hno hop.2
  have hquiet : ∀ {t}, Quiet s t → Onward s t ∧ Progress s₁ t := fun hq =>
    ⟨.quiet hq, h.progress.keep h.books (.quiet hq) hq.stack⟩
  cases (stepping hs).1 with
  | send => exact hkeep (by simp) (hquiet (send_quiet _ _ _ _))
  | @closePeer i n =>
    have hcl := closePeer_outcome s i n none
    exact hkeep (by simp) ⟨.closing hcl, h.progress.closing h.books hcl⟩
  | connectPeer c => exact hkeep (by simp) ⟨.connectPeer s c, h.progress.connectPeer h.books c⟩
  | listen l => exact hkeep (by simp) ⟨.listen s l, h.progress.listen h.books l⟩
  | tick | unwind | catch_ => simp [calm] at ha
  | accept hst c =>
    obtain rfl := h.books.bottom hst rfl
    exact hkeep (by simp) ⟨(Onward.popped s []).trans (.accept _ c), h.accepting hst c ht⟩
  | look hst =>
    obtain rfl := h.books.bottom hst rfl
    have hpop := Still.popped s []
    exact hkeep (by simp) (h.looking hst
      (look_looked (h.books.popped hst) (hpop.sound h.sound) ht))
  | @write i j taken rest hst =>
    obtain rfl := h.books.bottom hst rfl
    obtain ⟨-, hi, -⟩ : Frame.Progress s₁ s (.write i j) := h.progress.of_frame hst
    obtain ⟨hlt, hl⟩ := (h.books.online j).mp (List.mem_of_getElem? hi)
    have hw : Wrote (s.popped []) i j ((s.popped []).write i j taken) :=
      write_wrote ((Still.popped s []).sound h.sound) hlt hl
    obtain ⟨ho, hp⟩ := h.writing hb₁ hst hw
    exact ⟨hb', hs', h.onward.trans ho, h.waiting_of_wrote hb₁ hw ho, hp⟩
  | readMove => exact hkeep (by simp) (hquiet (readMove_quiet _ _ _))
  | onCon hst => exact hkeep (by simp) ⟨.popped _ _, h.progress.onCon h.books hst⟩
  | onRead hst =>
    obtain rfl := h.books.bottom hst rfl
    exact hkeep (by simp) (h.returning hst _)
  | onDisCon hst => simp [calm, hst] at ha
  | raise => exact hkeep (by simp) (hquiet (.throw _ _))

end Round

/-- Where a tick waits first. With an empty stack there is nothing to do. -/
theorem onEventTick_begins (hb : Books s) (hs : s.stack = []) {x : Selected}
    (ht : (s.onEventTick x).thrown = none) :
    (∃ f, (s.onEventTick x).stack = [f] ∧ (f = .accepting ∨ f = .loop 0)) ∨
      (s.onEventTick x).stack = [] ∧ ((s.onEventTick x).m_online_peers = [] ∨
        (s.onEventTick x).m_read_set = [] ∧ (s.onEventTick x).m_write_set = []) := by
  have hst : s.initSets.stack = [] := hb.initSets_stack.trans hs
  revert ht
  unfold onEventTick
  split
  · next hidle => exact fun _ => .inr ⟨hs, .inl hidle.1⟩
  · split
    · next hthrown => exact fun ht => by simp [ht] at hthrown
    · cases x with
      | error => exact fun ht => absurd ht (Option.some_ne_none _)
      | ready rs ws =>
        intro _
        unfold selected
        dsimp only
        split
        · next hnone =>
          obtain ⟨hr, hw⟩ := Nat.add_eq_zero_iff.mp hnone
          exact .inr ⟨hst, .inr ⟨List.eq_nil_of_length_eq_zero hr,
            List.eq_nil_of_length_eq_zero hw⟩⟩
        · split
          · exact .inl ⟨_, congrArg (Frame.accepting :: ·) hst, .inl rfl⟩
          · exact .inl ⟨_, congrArg (Frame.loop 0 :: ·) hst, .inr rfl⟩

/-- The tick has begun and nothing is done. -/
theorem Round.start {x : Selected} (hb₁ : Books (s.onEventTick x)) (h₁ : Sound (s.onEventTick x))
    (hb : Books s) (hs : s.stack = []) (ht : (s.onEventTick x).thrown = none) :
    Round (s.onEventTick x) (s.onEventTick x) := by
  refine ⟨hb₁, h₁, .refl _, fun _ _ hw => .inr hw, ?_⟩
  rcases onEventTick_begins hb hs ht with ⟨f, hst, hf⟩ | ⟨hst, hnothing⟩
  · refine .at_frame hst ?_
    rcases hf with rfl | rfl
    · trivial
    · exact fun k hk => absurd hk (Nat.not_lt_zero k)
  · unfold Progress
    rw [hst]
    intro k _ j hj
    rcases hnothing with hno | ⟨hr, hw⟩
    · rw [hno] at hj
      cases hj
    · rw [hr, hw]
      exact ⟨fun h => absurd h List.not_mem_nil, fun h => absurd h List.not_mem_nil⟩

/-- **No connection that is ready is passed over.** When a tick is over in which nothing was closed
and no exception thrown, the loop has received from every peer that was online and whose handle
`select` left in the read set, and has sent to every one whose handle it left in the write set and
for which data was waiting. -/
theorem serves_ready {x : Selected}
    (hr : Reach Init step (fun s a => prudent s a = true) s)
    (htick : Select.step s (.tick x) = some s₁)
    (hrun : Reach (· = s₁) step (fun s a => calm s a = true) s') (hend : s'.stack = [])
    (hthrown : s'.thrown = none) :
    ∀ j ∈ s₁.m_online_peers,
      ((s₁.m_peer_array j).socket ∈ s₁.m_read_set → .recv (s₁.reg j) ∈ s'.acts) ∧
        ((s₁.m_peer_array j).socket ∈ s₁.m_write_set → s₁.Waits j →
          .send (s₁.reg j) ∈ s'.acts) := by
  obtain ⟨hb, h⟩ := sound_of_reach hr
  have hb₁ := hb.step (a := .tick x) rfl htick
  obtain ⟨h₁, -⟩ := step_carried hb h (a := .tick x) rfl htick
  obtain ⟨⟨-, hs, -⟩, heq⟩ :=
    Option.ite_none_right_eq_some.mp (Option.ite_none_right_eq_some.mp htick).2
  obtain rfl := Option.some.inj heq
  have hround := hrun.invariant (fun t => t.thrown = none → Round (s.onEventTick x) t)
    (fun t ht hthrown => by
      obtain rfl : t = s.onEventTick x := ht
      exact .start hb₁ h₁ hb hs hthrown)
    fun t a t' hround ha hst hthrown => (hround (unthrown_of_step ha hst)).step hb₁ ha hst hthrown
  have hserved := (hround hthrown).progress
  unfold Progress at hserved
  rw [hend] at hserved
  intro j hj
  obtain ⟨k, hk, hkj⟩ := List.getElem_of_mem hj
  exact hserved k hk j (List.getElem?_eq_some_iff.mpr ⟨hk, hkj⟩)

/-- Two peers are ready for both, and the callback of the first sends to the second. -/
def bothReady : List Action :=
  [.connectPeer (.socket 10 anAddr anAddr), .return_ 0,
    .connectPeer (.socket 11 anAddr anAddr), .return_ 0, .send 0 0 [1], .send 1 1 [2]]

/-- The rounds of the two. -/
def bothServed : List Action :=
  [.look (some [7]), .send 1 1 [3], .readMove 1, .return_ 0, .write (some 1),
    .look (some [8]), .return_ 0, .write (some 1), .look none]

theorem bothReady_runs : (exec step Service.new bothReady).isSome = true := by decide +kernel

/-- The service in front of the tick. -/
def readyState : Service := (exec step Service.new bothReady).get bothReady_runs

/-- Both can be read and written. -/
def readySelect : Selected := .ready [some 10, some 11] [some 10, some 11]

theorem readyState_ticks : (step readyState (.tick readySelect)).isSome = true := by decide +kernel

/-- The service in the tick. -/
def tickState : Service := (step readyState (.tick readySelect)).get readyState_ticks

theorem bothServed_runs : (exec step tickState bothServed).isSome = true := by decide +kernel

theorem serves_ready_both :
    ∃ s : Service, s.acts = [.send 1, .recv 1, .send 0, .recv 0] ∧
      .recv (tickState.reg 1) ∈ s.acts ∧ .send (tickState.reg 1) ∈ s.acts := by
  have hr : Reach Init step (fun s a => prudent s a = true) readyState :=
    Reach.of_exec (.start rfl) (by decide +kernel) (Option.some_get bothReady_runs).symm
  have hrun : Reach (· = tickState) step (fun s a => calm s a = true)
      ((exec step tickState bothServed).get bothServed_runs) :=
    Reach.of_exec (.start rfl) (by decide +kernel) (Option.some_get bothServed_runs).symm
  have htick : step readyState (.tick readySelect) = some tickState :=
    (Option.some_get readyState_ticks).symm
  have hserved := serves_ready hr htick hrun (by decide +kernel) (by decide +kernel) 1
    (by decide +kernel)
  have hwaits : (tickState.m_peer_array 1).write_buf.content.length = 1 := by decide +kernel
  have hread : (tickState.m_peer_array 1).socket ∈ tickState.m_read_set := by decide +kernel
  have hwrite : (tickState.m_peer_array 1).socket ∈ tickState.m_write_set := by decide +kernel
  refine ⟨(exec step tickState bothServed).get bothServed_runs, by decide +kernel,
    hserved.1 hread, hserved.2 hwrite fun hnil => ?_⟩
  rw [hnil] at hwaits
  cases hwaits

end GhNet.Select
