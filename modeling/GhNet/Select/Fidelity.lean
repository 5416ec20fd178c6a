import GhNet.Select.Marks
import GhNet.Select.Transfers

/-!
# The select service keeps the data of its connections

The remaining steps, and the runs: in every run the service carries out the pipes, so that on each
connection what was transmitted and what still waits is what was sent, and what the callback has
consumed and what it still has before it is what was received. This holds whatever happens to slots
and handles, and also of the connections that the loop takes for others.
-/

namespace GhNet.Select

open GhNet Service
open GhNet.Iocp (Addr Peer MAX_PEER_NUM)

variable {s s' t u : Service} {a : Action} {i index n : Nat} {f : Frame} {rest : List Frame}

/-! ## The sets -/

theorem putWrite_still (hl : s.Live i) : Still s (s.putWrite i) := by
  refine ⟨rfl, rfl, rfl, fun hno hm => ?_⟩
  rcases mem_FD_SET hm with hs | hs
  · exact hl hs.symm
  · exact hno hs

theorem putPeers_still : ∀ (l : List Nat) {s : Service}, (∀ j, Whole (s.m_peer_array j)) →
    (∀ i ∈ l, s.Live i) → Still s (putPeers l s)
  | [], s, _, _ => .refl s
  | i :: l, s, hw, hl => by
    rw [putPeers]
    rcases getPeer_still s i _ with hg | ⟨-, hg⟩
    · exact hg
    · rw [hg, onWriteBuf_of_pure (s := s.see i) (SockBuf.readableBytes_eq (hw i).write)]
      have hsee : Still s (s.see i) := ⟨rfl, rfl, rfl, id⟩
      have hi : (s.see i).Live i := hl i List.mem_cons_self
      have hrest : ∀ j ∈ l, s.Live j := fun j hj => hl j (List.mem_cons_of_mem _ hj)
      have hput : ∀ {t}, Still s t → (∀ j ∈ l, t.Live j) → Still s (putPeers l (t.putRead i)) :=
        fun {t} ht hlive =>
          have hread : Still t (t.putRead i) := ⟨rfl, rfl, rfl, id⟩
          (ht.trans hread).trans (putPeers_still l ((ht.trans hread).peers ▸ hw) hlive)
      split
      · exact hput (hsee.trans (putWrite_still hi)) hrest
      · exact hput hsee hrest

theorem zeroSets_still (s : Service) : Still s s.zeroSets :=
  ⟨rfl, rfl, rfl, fun _ => List.not_mem_nil⟩

theorem putListen_still (s : Service) : Still s s.putListen := by
  unfold Service.putListen
  split <;> exact ⟨rfl, rfl, rfl, id⟩

theorem initSets_still (hb : Books s) (h : Sound s) : Still s s.initSets := by
  have hput := (zeroSets_still s).trans (putListen_still s.zeroSets)
  refine hput.trans (putPeers_still _ (hput.peers ▸ h.peers) fun i hi => ?_)
  exact (putListen_live s i).mpr ((hb.online i).mp hi).2

theorem onEventTick_still (hb : Books s) (h : Sound s) {x : Selected}
    (hx : s.initSets.selects x = true) : Still s (s.onEventTick x) := by
  have hinit := initSets_still hb h
  unfold onEventTick
  split
  · exact .refl s
  · split
    · exact hinit
    · refine hinit.trans ?_
      cases x with
      | error => exact .throw _ _
      | ready rs ws =>
        -- `select` takes handles out of the sets only
        have hset : Still s.initSets { s.initSets with m_read_set := rs, m_write_set := ws } := by
          refine ⟨rfl, rfl, rfl, fun hno hm => hno ?_⟩
          rw [selects, Bool.and_eq_true, List.all_eq_true, List.all_eq_true] at hx
          exact of_decide_eq_true (hx.2 none hm)
        unfold selected
        dsimp only
        split
        · exact hset
        · split <;> exact hset.trans (.push _ _)

/-! ## Connections come and go -/

theorem registerSocket_carried (h : Sound s) (sd : Nat) (loc rem : Addr) :
    Sound (s.registerSocket sd loc rem) ∧ Carried s [] (s.registerSocket sd loc rem) := by
  unfold registerSocket newPeer
  cases hf : Iocp.Service.findFree s.m_peer_array MAX_PEER_NUM 0 with
  | none => exact ⟨(Still.throw s _).sound h, (Still.throw s _).carried⟩
  | some i =>
    obtain ⟨hi, hfree⟩ := findFree_some hf
    rw [Nat.zero_add] at hi
    dsimp only
    rw [getPeer, if_neg (Nat.not_le.mpr hi), setPeer_self, setPeer_setPeer]
    have hvalid : ∀ b : SockBuf, b.reset.Valid := SockBuf.valid_reset
    refine ⟨⟨fun j => ?_, h.marks⟩, .opened (i := i) (pipe_of_dead hfree) ?_ rfl⟩
    · show Whole (if j = i then _ else s.m_peer_array j)
      split
      · exact ⟨hvalid _, hvalid _⟩
      · exact h.peers j
    · funext j
      by_cases hj : j = i
      · subst hj
        rw [Function.update_self]
        show pipeOf (if j = j then s.count else s.reg j) (if j = j then _ else _ : Peer) = _
        rw [if_pos rfl, if_pos rfl, pipeOf, if_neg (Option.some_ne_none sd)]
        simp only [Iocp.Service.resetPeer, SockBuf.content_reset]
      · rw [Function.update_of_ne hj]
        show pipeOf (if j = i then s.count else s.reg j) (if j = i then _ else _ : Peer) = _
        rw [if_neg hj, if_neg hj]
        rfl

theorem opening_still (s : Service) (sd : Nat) : Still s (s.opening sd) := ⟨rfl, rfl, rfl, id⟩

theorem connectPeer_carried (h : Sound s) (c : Connected) :
    Sound (s.connectPeer c) ∧ Carried s [] (s.connectPeer c) := by
  have hstill : ∀ {t}, Still s t → Sound t ∧ Carried s [] t := fun ht => ⟨ht.sound h, ht.carried⟩
  cases c with
  | createError => exact hstill (.throw _ _)
  | refused => exact hstill (.refl s)
  | nonBlockingError sd => exact hstill ((opening_still s sd).trans (.throw _ _))
  | socket sd loc rem =>
    obtain ⟨hs, hc⟩ := registerSocket_carried ((opening_still s sd).sound h) sd loc rem
    exact ⟨hs, .of_still (opening_still s sd) hc⟩

theorem accept_carried (h : Sound s) (c : Accepted) :
    Sound (s.accept c) ∧ Carried s [] (s.accept c) := by
  have hstill : ∀ {t}, Still s t → Sound t ∧ Carried s [] t := fun ht => ⟨ht.sound h, ht.carried⟩
  cases c with
  | wouldBlock => exact hstill (.push _ _)
  | error => exact hstill (.throw _ _)
  | nonBlockingError sd => exact hstill ((opening_still s sd).trans (.throw _ _))
  | socket sd loc rem =>
    have hpush : Still s ((s.opening sd).push (.loop 0)) := (opening_still s sd).trans (.push _ _)
    obtain ⟨hs, hc⟩ := registerSocket_carried (hpush.sound h) sd loc rem
    exact ⟨hs, .of_still hpush hc⟩

theorem listen_still (s : Service) (l : Listened) : Still s (s.listen l) := by
  have hset : ∀ sd, Still s (s.setListen sd) := fun sd => ⟨rfl, rfl, rfl, id⟩
  cases l with
  | ipNull | createError => exact .throw _ _
  | bindError sd | listenError sd => exact (hset sd).trans (.throw _ _)
  | socket sd => exact hset sd

theorem closed_carried (h : Sound s) (i : Nat) (b : Option Which) :
    Sound (s.closed i b) ∧ Carried s [] (s.closed i b) := by
  refine ⟨⟨fun j => ?_, h.marks⟩, .closed (i := i) ?_ rfl⟩
  · show Whole (if j = i then (s.m_peer_array i).withSocket none else s.m_peer_array j)
    split
    · exact ⟨(h.peers i).write, (h.peers i).read⟩
    · exact h.peers j
  · funext j
    by_cases hj : j = i
    · subst hj
      rw [Function.update_self]
      exact pipe_of_dead (congrArg Peer.socket (if_pos rfl))
    · rw [Function.update_of_ne hj]
      exact congrArg (pipeOf (s.reg j)) (if_neg hj)

theorem lookEnd_still (s : Service) (i index : Nat) (ret : Int) :
    Still s (s.lookEnd i index ret) := by
  unfold Service.lookEnd
  split
  · exact closePeer_still _ _ _ _
  · exact .push _ _

/-- **One step** keeps the buffers in order and does one thing to the pipes at most. -/
theorem step_carried (hb : Books s) (h : Sound s) (ha : prudent s a = true)
    (hs : Select.step s a = some s') : Sound s' ∧ Carried s (entry s a) s' := by
  have hact := (Option.ite_none_right_eq_some.mp hs).2
  have hstill : ∀ {t}, Still s t → moved s a = none → Sound t ∧ Carried s (entry s a) t :=
    fun ht hm => ⟨ht.sound h, by rw [entry_of_none hm]; exact ht.carried⟩
  cases (stepping hs).1 with
  | send =>
    simp only [prudent, Bool.and_eq_true, decide_eq_true_eq] at ha
    exact send_carried h ha.2
  | closePeer => exact hstill (closePeer_still _ _ _ _) rfl
  | connectPeer c => exact connectPeer_carried h c
  | listen l => exact hstill (listen_still s l) rfl
  | tick _ hsel => exact hstill (onEventTick_still hb h hsel) rfl
  | accept _ c =>
    have hp := Still.popped s
    obtain ⟨hs', hc⟩ := accept_carried ((hp _).sound h) c
    exact ⟨hs', .of_still (hp _) hc⟩
  | look hst => exact look_carried h hst
  | write hst => exact write_carried h hst
  | readMove =>
    simp only [act] at hact
    split at hact
    · next hst =>
      rw [← Option.some.inj hact]
      simp only [prudent, hst, Bool.and_eq_true, decide_eq_true_eq] at ha
      exact readMove_carried h hst ha.2
    · cases hact
  | onCon _ => exact hstill (.popped _ _) rfl
  | onRead _ => exact hstill ((Still.popped _ _).trans (lookEnd_still _ _ _ _)) rfl
  | onDisCon _ =>
    rw [closePeerEnd_eq]
    obtain ⟨hs', hc⟩ := closed_carried ((Still.popped s _).sound h) _ _
    exact ⟨hs', .of_still (.popped _ _) hc⟩
  | raise => exact hstill (.throw _ _) rfl
  | unwind _ => exact hstill (.popped _ _) rfl
  | catch_ => exact hstill ⟨rfl, rfl, rfl, id⟩ rfl

/-! ## Runs -/

theorem Sound.new : Sound Service.new := by
  have hvalid : SockBuf.new.Valid := ⟨Nat.le_refl _, Nat.zero_le _⟩
  exact ⟨fun _ => ⟨hvalid, hvalid⟩, List.not_mem_nil⟩

theorem sound_of_reach (hr : Reach Init step (fun s a => prudent s a = true) s) :
    Books s ∧ Sound s :=
  hr.invariant (fun s => Books s ∧ Sound s)
    (fun s h => (show s = Service.new from h) ▸ ⟨.new, .new⟩)
    fun _ _ _ h ha hs => ⟨h.1.step (Bool.and_eq_true_iff.mp ha).1 hs,
      (step_carried h.1 h.2 ha hs).1⟩

/-- The service and its history stand for pipes. -/
structure Shows (h : History) (p : Pipes Nat UInt8) : Prop where
  books : Books h.service
  sound : Sound h.service
  slots : p.slots = h.service.pipe
  count : p.count = h.service.count
  log : p.log = h.log

theorem Shows.start {h : History} (hi : h.Init) :
    ∃ p : Pipes Nat UInt8, p.Init ∧ Shows h p := by
  obtain ⟨hs, hl⟩ := hi
  have hs : h.service = Service.new := hs
  have hnew : Service.new.pipe = fun _ => none := by
    funext j
    exact pipe_of_dead rfl
  refine ⟨⟨fun _ => none, 0, []⟩, ⟨rfl, rfl⟩, ?_, ?_, ?_, ?_, hl.symm⟩
  · exact hs ▸ .new
  · exact hs ▸ .new
  · rw [hs, hnew]
  · rw [hs]
    rfl

/-- **A step is nothing to the pipes, or one step of them.** -/
theorem Shows.step {h h' : History} {p : Pipes Nat UInt8} (hR : Shows h p)
    (ha : prudent h.service a = true) (hs : h.step a = some h') :
    Shows h' p ∨ ∃ o p', anyStep p o ∧ p.step o = some p' ∧ Shows h' p' := by
  obtain ⟨s', hstep, rfl⟩ := Option.map_eq_some_iff.mp hs
  have hb' := hR.books.step (Bool.and_eq_true_iff.mp ha).1 hstep
  obtain ⟨hs', hc⟩ := step_carried hR.books hR.sound ha hstep
  obtain ⟨slots, count, log⟩ := p
  obtain ⟨-, -, rfl, rfl, rfl⟩ := hR
  generalize entry h.service a = l at hc
  cases hc with
  | same hp hc => exact .inl ⟨hb', hs', hp.symm, hc.symm, (List.append_nil _).symm⟩
  | @opened i _ hi hp hc =>
    exact .inr ⟨.open_ i, _, trivial, Pipes.step_open hi, hb', hs', hp.symm, hc.symm,
      (List.append_nil _).symm⟩
  | @closed i _ hp hc =>
    exact .inr ⟨.close i, _, trivial, rfl, hb', hs', hp.symm, hc.symm, (List.append_nil _).symm⟩
  | @through i _ _ x _ hi hx hp hc =>
    exact .inr ⟨.carry i x, _, trivial, Pipes.step_carry hi hx, hb', hs', hp.symm, hc.symm, rfl⟩

/-- **The select service carries out the pipes.** -/
theorem simulates_pipes : Simulation History.Init History.step
    (fun h a => prudent h.service a = true) Pipes.Init Pipes.step anyStep Shows where
  start _ hi := Shows.start hi
  step _ _ _ _ hR ha hs := hR.step ha hs

/-- What the history says of the data, of open connections and of any. -/
structure History.Faithful (h : History) : Prop where
  output : ∀ {i}, h.service.Live i → Pipes.sent (h.service.reg i) h.log
    = Pipes.transmitted (h.service.reg i) h.log ++ (h.service.m_peer_array i).write_buf.content
  input : ∀ {i}, h.service.Live i → Pipes.received (h.service.reg i) h.log
    = Pipes.consumed (h.service.reg i) h.log ++ (h.service.m_peer_array i).read_buf.content
  apart : ∀ {i j}, h.service.Live i → h.service.Live j → h.service.reg i = h.service.reg j → i = j
  inOrder : ∀ r, Pipes.InOrder r h.log

/-- **The data of the connections.** On an open connection what was transmitted and what waits in
the write buffer is what was sent, and what `onRead` has consumed and what is in the read buffer is
what was received. On any connection the one is the front of the other. -/
theorem keeps_data {h : History}
    (hr : Reach History.Init History.step (fun h a => prudent h.service a = true) h) :
    h.Faithful := by
  refine simulates_pipes.transfer (P := History.Faithful) (fun p hp => Pipes.inv_of_reach hp)
    (fun h p hR hp => ?_) hr
  obtain ⟨slots, count, log⟩ := p
  obtain ⟨-, -, rfl, rfl, rfl⟩ := hR
  exact ⟨fun hl => (hp.conserved (pipe_of_live hl)).output,
    fun hl => (hp.conserved (pipe_of_live hl)).input,
    fun hi hj hij => hp.apart (pipe_of_live hi) (pipe_of_live hj) hij, hp.inOrder⟩

/-- A call of `send` for an open connection gets into the history, if there is room. The handle 0
is taken for none. -/
theorem entry_send {buf : Bytes} (h : Sound s) (hi : i < MAX_PEER_NUM) (hl : s.Live i)
    (h0 : (s.m_peer_array i).socket ≠ some 0)
    (hroom : (s.m_peer_array i).write_buf.m_write_index + buf.length < 2 ^ 31) :
    entry s (.send i (s.m_peer_array i).serial buf) = [(s.reg i, .sent buf)] := by
  obtain ⟨b, hb, -⟩ := SockBuf.apendBuf_spec (h.peers i).write hroom
  refine entry_of_live ?_ hl
  rw [moved, if_pos ⟨hi, rfl, h0⟩, hb]

/-- Two of three bytes are taken, and a byte comes in and is consumed. -/
def partly : List Action :=
  [.connectPeer (.socket 10 anAddr anAddr), .return_ 0, .send 0 0 [1, 2, 3],
    .tick (.ready [some 10] [some 10]), .look (some [9]), .readMove 1, .return_ 0,
    .write (some 2)]

theorem partly_runs : (exec History.step ⟨Service.new, []⟩ partly).isSome = true := by
  decide +kernel

theorem keeps_data_partly :
    ∃ h : History, Pipes.sent 0 h.log = [1, 2, 3] ∧ Pipes.transmitted 0 h.log = [1, 2] ∧
      Pipes.received 0 h.log = [9] ∧ h.Faithful := by
  refine ⟨(exec History.step ⟨Service.new, []⟩ partly).get partly_runs, by decide +kernel,
    by decide +kernel, by decide +kernel, keeps_data ?_⟩
  have hinit : History.Init ⟨Service.new, []⟩ := ⟨rfl, rfl⟩
  exact Reach.of_exec (.start hinit) (by decide +kernel) (Option.some_get partly_runs).symm

end GhNet.Select
