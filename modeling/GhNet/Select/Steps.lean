import Mathlib.Data.List.Nodup
import GhNet.Select.Machine

/-!
# What a step of the select service can do

Most of the code works on the buffers of a peer, which the bookkeeping does not depend on. Each
function has its outcomes up to such work (`Quiet`), and `Stepping` lists the steps of the machine
with their places.
-/

namespace GhNet.Select

open GhNet Service
open GhNet.Iocp (Addr Peer MAX_PEER_NUM)

variable {s s' t u : Service} {a : Action} {i n : Nat} {f : Frame} {rest : List Frame}

/-- The slot has a live socket. -/
def Service.Live (s : Service) (j : Nat) : Prop := (s.m_peer_array j).socket ≠ none

/-! ## What leaves the bookkeeping alone -/

/-- Only buffers have changed, and perhaps an exception is thrown. -/
def Quiet (s t : Service) : Prop :=
  ∃ peers e, (∀ j, (peers j).socket = (s.m_peer_array j).socket ∧
    (peers j).serial = (s.m_peer_array j).serial) ∧
    t = { s with m_peer_array := peers, thrown := e }

namespace Quiet

theorem refl (s : Service) : Quiet s s := ⟨_, _, fun _ => ⟨rfl, rfl⟩, rfl⟩

theorem trans (h : Quiet s t) (h' : Quiet t u) : Quiet s u := by
  obtain ⟨p, e, hp, rfl⟩ := h
  obtain ⟨q, e', hq, rfl⟩ := h'
  exact ⟨q, e', fun j => ⟨(hq j).1.trans (hp j).1, (hq j).2.trans (hp j).2⟩, rfl⟩

theorem throw (s : Service) (e : Error) : Quiet s (s.throw e) :=
  ⟨_, some e, fun _ => ⟨rfl, rfl⟩, rfl⟩

theorem record (h : Quiet s t) (a : Act) : Quiet (s.record a) (t.record a) := by
  obtain ⟨p, e, hp, rfl⟩ := h
  exact ⟨p, e, hp, rfl⟩

theorem setPeer (s : Service) {p : Peer} (hs : p.socket = (s.m_peer_array i).socket)
    (hn : p.serial = (s.m_peer_array i).serial) : Quiet s (s.setPeer i p) := by
  refine ⟨_, s.thrown, fun j => ?_, rfl⟩
  by_cases hj : j = i
  · subst hj
    simp only [if_true]
    exact ⟨hs, hn⟩
  · simp only [hj, if_false, and_self]

theorem live (h : Quiet s t) (j : Nat) : t.Live j ↔ s.Live j := by
  obtain ⟨p, e, hp, rfl⟩ := h
  exact not_congr (by rw [(hp j).1])

theorem reg (h : Quiet s t) : t.reg = s.reg := by
  obtain ⟨p, e, -, rfl⟩ := h
  rfl

theorem stack (h : Quiet s t) : t.stack = s.stack := by
  obtain ⟨p, e, -, rfl⟩ := h
  rfl

end Quiet

/-- Code on a read buffer throws or goes on, and has changed nothing but the buffer. -/
theorem onReadBuf_outcome {α : Type} (s : Service) (i : Nat) (m : SockBufM α)
    (k : α → Service → Service) :
    ∃ t, Quiet s t ∧ (s.onPeer i (Peer.onReadBuf m) k = t ∨
      ∃ x, s.onPeer i (Peer.onReadBuf m) k = k x t) := by
  unfold onPeer Peer.onReadBuf
  have hq : ∀ b, Quiet s (s.setPeer i ((s.m_peer_array i).withReadBuf b)) := fun b =>
    .setPeer s rfl rfl
  cases m (s.m_peer_array i).read_buf with
  | ok x b => exact ⟨_, hq b, .inr ⟨x, rfl⟩⟩
  | error e b => exact ⟨_, (hq b).trans (.throw _ _), .inl rfl⟩

/-- The same for a write buffer, with the result of the code. -/
theorem onWriteBuf_outcome {α : Type} (s : Service) (i : Nat) (m : SockBufM α)
    (k : α → Service → Service) :
    ∃ t, Quiet s t ∧ (s.onPeer i (Peer.onWriteBuf m) k = t ∨
      ∃ x b, m (s.m_peer_array i).write_buf = .ok x b ∧
        s.onPeer i (Peer.onWriteBuf m) k = k x t) := by
  unfold onPeer Peer.onWriteBuf
  have hq : ∀ b, Quiet s (s.setPeer i { s.m_peer_array i with write_buf := b }) := fun b =>
    .setPeer s rfl rfl
  cases hm : m (s.m_peer_array i).write_buf with
  | ok x b => exact ⟨_, hq b, .inr ⟨x, b, rfl, rfl⟩⟩
  | error e b => exact ⟨_, (hq b).trans (.throw _ _), .inl rfl⟩

/-! ## Outcomes -/

theorem getPeer_outcome (s : Service) (i : Nat) (k : Peer → Service) :
    Quiet s (s.getPeer i k) ∨ i < MAX_PEER_NUM ∧ s.getPeer i k = k (s.m_peer_array i) := by
  unfold getPeer
  split
  · exact .inl (.throw _ _)
  · next h => exact .inr ⟨Nat.lt_of_not_ge h, rfl⟩

theorem send_quiet (s : Service) (i n : Nat) (buf : Bytes) : Quiet s (s.send i n buf) := by
  rcases getPeer_outcome s i _ with h | ⟨-, h⟩
  · exact h
  · rw [send, h]
    split
    · exact .refl s
    · obtain ⟨t, hq, h | ⟨_, _, -, h⟩⟩ := onWriteBuf_outcome s i (SockBuf.apendBuf buf) fun _ t => t
      · exact h ▸ hq
      · exact h ▸ hq

/-- What `closePeer` does up to its callback. -/
inductive Closing (s : Service) (i n : Nat) (b : Option Which) : Service → Prop
  | quiet {s' : Service} (h : Quiet s s') : Closing s i n b s'
  | callback (hl : s.Live i) (hn : (s.m_peer_array i).serial = n) :
      Closing s i n b (s.push (.onDisCon i n b))

theorem closePeer_outcome (s : Service) (i n : Nat) (b : Option Which) :
    Closing s i n b (s.closePeer i n b) := by
  rcases getPeer_outcome s i _ with h | ⟨-, h⟩
  · exact .quiet h
  · rw [closePeer, h]
    split
    · exact .quiet (.refl s)
    · next hg =>
      rw [not_or, not_not] at hg
      exact .callback hg.2 hg.1

/-- A slot without a socket is not closed. -/
theorem Closing.quiet_of_dead {b : Option Which} (h : Closing s i n b s') (hdead : ¬s.Live i) :
    Quiet s s' := by
  cases h with
  | quiet hq => exact hq
  | callback hl _ => exact absurd hl hdead

@[simp] theorem setPeer_self (s : Service) (i : Nat) (p : Peer) :
    (s.setPeer i p).m_peer_array i = p := if_pos rfl

theorem setPeer_setPeer (s : Service) (i : Nat) (p q : Peer) :
    (s.setPeer i p).setPeer i q = s.setPeer i q := by
  have h : (fun j => if j = i then q else if j = i then p else s.m_peer_array j) =
      fun j => if j = i then q else s.m_peer_array j := by
    funext j
    split <;> rfl
  exact congrArg (fun peers => { s with m_peer_array := peers }) h

/-- The slot `i` after a registration, with the callback called. -/
def Service.registered (s : Service) (i : Nat) (p : Peer) : Service :=
  { s with
    m_serial := (s.m_serial + 1) % 2 ^ 64,
    reg := fun j => if j = i then s.count else s.reg j,
    count := s.count + 1,
    m_online_peers := s.m_online_peers ++ [i],
    m_peer_array := fun j => if j = i then p else s.m_peer_array j,
    stack := .onCon i s.m_serial :: s.stack }

theorem registered_self (s : Service) (i : Nat) (p : Peer) :
    (s.registered i p).m_peer_array i = p := if_pos rfl

theorem registered_ne {j : Nat} (hj : j ≠ i) (s : Service) (p : Peer) :
    (s.registered i p).m_peer_array j = s.m_peer_array j := if_neg hj

/-- What `registerSocket` does up to its callback. -/
inductive Registering (s : Service) (sd : Nat) : Service → Prop
  | full {s' : Service} (h : Quiet s s') : Registering s sd s'
  | callback {i : Nat} {p : Peer} (hi : i < MAX_PEER_NUM) (hfree : ¬s.Live i)
      (hsd : p.socket = some sd) (hp : p.serial = s.m_serial) :
      Registering s sd (s.registered i p)

theorem findFree_some {peers : Nat → Peer} {m j : Nat}
    (h : Iocp.Service.findFree peers m j = some i) : i < j + m ∧ (peers i).socket = none := by
  induction m generalizing j with
  | zero => cases h
  | succ m ih =>
    rw [Iocp.Service.findFree] at h
    split at h
    · obtain ⟨hi, hfree⟩ := ih h
      exact ⟨by omega, hfree⟩
    · next hj =>
      obtain rfl := Option.some.inj h
      exact ⟨by omega, not_not.mp hj⟩

theorem registerSocket_outcome (s : Service) (sd : Nat) (loc rem : Addr) :
    Registering s sd (s.registerSocket sd loc rem) := by
  unfold registerSocket newPeer
  cases hf : Iocp.Service.findFree s.m_peer_array MAX_PEER_NUM 0 with
  | none => exact .full (.throw _ _)
  | some i =>
    obtain ⟨hi, hfree⟩ := findFree_some hf
    rw [Nat.zero_add] at hi
    dsimp only
    rw [getPeer, if_neg (Nat.not_le.mpr hi), setPeer_self, setPeer_setPeer]
    exact .callback hi (not_not.mpr hfree) rfl rfl

/-- What the loop does at position `i` up to its callback or the write event. -/
inductive Looking (s : Service) (i : Nat) : Service → Prop
  | ended : Looking s i s
  | failed {s' : Service} (h : Quiet s s') : Looking s i s'
  | unmarked {index : Nat} (hi : s.m_online_peers[i]? = some index) :
      Looking s i (s.push (.write i index))
  | received {index : Nat} {t s' : Service} (hi : s.m_online_peers[i]? = some index)
      (hm : (s.m_peer_array index).socket ∈ s.m_read_set)
      (hq : Quiet (s.record (.recv (s.reg index))) t)
      (h : s' = t ∨ s' = t.push (.onRead i index) ∨
        Closing t index (t.m_peer_array index).serial (some .read) s') : Looking s i s'

theorem readEvent_outcome (s : Service) (i index : Nat) (ret : Int) (bytes : Bytes) :
    ∃ t, Quiet s t ∧ (s.readEvent i index ret bytes = t ∨
      s.readEvent i index ret bytes = t.push (.onRead i index) ∨
      Closing t index (t.m_peer_array index).serial (some .read)
        (s.readEvent i index ret bytes)) := by
  unfold readEvent
  split
  · exact ⟨s, .refl s, .inr (.inr (closePeer_outcome _ _ _ _))⟩
  · split
    · exact ⟨s, .refl s, .inr (.inr (closePeer_outcome _ _ _ _))⟩
    · obtain ⟨t, hq, h | ⟨_, h⟩⟩ := onReadBuf_outcome s index (received bytes)
        fun _ s => s.push (.onRead i index)
      · exact ⟨t, hq, .inl h⟩
      · exact ⟨t, hq, .inr (.inl h)⟩

theorem look_outcome (s : Service) (i : Nat) (pending : Option Bytes) :
    Looking s i (s.look i pending) := by
  unfold look
  cases hi : s.m_online_peers[i]? with
  | none => exact .ended
  | some index =>
    dsimp only
    rcases getPeer_outcome s index _ with h | ⟨-, h⟩
    · exact .failed h
    · rw [h]
      split
      · next hm =>
        obtain ⟨t, hq, h | ⟨len, h⟩⟩ := onReadBuf_outcome s index offerRead fun len s =>
          (s.record (.recv (s.reg index))).readEvent i index (recv pending len).1
            (recv pending len).2
        · exact .failed (h ▸ hq)
        · obtain ⟨u, hu, h'⟩ := readEvent_outcome (t.record (.recv (t.reg index))) i index
            (recv pending len).1 (recv pending len).2
          rw [h]
          exact .received hi (of_decide_eq_true hm) ((hq.record _).trans (hq.reg ▸ hu)) h'
      · exact .unmarked hi

/-- What the write event of a round does. -/
inductive Writing (s : Service) (i index : Nat) : Service → Prop
  | failed {s' : Service} (h : Quiet s s') : Writing s i index s'
  | skipped {t : Service} (h : Quiet s t) : Writing s i index (t.push (.loop (i + 1)))
  | sent {t s' : Service} (hm : (s.m_peer_array index).socket ∈ s.m_write_set)
      (hne : (s.m_peer_array index).write_buf.m_read_index ≠
        (s.m_peer_array index).write_buf.m_write_index)
      (hq : Quiet (s.record (.send (s.reg index))) t)
      (h : s' = t ∨ s' = t.push (.loop (i + 1)) ∨
        Closing t index (t.m_peer_array index).serial (some .write) s') : Writing s i index s'

theorem readableBytes_pos {b b' : SockBuf} {k : Nat} (h : SockBuf.readableBytes b = .ok k b')
    (hk : k > 0) : b.m_read_index ≠ b.m_write_index := by
  intro he
  unfold SockBuf.readableBytes at h
  dsimp only at h
  split at h
  · cases h
  · injection h with h
    rw [he, u32Sub_of_le (Nat.le_refl _), Nat.sub_self] at h
    omega

theorem writeEvent_outcome (s : Service) (i index k : Nat) (taken : Option Nat) :
    ∃ t, Quiet s t ∧ (s.writeEvent i index k taken = t ∨
      s.writeEvent i index k taken = t.push (.loop (i + 1)) ∨
      Closing t index (t.m_peer_array index).serial (some .write)
        (s.writeEvent i index k taken)) := by
  unfold writeEvent
  cases taken with
  | none => exact ⟨s, .refl s, .inr (.inr (closePeer_outcome _ _ _ _))⟩
  | some n =>
    obtain ⟨t, hq, h | ⟨_, _, -, h⟩⟩ := onWriteBuf_outcome s index (SockBuf.readMove (min n k))
      fun _ s => s.push (.loop (i + 1))
    · exact ⟨t, hq, .inl h⟩
    · exact ⟨t, hq, .inr (.inl h)⟩

theorem write_outcome (s : Service) (i index : Nat) (taken : Option Nat) :
    Writing s i index (s.write i index taken) := by
  unfold write
  split
  · next hm =>
    obtain ⟨t, hq, h | ⟨k, b, hb, h⟩⟩ := onWriteBuf_outcome s index SockBuf.readableBytes
      fun readable_byets s =>
        if readable_byets > 0 then
          (s.record (.send (s.reg index))).writeEvent i index readable_byets taken
        else s.push (.loop (i + 1))
    · exact .failed (h ▸ hq)
    · rw [h]
      split
      · next hk =>
        obtain ⟨u, hu, h'⟩ := writeEvent_outcome (t.record (.send (t.reg index))) i index k taken
        exact .sent (of_decide_eq_true hm) (readableBytes_pos hb hk) ((hq.record _).trans (hq.reg ▸ hu)) h'
      · exact .skipped hq
  · exact .skipped (.refl s)

/-- `onReadBuf_outcome` with nothing behind it. -/
theorem readMove_quiet (s : Service) (i len : Nat) :
    Quiet s (s.onPeer i (Peer.onReadBuf (SockBuf.readMove len)) fun _ s => s) := by
  obtain ⟨t, hq, h | ⟨_, h⟩⟩ := onReadBuf_outcome s i (SockBuf.readMove len) fun _ t => t
  · exact h ▸ hq
  · exact h ▸ hq

/-! ## The loop of `initSets` -/

/-- What buffers do not matter to and the three things keep that `initSets` does for a live peer,
`initSets` keeps. -/
theorem putPeers_invariant {P : Service → Prop} (hq : ∀ {s t}, P s → Quiet s t → P t)
    (hsee : ∀ {s} i, P s → s.Live i → P (s.see i))
    (hwrite : ∀ {s} i, P s → s.Live i → s.reg i ∈ s.known → P (s.putWrite i))
    (hread : ∀ {s} i, P s → s.Live i → s.reg i ∈ s.known → P (s.putRead i)) :
    ∀ (l : List Nat) {s : Service}, P s → (∀ i ∈ l, s.Live i) → P (putPeers l s)
  | [], _, h, _ => h
  | i :: l, s, h, hl => by
    rw [putPeers]
    rcases getPeer_outcome s i _ with hg | ⟨-, hg⟩
    · exact hq h hg
    · rw [hg]
      have hi := hl i List.mem_cons_self
      obtain ⟨t, ht, h' | ⟨k, _, -, h'⟩⟩ := onWriteBuf_outcome (s.see i) i SockBuf.readableBytes
        fun readable s => putPeers l ((if readable > 0 then s.putWrite i else s).putRead i)
      · exact h' ▸ hq (hsee i h hi) ht
      · rw [h']
        have hPt : P t := hq (hsee i h hi) ht
        have hlive : ∀ j ∈ l, t.Live j := fun j hj =>
          (ht.live j).mpr (hl j (List.mem_cons_of_mem _ hj))
        have hit : t.Live i := (ht.live i).mpr hi
        have hk : t.reg i ∈ t.known := by
          obtain ⟨p, e, -, rfl⟩ := ht
          exact List.mem_cons_self
        refine putPeers_invariant hq hsee hwrite hread l ?_ ?_
        · split
          · exact hread i (hwrite i hPt hit hk) hit hk
          · exact hread i hPt hit hk
        · split
          · exact hlive
          · exact hlive

theorem putListen_live (s : Service) (j : Nat) : s.zeroSets.putListen.Live j ↔ s.Live j := by
  unfold Service.putListen
  split <;> rfl

/-- What `onEventTick` does up to its loop. -/
inductive Ticking (s : Service) (a : Selected) : Service → Prop
  | idle : Ticking s a s
  | failed {s' : Service} (h : Quiet s.initSets s') : Ticking s a s'
  | ready {rs ws : FdSet} {s' : Service} (ha : a = .ready rs ws)
      (h : s' = { s.initSets with m_read_set := rs, m_write_set := ws } ∨
        ∃ f, (f = .accepting ∨ f = .loop 0) ∧
          s' = { s.initSets with m_read_set := rs, m_write_set := ws }.push f) : Ticking s a s'

theorem onEventTick_outcome (s : Service) (a : Selected) : Ticking s a (s.onEventTick a) := by
  unfold onEventTick
  split
  · exact .idle
  · split
    · exact .failed (.refl _)
    · cases a with
      | error => exact .failed (.throw _ _)
      | ready rs ws =>
        unfold selected
        dsimp only
        split
        · exact .ready rfl (.inl rfl)
        · split
          · exact .ready rfl (.inr ⟨_, .inl rfl, rfl⟩)
          · exact .ready rfl (.inr ⟨_, .inr rfl, rfl⟩)

/-- The service behind `closePeer` of the slot `i`. -/
def Service.closed (s : Service) (i : Nat) (b : Option Which) : Service :=
  { s with
    m_online_peers := s.m_online_peers.erase i,
    m_peer_array := fun j =>
      if j = i then (s.m_peer_array i).withSocket none else s.m_peer_array j,
    opened := (s.m_peer_array i).socket.elim s.opened s.opened.erase,
    acts := b.elim s.acts fun w => .close w (s.reg i) :: s.acts }

theorem closePeerEnd_eq (s : Service) (i : Nat) (b : Option Which) :
    s.closePeerEnd i b = s.closed i b := by
  unfold closePeerEnd closed
  dsimp only
  cases (s.m_peer_array i).socket with
  | none => cases b <;> rfl
  | some sd => cases b <;> rfl

theorem closed_ne {j : Nat} (hj : j ≠ i) (s : Service) (b : Option Which) :
    (s.closed i b).m_peer_array j = s.m_peer_array j := if_neg hj

theorem closed_live (s : Service) (i : Nat) (b : Option Which) (j : Nat) :
    (s.closed i b).Live j ↔ j ≠ i ∧ s.Live j := by
  by_cases hj : j = i
  · subst hj
    refine iff_of_false (fun hl => hl ?_) fun hl => hl.1 rfl
    show (if j = j then _ else _ : Peer).socket = none
    rw [if_pos rfl]
    rfl
  · rw [Service.Live, closed_ne hj]
    exact (and_iff_right hj).symm

/-! ## Steps -/

/-- The steps of the machine, each with its place. -/
inductive Stepping (s : Service) : Action → Service → Prop
  | send {i n : Nat} {buf : Bytes} : Stepping s (.send i n buf) (s.send i n buf)
  | closePeer {i n : Nat} : Stepping s (.closePeer i n) (s.closePeer i n none)
  | connectPeer (c : Connected) : Stepping s (.connectPeer c) (s.connectPeer c)
  | listen (l : Listened) : Stepping s (.listen l) (s.listen l)
  | tick {a : Selected} (hs : s.stack = []) (ha : s.initSets.selects a = true) :
      Stepping s (.tick a) (s.onEventTick a)
  | accept {rest : List Frame} (hs : s.stack = .accepting :: rest) (a : Accepted) :
      Stepping s (.accept a) ((s.popped rest).accept a)
  | look {i : Nat} {pending : Option Bytes} {rest : List Frame} (hs : s.stack = .loop i :: rest) :
      Stepping s (.look pending) ((s.popped rest).look i pending)
  | write {i index : Nat} {taken : Option Nat} {rest : List Frame}
      (hs : s.stack = .write i index :: rest) :
      Stepping s (.write taken) ((s.popped rest).write i index taken)
  | readMove {len index : Nat} :
      Stepping s (.readMove len)
        (s.onPeer index (Peer.onReadBuf (SockBuf.readMove len)) fun _ s => s)
  | onCon {ret : Int} {i n : Nat} {rest : List Frame} (hs : s.stack = .onCon i n :: rest) :
      Stepping s (.return_ ret) (s.popped rest)
  | onRead {ret : Int} {i index : Nat} {rest : List Frame}
      (hs : s.stack = .onRead i index :: rest) :
      Stepping s (.return_ ret) ((s.popped rest).lookEnd i index ret)
  | onDisCon {ret : Int} {i n : Nat} {b : Option Which} {rest : List Frame}
      (hs : s.stack = .onDisCon i n b :: rest) :
      Stepping s (.return_ ret) ((s.popped rest).closePeerEnd i b)
  | raise : Stepping s .raise (s.throw (.peer .user))
  | unwind {f : Frame} {rest : List Frame} (hs : s.stack = f :: rest) :
      Stepping s .unwind (s.popped rest)
  | catch_ : Stepping s .catch_ { s with thrown := none }

theorem stepping_of_act (h : act s a = some s') : Stepping s a s' := by
  cases a with
  | send | closePeer | connectPeer | listen | raise =>
    simp only [act, Option.ite_none_right_eq_some, Option.some.injEq] at h
    obtain ⟨-, rfl⟩ := h
    constructor
  | tick =>
    simp only [act, Option.ite_none_right_eq_some, Option.some.injEq] at h
    obtain ⟨⟨-, hs, ha⟩, rfl⟩ := h
    exact .tick hs ha
  | accept a =>
    simp only [act] at h
    split at h
    · next hs => exact Option.some.inj h ▸ .accept hs a
    · cases h
  | look | write =>
    simp only [act] at h
    split at h
    · next hs =>
      obtain rfl := Option.some.inj h
      constructor
      exact hs
    · cases h
  | readMove =>
    simp only [act] at h
    split at h
    · exact Option.some.inj h ▸ .readMove
    · cases h
  | return_ =>
    simp only [act] at h
    split at h
    · next hs => exact Option.some.inj h ▸ .onCon hs
    · next hs => exact Option.some.inj h ▸ .onRead hs
    · next hs => exact Option.some.inj h ▸ .onDisCon hs
    · cases h
  | unwind =>
    simp only [act] at h
    split at h
    · next hs => exact Option.some.inj h ▸ .unwind hs
    · cases h
  | catch_ =>
    simp only [act] at h
    split at h
    · exact Option.some.inj h ▸ .catch_
    · split at h
      · exact Option.some.inj h ▸ .catch_
      · cases h
    · cases h

/-- A step, and that the handle given out in it was not open. -/
theorem stepping (h : step s a = some s') :
    Stepping s a s' ∧ ∀ sd, a.handle = some sd → sd ∉ s.opened := by
  rw [step, Option.ite_none_right_eq_some] at h
  refine ⟨stepping_of_act h.2, fun sd hsd => ?_⟩
  have hall := h.1
  rw [hsd] at hall
  exact of_decide_eq_true hall

end GhNet.Select
