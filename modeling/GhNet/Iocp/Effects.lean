import Mathlib.Tactic.NormNum
import GhNet.Iocp.Machine

/-!
# What each function of the service can do

One inductive relation per function lists its outcomes. The later files argue by cases on these
and never unfold the functions again.

Buffers are left abstract here: an outcome says which fields of the peer the code has touched.
-/

namespace GhNet.Iocp

open GhNet Service

variable {s s' : Service} {i n : Nat} {p p' : Peer}

/-! ## Fields after the primitive updates -/

/-- The slot `i` holds the connection with serial `n`. -/
def Service.Live (s : Service) (i n : Nat) : Prop :=
  (s.m_peer_array i).socket ≠ none ∧ (s.m_peer_array i).serial = n

instance (s : Service) (i n : Nat) : Decidable (s.Live i n) := inferInstanceAs (Decidable (_ ∧ _))

namespace Service

@[simp] theorem setPeer_self (s : Service) (i : Nat) (p : Peer) :
    (s.setPeer i p).m_peer_array i = p := if_pos rfl

theorem setPeer_ne {j : Nat} (h : j ≠ i) (s : Service) (p : Peer) :
    (s.setPeer i p).m_peer_array j = s.m_peer_array j := if_neg h

@[simp] theorem setPeer_posted (s : Service) (i : Nat) (p : Peer) :
    (s.setPeer i p).posted = s.posted := rfl
@[simp] theorem setPeer_stack (s : Service) (i : Nat) (p : Peer) :
    (s.setPeer i p).stack = s.stack := rfl
@[simp] theorem setPeer_log (s : Service) (i : Nat) (p : Peer) : (s.setPeer i p).log = s.log := rfl
@[simp] theorem setPeer_m_serial (s : Service) (i : Nat) (p : Peer) :
    (s.setPeer i p).m_serial = s.m_serial := rfl
@[simp] theorem setPeer_thrown (s : Service) (i : Nat) (p : Peer) :
    (s.setPeer i p).thrown = s.thrown := rfl

theorem setPeer_setPeer (s : Service) (i : Nat) (p q : Peer) :
    (s.setPeer i p).setPeer i q = s.setPeer i q := by
  unfold setPeer
  congr 1
  funext j
  by_cases h : j = i <;> simp [h]

@[simp] theorem throw_peer (s : Service) (e : Exception) :
    (s.throw e).m_peer_array = s.m_peer_array := rfl
@[simp] theorem throw_posted (s : Service) (e : Exception) : (s.throw e).posted = s.posted := rfl
@[simp] theorem throw_stack (s : Service) (e : Exception) : (s.throw e).stack = s.stack := rfl
@[simp] theorem throw_log (s : Service) (e : Exception) : (s.throw e).log = s.log := rfl
@[simp] theorem throw_m_serial (s : Service) (e : Exception) :
    (s.throw e).m_serial = s.m_serial := rfl

@[simp] theorem record_peer (s : Service) (e : Event) :
    (s.record e).m_peer_array = s.m_peer_array := rfl
@[simp] theorem record_posted (s : Service) (e : Event) : (s.record e).posted = s.posted := rfl
@[simp] theorem record_stack (s : Service) (e : Event) : (s.record e).stack = s.stack := rfl
@[simp] theorem record_log (s : Service) (e : Event) : (s.record e).log = s.log ++ [e] := rfl
@[simp] theorem record_m_serial (s : Service) (e : Event) :
    (s.record e).m_serial = s.m_serial := rfl

@[simp] theorem push_peer (s : Service) (f : Frame) :
    (s.push f).m_peer_array = s.m_peer_array := rfl
@[simp] theorem push_posted (s : Service) (f : Frame) : (s.push f).posted = s.posted := rfl
@[simp] theorem push_stack (s : Service) (f : Frame) : (s.push f).stack = f :: s.stack := rfl
@[simp] theorem push_log (s : Service) (f : Frame) : (s.push f).log = s.log := rfl
@[simp] theorem push_m_serial (s : Service) (f : Frame) : (s.push f).m_serial = s.m_serial := rfl

@[simp] theorem post_peer (s : Service) (r : Request) :
    (s.post r).m_peer_array = s.m_peer_array := rfl
@[simp] theorem post_posted (s : Service) (r : Request) :
    (s.post r).posted = s.posted ++ [r] := rfl
@[simp] theorem post_stack (s : Service) (r : Request) : (s.post r).stack = s.stack := rfl
@[simp] theorem post_log (s : Service) (r : Request) : (s.post r).log = s.log := rfl
@[simp] theorem post_m_serial (s : Service) (r : Request) : (s.post r).m_serial = s.m_serial := rfl

@[simp] theorem newIOCxt_peer (s : Service) : s.newIOCxt.2.m_peer_array = s.m_peer_array := rfl
@[simp] theorem newIOCxt_posted (s : Service) : s.newIOCxt.2.posted = s.posted := rfl
@[simp] theorem newIOCxt_stack (s : Service) : s.newIOCxt.2.stack = s.stack := rfl
@[simp] theorem newIOCxt_log (s : Service) : s.newIOCxt.2.log = s.log := rfl
@[simp] theorem newIOCxt_m_serial (s : Service) : s.newIOCxt.2.m_serial = s.m_serial := rfl

/-! ## Code on one peer -/

/-- `getPeer` throws, or the code behind it goes on with the peer of the slot. -/
theorem getPeer_cases (s : Service) (i : Nat) (k : Peer → Service) :
    (MAX_PEER_NUM ≤ i ∧ ∃ e, s.getPeer i k = s.throw e) ∨
      s.getPeer i k = k (s.m_peer_array i) := by
  unfold getPeer
  by_cases h : i ≥ MAX_PEER_NUM
  · exact Or.inl ⟨h, _, if_pos h⟩
  · exact Or.inr (if_neg h)

theorem onPeer_ok {α : Type} {m : PeerM α} {a : α} (h : m (s.m_peer_array i) = .ok a p')
    (k : α → Service → Service) : s.onPeer i m k = k a (s.setPeer i p') := by
  rw [onPeer, h]

theorem onPeer_error {α : Type} {m : PeerM α} {e : Exception}
    (h : m (s.m_peer_array i) = .error e p') (k : α → Service → Service) :
    s.onPeer i m k = (s.setPeer i p').throw e := by
  rw [onPeer, h]

theorem onPeer_setWsaSend (s : Service) (i : Nat) (v : Bool) (k : Unit → Service → Service) :
    s.onPeer i (Peer.setWsaSend v) k
      = k () (s.setPeer i ((s.m_peer_array i).withWsaSend v)) := rfl

end Service

/-- The peer a piece of code leaves, with or without an exception. -/
def resultState {ε σ α : Type} : EStateM.Result ε σ α → σ
  | .ok _ s => s
  | .error _ s => s

/-- Code that keeps what `R` relates. -/
def Keeps {σ α : Type} {ε : Type} (R : σ → σ → Prop) (m : EStateM ε σ α) : Prop :=
  ∀ p, R p (resultState (m p))

theorem Keeps.ok {ε σ α : Type} {R : σ → σ → Prop} {m : EStateM ε σ α} (h : Keeps R m) {a : α}
    {x y : σ} (hm : m x = .ok a y) : R x y := by
  have := h x
  rwa [hm] at this

theorem Keeps.error {ε σ α : Type} {R : σ → σ → Prop} {m : EStateM ε σ α} (h : Keeps R m) {e : ε}
    {x y : σ} (hm : m x = .error e y) : R x y := by
  have := h x
  rwa [hm] at this

theorem Keeps.bind {ε σ α β : Type} {R : σ → σ → Prop} (htrans : ∀ x y z, R x y → R y z → R x z)
    {m : EStateM ε σ α} {f : α → EStateM ε σ β} (hm : Keeps R m) (hf : ∀ a, Keeps R (f a)) :
    Keeps R (m >>= f) := by
  intro x
  cases hx : m x with
  | ok a y => rw [bind_ok hx]; exact htrans _ _ _ (hm.ok hx) (hf a y)
  | error e y => rw [bind_error hx]; exact hm.error hx

/-- The peer still has the same connection, and its receive side is untouched. -/
structure SendSide (p p' : Peer) : Prop where
  socket : p'.socket = p.socket
  serial : p'.serial = p.serial
  read_buf : p'.read_buf = p.read_buf
  remote_addr : p'.remote_addr = p.remote_addr

/-- The peer still has the same connection, and its send side is untouched. -/
structure ReadSide (p p' : Peer) : Prop where
  socket : p'.socket = p.socket
  serial : p'.serial = p.serial
  remote_addr : p'.remote_addr = p.remote_addr
  wsa_send : p'.wsa_send = p.wsa_send
  write_buf : p'.write_buf = p.write_buf
  write_buf_backup_ : p'.write_buf_backup_ = p.write_buf_backup_

theorem SendSide.refl (p : Peer) : SendSide p p := ⟨rfl, rfl, rfl, rfl⟩

theorem SendSide.trans (p q r : Peer) (h1 : SendSide p q) (h2 : SendSide q r) : SendSide p r :=
  ⟨h2.socket.trans h1.socket, h2.serial.trans h1.serial, h2.read_buf.trans h1.read_buf,
    h2.remote_addr.trans h1.remote_addr⟩

theorem ReadSide.refl (p : Peer) : ReadSide p p := ⟨rfl, rfl, rfl, rfl, rfl, rfl⟩

theorem ReadSide.trans (p q r : Peer) (h1 : ReadSide p q) (h2 : ReadSide q r) : ReadSide p r :=
  ⟨h2.socket.trans h1.socket, h2.serial.trans h1.serial, h2.remote_addr.trans h1.remote_addr,
    h2.wsa_send.trans h1.wsa_send, h2.write_buf.trans h1.write_buf,
    h2.write_buf_backup_.trans h1.write_buf_backup_⟩

section Sides

variable {α : Type}

theorem keeps_onReadBuf (m : SockBufM α) : Keeps ReadSide (Peer.onReadBuf m) := by
  intro p
  unfold Peer.onReadBuf
  cases m p.read_buf <;> exact ⟨rfl, rfl, rfl, rfl, rfl, rfl⟩

theorem keeps_onWriteBuf (m : SockBufM α) : Keeps SendSide (Peer.onWriteBuf m) := by
  intro p
  unfold Peer.onWriteBuf
  cases m p.write_buf <;> exact ⟨rfl, rfl, rfl, rfl⟩

theorem keeps_onBackup (m : SockBufM α) : Keeps SendSide (Peer.onBackup m) := by
  intro p
  unfold Peer.onBackup
  cases m p.write_buf_backup_ <;> exact ⟨rfl, rfl, rfl, rfl⟩

/-- The backup is a buffer of its own. -/
theorem onBackup_fields (m : SockBufM α) (p : Peer) :
    (resultState (Peer.onBackup m p)).wsa_send = p.wsa_send ∧
      (resultState (Peer.onBackup m p)).write_buf = p.write_buf := by
  unfold Peer.onBackup
  cases m p.write_buf_backup_ <;> exact ⟨rfl, rfl⟩

theorem keeps_setWsaSend (v : Bool) : Keeps SendSide (Peer.setWsaSend v) :=
  fun _ => ⟨rfl, rfl, rfl, rfl⟩

theorem keeps_offerRead : Keeps ReadSide offerRead := by
  refine .bind ReadSide.trans (keeps_onReadBuf _) fun _ => ?_
  refine .bind ReadSide.trans (keeps_onReadBuf _) fun _ => ?_
  exact fun p => ReadSide.refl p

theorem keeps_drainWrite (size : Nat) : Keeps SendSide (drainWrite size) := by
  refine .bind SendSide.trans (keeps_setWsaSend _) fun _ => ?_
  refine .bind SendSide.trans (keeps_onWriteBuf _) fun _ => ?_
  refine .bind SendSide.trans (keeps_onBackup _) fun send_bytes => ?_
  by_cases h : send_bytes > 0
  · simp only [h, if_true]
    refine .bind SendSide.trans (fun p => SendSide.refl p) fun _ => ?_
    refine .bind SendSide.trans (keeps_onWriteBuf _) fun _ => ?_
    exact .bind SendSide.trans (keeps_onBackup _) fun _ => keeps_onWriteBuf _
  · simp only [h, if_false]
    exact keeps_onWriteBuf _

/-- The region of a `WSASend` is what is readable in `write_buf`. -/
theorem offerWrite_readable {p : Peer} {len : Nat}
    (h : SockBuf.readableBytes p.write_buf = .ok len p.write_buf) :
    offerWrite p = .ok ⟨p.write_buf.m_buf, p.write_buf.m_read_index, len⟩ p := by
  have hlen : Peer.onWriteBuf SockBuf.readableBytes p = .ok len p := by rw [Peer.onWriteBuf, h]
  rw [offerWrite, bind_ok hlen, bind_ok get_eq]
  rfl

/-- Filling in the region of a `WSASend` changes nothing. -/
theorem offerWrite_state (p : Peer) : resultState (offerWrite p) = p := by
  have hr : ∀ b, (∃ k, SockBuf.readableBytes b = .ok k b) ∨
      (∃ e, SockBuf.readableBytes b = .error e b) := by
    intro b
    unfold SockBuf.readableBytes
    by_cases h : 2 ^ 31 ≤ u32Sub b.m_write_index b.m_read_index
    · exact Or.inr ⟨_, if_pos h⟩
    · exact Or.inl ⟨_, if_neg h⟩
  rcases hr p.write_buf with ⟨k, hk⟩ | ⟨e, he⟩
  · rw [offerWrite_readable hk]
    rfl
  · have h : Peer.onWriteBuf SockBuf.readableBytes p = .error e p := by rw [Peer.onWriteBuf, he]
    rw [offerWrite, bind_error h]
    rfl

/-- The region of a `WSARecv` is all that is writable behind the content. -/
theorem offerRead_ok {p : Peer} {b : SockBuf}
    (hm : SockBuf.ensureWritableBytes 512 p.read_buf = .ok () b) (hv : b.Valid) :
    offerRead p = .ok ⟨b.m_buf, b.m_write_index, b.m_size - b.m_write_index⟩ (p.withReadBuf b) := by
  have hensure : Peer.onReadBuf (SockBuf.ensureWritableBytes 512) p = .ok () (p.withReadBuf b) := by
    rw [Peer.onReadBuf, hm]
  have hlen : Peer.onReadBuf SockBuf.writableBytes (p.withReadBuf b)
      = .ok (b.m_size - b.m_write_index) (p.withReadBuf b) := by
    rw [Peer.onReadBuf, show (p.withReadBuf b).read_buf = b from rfl, SockBuf.writableBytes_eq hv]
    rfl
  rw [offerRead, bind_ok hensure, bind_ok hlen, bind_ok get_eq]
  rfl

end Sides

/-! ## Outcomes -/

/-- `closePeer(i, n)` up to its callback. -/
inductive Closing (s : Service) (i n : Nat) : Service → Prop
  | outOfRange (hi : MAX_PEER_NUM ≤ i) (e : Exception) : Closing s i n (s.throw e)
  | stale (h : ¬s.Live i n) : Closing s i n s
  | callback (h : s.Live i n) (remote : Addr) :
      Closing s i n ((s.record (.onDisCon i n remote)).push (.onDisCon i n))

/-- `postRecvRequest(i, n)`. -/
inductive RecvPosting (s : Service) (i n : Nat) : Service → Prop
  | outOfRange (hi : MAX_PEER_NUM ≤ i) (e : Exception) : RecvPosting s i n (s.throw e)
  | stale (h : ¬s.Live i n) : RecvPosting s i n s
  | failed (h : s.Live i n) (e : Exception) (p' : Peer) (hp : ReadSide (s.m_peer_array i) p') :
      RecvPosting s i n ((s.newIOCxt.2.setPeer i p').throw e)
  | accepted (h : s.Live i n) (w : WSABUF) (p' : Peer)
      (hm : offerRead (s.m_peer_array i) = .ok w p') :
      RecvPosting s i n ((s.newIOCxt.2.setPeer i p').post
        ⟨s.newIOCxt.1, .ClientIoRead, i, n, some w⟩)
  | refused (h : s.Live i n) (p' : Peer) (hp : ReadSide (s.m_peer_array i) p') (s' : Service)
      (hc : Closing (s.newIOCxt.2.setPeer i p') i n s') : RecvPosting s i n s'

/-- `postSendRequest(i, n)`. Whatever happens to a live connection, `wsa_send` is set. -/
inductive SendPosting (s : Service) (i n : Nat) (accepted : Bool) : Service → Prop
  | outOfRange (hi : MAX_PEER_NUM ≤ i) (e : Exception) : SendPosting s i n accepted (s.throw e)
  | stale (h : ¬s.Live i n) : SendPosting s i n accepted s
  | failed (h : s.Live i n) (e : Exception) (p' : Peer)
      (hp : p' = (s.m_peer_array i).withWsaSend true)
      (hm : offerWrite p' = .error e p') :
      SendPosting s i n accepted ((s.newIOCxt.2.setPeer i p').throw e)
  | accepted (h : s.Live i n) (hacc : accepted = true) (w : WSABUF) (p' : Peer)
      (hp : p' = (s.m_peer_array i).withWsaSend true)
      (hm : offerWrite p' = .ok w p') :
      SendPosting s i n accepted ((s.newIOCxt.2.setPeer i p').post
        ⟨s.newIOCxt.1, .ClientIoWrite, i, n, some w⟩)
  | refused (h : s.Live i n) (hacc : accepted = false) (p' : Peer)
      (hp : p' = (s.m_peer_array i).withWsaSend true) (s' : Service)
      (hc : Closing (s.newIOCxt.2.setPeer i p') i n s') : SendPosting s i n accepted s'

/-- `send(i, n, buf)`. -/
inductive Sending (s : Service) (i n : Nat) (buf : Bytes) (accepted : Bool) : Service → Prop
  | outOfRange (hi : MAX_PEER_NUM ≤ i) (e : Exception) : Sending s i n buf accepted (s.throw e)
  | stale (h : ¬s.Live i n) : Sending s i n buf accepted s
  | failed (h : s.Live i n) (e : Exception) (p' : Peer)
      (hm : Peer.onBackup (SockBuf.apendBuf buf) (s.m_peer_array i) = .error e p') :
      Sending s i n buf accepted (((s.record (.sent i n buf)).setPeer i p').throw e)
  | queued (h : s.Live i n) (p' : Peer)
      (hm : Peer.onBackup (SockBuf.apendBuf buf) (s.m_peer_array i) = .ok () p')
      (hw : p'.wsa_send = true) :
      Sending s i n buf accepted ((s.record (.sent i n buf)).setPeer i p')
  | signalled (h : s.Live i n) (hacc : accepted = true) (p' : Peer)
      (hm : Peer.onBackup (SockBuf.apendBuf buf) (s.m_peer_array i) = .ok () p')
      (hw : p'.wsa_send = false) :
      Sending s i n buf accepted
        (((s.record (.sent i n buf)).newIOCxt.2.setPeer i (p'.withWsaSend true)).post
          ⟨s.newIOCxt.1, .ClientIoWrite, i, n, none⟩)
  | refused (h : s.Live i n) (hacc : accepted = false) (p' : Peer)
      (hm : Peer.onBackup (SockBuf.apendBuf buf) (s.m_peer_array i) = .ok () p')
      (hw : p'.wsa_send = false) :
      Sending s i n buf accepted
        (((s.record (.sent i n buf)).newIOCxt.2.setPeer i (p'.withWsaSend true)).throw
          .postError)

/-- `processWrite(i, size)`. -/
inductive Writing (s : Service) (i size : Nat) (accepted : Bool) : Service → Prop
  | outOfRange (hi : MAX_PEER_NUM ≤ i) (e : Exception) : Writing s i size accepted (s.throw e)
  | closed (h : (s.m_peer_array i).socket = none) : Writing s i size accepted s
  | failed (h : (s.m_peer_array i).socket ≠ none) (e : Exception) (p' : Peer)
      (hm : drainWrite size (s.m_peer_array i) = .error e p') :
      Writing s i size accepted ((s.setPeer i p').throw e)
  | drained (h : (s.m_peer_array i).socket ≠ none) (p' : Peer)
      (hm : drainWrite size (s.m_peer_array i) = .ok 0 p') :
      Writing s i size accepted (s.setPeer i p')
  | more (h : (s.m_peer_array i).socket ≠ none) (k : Nat) (hk : 0 < k) (p' : Peer)
      (hm : drainWrite size (s.m_peer_array i) = .ok k p') (s' : Service)
      (hs : SendPosting (s.setPeer i p') i (s.m_peer_array i).serial accepted s') :
      Writing s i size accepted s'

/-- `processRead(i, size)` up to its callback. -/
inductive Reading (s : Service) (i size : Nat) : Service → Prop
  | outOfRange (hi : MAX_PEER_NUM ≤ i) (e : Exception) : Reading s i size (s.throw e)
  | closed (h : (s.m_peer_array i).socket = none) : Reading s i size s
  | failed (h : (s.m_peer_array i).socket ≠ none) (e : Exception) (p' : Peer)
      (hm : Peer.onReadBuf (SockBuf.writeMove size) (s.m_peer_array i) = .error e p') :
      Reading s i size ((s.setPeer i p').throw e)
  | callback (h : (s.m_peer_array i).socket ≠ none) (p' : Peer)
      (hm : Peer.onReadBuf (SockBuf.writeMove size) (s.m_peer_array i) = .ok () p') :
      Reading s i size (((s.setPeer i p').record (.onRead i (s.m_peer_array i).serial)).push
        (.onRead i (s.m_peer_array i).serial))

/-- `registerSocket` up to its callback. -/
inductive Registering (s : Service) : Service → Prop
  | full (e : Exception) : Registering s (s.throw e)
  | unbound (i : Nat) (hfree : (s.m_peer_array i).socket = none) (e : Exception) :
      Registering s (({ s with m_serial := (s.m_serial + 1) % 2 ^ 64 }.setPeer i
        (resetPeer (s.m_peer_array i) s.m_serial)).throw e)
  | callback (i : Nat) (hi : i < MAX_PEER_NUM) (hfree : (s.m_peer_array i).socket = none)
      (p' : Peer) (sd : Nat) (local_addr remote_addr : Addr)
      (hp : p' = { resetPeer (s.m_peer_array i) s.m_serial with
        socket := some sd, local_addr := local_addr, remote_addr := remote_addr }) :
      Registering s ((({ s with m_serial := (s.m_serial + 1) % 2 ^ 64 }.setPeer i p').record
        (.onCon i s.m_serial remote_addr)).push (.onCon i s.m_serial))

/-- A free slot that stays without a socket holds no connection. -/
theorem setPeer_live_unbound (hfree : (s.m_peer_array i).socket = none) (j m : Nat) :
    (s.setPeer i (resetPeer (s.m_peer_array i) s.m_serial)).Live j m ↔ s.Live j m := by
  unfold Live
  by_cases hj : j = i
  · subst hj
    rw [setPeer_self, hfree]
    exact ⟨fun h => absurd rfl h.1, fun h => absurd rfl h.1⟩
  · rw [setPeer_ne hj]

/-- A free slot that gets a socket holds a connection with the next serial. -/
theorem setPeer_live_callback {p' : Peer} {sd : Nat} {local_addr remote_addr : Addr}
    (hfree : (s.m_peer_array i).socket = none)
    (hp : p' = { resetPeer (s.m_peer_array i) s.m_serial with
      socket := some sd, local_addr := local_addr, remote_addr := remote_addr }) (j m : Nat) :
    (s.setPeer i p').Live j m ↔ (j = i ∧ m = s.m_serial) ∨ s.Live j m := by
  unfold Live
  by_cases hj : j = i
  · subst hj
    rw [setPeer_self, hp, hfree]
    simp [resetPeer, eq_comm]
  · rw [setPeer_ne hj]
    simp [hj]

/-! ## Every function has one of its outcomes -/

theorem not_live_of_guard
    (h : (s.m_peer_array i).serial ≠ n ∨ (s.m_peer_array i).socket = none) : ¬s.Live i n := by
  rintro ⟨h1, h2⟩
  rcases h with h | h
  · exact h h2
  · exact h1 h

theorem live_of_guard
    (h : ¬((s.m_peer_array i).serial ≠ n ∨ (s.m_peer_array i).socket = none)) : s.Live i n := by
  rw [not_or, not_not] at h
  exact ⟨h.2, h.1⟩

theorem closePeer_outcome (s : Service) (i n : Nat) : Closing s i n (s.closePeer i n) := by
  rw [closePeer]
  rcases getPeer_cases s i _ with ⟨hi, e, h⟩ | h
  · rw [h]
    exact .outOfRange hi e
  · rw [h]
    split
    · next h => exact .stale (not_live_of_guard h)
    · next h => exact .callback (live_of_guard h) _

theorem postRecvRequest_outcome (s : Service) (i n : Nat) (accepted : Bool) :
    RecvPosting s i n (s.postRecvRequest i n accepted) := by
  rw [postRecvRequest]
  rcases getPeer_cases s i _ with ⟨hi, e, h⟩ | h
  · rw [h]
    exact .outOfRange hi e
  · rw [h]
    split
    · next h => exact .stale (not_live_of_guard h)
    · next h =>
      have hl := live_of_guard h
      cases hm : offerRead (s.m_peer_array i) with
      | ok w p' =>
        rw [onPeer_ok (s := s.newIOCxt.2) hm]
        cases accepted with
        | true => exact .accepted hl w p' hm
        | false => exact .refused hl p' (keeps_offerRead.ok hm) _ (closePeer_outcome _ _ _)
      | error e p' =>
        rw [onPeer_error (s := s.newIOCxt.2) hm]
        exact .failed hl e p' (keeps_offerRead.error hm)

theorem postSendRequest_outcome (s : Service) (i n : Nat) (accepted : Bool) :
    SendPosting s i n accepted (s.postSendRequest i n accepted) := by
  rw [postSendRequest]
  rcases getPeer_cases s i _ with ⟨hi, e, h⟩ | h
  · rw [h]
    exact .outOfRange hi e
  · rw [h]
    split
    · next h => exact .stale (not_live_of_guard h)
    · next h =>
      have hl := live_of_guard h
      rw [onPeer_setWsaSend]
      generalize hq : (s.m_peer_array i).withWsaSend true = q
      have hpeer : (s.setPeer i q).newIOCxt.2.m_peer_array i = q := setPeer_self s i q
      have hset : (s.setPeer i q).newIOCxt.2.setPeer i q = s.newIOCxt.2.setPeer i q :=
        setPeer_setPeer s.newIOCxt.2 i q q
      have hst := offerWrite_state q
      cases hm : offerWrite q with
      | ok w p' =>
        rw [hm] at hst
        obtain rfl : p' = q := hst
        have hm' : offerWrite ((s.setPeer i p').newIOCxt.2.m_peer_array i) = .ok w p' := by
          rw [hpeer, hm]
        rw [onPeer_ok hm', hset]
        cases accepted with
        | true => exact .accepted hl rfl w p' hq.symm hm
        | false => exact .refused hl rfl p' hq.symm _ (closePeer_outcome _ _ _)
      | error e p' =>
        rw [hm] at hst
        obtain rfl : p' = q := hst
        have hm' : offerWrite ((s.setPeer i p').newIOCxt.2.m_peer_array i) = .error e p' := by
          rw [hpeer, hm]
        rw [onPeer_error hm', hset]
        exact .failed hl e p' hq.symm hm

theorem send_outcome (s : Service) (i n : Nat) (buf : Bytes) (accepted : Bool) :
    Sending s i n buf accepted (s.send i n buf accepted) := by
  rw [send]
  rcases getPeer_cases s i _ with ⟨hi, e, h⟩ | h
  · rw [h]
    exact .outOfRange hi e
  · rw [h]
    split
    · next h => exact .stale (not_live_of_guard h)
    · next h =>
      have hl := live_of_guard h
      cases hm : Peer.onBackup (SockBuf.apendBuf buf) (s.m_peer_array i) with
      | error e p' =>
        rw [onPeer_error (s := s.record (.sent i n buf)) hm]
        exact .failed hl e p' hm
      | ok a p' =>
        rw [onPeer_ok (s := s.record (.sent i n buf)) hm, setPeer_self]
        cases hw : p'.wsa_send with
        | true => exact .queued hl p' hm hw
        | false =>
          rw [if_neg (by simp), onPeer_setWsaSend, setPeer_self, setPeer_setPeer]
          cases accepted with
          | true => exact .signalled hl rfl p' hm hw
          | false => exact .refused hl rfl p' hm hw

theorem processWrite_outcome (s : Service) (i size : Nat) (accepted : Bool) :
    Writing s i size accepted (s.processWrite i size accepted) := by
  rw [processWrite]
  rcases getPeer_cases s i _ with ⟨hi, e, h⟩ | h
  · rw [h]
    exact .outOfRange hi e
  · rw [h]
    split
    · next h => exact .closed h
    · next h =>
      cases hm : drainWrite size (s.m_peer_array i) with
      | ok k p' =>
        have hser : p'.serial = (s.m_peer_array i).serial := ((keeps_drainWrite size).ok hm).serial
        rw [onPeer_ok hm, setPeer_self, hser]
        cases k with
        | zero => exact .drained h p' hm
        | succ k =>
          rw [if_pos (Nat.succ_pos k)]
          exact .more h _ (Nat.succ_pos k) p' hm _ (postSendRequest_outcome _ _ _ _)
      | error e p' =>
        rw [onPeer_error hm]
        exact .failed h e p' hm

theorem processRead_outcome (s : Service) (i size : Nat) :
    Reading s i size (s.processRead i size) := by
  rw [processRead]
  rcases getPeer_cases s i _ with ⟨hi, e, h⟩ | h
  · rw [h]
    exact .outOfRange hi e
  · rw [h]
    split
    · next h => exact .closed h
    · next h =>
      cases hm : Peer.onReadBuf (SockBuf.writeMove size) (s.m_peer_array i) with
      | ok a p' =>
        have hser : p'.serial = (s.m_peer_array i).serial := ((keeps_onReadBuf _).ok hm).serial
        rw [onPeer_ok hm, setPeer_self, hser]
        exact .callback h p' hm
      | error e p' =>
        rw [onPeer_error hm]
        exact .failed h e p' hm

/-- The slot `findFree` returns is free and in its range. -/
theorem findFree_some {peers : Nat → Peer} : ∀ {m i j : Nat}, findFree peers m i = some j →
    (peers j).socket = none ∧ i ≤ j ∧ j < i + m
  | 0, i, j, h => by simp [findFree] at h
  | m + 1, i, j, h => by
    rw [findFree] at h
    split at h
    · have := findFree_some h
      exact ⟨this.1, by omega, by omega⟩
    · next hs =>
      simp only [Option.some.injEq] at h
      subst h
      exact ⟨by simpa using hs, Nat.le_refl _, by omega⟩

theorem newPeer_cases (s : Service) : s.newPeer = (2 ^ 32 - 1, s) ∨
    ∃ i, i < MAX_PEER_NUM ∧ (s.m_peer_array i).socket = none ∧
      s.newPeer = (i, { s with m_serial := (s.m_serial + 1) % 2 ^ 64 }.setPeer i
        (resetPeer (s.m_peer_array i) s.m_serial)) := by
  unfold newPeer
  cases hf : findFree s.m_peer_array MAX_PEER_NUM 0 with
  | none => exact Or.inl rfl
  | some i =>
    obtain ⟨hfree, -, hlt⟩ := findFree_some hf
    exact Or.inr ⟨i, by omega, hfree, rfl⟩

theorem registerSocket_outcome (s : Service) (sd : Nat) (local_addr remote_addr : Addr)
    (bound : Bool) : Registering s (s.registerSocket sd local_addr remote_addr bound) := by
  rw [registerSocket]
  rcases newPeer_cases s with h | ⟨i, hi, hfree, h⟩
  · rw [h]
    have hmax : (2 ^ 32 - 1 : Nat) ≥ MAX_PEER_NUM := by norm_num [MAX_PEER_NUM]
    rw [getPeer, if_pos hmax]
    exact .full _
  · rw [h, getPeer, if_neg (Nat.not_le.mpr hi), setPeer_self]
    cases bound with
    | false => exact .unbound i hfree _
    | true =>
      rw [if_pos rfl, setPeer_setPeer]
      exact .callback i hi hfree _ sd local_addr remote_addr rfl

/-! ## A dequeued completion -/

/-- Only a `WSARecv` brings bytes. -/
theorem Completion.Fits.read {r : Request} {size : Nat} {received : Bytes}
    (h : (Completion.success size received).Fits r) (hne : received ≠ []) :
    r.io_operation = .ClientIoRead := by
  unfold Completion.Fits at h
  cases hw : r.wsabuf with
  | none =>
    rw [hw] at h
    exact absurd h.2 hne
  | some w =>
    rw [hw] at h
    by_contra hop
    exact hne (by simpa [hop] using h.2)

/-- The state when `onEventTick` starts to look at a successful completion. -/
def Service.arrived (s : Service) (r : Request) (dwIoSize : Nat) (received : Bytes) : Service :=
  (s.deliver r received).transmit r dwIoSize

/-- `onEventTick` for a completion of `r`. -/
inductive Ticking (s : Service) (r : Request) : Completion → Bool → Service → Prop
  | lost (accepted : Bool) (s' : Service)
      (h : Closing (s.push (.tick r)) r.index (s.m_peer_array r.index).serial s') :
      Ticking s r .netnameDeleted accepted s'
  | other (accepted : Bool) (e : Exception) : Ticking s r .otherError accepted (s.throw e)
  | outOfRange (hi : MAX_PEER_NUM ≤ r.index) (size : Nat) (received : Bytes) (accepted : Bool)
      (e : Exception) :
      Ticking s r (.success size received) accepted ((s.arrived r size received).throw e)
  | free (size : Nat) (received : Bytes) (accepted : Bool)
      (h : ((s.arrived r size received).m_peer_array r.index).socket = none) :
      Ticking s r (.success size received) accepted (s.arrived r size received)
  | shutdown (received : Bytes) (accepted : Bool) (hop : r.io_operation = .ClientIoRead)
      (s' : Service)
      (h : Closing ((s.arrived r 0 received).push (.tick r)) r.index
        ((s.arrived r 0 received).m_peer_array r.index).serial s') :
      Ticking s r (.success 0 received) accepted s'
  | read (size : Nat) (received : Bytes) (accepted : Bool) (hop : r.io_operation = .ClientIoRead)
      (hsize : size ≠ 0) (s' : Service)
      (h : Reading ((s.arrived r size received).push (.tick r)) r.index size s') :
      Ticking s r (.success size received) accepted s'
  | write (size : Nat) (received : Bytes) (accepted : Bool)
      (hop : r.io_operation = .ClientIoWrite) (s' : Service)
      (h : Writing ((s.arrived r size received).push (.tick r)) r.index size accepted s') :
      Ticking s r (.success size received) accepted s'
  | unknown (size : Nat) (received : Bytes) (accepted : Bool)
      (hop : r.io_operation = .ClientIoUnknown) (e : Exception) :
      Ticking s r (.success size received) accepted
        (((s.arrived r size received).push (.tick r)).throw e)

theorem onEventTick_outcome (s : Service) (r : Request) (c : Completion) (accepted : Bool) :
    Ticking s r c accepted (s.onEventTick r c accepted) := by
  cases c with
  | otherError => exact .other accepted _
  | netnameDeleted =>
    simp only [onEventTick]
    rcases getPeer_cases (s.push (.tick r)) r.index _ with ⟨hi, e, h⟩ | h
    · rw [h]
      exact .lost accepted _ (.outOfRange hi e)
    · rw [h]
      exact .lost accepted _ (closePeer_outcome _ _ _)
  | success size received =>
    simp only [onEventTick]
    rw [show (s.deliver r received).transmit r size = s.arrived r size received from rfl]
    rcases getPeer_cases (s.arrived r size received) r.index _ with ⟨hi, e, h⟩ | h
    · rw [h]
      exact .outOfRange hi size received accepted e
    · rw [h]
      split
      · next hfree => exact .free size received accepted hfree
      · split
        · next hop =>
          split
          · next hz =>
            subst hz
            exact .shutdown received accepted hop _ (closePeer_outcome _ _ _)
          · next hz => exact .read size received accepted hop hz _ (processRead_outcome _ _ _)
        · next hop => exact .write size received accepted hop _ (processWrite_outcome _ _ _ _)
        · next hop => exact .unknown size received accepted hop _

/-- What the arrival of a completion changes: bytes in the region of a `WSARecv`, and the
history. -/
theorem arrived_peer (s : Service) (r : Request) (size : Nat) (received : Bytes) (j : Nat) :
    (s.arrived r size received).m_peer_array j = s.m_peer_array j ∨
      j = r.index ∧ received ≠ [] ∧
        ∃ w, r.wsabuf = some w ∧ (s.arrived r size received).m_peer_array j
          = (s.m_peer_array j).withReadBuf ((s.m_peer_array j).read_buf.setBlock
              ((s.m_peer_array j).read_buf.m_buf.write w.start received)) := by
  have htr : ∀ t : Service, (t.transmit r size).m_peer_array = t.m_peer_array := by
    intro t
    unfold transmit
    split <;> rfl
  simp only [arrived, htr]
  unfold deliver
  cases hw : r.wsabuf with
  | none => exact Or.inl rfl
  | some w =>
    by_cases hs : (s.m_peer_array r.index).read_buf.m_size = w.mem.size ∧ received ≠ []
    · by_cases hj : j = r.index
      · subst hj
        exact Or.inr ⟨rfl, hs.2, w, rfl, by simp [hs]⟩
      · exact Or.inl (by simp only [if_pos hs]; exact setPeer_ne hj _ _)
    · exact Or.inl (by simp only [if_neg hs])

theorem arrived_socket (s : Service) (r : Request) (size : Nat) (received : Bytes) (j : Nat) :
    ((s.arrived r size received).m_peer_array j).socket = (s.m_peer_array j).socket := by
  rcases arrived_peer s r size received j with h | ⟨-, -, w, -, h⟩ <;> rw [h]
  rfl

theorem arrived_serial (s : Service) (r : Request) (size : Nat) (received : Bytes) (j : Nat) :
    ((s.arrived r size received).m_peer_array j).serial = (s.m_peer_array j).serial := by
  rcases arrived_peer s r size received j with h | ⟨-, -, w, -, h⟩ <;> rw [h]
  rfl

theorem deliver_fields (s : Service) (r : Request) (received : Bytes) :
    (s.deliver r received).posted = s.posted ∧ (s.deliver r received).stack = s.stack ∧
      (s.deliver r received).m_serial = s.m_serial ∧ (s.deliver r received).log = s.log := by
  unfold deliver
  cases r.wsabuf with
  | none => exact ⟨rfl, rfl, rfl, rfl⟩
  | some w => dsimp only; split <;> exact ⟨rfl, rfl, rfl, rfl⟩

theorem transmit_fields (s : Service) (r : Request) (size : Nat) :
    (s.transmit r size).posted = s.posted ∧ (s.transmit r size).stack = s.stack ∧
      (s.transmit r size).m_serial = s.m_serial ∧
      ((s.transmit r size).log = s.log ∨
        ∃ bytes, (s.transmit r size).log = s.log ++ [.transmitted r.index r.serial bytes]) := by
  unfold transmit
  split
  · exact ⟨rfl, rfl, rfl, Or.inr ⟨_, rfl⟩⟩
  · exact ⟨rfl, rfl, rfl, Or.inl rfl⟩

@[simp] theorem arrived_posted (s : Service) (r : Request) (size : Nat) (received : Bytes) :
    (s.arrived r size received).posted = s.posted :=
  (transmit_fields _ r size).1.trans (deliver_fields s r received).1

@[simp] theorem arrived_stack (s : Service) (r : Request) (size : Nat) (received : Bytes) :
    (s.arrived r size received).stack = s.stack :=
  (transmit_fields _ r size).2.1.trans (deliver_fields s r received).2.1

@[simp] theorem arrived_m_serial (s : Service) (r : Request) (size : Nat) (received : Bytes) :
    (s.arrived r size received).m_serial = s.m_serial :=
  (transmit_fields _ r size).2.2.1.trans (deliver_fields s r received).2.2.1

theorem arrived_log (s : Service) (r : Request) (size : Nat) (received : Bytes) :
    (s.arrived r size received).log = s.log ∨
      ∃ bytes, (s.arrived r size received).log
        = s.log ++ [.transmitted r.index r.serial bytes] := by
  have h := (transmit_fields (s.deliver r received) r size).2.2.2
  rwa [(deliver_fields s r received).2.2.2] at h

end GhNet.Iocp
