import GhNet.Iocp.Outstanding

/-!
# The output stream of a connection

`send` appends to `write_buf_backup_` and posts a signal unless a write request is outstanding.
When a write request completes, what it has transmitted leaves `write_buf`, the backup moves behind
the rest, and the whole is offered again.

The invariant `Stream` links the flag, the one write request and the two buffers. It needs that no
write request of an earlier connection reaches the slot, and that the offsets stay below `2^31`.
-/

namespace GhNet.Iocp

open GhNet Service

variable {s s' : Service} {i n : Nat}

/-! ## Bytes in the history -/

/-- The bytes of an event that passed the guard of `send` for `(i, n)`. -/
def Event.sentBytes (i n : Nat) : Event → Bytes
  | .sent j m buf => if j = i ∧ m = n then buf else []
  | _ => []

/-- The bytes of an event that a completed `WSASend` of `(i, n)` has transmitted. -/
def Event.transmittedBytes (i n : Nat) : Event → Bytes
  | .transmitted j m bytes => if j = i ∧ m = n then bytes else []
  | _ => []

/-- All bytes passed to `send` for `(i, n)`. -/
def sentBytes (i n : Nat) (log : List Event) : Bytes := log.flatMap (Event.sentBytes i n)

/-- All bytes that the completed `WSASend`s of `(i, n)` have transmitted. -/
def transmittedBytes (i n : Nat) (log : List Event) : Bytes :=
  log.flatMap (Event.transmittedBytes i n)

theorem sentBytes_append (i n : Nat) (l m : List Event) :
    sentBytes i n (l ++ m) = sentBytes i n l ++ sentBytes i n m := List.flatMap_append

theorem transmittedBytes_append (i n : Nat) (l m : List Event) :
    transmittedBytes i n (l ++ m) = transmittedBytes i n l ++ transmittedBytes i n m :=
  List.flatMap_append

/-- The event is neither a `send` nor a transmission of `(i, n)`. -/
def Event.Silent (i n : Nat) (e : Event) : Prop :=
  e.sentBytes i n = [] ∧ e.transmittedBytes i n = []

theorem Event.silent_of_ne {e : Event} (h : e.connection.1 ≠ i) : e.Silent i n := by
  cases e <;> simp_all [Silent, Event.sentBytes, Event.transmittedBytes, Event.connection]

theorem sentBytes_silent {ext : List Event} (h : ∀ e ∈ ext, e.Silent i n) :
    sentBytes i n ext = [] := by
  unfold sentBytes
  rw [List.flatMap_eq_nil_iff]
  exact fun e he => (h e he).1

theorem transmittedBytes_silent {ext : List Event} (h : ∀ e ∈ ext, e.Silent i n) :
    transmittedBytes i n ext = [] := by
  unfold transmittedBytes
  rw [List.flatMap_eq_nil_iff]
  exact fun e he => (h e he).2

/-! ## `processWrite` on the buffers -/

/-- What `processWrite` makes of the send side of `p` when `size` bytes have been transmitted. -/
structure Drained (size : Nat) (p p' : Peer) : Prop where
  write_valid : p'.write_buf.Valid
  backup_valid : p'.write_buf_backup_.Valid
  content : p'.write_buf.content = p.write_buf.content.drop size ++ p.write_buf_backup_.content
  backup_content : p'.write_buf_backup_.content = []
  write_index : p'.write_buf.m_write_index
    ≤ p.write_buf.m_write_index + p.write_buf_backup_.content.length
  backup_index : p'.write_buf_backup_.m_write_index = p.write_buf_backup_.m_write_index
  wsa_send : p'.wsa_send = false

theorem onWriteBuf_ok {α : Type} {m : SockBufM α} {p : Peer} {a : α} {b : SockBuf}
    (h : m p.write_buf = .ok a b) : Peer.onWriteBuf m p = .ok a { p with write_buf := b } := by
  rw [Peer.onWriteBuf, h]

theorem onBackup_ok {α : Type} {m : SockBufM α} {p : Peer} {a : α} {b : SockBuf}
    (h : m p.write_buf_backup_ = .ok a b) :
    Peer.onBackup m p = .ok a { p with write_buf_backup_ := b } := by
  rw [Peer.onBackup, h]

/-- **`processWrite` loses and reorders nothing.** -/
theorem drainWrite_spec {p : Peer} {size : Nat} (hw : p.write_buf.Valid)
    (hb : p.write_buf_backup_.Valid) (hsize : size ≤ p.write_buf.content.length)
    (hlen : p.write_buf.m_write_index + p.write_buf_backup_.content.length < 2 ^ 31) :
    ∃ p', drainWrite size p = .ok p'.write_buf.content.length p' ∧ Drained size p p' := by
  have h1 : Peer.setWsaSend false p = .ok () (p.withWsaSend false) := rfl
  obtain ⟨b1, hmove, hv1, hc1, -, hi1⟩ := SockBuf.readMove_spec hw hsize
  generalize hp2 : ({ p.withWsaSend false with write_buf := b1 } : Peer) = p2
  have h2 : Peer.onWriteBuf (SockBuf.readMove size) (p.withWsaSend false) = .ok () p2 :=
    hp2 ▸ onWriteBuf_ok hmove
  have hw2 : p2.write_buf = b1 := by rw [← hp2]
  have hb2 : p2.write_buf_backup_ = p.write_buf_backup_ := by rw [← hp2]; rfl
  have h3 : Peer.onBackup SockBuf.readableBytes p2 = .ok p.write_buf_backup_.content.length p2 := by
    rw [← hb2] at hb ⊢
    exact onBackup_ok (SockBuf.readableBytes_eq hb)
  rw [drainWrite, bind_ok h1, bind_ok h2, bind_ok h3]
  by_cases hpos : p.write_buf_backup_.content.length > 0
  · rw [if_pos hpos, bind_ok get_eq]
    have hslice : slice p2.write_buf_backup_.m_buf.val p2.write_buf_backup_.m_read_index
        p.write_buf_backup_.content.length = p.write_buf_backup_.content := by
      rw [hb2, hb.length_content]
      rfl
    obtain ⟨b3, happ, hv3, hc3, hi3⟩ := SockBuf.apendBuf_spec hv1
      (show b1.m_write_index + p.write_buf_backup_.content.length < 2 ^ 31 by omega)
    obtain ⟨b4, hmove4, hv4, hc4, -, hi4⟩ := SockBuf.readMove_spec hb (Nat.le_refl _)
    have h4 : Peer.onWriteBuf (SockBuf.apendBuf p.write_buf_backup_.content) p2
        = .ok () { p2 with write_buf := b3 } := onWriteBuf_ok (by rw [hw2, happ])
    have h5 : Peer.onBackup (SockBuf.readMove p.write_buf_backup_.content.length)
        { p2 with write_buf := b3 }
        = .ok () { p2 with write_buf := b3, write_buf_backup_ := b4 } :=
      onBackup_ok (by rw [← hmove4, ← hb2])
    dsimp only
    rw [hslice, bind_ok h4, bind_ok h5]
    refine ⟨{ p2 with write_buf := b3, write_buf_backup_ := b4 },
      onWriteBuf_ok (SockBuf.readableBytes_eq hv3), ⟨hv3, hv4, ?_, ?_, ?_, hi4, ?_⟩⟩
    · rw [hc3, hc1]
    · rw [hc4, List.drop_length]
    · show b3.m_write_index ≤ _
      omega
    · rw [← hp2]
      rfl
  · rw [if_neg hpos]
    have hnil : p.write_buf_backup_.content = [] := List.eq_nil_of_length_eq_zero (by omega)
    refine ⟨p2, ?_, ⟨hw2 ▸ hv1, hb2 ▸ hb, ?_, hb2 ▸ hnil, ?_, by rw [hb2], ?_⟩⟩
    · exact onWriteBuf_ok (SockBuf.readableBytes_eq (hw2 ▸ hv1))
    · rw [hw2, hc1, hnil, List.append_nil]
    · rw [hw2]
      omega
    · rw [← hp2]
      rfl

theorem offerWrite_ok {p : Peer} (hw : p.write_buf.Valid) :
    offerWrite p = .ok p.writeRegion p := by
  have hlen : p.write_buf.content.length
      = u32Sub p.write_buf.m_write_index p.write_buf.m_read_index := by
    rw [hw.length_content, u32Sub_of_le hw.read_le]
  rw [offerWrite_readable (SockBuf.readableBytes_eq hw), hlen]
  rfl

/-- What a `WSASend` is offered is the content of `write_buf`. -/
theorem writeRegion_bytes {p : Peer} (hw : p.write_buf.Valid) :
    p.writeRegion.bytes = p.write_buf.content ∧
      p.writeRegion.len = p.write_buf.content.length := by
  have hlen : u32Sub p.write_buf.m_write_index p.write_buf.m_read_index
      = p.write_buf.m_write_index - p.write_buf.m_read_index :=
    u32Sub_of_le hw.read_le
  constructor
  · simp only [WSABUF.bytes, Peer.writeRegion, hlen, SockBuf.content]
  · simp only [Peer.writeRegion, hlen, hw.length_content]

/-! ## Steps beside the send side -/

/-- The write requests that are outstanding on slot `i`. -/
def Service.pendingWrites (s : Service) (i : Nat) : List Request :=
  s.posted.filter fun r => r.index = i ∧ r.io_operation = .ClientIoWrite

/-- The send side of the peer is untouched. -/
structure WriteSide (p p' : Peer) : Prop where
  serial : p'.serial = p.serial
  wsa_send : p'.wsa_send = p.wsa_send
  write_buf : p'.write_buf = p.write_buf
  write_buf_backup_ : p'.write_buf_backup_ = p.write_buf_backup_

theorem WriteSide.refl (p : Peer) : WriteSide p p := ⟨rfl, rfl, rfl, rfl⟩

theorem WriteSide.trans {p q r : Peer} (h1 : WriteSide p q) (h2 : WriteSide q r) : WriteSide p r :=
  ⟨h2.serial.trans h1.serial, h2.wsa_send.trans h1.wsa_send, h2.write_buf.trans h1.write_buf,
    h2.write_buf_backup_.trans h1.write_buf_backup_⟩

theorem ReadSide.writeSide {p p' : Peer} (h : ReadSide p p') : WriteSide p p' :=
  ⟨h.serial, h.wsa_send, h.write_buf, h.write_buf_backup_⟩

/-- Nothing has happened on the send side of the connection `(i, n)`. -/
structure Aside (i n : Nat) (s s' : Service) : Prop where
  peer : WriteSide (s.m_peer_array i) (s'.m_peer_array i)
  pending : s'.pendingWrites i = s.pendingWrites i
  log : ∃ ext, s'.log = s.log ++ ext ∧ ∀ e ∈ ext, e.Silent i n

namespace Aside

theorem of_eq (hp : s'.m_peer_array = s.m_peer_array) (hr : s'.posted = s.posted)
    (hlog : s'.log = s.log) : Aside i n s s' :=
  ⟨by rw [hp]; exact .refl _, by rw [pendingWrites, hr]; rfl, [], by simpa using hlog, by simp⟩

theorem refl (s : Service) : Aside i n s s := of_eq rfl rfl rfl

theorem trans {t : Service} (h1 : Aside i n s s') (h2 : Aside i n s' t) : Aside i n s t := by
  refine ⟨h1.peer.trans h2.peer, h2.pending.trans h1.pending, ?_⟩
  obtain ⟨ext1, hl1, hc1⟩ := h1.log
  obtain ⟨ext2, hl2, hc2⟩ := h2.log
  refine ⟨ext1 ++ ext2, by rw [hl2, hl1, List.append_assoc], ?_⟩
  intro e he
  rcases List.mem_append.mp he with he | he
  · exact hc1 e he
  · exact hc2 e he

theorem throw (s : Service) (e : Exception) : Aside i n s (s.throw e) := of_eq rfl rfl rfl

/-- Whatever happens on another slot. -/
theorem of_local {j : Nat} (h : Local j s s') (hj : i ≠ j) : Aside i n s s' := by
  obtain ⟨ext, hlog, hext⟩ := h.log
  refine ⟨by rw [h.peers i hj]; exact .refl _, h.filter_posted hj .ClientIoWrite, ext, hlog, ?_⟩
  exact fun e he => Event.silent_of_ne (by rw [hext e he]; exact hj.symm)

theorem setPeer {j : Nat} {p : Peer} (hp : WriteSide (s.m_peer_array j) p) :
    Aside i n s (s.setPeer j p) := by
  refine ⟨?_, rfl, [], by simp, by simp⟩
  by_cases hj : i = j
  · subst hj
    rw [setPeer_self]
    exact hp
  · rw [setPeer_ne hj]
    exact .refl _

theorem post {r : Request} (hr : r.io_operation ≠ .ClientIoWrite) (s : Service) :
    Aside i n s (s.post r) := by
  refine ⟨.refl _, ?_, [], by simp, by simp⟩
  rw [pendingWrites, post_posted, List.filter_append]
  simp [hr, pendingWrites]

theorem took {r : Request} (hr : r.io_operation ≠ .ClientIoWrite) (s : Service) :
    Aside i n s (s.took r) := by
  refine ⟨.refl _, ?_, [], by simp, by simp⟩
  rw [pendingWrites, took_posted, ← List.erase_filter, List.erase_of_not_mem]
  · rfl
  · simp [hr]

theorem record {e : Event} (he : e.Silent i n) (s : Service) : Aside i n s (s.record e) :=
  ⟨.refl _, rfl, [e], rfl, by simpa using he⟩

theorem closing {j m : Nat} (h : Closing s j m s') : Aside i n s s' := by
  cases h with
  | outOfRange _ e => exact throw s e
  | stale _ => exact refl s
  | callback _ remote =>
    exact (record (e := .onDisCon j m remote) ⟨rfl, rfl⟩ s).trans (of_eq rfl rfl rfl)

theorem recvPosting {j m : Nat} (h : RecvPosting s j m s') : Aside i n s s' := by
  have hcxt : Aside i n s s.newIOCxt.2 := of_eq rfl rfl rfl
  have hset : ∀ p', ReadSide (s.m_peer_array j) p' → Aside i n s (s.newIOCxt.2.setPeer j p') :=
    fun p' hp => hcxt.trans (setPeer (s := s.newIOCxt.2) hp.writeSide)
  cases h with
  | outOfRange _ e => exact throw s e
  | stale _ => exact refl s
  | failed _ e p' hp => exact (hset p' hp).trans (throw _ e)
  | accepted _ w p' hm => exact (hset p' (keeps_offerRead.ok hm)).trans (post (by simp) _)
  | refused _ p' hp _ hc => exact (hset p' hp).trans (closing hc)

theorem reading {j size : Nat} (h : Reading s j size s') : Aside i n s s' := by
  have hset : ∀ p', ReadSide (s.m_peer_array j) p' → Aside i n s (s.setPeer j p') :=
    fun p' hp => setPeer hp.writeSide
  have hkeep := keeps_onReadBuf (SockBuf.writeMove size)
  cases h with
  | outOfRange _ e => exact throw s e
  | closed _ => exact refl s
  | failed _ e p' hm => exact (hset p' (hkeep.error hm)).trans (throw _ e)
  | callback _ p' hm =>
    refine (hset p' (hkeep.ok hm)).trans ?_
    exact (record (e := .onRead j _) ⟨rfl, rfl⟩ _).trans (of_eq rfl rfl rfl)

theorem closePeerEnd (s : Service) (j : Nat) : Aside i n s (s.closePeerEnd j) := by
  refine ⟨?_, by rw [pendingWrites, closePeerEnd_posted]; rfl, ?_⟩
  · by_cases hj : i = j
    · subst hj
      rw [closePeerEnd_peer_self]
      exact ⟨rfl, rfl, rfl, rfl⟩
    · rw [closePeerEnd_peer_ne hj]
      exact .refl _
  · rcases closePeerEnd_log s j with ⟨-, h⟩ | ⟨-, h⟩
    · exact ⟨[], by simpa using h, by simp⟩
    · exact ⟨_, h, by intro e he; rw [List.mem_singleton.mp he]; exact ⟨rfl, rfl⟩⟩

/-- A registration takes a free slot. -/
theorem registering (hl : s.Live i n) (h : Registering s s') : Aside i n s s' := by
  have hset : ∀ j p, (s.m_peer_array j).socket = none →
      Aside i n s ({ s with m_serial := (s.m_serial + 1) % 2 ^ 64 }.setPeer j p) := by
    intro j p hfree
    have hj : i ≠ j := by rintro rfl; exact hl.1 hfree
    refine ⟨?_, rfl, [], by simp, by simp⟩
    rw [setPeer_ne hj]
    exact .refl _
  cases h with
  | full e => exact throw s e
  | unbound j hfree e => exact (hset j _ hfree).trans (throw _ e)
  | callback j _ hfree p' _ _ rem _ =>
    refine (hset j p' hfree).trans ?_
    exact (record (e := .onCon j s.m_serial rem) ⟨rfl, rfl⟩ _).trans (of_eq rfl rfl rfl)

/-- The arrival of the bytes of a `WSARecv`. -/
theorem arrived {r : Request} (hr : r.io_operation ≠ .ClientIoWrite) (s : Service) (size : Nat)
    (received : Bytes) : Aside i n s (s.arrived r size received) := by
  have hdeliver : Aside i n s (s.deliver r received) := by
    unfold deliver
    cases r.wsabuf with
    | none => exact refl s
    | some w =>
      dsimp only
      split
      · exact setPeer ⟨rfl, rfl, rfl, rfl⟩
      · exact refl s
  refine hdeliver.trans ?_
  unfold Service.arrived transmit
  split
  · next hop _ => exact absurd hop hr
  · exact refl _

/-- A completion that is not one of a write request. -/
theorem ticking {r : Request} {c : Completion} {accepted : Bool}
    (hr : r.io_operation ≠ .ClientIoWrite) (h : Ticking s r c accepted s') : Aside i n s s' := by
  have harr : ∀ size received, Aside i n s (s.arrived r size received) := arrived hr s
  have htick : ∀ size received, Aside i n s ((s.arrived r size received).push (.tick r)) :=
    fun size received => (harr size received).trans (of_eq rfl rfl rfl)
  cases h with
  | lost _ _ h =>
    have hpush : Aside i n s (s.push (.tick r)) := of_eq rfl rfl rfl
    exact hpush.trans (closing h)
  | other _ e => exact throw s e
  | outOfRange _ size received _ e => exact (harr size received).trans (throw _ e)
  | free size received _ _ => exact harr size received
  | shutdown received _ _ _ h => exact (htick 0 received).trans (closing h)
  | read size received _ _ _ _ h => exact (htick size received).trans (reading h)
  | write _ _ _ hop _ _ => exact absurd hop hr
  | unknown size received _ _ e => exact (htick size received).trans (throw _ e)

end Aside

/-! ## The invariant -/

/-- The history since it had length `L`. -/
def Service.since (s : Service) (L : Nat) : List Event := s.log.drop L

theorem since_append {L : Nat} {ext : List Event} (hL : L ≤ s.log.length)
    (hlog : s'.log = s.log ++ ext) : s'.since L = s.since L ++ ext := by
  rw [since, hlog, List.drop_append_of_le_length hL, since]

/-- The first write request of a slot is the only one. -/
theorem pendingWrites_post {r : Request} (hidle : s.pendingWrites i = []) (hi : r.index = i)
    (hop : r.io_operation = .ClientIoWrite) : (s.post r).pendingWrites i = [r] := by
  rw [pendingWrites] at hidle
  rw [pendingWrites, post_posted, List.filter_append, hidle, List.nil_append,
    List.filter_singleton]
  simp [hi, hop]

/-- The send side of the connection `(i, n)`, whose history starts at `L`. -/
structure Stream (i n L : Nat) (s : Service) : Prop where
  serial : (s.m_peer_array i).serial = n
  write_valid : (s.m_peer_array i).write_buf.Valid
  backup_valid : (s.m_peer_array i).write_buf_backup_.Valid
  idle : (s.m_peer_array i).wsa_send = false → s.pendingWrites i = []
  busy : (s.m_peer_array i).wsa_send = true → ∃ r, s.pendingWrites i = [r] ∧ r.serial = n ∧
    ∀ w, r.wsabuf = some w → w = (s.m_peer_array i).writeRegion
  base : L ≤ s.log.length
  bytes : transmittedBytes i n (s.since L) ++ (s.m_peer_array i).write_buf.content
    ++ (s.m_peer_array i).write_buf_backup_.content = sentBytes i n (s.since L)
  write_index : (s.m_peer_array i).write_buf.m_write_index
    + (s.m_peer_array i).write_buf_backup_.content.length ≤ (sentBytes i n (s.since L)).length
  backup_index : (s.m_peer_array i).write_buf_backup_.m_write_index
    ≤ (sentBytes i n (s.since L)).length

namespace Stream

variable {L : Nat}

theorem aside (h : Stream i n L s) (ha : Aside i n s s') : Stream i n L s' := by
  obtain ⟨ext, hlog, hext⟩ := ha.log
  have hs : sentBytes i n (s'.since L) = sentBytes i n (s.since L) := by
    rw [since_append h.base hlog, sentBytes_append, sentBytes_silent hext, List.append_nil]
  have ht : transmittedBytes i n (s'.since L) = transmittedBytes i n (s.since L) := by
    rw [since_append h.base hlog, transmittedBytes_append, transmittedBytes_silent hext,
      List.append_nil]
  obtain ⟨hser, hflag, hw, hb⟩ := ha.peer
  refine ⟨hser.trans h.serial, hw ▸ h.write_valid, hb ▸ h.backup_valid, ?_, ?_, ?_, ?_, ?_, ?_⟩
  · rw [hflag, ha.pending]
    exact h.idle
  · rw [hflag, ha.pending, Peer.writeRegion, hw]
    exact h.busy
  · rw [hlog, List.length_append]
    exact Nat.le_add_right_of_le h.base
  · rw [hs, ht, hw, hb]
    exact h.bytes
  · rw [hs, hw, hb]
    exact h.write_index
  · rw [hs, hb]
    exact h.backup_index

/-- A registered connection has sent nothing. -/
theorem registered (hreg : Registering s s') (hst : s'.stack = .onCon i n :: s.stack)
    (hclean : ∀ r ∈ s.posted, r.index ≠ i) : Stream i n s'.log.length s' ∧ i < MAX_PEER_NUM := by
  cases hreg with
  | full e | unbound j hfree e => exact absurd (congrArg List.length hst) (by simp)
  | callback j hj hfree p' sd loc rem hp =>
    obtain ⟨rfl, rfl⟩ : j = i ∧ s.m_serial = n := by simpa using hst
    generalize hs : (({ s with m_serial := (s.m_serial + 1) % 2 ^ 64 }.setPeer j p').record
      (.onCon j s.m_serial rem)).push (.onCon j s.m_serial) = t
    have hpeer : t.m_peer_array j = p' := by rw [← hs]; exact setPeer_self _ j p'
    have hpend : t.pendingWrites j = [] := by
      rw [← hs, pendingWrites, List.filter_eq_nil_iff]
      intro r hr
      have := hclean r hr
      simp [this]
    have hsince : t.since t.log.length = [] := List.drop_length
    have hw : (t.m_peer_array j).write_buf = (s.m_peer_array j).write_buf.reset := by
      rw [hpeer, hp]; rfl
    have hb : (t.m_peer_array j).write_buf_backup_
        = (s.m_peer_array j).write_buf_backup_.reset := by
      rw [hpeer, hp]; rfl
    have hflag : (t.m_peer_array j).wsa_send = false := by rw [hpeer, hp]; rfl
    refine ⟨⟨by rw [hpeer, hp]; rfl, hw ▸ SockBuf.valid_reset _, hb ▸ SockBuf.valid_reset _,
      fun _ => hpend, fun h => ?_, Nat.le_refl _, ?_, ?_, ?_⟩, hj⟩
    · rw [hflag] at h
      cases h
    · rw [hsince, hw, hb, SockBuf.content_reset, SockBuf.content_reset]
      rfl
    · rw [hsince, hw, hb, SockBuf.content_reset]
      exact Nat.le_refl 0
    · rw [hsince, hb]
      exact Nat.le_refl 0

theorem since_sent {t : Service} {buf : Bytes} (h : Stream i n L s)
    (hlog : t.log = s.log ++ [.sent i n buf]) :
    sentBytes i n (t.since L) = sentBytes i n (s.since L) ++ buf ∧
      transmittedBytes i n (t.since L) = transmittedBytes i n (s.since L) := by
  rw [since_append h.base hlog, sentBytes_append, transmittedBytes_append]
  simp [sentBytes, transmittedBytes, Event.sentBytes, Event.transmittedBytes]

/-- With less than `2^30` bytes in all, `apendBuf` does not fail. -/
theorem apendBuf_ok {buf : Bytes} (h : Stream i n L s)
    (hlen : (sentBytes i n (s.since L) ++ buf).length < 2 ^ 30) :
    ∃ b, SockBuf.apendBuf buf (s.m_peer_array i).write_buf_backup_ = .ok () b ∧ b.Valid ∧
      b.content = (s.m_peer_array i).write_buf_backup_.content ++ buf ∧
      b.m_write_index ≤ (s.m_peer_array i).write_buf_backup_.m_write_index + buf.length := by
  have hi := h.backup_index
  rw [List.length_append] at hlen
  exact SockBuf.apendBuf_spec h.backup_valid (by omega)

/-- The stream behind `apendBuf`, with the flag and the request as `send` leaves them. -/
theorem appended {t : Service} {buf : Bytes} {p' q : Peer} (h : Stream i n L s)
    (hlog : t.log = s.log ++ [.sent i n buf])
    (hm : Peer.onBackup (SockBuf.apendBuf buf) (s.m_peer_array i) = .ok () p')
    (hlen : (sentBytes i n (t.since L)).length < 2 ^ 30) (hq : t.m_peer_array i = q)
    (hser : q.serial = p'.serial) (hwb : q.write_buf = p'.write_buf)
    (hbb : q.write_buf_backup_ = p'.write_buf_backup_) (hflag : q.wsa_send = true)
    (hbusy : ∃ r, t.pendingWrites i = [r] ∧ r.serial = n ∧
      ∀ w, r.wsabuf = some w → w = q.writeRegion) : Stream i n L t := by
  obtain ⟨hs1, hs2⟩ := h.since_sent hlog
  obtain ⟨b, hb, hv, hc, hi⟩ := h.apendBuf_ok (hs1 ▸ hlen)
  obtain rfl : p' = { s.m_peer_array i with write_buf_backup_ := b } := by
    rw [onBackup_ok hb] at hm
    exact (EStateM.Result.ok.inj hm).2.symm
  have hw := h.write_index
  have hbi := h.backup_index
  refine ⟨?_, ?_, ?_, ?_, ?_, ?_, ?_, ?_, ?_⟩
  · rw [hq, hser]
    exact h.serial
  · rw [hq, hwb]
    exact h.write_valid
  · rw [hq, hbb]
    exact hv
  · rw [hq, hflag]
    intro hf
    cases hf
  · rw [hq]
    exact fun _ => hbusy
  · rw [hlog, List.length_append]
    exact Nat.le_add_right_of_le h.base
  · rw [hs1, hs2, hq, hwb, hbb, ← h.bytes]
    simp only [hc, List.append_assoc]
  · rw [hs1, hq, hwb, hbb, List.length_append]
    simp only [hc, List.length_append]
    omega
  · rw [hs1, hq, hbb, List.length_append]
    simp only
    omega

/-- **`send`** puts its bytes behind the stream. -/
theorem sending {buf : Bytes} (h : Stream i n L s) (hs : Sending s i n buf true s')
    (hlen : (sentBytes i n (s'.since L)).length < 2 ^ 30) : Stream i n L s' := by
  cases hs with
  | outOfRange _ e => exact h.aside (.throw s e)
  | stale _ => exact h
  | failed _ e p' hm =>
    have hsent := (h.since_sent (t := ((s.record (.sent i n buf)).setPeer i p').throw e) rfl).1
    obtain ⟨b, hb, -⟩ := h.apendBuf_ok (hsent ▸ hlen)
    rw [onBackup_ok hb] at hm
    cases hm
  | queued _ p' hm hw =>
    obtain ⟨hf1, hf2⟩ := onBackup_fields (SockBuf.apendBuf buf) (s.m_peer_array i)
    rw [hm] at hf1 hf2
    refine h.appended rfl hm hlen (setPeer_self _ i p') rfl rfl rfl hw ?_
    have hbusy := h.busy (hf1.symm.trans hw)
    rw [Peer.writeRegion, show p'.write_buf = (s.m_peer_array i).write_buf from hf2]
    exact hbusy
  | signalled _ _ p' hm hw =>
    obtain ⟨hf1, -⟩ := onBackup_fields (SockBuf.apendBuf buf) (s.m_peer_array i)
    rw [hm] at hf1
    exact h.appended rfl hm hlen (setPeer_self _ i _) rfl rfl rfl rfl
      ⟨⟨s.newIOCxt.1, .ClientIoWrite, i, n, none⟩,
        pendingWrites_post (h.idle (hf1.symm.trans hw)) rfl rfl, rfl, by simp⟩
  | refused _ hacc _ _ _ => cases hacc

/-- The write request that is outstanding on the slot is the only one. -/
theorem pending_eq {r : Request} (h : Stream i n L s) (hr : r ∈ s.posted) (hi : r.index = i)
    (hop : r.io_operation = .ClientIoWrite) :
    s.pendingWrites i = [r] ∧ r.serial = n ∧
      ∀ w, r.wsabuf = some w → w = (s.m_peer_array i).writeRegion := by
  have hmem : r ∈ s.pendingWrites i := by simp [pendingWrites, hr, hi, hop]
  cases hf : (s.m_peer_array i).wsa_send with
  | false =>
    rw [h.idle hf] at hmem
    cases hmem
  | true =>
    obtain ⟨q, hq, hbusy⟩ := h.busy hf
    rw [hq, List.mem_singleton] at hmem
    subst hmem
    exact ⟨hq, hbusy⟩

/-- A write request completes: what it has transmitted is the front of the content of
`write_buf`. -/
theorem completed {r : Request} {size : Nat} {received : Bytes} (h : Stream i n L s)
    (hr : r ∈ s.posted) (hi : r.index = i) (hop : r.io_operation = .ClientIoWrite)
    (hfits : (Completion.success size received).Fits r) :
    size ≤ (s.m_peer_array i).write_buf.content.length ∧
      ((s.took r).arrived r size received).m_peer_array i = s.m_peer_array i ∧
      ((s.took r).arrived r size received).pendingWrites i = [] ∧
      L ≤ ((s.took r).arrived r size received).log.length ∧
      sentBytes i n (((s.took r).arrived r size received).since L) = sentBytes i n (s.since L) ∧
      transmittedBytes i n (((s.took r).arrived r size received).since L)
        = transmittedBytes i n (s.since L)
          ++ (s.m_peer_array i).write_buf.content.take size := by
  obtain ⟨hpend, hser, hregion⟩ := h.pending_eq hr hi hop
  have hreceived : received = [] := by
    by_contra hne
    have := hfits.read hne
    rw [hop] at this
    cases this
  have hpeer : ((s.took r).arrived r size received).m_peer_array i = s.m_peer_array i := by
    rcases arrived_peer (s.took r) r size received i with heq | ⟨-, hne, -⟩
    · exact heq
    · exact absurd hreceived hne
  have hpending : ((s.took r).arrived r size received).pendingWrites i = [] := by
    rw [pendingWrites, arrived_posted, took_posted, ← List.erase_filter]
    have : s.posted.filter (fun r => r.index = i ∧ r.io_operation = .ClientIoWrite) = [r] := hpend
    rw [this, List.erase_cons_head]
  have hdeliver := (deliver_fields (s.took r) r received).2.2.2
  obtain ⟨hv1, hv2⟩ := writeRegion_bytes h.write_valid
  refine ⟨?_, hpeer, hpending, ?_⟩
  · unfold Completion.Fits at hfits
    cases hw : r.wsabuf with
    | none =>
      rw [hw] at hfits
      omega
    | some w =>
      rw [hw] at hfits
      rw [← hv2, ← hregion w hw]
      exact hfits.1
  · cases hw : r.wsabuf with
    | none =>
      -- a signal transmits nothing
      have hsize : size = 0 := by
        unfold Completion.Fits at hfits
        rw [hw] at hfits
        exact hfits.1
      have hlog : ((s.took r).arrived r size received).log = s.log := by
        unfold Service.arrived transmit
        rw [hw, hop]
        exact hdeliver
      rw [since, hlog, hsize, List.take_zero, List.append_nil]
      exact ⟨h.base, rfl, rfl⟩
    | some w =>
      have hlog : ((s.took r).arrived r size received).log
          = s.log ++ [.transmitted i n ((s.m_peer_array i).write_buf.content.take size)] := by
        unfold Service.arrived transmit
        rw [hw, hop, ← hv1, ← hregion w hw, ← hi, ← hser]
        show ((s.took r).deliver r received).log ++ _ = _
        rw [hdeliver]
        rfl
      refine ⟨?_, ?_, ?_⟩
      · rw [hlog, List.length_append]
        exact Nat.le_add_right_of_le h.base
      · rw [since_append h.base hlog, sentBytes_append]
        simp [sentBytes, Event.sentBytes]
      · rw [since_append h.base hlog, transmittedBytes_append]
        simp [transmittedBytes, Event.transmittedBytes]

/-- The stream behind the drained buffers, with any flag that fits what is outstanding. -/
theorem drained {t u : Service} {size : Nat} {p q : Peer} (h : Stream i n L s)
    (hp : Drained size (s.m_peer_array i) p) (hpser : p.serial = (s.m_peer_array i).serial)
    (hbase : L ≤ t.log.length) (hsent : sentBytes i n (t.since L) = sentBytes i n (s.since L))
    (htrans : transmittedBytes i n (t.since L)
      = transmittedBytes i n (s.since L) ++ (s.m_peer_array i).write_buf.content.take size)
    (hlog : u.log = t.log) (hq : u.m_peer_array i = q) (hser : q.serial = p.serial)
    (hwb : q.write_buf = p.write_buf) (hbb : q.write_buf_backup_ = p.write_buf_backup_)
    (hidle : q.wsa_send = false → u.pendingWrites i = [])
    (hbusy : q.wsa_send = true → ∃ r, u.pendingWrites i = [r] ∧ r.serial = n ∧
      ∀ w, r.wsabuf = some w → w = q.writeRegion) : Stream i n L u := by
  have hwi := h.write_index
  have hsince : u.since L = t.since L := by rw [since, hlog]; rfl
  have hcont : q.write_buf.content = (s.m_peer_array i).write_buf.content.drop size
      ++ (s.m_peer_array i).write_buf_backup_.content := hwb ▸ hp.content
  have hnil : q.write_buf_backup_.content = [] := hbb ▸ hp.backup_content
  have hwrite := hp.write_index
  refine ⟨?_, ?_, ?_, ?_, ?_, hlog ▸ hbase, ?_, ?_, ?_⟩
  · rw [hq, hser, hpser]
    exact h.serial
  · rw [hq, hwb]
    exact hp.write_valid
  · rw [hq, hbb]
    exact hp.backup_valid
  · rw [hq]
    exact hidle
  · rw [hq]
    exact hbusy
  · rw [hsince, hsent, htrans, hq, hcont, hnil, List.append_nil, ← h.bytes]
    simp only [List.append_assoc]
    rw [← List.append_assoc (List.take _ _), List.take_append_drop]
  · rw [hsince, hsent, hq, hnil, hwb, List.length_nil]
    omega
  · rw [hsince, hsent, hq, hbb, hp.backup_index]
    exact h.backup_index

/-- **`processWrite`** goes on with the stream where the completed request has stopped. -/
theorem writing {t : Service} {size : Nat} (h : Stream i n L s) (hl : s.Live i n)
    (hi : i < MAX_PEER_NUM) (hlen : (sentBytes i n (s.since L)).length < 2 ^ 30)
    (hsize : size ≤ (s.m_peer_array i).write_buf.content.length)
    (hpeer : t.m_peer_array i = s.m_peer_array i) (hpend : t.pendingWrites i = [])
    (hbase : L ≤ t.log.length) (hsent : sentBytes i n (t.since L) = sentBytes i n (s.since L))
    (htrans : transmittedBytes i n (t.since L)
      = transmittedBytes i n (s.since L) ++ (s.m_peer_array i).write_buf.content.take size)
    (hc : Writing t i size true s') : Stream i n L s' := by
  have hwi := h.write_index
  obtain ⟨p, hdrain, hp⟩ := drainWrite_spec h.write_valid h.backup_valid hsize (by omega)
  have hser := ((keeps_drainWrite size).ok hdrain).serial
  have hsock := ((keeps_drainWrite size).ok hdrain).socket
  have hsock' : (t.m_peer_array i).socket ≠ none := by rw [hpeer]; exact hl.1
  cases hc with
  | outOfRange hge _ => omega
  | closed hfree => exact absurd hfree hsock'
  | failed _ e p' hm =>
    rw [hpeer, hdrain] at hm
    cases hm
  | drained _ p' hm =>
    rw [hpeer, hdrain] at hm
    obtain ⟨-, rfl⟩ := EStateM.Result.ok.inj hm
    refine h.drained hp hser hbase hsent htrans rfl (setPeer_self _ i _) rfl rfl rfl
      (fun _ => hpend) fun hf => ?_
    rw [hp.wsa_send] at hf
    cases hf
  | more _ k _ p' hm _ hpost =>
    rw [hpeer, hdrain] at hm
    obtain ⟨-, rfl⟩ := EStateM.Result.ok.inj hm
    have hl' : (t.setPeer i p).Live i (t.m_peer_array i).serial := by
      rw [hpeer, h.serial]
      unfold Live
      rw [setPeer_self, hsock, hser]
      exact hl
    have hoffer : offerWrite (p.withWsaSend true)
        = .ok (p.withWsaSend true).writeRegion (p.withWsaSend true) := offerWrite_ok hp.write_valid
    cases hpost with
    | outOfRange hge _ => omega
    | stale hdead => exact absurd hl' hdead
    | refused _ hacc _ _ _ _ => cases hacc
    | failed _ e q hq hm =>
      rw [setPeer_self] at hq
      rw [hq, hoffer] at hm
      cases hm
    | accepted _ _ w q hq hm =>
      rw [setPeer_self] at hq
      subst hq
      rw [hoffer] at hm
      obtain ⟨rfl, -⟩ := EStateM.Result.ok.inj hm
      refine h.drained hp hser hbase hsent htrans rfl (setPeer_self _ i _) rfl rfl rfl
        (fun hf => by cases hf) fun _ => ?_
      refine ⟨⟨(t.setPeer i p).newIOCxt.1, .ClientIoWrite, i, (t.m_peer_array i).serial,
        some (p.withWsaSend true).writeRegion⟩, pendingWrites_post hpend rfl rfl, ?_, ?_⟩
      · rw [hpeer]
        exact h.serial
      · intro w hw
        exact (Option.some.inj hw).symm

end Stream

/-! ## Runs -/

/-- The connection `(i, n)` is open, and the system takes and completes its write requests without
a failure. -/
def WritesSucceed (i n : Nat) (s : Service) (a : Action) : Prop :=
  s.Live i n ∧
    match a with
    | .send j m _ accepted => j = i → m = n → accepted = true
    | .dequeue r c accepted => r.index = i → r.io_operation = .ClientIoWrite →
        accepted = true ∧ ∃ size received, c = .success size received
    | _ => True

/-- One step keeps the stream. -/
theorem Stream.step {L : Nat} {a : Action} (h : Stream i n L s) (hi : i < MAX_PEER_NUM)
    (hok : WritesSucceed i n s a) (hs : Iocp.step s a = some s')
    (hlen : (sentBytes i n (s.since L)).length < 2 ^ 30)
    (hlen' : (sentBytes i n (s'.since L)).length < 2 ^ 30) : Stream i n L s' := by
  obtain ⟨hl, hok⟩ := hok
  have hpop : ∀ rest, Aside i n s (s.popped rest) := fun _ => .of_eq rfl rfl rfl
  cases stepping hs with
  | @send j m buf accepted _ _ hs =>
    by_cases hj : j = i
    · subst hj
      by_cases hm : m = n
      · subst hm
        rw [hok rfl rfl] at hs
        exact h.sending hs hlen'
      · have hdead : ¬s.Live j m := fun hl' => hm (hl'.2.symm.trans hl.2)
        cases hs with
        | outOfRange _ e => exact h.aside (.throw s e)
        | stale _ => exact h
        | failed hl' | queued hl' | signalled hl' | refused hl' => exact absurd hl' hdead
    · exact h.aside (.of_local (.sending hs) (Ne.symm hj))
  | closePeer _ hs => exact h.aside (.closing hs)
  | connectPeer _ hs | accept _ hs => exact h.aside (.registering hl hs)
  | @readMove _ j m rest hst k _ heq =>
    have hset : Aside i n s (s.setPeer j ((s.m_peer_array j).withReadBuf
        ((s.m_peer_array j).read_buf.setRead k))) := .setPeer ⟨rfl, rfl, rfl, rfl⟩
    rcases heq with rfl | ⟨e, rfl⟩
    · exact h.aside hset
    · exact h.aside (hset.trans (.throw _ e))
  | onCon _ hs | onRead _ _ hs => exact h.aside ((hpop _).trans (.recvPosting hs))
  | onReadNegative _ _ hs => exact h.aside ((hpop _).trans (.closing hs))
  | onDisCon _ => exact h.aside ((hpop _).trans (.closePeerEnd _ _))
  | raise _ => exact h.aside (.throw s _)
  | finish _ | unwind _ | catch_ => exact h.aside (.of_eq rfl rfl rfl)
  | @dequeue r c accepted _ hst hr hfits hs =>
    by_cases hri : r.index = i
    · by_cases hop : r.io_operation = .ClientIoWrite
      · obtain ⟨rfl, size, received, rfl⟩ := hok hri hop
        obtain ⟨hsize, hpeer, hpend, hbase, hsent, htrans⟩ := h.completed hr hri hop hfits
        cases hs with
        | outOfRange hge => omega
        | free _ _ _ hfree =>
          rw [hri, hpeer] at hfree
          exact absurd hfree hl.1
        | shutdown _ _ hop' | read _ _ _ hop' | unknown _ _ _ hop' =>
          rw [hop] at hop'
          cases hop'
        | write _ _ _ _ _ hc =>
          rw [hri] at hc
          exact h.writing (t := ((s.took r).arrived r size received).push (.tick r)) hl hi hlen hsize
            hpeer hpend hbase hsent htrans hc
      · exact h.aside ((Aside.took hop s).trans (.ticking hop hs))
    · exact h.aside (.of_local ((Local.took s r).trans (.ticking hs)) (Ne.symm hri))

/-- **Output stream fidelity.** From its registration in a slot for which no request is outstanding,
as long as the connection is open and its write requests succeed, at most one write request of it
is outstanding, `wsa_send` says whether one is, and what has been transmitted, followed by
`write_buf` and `write_buf_backup_`, is what was passed to `send`. -/
theorem output_fidelity {s₀ s₁ : Service} {a : Action} (hs : step s₀ a = some s₁)
    (hreg : s₁.stack = .onCon i n :: s₀.stack) (hclean : ∀ r ∈ s₀.posted, r.index ≠ i)
    (hr : Reach (· = s₁) step (WritesSucceed i n) s)
    (hlen : (sentBytes i n (s.since s₁.log.length)).length < 2 ^ 30) :
    (s.pendingWrites i).length ≤ 1 ∧
      ((s.m_peer_array i).wsa_send = true ↔ (s.pendingWrites i).length = 1) ∧
      transmittedBytes i n (s.since s₁.log.length) ++ (s.m_peer_array i).write_buf.content
        ++ (s.m_peer_array i).write_buf_backup_.content
        = sentBytes i n (s.since s₁.log.length) := by
  obtain ⟨hstart, hi⟩ := Stream.registered ((stepping hs).registers hreg) hreg hclean
  -- the history grows, so the bound holds in every state on the way
  have h : s₁.log.length ≤ s.log.length ∧
      ((sentBytes i n (s.since s₁.log.length)).length < 2 ^ 30 →
        Stream i n s₁.log.length s) := by
    refine hr.invariant (fun t => s₁.log.length ≤ t.log.length ∧
      ((sentBytes i n (t.since s₁.log.length)).length < 2 ^ 30 →
        Stream i n s₁.log.length t)) ?_ ?_
    · rintro _ rfl
      exact ⟨Nat.le_refl _, fun _ => hstart⟩
    · intro t a t' ⟨hbase, ht⟩ hok hs
      obtain ⟨j, hloc⟩ := (stepping hs).locally
      obtain ⟨ext, hlog, -⟩ := hloc.log
      have hsent : sentBytes i n (t'.since s₁.log.length)
          = sentBytes i n (t.since s₁.log.length) ++ sentBytes i n ext := by
        rw [since_append hbase hlog, sentBytes_append]
      refine ⟨by rw [hlog, List.length_append]; omega, fun hlen' => ?_⟩
      have hlen : (sentBytes i n (t.since s₁.log.length)).length < 2 ^ 30 := by
        rw [hsent, List.length_append] at hlen'
        omega
      exact (ht hlen).step hi hok hs hlen hlen'
  have hstream := h.2 hlen
  cases hf : (s.m_peer_array i).wsa_send with
  | false =>
    rw [hstream.idle hf]
    exact ⟨by simp, by simp, hstream.bytes⟩
  | true =>
    obtain ⟨r, hr, -⟩ := hstream.busy hf
    rw [hr]
    exact ⟨by simp, by simp, hstream.bytes⟩

/-! ### Three bytes in two parts -/

instance (i n : Nat) (s : Service) : ∀ a : Action, Decidable (WritesSucceed i n s a)
  | .send j m _ accepted =>
    inferInstanceAs (Decidable (s.Live i n ∧ (j = i → m = n → accepted = true)))
  | .dequeue r (.success size received) accepted =>
    decidable_of_iff (s.Live i n ∧ (r.index = i → r.io_operation = .ClientIoWrite →
      accepted = true)) (by simp [WritesSucceed])
  | .dequeue r .netnameDeleted accepted | .dequeue r .otherError accepted =>
    decidable_of_iff (s.Live i n ∧ ¬(r.index = i ∧ r.io_operation = .ClientIoWrite))
      (by simp [WritesSucceed])
  | .closePeer .. | .connectPeer .. | .accept .. | .readMove .. | .return_ .. | .raise | .finish
  | .unwind | .catch_ => inferInstanceAs (Decidable (s.Live i n ∧ True))

theorem firstAccept_runs :
    (step Service.new (.accept 7 ⟨"", 0⟩ ⟨"", 0⟩ true)).isSome = true := by decide +kernel

/-- The first connection is in its `onCon`. -/
def acceptedState : Service :=
  (step Service.new (.accept 7 ⟨"", 0⟩ ⟨"", 0⟩ true)).get firstAccept_runs

/-- `onCon` sends three bytes; the signal comes back, and the `WSASend` transmits two of them. -/
def sending : List Action :=
  [.send 0 0 [1, 2, 3] true, .return_ 0 true,
    .dequeue ⟨0, .ClientIoWrite, 0, 0, none⟩ (.success 0 []) true, .finish,
    .dequeue ⟨2, .ClientIoWrite, 0, 0,
      some ⟨⟨[1, 2, 3] ++ List.replicate 97 0, by decide +kernel⟩, 0, 3⟩⟩ (.success 2 []) true]

theorem sending_runs : (exec step acceptedState sending).isSome = true := by decide +kernel

theorem output_fidelity_sending :
    let s := (exec step acceptedState sending).get sending_runs
    (s.pendingWrites 0).length ≤ 1 ∧
      ((s.m_peer_array 0).wsa_send = true ↔ (s.pendingWrites 0).length = 1) ∧
      transmittedBytes 0 0 (s.since acceptedState.log.length)
        ++ (s.m_peer_array 0).write_buf.content ++ (s.m_peer_array 0).write_buf_backup_.content
        = sentBytes 0 0 (s.since acceptedState.log.length) :=
  output_fidelity (Option.some_get firstAccept_runs).symm
    (by decide +kernel) (by simp [Service.new])
    (Reach.of_exec (.start rfl) (by decide +kernel) (Option.some_get sending_runs).symm)
    (by decide +kernel)

end GhNet.Iocp
