import GhNet.Iocp.Isolation

/-!
# Outstanding requests

At most one `WSARecv` and one `WSASend` of a connection are outstanding, and the region that a
request was given stays where it is, with the bytes it had.

Receives are posted behind `onCon` and `onRead` only, so those two callbacks count as a receive to
come. Sends are guarded by `wsa_send`. Both break when the service goes on with a slot that has got
another connection in the meantime. A slot that is given to the next connection keeps its blocks
too, so the next connection writes where a request of the earlier one may still be outstanding.
`SlotKept` excludes both.
-/

namespace GhNet.Iocp

open GhNet Service

variable {s s' : Service} {i n : Nat}

/-! ## The requests of one connection -/

/-- The requests that are outstanding for the connection `(i, n)`. -/
def Service.requests (s : Service) (i n : Nat) : List Request :=
  s.posted.filter fun r => r.index = i ∧ r.serial = n

/-- How many callbacks behind which a `WSARecv` is posted are running for `(i, n)`. -/
def Service.waiting (s : Service) (i n : Nat) : Nat :=
  s.stack.countP fun f => f = .onCon i n ∨ f = .onRead i n

/-- The number of `WSARecv`s. -/
def recvs (l : List Request) : Nat := l.countP fun r => r.io_operation = .ClientIoRead

/-- The number of write requests: `WSASend`s and posted signals. -/
def writes (l : List Request) : Nat := l.countP fun r => r.io_operation = .ClientIoWrite

/-- The slot holds the connection `(i, n)`, or held it last. -/
def Service.Holds (s : Service) (i n : Nat) : Prop := (s.m_peer_array i).serial = n

/-- The region a `WSARecv` is given. -/
def Peer.readRegion (p : Peer) : WSABUF where
  mem := p.read_buf.m_buf
  start := p.read_buf.m_write_index
  len := u32Sub p.read_buf.m_size p.read_buf.m_write_index

/-- The region a `WSASend` is given. -/
def Peer.writeRegion (p : Peer) : WSABUF where
  mem := p.write_buf.m_buf
  start := p.write_buf.m_read_index
  len := u32Sub p.write_buf.m_write_index p.write_buf.m_read_index

namespace Service

theorem requests_post (s : Service) (r : Request) (i n : Nat) :
    (s.post r).requests i n
      = s.requests i n ++ if r.index = i ∧ r.serial = n then [r] else [] := by
  unfold requests
  rw [post_posted, List.filter_append]
  by_cases h : r.index = i ∧ r.serial = n <;> simp [h]

theorem requests_took (s : Service) (r : Request) (i n : Nat) :
    (s.took r).requests i n = (s.requests i n).erase r := List.erase_filter.symm

theorem mem_requests {r : Request} :
    r ∈ s.requests i n ↔ r ∈ s.posted ∧ r.index = i ∧ r.serial = n := by
  simp [requests]

/-- The frame is one behind which a `WSARecv` is posted for `(i, n)`. -/
theorem waiting_push (s : Service) (f : Frame) (i n : Nat) :
    (s.push f).waiting i n
      = s.waiting i n + if f = .onCon i n ∨ f = .onRead i n then 1 else 0 := by
  unfold waiting
  rw [push_stack, List.countP_cons]
  simp

theorem waiting_popped {f : Frame} {rest : List Frame} (hst : s.stack = f :: rest) (i n : Nat) :
    s.waiting i n
      = (s.popped rest).waiting i n + if f = .onCon i n ∨ f = .onRead i n then 1 else 0 := by
  unfold waiting
  rw [hst, List.countP_cons]
  simp

end Service

/-! ### Filling in the regions -/

theorem writableBytes_outcome (b : SockBuf) : (∃ e, SockBuf.writableBytes b = .error e b) ∨
    SockBuf.writableBytes b = .ok (u32Sub b.m_size b.m_write_index) b := by
  unfold SockBuf.writableBytes
  by_cases h : 2 ^ 31 ≤ u32Sub b.m_size b.m_write_index
  · exact Or.inl ⟨_, if_pos h⟩
  · exact Or.inr (if_neg h)

theorem readableBytes_outcome (b : SockBuf) : (∃ e, SockBuf.readableBytes b = .error e b) ∨
    SockBuf.readableBytes b = .ok (u32Sub b.m_write_index b.m_read_index) b := by
  unfold SockBuf.readableBytes
  by_cases h : 2 ^ 31 ≤ u32Sub b.m_write_index b.m_read_index
  · exact Or.inl ⟨_, if_pos h⟩
  · exact Or.inr (if_neg h)

theorem offerRead_region {p p' : Peer} {w : WSABUF} (h : offerRead p = .ok w p') :
    w = p'.readRegion := by
  cases h1 : Peer.onReadBuf (SockBuf.ensureWritableBytes 512) p with
  | error e q => rw [offerRead, bind_error h1] at h; simp at h
  | ok a q =>
    rw [offerRead, bind_ok h1] at h
    generalize hk : u32Sub q.read_buf.m_size q.read_buf.m_write_index = k
    rcases writableBytes_outcome q.read_buf with ⟨e, he⟩ | he
    · have h2 : Peer.onReadBuf SockBuf.writableBytes q = .error e q := by
        rw [Peer.onReadBuf, he]
        rfl
      rw [bind_error h2] at h
      simp at h
    · rw [hk] at he
      have h2 : Peer.onReadBuf SockBuf.writableBytes q = .ok k q := by
        rw [Peer.onReadBuf, he]
        rfl
      rw [bind_ok h2, bind_ok get_eq] at h
      obtain ⟨rfl, rfl⟩ := EStateM.Result.ok.inj h
      rw [Peer.readRegion, hk]

theorem offerWrite_region {p p' : Peer} {w : WSABUF} (h : offerWrite p = .ok w p') :
    w = p'.writeRegion := by
  rw [offerWrite] at h
  generalize hk : u32Sub p.write_buf.m_write_index p.write_buf.m_read_index = k
  rcases readableBytes_outcome p.write_buf with ⟨e, he⟩ | he
  · have h2 : Peer.onWriteBuf SockBuf.readableBytes p = .error e p := by rw [Peer.onWriteBuf, he]
    rw [bind_error h2] at h
    simp at h
  · rw [hk] at he
    have h2 : Peer.onWriteBuf SockBuf.readableBytes p = .ok k p := by rw [Peer.onWriteBuf, he]
    rw [bind_ok h2, bind_ok get_eq] at h
    obtain ⟨rfl, rfl⟩ := EStateM.Result.ok.inj h
    rw [Peer.writeRegion, hk]

/-! ## One connection -/

/-- What holds of a connection with outstanding requests `l`, `k` running callbacks behind which a
`WSARecv` is posted, and peer `p`. -/
structure Sound (l : List Request) (k : Nat) (p : Peer) : Prop where
  one_read : recvs l + k ≤ 1
  one_write : writes l ≤ 1
  flag : 0 < writes l → p.wsa_send = true
  read_region : ∀ r ∈ l, r.io_operation = .ClientIoRead → r.wsabuf = some p.readRegion
  write_region : ∀ r ∈ l, r.io_operation = .ClientIoWrite →
    ∀ w, r.wsabuf = some w → w = p.writeRegion

namespace Sound

variable {l : List Request} {k k' : Nat} {p p' : Peer} {r : Request}

theorem nil (hk : k ≤ 1) : Sound [] k p where
  one_read := by simpa [recvs] using hk
  one_write := by simp [writes]
  flag := by simp [writes]
  read_region := by simp
  write_region := by simp

theorem wait (h : Sound l k p) (hk : recvs l + k' ≤ 1) : Sound l k' p :=
  ⟨hk, h.one_write, h.flag, h.read_region, h.write_region⟩

theorem not_read (h : recvs l = 0) (hr : r ∈ l) : r.io_operation ≠ .ClientIoRead := by
  unfold recvs at h
  rw [List.countP_eq_zero] at h
  simpa using h r hr

theorem not_write (h : writes l = 0) (hr : r ∈ l) : r.io_operation ≠ .ClientIoWrite := by
  unfold writes at h
  rw [List.countP_eq_zero] at h
  simpa using h r hr

/-- Without the flag no write request is outstanding. -/
theorem no_writes (h : Sound l k p) (hw : p.wsa_send = false) : writes l = 0 := by
  by_contra hne
  have hf := h.flag (Nat.pos_of_ne_zero hne)
  rw [hw] at hf
  cases hf

/-- **A side of the peer may change while it has no request outstanding.** -/
theorem congr (h : Sound l k p) (hread : recvs l = 0 ∨ p'.read_buf = p.read_buf)
    (hwrite : writes l = 0 ∨ p'.wsa_send = p.wsa_send ∧ p'.write_buf = p.write_buf) :
    Sound l k p' where
  one_read := h.one_read
  one_write := h.one_write
  flag h0 := by
    rcases hwrite with hw | ⟨hw, -⟩
    · omega
    · rw [hw]; exact h.flag h0
  read_region r hr hop := by
    rcases hread with h0 | heq
    · exact absurd hop (not_read h0 hr)
    · rw [Peer.readRegion, heq]; exact h.read_region r hr hop
  write_region r hr hop w hw := by
    rcases hwrite with h0 | ⟨-, heq⟩
    · exact absurd hop (not_write h0 hr)
    · rw [Peer.writeRegion, heq]; exact h.write_region r hr hop w hw

theorem append_read (h : Sound l k p) (h0 : recvs l + k = 0)
    (hop : r.io_operation = .ClientIoRead) (hw : r.wsabuf = some p.readRegion) :
    Sound (l ++ [r]) k p where
  one_read := by
    have hr : recvs (l ++ [r]) = recvs l + 1 := by simp [recvs, hop]
    omega
  one_write := by simpa [writes, hop] using h.one_write
  flag := by simpa [writes, hop] using h.flag
  read_region q hq hq' := by
    rcases List.mem_append.mp hq with hq | hq
    · exact h.read_region q hq hq'
    · rw [List.mem_singleton.mp hq, hw]
  write_region q hq hq' := by
    rcases List.mem_append.mp hq with hq | hq
    · exact h.write_region q hq hq'
    · rw [List.mem_singleton.mp hq, hop] at hq'
      cases hq'

theorem append_write (h : Sound l k p) (h0 : writes l = 0) (hp : p.wsa_send = true)
    (hop : r.io_operation = .ClientIoWrite) (hw : ∀ w, r.wsabuf = some w → w = p.writeRegion) :
    Sound (l ++ [r]) k p where
  one_read := by simpa [recvs, hop] using h.one_read
  one_write := by
    have hr : writes (l ++ [r]) = writes l + 1 := by simp [writes, hop]
    omega
  flag _ := hp
  read_region q hq hq' := by
    rcases List.mem_append.mp hq with hq | hq
    · exact h.read_region q hq hq'
    · rw [List.mem_singleton.mp hq, hop] at hq'
      cases hq'
  write_region q hq hq' := by
    rcases List.mem_append.mp hq with hq | hq
    · exact h.write_region q hq hq'
    · rw [List.mem_singleton.mp hq]
      exact hw

theorem countP_erase_le (q : Request → Bool) (r : Request) (l : List Request) :
    (l.erase r).countP q ≤ l.countP q := List.erase_sublist.countP_le

theorem erase (h : Sound l k p) (r : Request) : Sound (l.erase r) k p where
  one_read := Nat.le_trans (Nat.add_le_add_right (countP_erase_le _ r l) k) h.one_read
  one_write := Nat.le_trans (countP_erase_le _ r l) h.one_write
  flag h0 := h.flag (Nat.lt_of_lt_of_le h0 (countP_erase_le _ r l))
  read_region q hq := h.read_region q (List.mem_of_mem_erase hq)
  write_region q hq := h.write_region q (List.mem_of_mem_erase hq)

theorem countP_erase_add {q : Request → Bool} {r : Request} {l : List Request} (hr : r ∈ l)
    (hq : q r = true) : (l.erase r).countP q + 1 = l.countP q := by
  rw [(List.perm_cons_erase hr).countP_eq, List.countP_cons_of_pos hq]

/-- Without its one `WSARecv` the connection has none, and no receive is to come. -/
theorem erase_read (h : Sound l k p) (hr : r ∈ l) (hop : r.io_operation = .ClientIoRead) :
    recvs (l.erase r) + k = 0 := by
  have h1 := h.one_read
  have h2 : recvs (l.erase r) + 1 = recvs l := countP_erase_add hr (by simpa using hop)
  omega

theorem erase_write (h : Sound l k p) (hr : r ∈ l) (hop : r.io_operation = .ClientIoWrite) :
    writes (l.erase r) = 0 := by
  have h1 := h.one_write
  have h2 : writes (l.erase r) + 1 = writes l := countP_erase_add hr (by simpa using hop)
  omega

end Sound

/-! ## All connections -/

/-- The connection that a slot holds or held last is sound, what is outstanding belongs to serials
that were given out already, and a slot of which a region is outstanding has not changed hands. -/
structure Accounted (s : Service) : Prop where
  posted_lt : ∀ r ∈ s.posted, r.serial < s.m_serial
  waiting_lt : ∀ {i n}, s.waiting i n ≠ 0 → n < s.m_serial
  live_lt : ∀ {i n}, s.Live i n → n < s.m_serial
  held : ∀ r ∈ s.posted, r.wsabuf ≠ none → s.Holds r.index r.serial
  sound : ∀ {i n}, s.Holds i n → Sound (s.requests i n) (s.waiting i n) (s.m_peer_array i)

namespace Accounted

theorem new : Accounted Service.new where
  posted_lt := by simp [Service.new]
  waiting_lt h := absurd rfl h
  live_lt h := absurd rfl h.1
  held := by simp [Service.new]
  sound _ := .nil (Nat.zero_le 1)

/-- The history, the free list and the exception in flight do not matter. -/
theorem same (h : Accounted s) (hp : s'.m_peer_array = s.m_peer_array)
    (hm : s'.m_serial = s.m_serial) (hr : s'.posted = s.posted) (hst : s'.stack = s.stack) :
    Accounted s' := by
  have hlive := (Standing.of_eq hp hm).live
  have hreq : ∀ i n, s'.requests i n = s.requests i n := fun i n => by rw [requests, hr]; rfl
  have hwait : ∀ i n, s'.waiting i n = s.waiting i n := fun i n => by rw [waiting, hst]; rfl
  refine ⟨?_, ?_, ?_, ?_, ?_⟩
  · rw [hr, hm]; exact h.posted_lt
  · intro i n; rw [hwait, hm]; exact h.waiting_lt
  · intro i n hl; rw [hm]; exact h.live_lt ((hlive i n).mp hl)
  · unfold Holds
    rw [hr, hp]
    exact h.held
  · intro i n hl
    unfold Holds at hl
    rw [hreq, hwait, hp]
    rw [hp] at hl
    exact h.sound hl

theorem throw (h : Accounted s) (e : Exception) : Accounted (s.throw e) := h.same rfl rfl rfl rfl

theorem record (h : Accounted s) (e : Event) : Accounted (s.record e) := h.same rfl rfl rfl rfl

theorem newIOCxt (h : Accounted s) : Accounted s.newIOCxt.2 := h.same rfl rfl rfl rfl

theorem setPeer {p : Peer} (h : Accounted s) (hs : p.socket = (s.m_peer_array i).socket)
    (hn : p.serial = (s.m_peer_array i).serial)
    (hp : ∀ n, s.Holds i n → Sound (s.requests i n) (s.waiting i n) p) :
    Accounted (s.setPeer i p) := by
  have hlive := (Standing.setPeer hs hn).live
  have hholds : ∀ j n, (s.setPeer i p).Holds j n ↔ s.Holds j n := by
    intro j n
    unfold Holds
    by_cases hj : j = i
    · rw [hj, setPeer_self, hn]
    · rw [setPeer_ne hj]
  refine ⟨h.posted_lt, h.waiting_lt, fun hl => h.live_lt ((hlive _ _).mp hl),
    fun r hr hw => (hholds _ _).mpr (h.held r hr hw), ?_⟩
  intro j n hl
  have hl' := (hholds j n).mp hl
  by_cases hj : j = i
  · subst hj
    rw [setPeer_self]
    exact hp n hl'
  · rw [setPeer_ne hj]
    exact h.sound hl'

theorem post {r : Request} (h : Accounted s) (hl : s.Live r.index r.serial)
    (hr : Sound (s.requests r.index r.serial ++ [r]) (s.waiting r.index r.serial)
      (s.m_peer_array r.index)) : Accounted (s.post r) := by
  refine ⟨?_, h.waiting_lt, h.live_lt, ?_, ?_⟩
  · intro q hq
    rcases List.mem_append.mp hq with hq | hq
    · exact h.posted_lt q hq
    · rw [List.mem_singleton.mp hq]; exact h.live_lt hl
  · intro q hq
    rcases List.mem_append.mp hq with hq | hq
    · exact h.held q hq
    · rw [List.mem_singleton.mp hq]; exact fun _ => hl.2
  · intro i n hl'
    rw [requests_post]
    by_cases hin : r.index = i ∧ r.serial = n
    · obtain ⟨rfl, rfl⟩ := hin
      rw [if_pos ⟨rfl, rfl⟩]
      exact hr
    · rw [if_neg hin, List.append_nil]
      exact h.sound hl'

/-- A frame behind which no `WSARecv` is posted. -/
theorem push (h : Accounted s) {f : Frame} (hf : ∀ i n, f ≠ .onCon i n ∧ f ≠ .onRead i n) :
    Accounted (s.push f) := by
  have hwait : ∀ i n, (s.push f).waiting i n = s.waiting i n := by
    intro i n
    rw [waiting_push, if_neg (by simpa [not_or] using hf i n), Nat.add_zero]
  refine ⟨h.posted_lt, ?_, h.live_lt, h.held, ?_⟩
  · intro i n; rw [hwait]; exact h.waiting_lt
  · intro i n hl; rw [hwait]; exact h.sound hl

/-- A frame of the live connection `(i, n)` behind which a `WSARecv` is posted. -/
theorem pushWait (h : Accounted s) {f : Frame} (hf : f = .onCon i n ∨ f = .onRead i n)
    (hl : s.Live i n) (hr : Sound (s.requests i n) (s.waiting i n + 1) (s.m_peer_array i)) :
    Accounted (s.push f) := by
  have hwait : ∀ j m, ¬(j = i ∧ m = n) → (s.push f).waiting j m = s.waiting j m := by
    intro j m hne
    rw [waiting_push, if_neg, Nat.add_zero]
    rcases hf with rfl | rfl <;> simpa [eq_comm] using hne
  refine ⟨h.posted_lt, ?_, h.live_lt, h.held, ?_⟩
  · intro j m
    by_cases hjm : j = i ∧ m = n
    · obtain ⟨rfl, rfl⟩ := hjm
      exact fun _ => h.live_lt hl
    · rw [hwait j m hjm]
      exact h.waiting_lt
  · intro j m hl'
    by_cases hjm : j = i ∧ m = n
    · obtain ⟨rfl, rfl⟩ := hjm
      rw [waiting_push, if_pos hf]
      exact hr
    · rw [hwait j m hjm]
      exact h.sound hl'

theorem pop (h : Accounted s) {f : Frame} {rest : List Frame} (hst : s.stack = f :: rest) :
    Accounted (s.popped rest) := by
  have hwait := waiting_popped hst
  refine ⟨h.posted_lt, ?_, h.live_lt, h.held, ?_⟩
  · intro i n hne
    exact h.waiting_lt (i := i) (by rw [hwait i n]; omega)
  · intro i n hl
    have hs := h.sound (i := i) hl
    have h1 := hs.one_read
    rw [hwait i n] at h1
    exact hs.wait (by omega)

theorem took (h : Accounted s) (r : Request) : Accounted (s.took r) := by
  refine ⟨fun q hq => h.posted_lt q (List.mem_of_mem_erase hq), h.waiting_lt, h.live_lt,
    fun q hq => h.held q (List.mem_of_mem_erase hq), ?_⟩
  intro i n hl
  rw [requests_took]
  exact (h.sound (i := i) hl).erase r

/-! ### The functions of the service -/

theorem closing (h : Accounted s) (hc : Closing s i n s') : Accounted s' := by
  cases hc with
  | outOfRange _ e => exact h.throw e
  | stale _ => exact h
  | callback _ remote => exact (h.record _).push (by simp)

/-- `postRecvRequest` for a connection that has no receive outstanding or to come. -/
theorem recvPosting (h : Accounted s)
    (h0 : s.Live i n → recvs (s.requests i n) + s.waiting i n = 0)
    (hc : RecvPosting s i n s') : Accounted s' := by
  have hset : s.Live i n → ∀ p', ReadSide (s.m_peer_array i) p' →
      Accounted (s.newIOCxt.2.setPeer i p') ∧ Sound (s.requests i n) (s.waiting i n) p' := by
    intro hl p' hp
    have hsound : Sound (s.requests i n) (s.waiting i n) p' :=
      (h.sound hl.2).congr (Or.inl (by have := h0 hl; omega)) (Or.inr ⟨hp.wsa_send, hp.write_buf⟩)
    refine ⟨h.newIOCxt.setPeer hp.socket hp.serial fun m hm => ?_, hsound⟩
    obtain rfl : n = m := hl.2.symm.trans hm
    exact hsound
  cases hc with
  | outOfRange _ e => exact h.throw e
  | stale _ => exact h
  | failed hl e p' hp => exact (hset hl p' hp).1.throw e
  | accepted hl w p' hm =>
    have hp := keeps_offerRead.ok hm
    obtain ⟨ha, hsound⟩ := hset hl p' hp
    refine ha.post ((live_setPeer (s := s.newIOCxt.2) hp.socket hp.serial).mpr hl) ?_
    rw [setPeer_self]
    exact hsound.append_read (h0 hl) rfl (congrArg some (offerRead_region hm))
  | refused hl p' hp _ hc => exact (hset hl p' hp).1.closing hc

/-- `postSendRequest` for a connection that has no write request outstanding. -/
theorem sendPosting {accepted : Bool} (h : Accounted s)
    (h0 : s.Live i n → writes (s.requests i n) = 0) (hc : SendPosting s i n accepted s') :
    Accounted s' := by
  have hset : s.Live i n → ∀ p', p' = (s.m_peer_array i).withWsaSend true →
      Accounted (s.newIOCxt.2.setPeer i p') ∧ Sound (s.requests i n) (s.waiting i n) p' := by
    rintro hl p' rfl
    have hsound : Sound (s.requests i n) (s.waiting i n) ((s.m_peer_array i).withWsaSend true) :=
      (h.sound hl.2).congr (Or.inr rfl) (Or.inl (h0 hl))
    refine ⟨h.newIOCxt.setPeer rfl rfl fun m hm => ?_, hsound⟩
    obtain rfl : n = m := hl.2.symm.trans hm
    exact hsound
  cases hc with
  | outOfRange _ e => exact h.throw e
  | stale _ => exact h
  | failed hl e p' hp hm => exact (hset hl p' hp).1.throw e
  | accepted hl _ w p' hp hm =>
    obtain ⟨ha, hsound⟩ := hset hl p' hp
    refine ha.post ((live_setPeer (s := s.newIOCxt.2) (by rw [hp]; rfl) (by rw [hp]; rfl)).mpr
      hl) ?_
    rw [setPeer_self]
    refine hsound.append_write (h0 hl) (by rw [hp]; rfl) rfl fun w' hw' => ?_
    exact (Option.some.inj hw').symm.trans (offerWrite_region hm)
  | refused hl _ p' hp _ hc => exact (hset hl p' hp).1.closing hc

/-- **`send`** appends to `write_buf_backup_` only, and signals only when nothing is outstanding. -/
theorem sending {buf : Bytes} {accepted : Bool} (h : Accounted s)
    (hc : Sending s i n buf accepted s') : Accounted s' := by
  have hfields := onBackup_fields (SockBuf.apendBuf buf) (s.m_peer_array i)
  have hkeep := keeps_onBackup (SockBuf.apendBuf buf)
  have hset : s.Live i n → ∀ p', SendSide (s.m_peer_array i) p' →
      p'.wsa_send = (s.m_peer_array i).wsa_send → p'.write_buf = (s.m_peer_array i).write_buf →
      Accounted ((s.record (.sent i n buf)).setPeer i p') ∧
        Sound (s.requests i n) (s.waiting i n) p' := by
    intro hl p' hp hw hb
    have hsound : Sound (s.requests i n) (s.waiting i n) p' :=
      (h.sound hl.2).congr (Or.inr hp.read_buf) (Or.inr ⟨hw, hb⟩)
    refine ⟨(h.record _).setPeer hp.socket hp.serial fun m hm => ?_, hsound⟩
    obtain rfl : n = m := hl.2.symm.trans hm
    exact hsound
  -- without the flag nothing is outstanding
  have hflag : s.Live i n → ∀ p', SendSide (s.m_peer_array i) p' →
      (s.m_peer_array i).wsa_send = false →
      Accounted ((s.record (.sent i n buf)).newIOCxt.2.setPeer i (p'.withWsaSend true)) ∧
        writes (s.requests i n) = 0 ∧
        Sound (s.requests i n) (s.waiting i n) (p'.withWsaSend true) := by
    intro hl p' hp hw
    have h0 : writes (s.requests i n) = 0 := (h.sound hl.2).no_writes hw
    have hsound : Sound (s.requests i n) (s.waiting i n) (p'.withWsaSend true) :=
      (h.sound hl.2).congr (Or.inr hp.read_buf) (Or.inl h0)
    refine ⟨(h.record _).newIOCxt.setPeer hp.socket hp.serial fun m hm => ?_, h0, hsound⟩
    obtain rfl : n = m := hl.2.symm.trans hm
    exact hsound
  cases hc with
  | outOfRange _ e => exact h.throw e
  | stale _ => exact h
  | failed hl e p' hm =>
    rw [hm] at hfields
    exact (hset hl p' (hkeep.error hm) hfields.1 hfields.2).1.throw e
  | queued hl p' hm _ =>
    rw [hm] at hfields
    exact (hset hl p' (hkeep.ok hm) hfields.1 hfields.2).1
  | signalled hl _ p' hm hw =>
    rw [hm] at hfields
    have hp := hkeep.ok hm
    obtain ⟨ha, h0, hsound⟩ := hflag hl p' hp (hfields.1.symm.trans hw)
    have hsock : (p'.withWsaSend true).socket = (s.m_peer_array i).socket := hp.socket
    have hl' : ((s.record (.sent i n buf)).newIOCxt.2.setPeer i (p'.withWsaSend true)).Live i n :=
      (live_setPeer (s := (s.record (.sent i n buf)).newIOCxt.2) hsock hp.serial).mpr hl
    refine ha.post hl' ?_
    rw [setPeer_self]
    exact hsound.append_write h0 rfl rfl (by simp)
  | refused hl _ p' hm hw =>
    rw [hm] at hfields
    exact (hflag hl p' (hkeep.ok hm) (hfields.1.symm.trans hw)).1.throw _

/-- **`processWrite`** for a connection that has no write request outstanding. -/
theorem writing {size : Nat} {accepted : Bool} (h : Accounted s)
    (h0 : ∀ n, s.Holds i n → writes (s.requests i n) = 0) (hc : Writing s i size accepted s') :
    Accounted s' := by
  have hset : ∀ p', SendSide (s.m_peer_array i) p' → Accounted (s.setPeer i p') :=
    fun p' hp => h.setPeer hp.socket hp.serial fun n hl =>
      (h.sound hl).congr (Or.inr hp.read_buf) (Or.inl (h0 n hl))
  have hkeep := keeps_drainWrite size
  cases hc with
  | outOfRange _ e => exact h.throw e
  | closed _ => exact h
  | failed _ e p' hm => exact (hset p' (hkeep.error hm)).throw e
  | drained _ p' hm => exact hset p' (hkeep.ok hm)
  | more _ k _ p' hm _ hs =>
    have hp := hkeep.ok hm
    refine (hset p' hp).sendPosting (fun hl => h0 _ ?_) hs
    exact ((live_setPeer hp.socket hp.serial).mp hl).2

/-- **`processRead`** for a connection that has no receive outstanding or to come. -/
theorem reading {size : Nat} (h : Accounted s)
    (h0 : ∀ n, s.Holds i n → recvs (s.requests i n) + s.waiting i n = 0)
    (hc : Reading s i size s') : Accounted s' := by
  have hsound : ∀ p', ReadSide (s.m_peer_array i) p' → ∀ n, s.Holds i n →
      Sound (s.requests i n) (s.waiting i n) p' := fun p' hp n hl =>
    (h.sound hl).congr (Or.inl (by have := h0 n hl; omega)) (Or.inr ⟨hp.wsa_send, hp.write_buf⟩)
  have hset : ∀ p', ReadSide (s.m_peer_array i) p' → Accounted (s.setPeer i p') :=
    fun p' hp => h.setPeer hp.socket hp.serial (hsound p' hp)
  have hkeep := keeps_onReadBuf (SockBuf.writeMove size)
  cases hc with
  | outOfRange _ e => exact h.throw e
  | closed _ => exact h
  | failed _ e p' hm => exact (hset p' (hkeep.error hm)).throw e
  | callback hsock p' hm =>
    have hp := hkeep.ok hm
    have hl : s.Live i (s.m_peer_array i).serial := ⟨hsock, rfl⟩
    have h1 := h0 _ hl.2
    refine ((hset p' hp).record _).pushWait (Or.inr rfl)
      ((live_setPeer hp.socket hp.serial).mpr hl) ?_
    rw [record_peer, setPeer_self]
    refine (hsound p' hp _ hl.2).wait ?_
    show recvs (s.requests i _) + (s.waiting i _ + 1) ≤ 1
    omega

/-- Nothing is outstanding for the next serial. -/
theorem fresh (h : Accounted s) (i : Nat) :
    s.requests i s.m_serial = [] ∧ s.waiting i s.m_serial = 0 := by
  constructor
  · rw [requests, List.filter_eq_nil_iff]
    intro r hr
    have := h.posted_lt r hr
    simp only [decide_eq_true_eq, not_and]
    omega
  · by_contra hne
    exact Nat.lt_irrefl _ (h.waiting_lt hne)

/-- A slot of which no region is outstanding is given to a connection with a new serial. -/
theorem register {p : Peer} (h : Accounted s) (hser : s.m_serial + 1 < 2 ^ 64)
    (hheld : ∀ r ∈ s.posted, r.wsabuf ≠ none → (s.setPeer i p).Holds r.index r.serial)
    (hp : p.serial = s.m_serial) : Accounted ({ s with m_serial := (s.m_serial + 1) % 2 ^ 64 }.setPeer i p) := by
  have hmod : (s.m_serial + 1) % 2 ^ 64 = s.m_serial + 1 := Nat.mod_eq_of_lt hser
  obtain ⟨hreq, hwait⟩ := h.fresh i
  refine ⟨?_, ?_, ?_, hheld, ?_⟩
  · intro r (hr : r ∈ s.posted)
    show r.serial < (s.m_serial + 1) % 2 ^ 64
    have := h.posted_lt r hr
    omega
  · intro j m hne
    show m < (s.m_serial + 1) % 2 ^ 64
    have := h.waiting_lt hne
    omega
  · intro j m hl
    show m < (s.m_serial + 1) % 2 ^ 64
    by_cases hj : j = i
    · subst hj
      have hm : p.serial = m := by simpa using hl.2
      omega
    · have hl' : s.Live j m := by simpa [Live, setPeer_ne hj] using hl
      have := h.live_lt hl'
      omega
  · intro j m hl
    by_cases hj : j = i
    · subst hj
      obtain rfl : s.m_serial = m := by simpa [Holds, hp] using hl
      show Sound (s.requests j _) (s.waiting j _) _
      rw [hreq, hwait]
      exact .nil (by omega)
    · have hl' : s.Holds j m := by simpa [Holds, setPeer_ne hj] using hl
      rw [setPeer_ne hj]
      exact h.sound hl'

theorem registering (h : Accounted s) (hser : s.m_serial + 1 < 2 ^ 64)
    (hheld : ∀ r ∈ s.posted, r.wsabuf ≠ none → s'.Holds r.index r.serial)
    (hc : Registering s s') : Accounted s' := by
  cases hc with
  | full e => exact h.throw e
  | unbound i hfree e => exact (h.register hser hheld rfl).throw e
  | callback i hi hfree p' sd loc rem hp =>
    have ha := h.register (i := i) (p := p') hser hheld (by rw [hp]; rfl)
    have hl : ({ s with m_serial := (s.m_serial + 1) % 2 ^ 64 }.setPeer i p').Live i
        s.m_serial := (setPeer_live_callback hfree hp i _).mpr (Or.inl ⟨rfl, rfl⟩)
    refine (ha.record _).pushWait (Or.inl rfl) hl ?_
    obtain ⟨hreq, hwait⟩ := h.fresh i
    show Sound (s.requests i s.m_serial) (s.waiting i s.m_serial + 1) _
    rw [hreq, hwait]
    exact .nil (by omega)

theorem closePeerEnd (h : Accounted s) (i : Nat) : Accounted (s.closePeerEnd i) := by
  have hlive := closePeerEnd_live s i
  have hreq : ∀ j m, (s.closePeerEnd i).requests j m = s.requests j m := fun j m => by
    rw [requests, closePeerEnd_posted]
    rfl
  have hwait : ∀ j m, (s.closePeerEnd i).waiting j m = s.waiting j m := fun j m => by
    rw [waiting, closePeerEnd_stack]
    rfl
  have hholds : ∀ j m, (s.closePeerEnd i).Holds j m ↔ s.Holds j m := by
    intro j m
    unfold Holds
    by_cases hj : j = i
    · rw [hj, closePeerEnd_peer_self]
      rfl
    · rw [closePeerEnd_peer_ne hj]
  refine ⟨?_, ?_, ?_, ?_, ?_⟩
  · rw [closePeerEnd_posted, closePeerEnd_m_serial]; exact h.posted_lt
  · intro j m; rw [hwait, closePeerEnd_m_serial]; exact h.waiting_lt
  · intro j m hl; rw [closePeerEnd_m_serial]; exact h.live_lt ((hlive j m).mp hl).2
  · rw [closePeerEnd_posted]
    exact fun r hr hw => (hholds _ _).mpr (h.held r hr hw)
  · intro j m hl
    have hs := h.sound ((hholds j m).mp hl)
    rw [hreq, hwait]
    by_cases hj : j = i
    · subst hj
      rw [closePeerEnd_peer_self]
      exact hs.congr (Or.inr rfl) (Or.inr ⟨rfl, rfl⟩)
    · rw [closePeerEnd_peer_ne hj]
      exact hs

/-- The bytes of a completion arrive in a region that is not outstanding any more. -/
theorem arrived {r : Request} {size : Nat} {received : Bytes} (h : Accounted s)
    (h0 : received ≠ [] → ∀ n, s.Holds r.index n → recvs (s.requests r.index n) = 0) :
    Accounted (s.arrived r size received) := by
  have hfields := arrived_posted s r size received
  have hpeer := arrived_peer s r size received
  have hlive := (Standing.arrived s r size received).live
  have hholds : ∀ i n, (s.arrived r size received).Holds i n ↔ s.Holds i n := fun i n => by
    unfold Holds
    rw [arrived_serial]
  refine ⟨?_, ?_, ?_, ?_, ?_⟩
  · rw [hfields, arrived_m_serial]; exact h.posted_lt
  · intro i n
    rw [waiting, arrived_stack, arrived_m_serial]
    exact h.waiting_lt
  · intro i n hl
    rw [arrived_m_serial]
    exact h.live_lt ((hlive i n).mp hl)
  · rw [hfields]
    exact fun q hq hw => (hholds _ _).mpr (h.held q hq hw)
  · intro i n hl
    have hl' := (hholds i n).mp hl
    rw [requests, waiting, hfields, arrived_stack]
    rcases hpeer i with heq | ⟨rfl, hne, w, hw, heq⟩
    · rw [heq]
      exact h.sound hl'
    · rw [heq]
      exact (h.sound hl').congr (Or.inl (h0 hne n hl')) (Or.inr ⟨rfl, rfl⟩)

end Accounted

/-! ## Slots that keep their connection -/

/-- If a `WSARecv` is posted behind the running callback, the slot is free or still holds the
connection the callback was called for. -/
def Service.WaitOwn (s : Service) (ret : Int) : List Frame → Prop
  | .onCon i n :: _ => s.FreeOr i n
  | .onRead i n :: _ => 0 ≤ ret → s.FreeOr i n
  | _ => True

/-- Where the service goes on with a slot and may post a request or touch a buffer, the slot is
free or still holds its connection. A slot of which a region is outstanding is not given to the next
connection, and serials do not wrap around. -/
def SlotKept (s : Service) : Action → Prop
  | .dequeue r _ _ => r.wsabuf = none →
      s.FreeOr r.index r.serial ∨ (s.m_peer_array r.index).wsa_send = false
  | .return_ ret _ => s.WaitOwn ret s.stack
  | .connectPeer .. | .accept .. => s.m_serial + 1 < 2 ^ 64 ∧
      ∀ r ∈ s.posted, r.wsabuf ≠ none → r.index ≠ s.newPeer.1
  | _ => True

/-- Only the slot that `newPeer` hands out changes. -/
theorem registerSocket_peer_ne {sd : Nat} {local_addr remote_addr : Addr} {bound : Bool} {j : Nat}
    (hj : j ≠ s.newPeer.1) :
    (s.registerSocket sd local_addr remote_addr bound).m_peer_array j = s.m_peer_array j := by
  have hnew : s.newPeer.2.m_peer_array j = s.m_peer_array j := by
    revert hj
    unfold newPeer
    split
    · exact fun _ => rfl
    · exact fun hj => setPeer_ne hj _ _
  unfold registerSocket
  rcases getPeer_cases s.newPeer.2 s.newPeer.1 _ with ⟨-, e, hget⟩ | hget <;> rw [hget]
  · exact hnew
  · split
    · exact (setPeer_ne hj _ _).trans hnew
    · exact hnew

theorem registers_peer_ne {a : Action} {j : Nat} (ha : a.registers = true)
    (hs : step s a = some s') (hj : j ≠ s.newPeer.1) :
    s'.m_peer_array j = s.m_peer_array j := by
  cases a with
  | connectPeer | accept =>
    obtain ⟨-, h⟩ := Option.ite_none_right_eq_some.mp hs
    cases h
    exact registerSocket_peer_ne hj
  | _ => cases ha

namespace Accounted

/-- **A dequeued completion.** Its request is not outstanding any more, so the side of the peer
that it was posted for may be worked on. -/
theorem ticking {r : Request} {c : Completion} {accepted : Bool} (h : Accounted s)
    (hst : s.stack = []) (hr : r ∈ s.posted) (hfits : c.Fits r)
    (hok : SlotKept s (.dequeue r c accepted)) (hc : Ticking (s.took r) r c accepted s') :
    Accounted s' := by
  have ht := h.took r
  have hwait : ∀ i n, s.waiting i n = 0 := fun i n => by rw [waiting, hst]; rfl
  have hread : s.Holds r.index r.serial → r.io_operation = .ClientIoRead →
      recvs ((s.took r).requests r.index r.serial) = 0 := by
    intro hl hop
    have h0 := (h.sound hl).erase_read (mem_requests.mpr ⟨hr, rfl, rfl⟩) hop
    rw [requests_took]
    omega
  have hwrite : s.Holds r.index r.serial → r.io_operation = .ClientIoWrite →
      writes ((s.took r).requests r.index r.serial) = 0 := by
    intro hl hop
    rw [requests_took]
    exact (h.sound hl).erase_write (mem_requests.mpr ⟨hr, rfl, rfl⟩) hop
  have hregion : ∀ size received, (Completion.success size received).Fits r → size ≠ 0 →
      r.wsabuf ≠ none := by
    intro size received hf hsize hw
    unfold Completion.Fits at hf
    rw [hw] at hf
    exact hsize hf.1
  have hown : ∀ {n}, r.wsabuf ≠ none → s.Holds r.index n → n = r.serial :=
    fun hw hl => hl.symm.trans (h.held r hr hw)
  have harr : ∀ size received, (Completion.success size received).Fits r →
      Accounted ((s.took r).arrived r size received) := by
    refine fun size received hf => ht.arrived fun hne n hl => ?_
    have hw : r.wsabuf ≠ none := by
      intro hw
      unfold Completion.Fits at hf
      rw [hw] at hf
      exact hne hf.2
    obtain rfl := hown hw hl
    exact hread hl (hf.read hne)
  have htick : ∀ size received, (Completion.success size received).Fits r →
      Accounted (((s.took r).arrived r size received).push (.tick r)) :=
    fun size received hf => (harr size received hf).push (by simp)
  -- the state in which the handler of a successful completion starts
  have hholds : ∀ size received n, (((s.took r).arrived r size received).push (.tick r)).Holds
      r.index n → s.Holds r.index n := by
    intro size received n hl
    unfold Holds at hl
    rwa [push_peer, arrived_serial] at hl
  have hreq : ∀ size received n, (((s.took r).arrived r size received).push (.tick r)).requests
      r.index n = (s.took r).requests r.index n := fun size received n => by
    rw [requests, push_posted, arrived_posted]
    rfl
  cases hc with
  | lost _ _ hc =>
    have hpush : Accounted ((s.took r).push (.tick r)) := ht.push (by simp)
    exact hpush.closing hc
  | other _ e => exact ht.throw e
  | outOfRange _ size received _ e => exact (harr size received hfits).throw e
  | free size received _ _ => exact harr size received hfits
  | shutdown received _ _ _ hc => exact (htick 0 received hfits).closing hc
  | unknown size received _ _ e => exact (htick size received hfits).throw e
  | read size received _ hop hsize _ hc =>
    refine (htick size received hfits).reading (fun n hl => ?_) hc
    have hl' := hholds size received n hl
    obtain rfl := hown (hregion size received hfits hsize) hl'
    rw [hreq, hread hl' hop, waiting_push, waiting, arrived_stack, took_stack, hst]
    simp
  | write size received _ hop _ hc =>
    have hsound := htick size received hfits
    by_cases hw : r.wsabuf = none
    · -- a signal: the slot may have changed hands, if nothing is outstanding for its connection
      rcases hok hw with (hfree | hser) | hflag
      · cases hc with
        | outOfRange _ e => exact hsound.throw e
        | closed => exact hsound
        | failed hsock | drained hsock | more hsock =>
          have heq := arrived_socket (s.took r) r size received r.index
          exact absurd (heq.trans hfree) hsock
      · refine hsound.writing (fun n hl => ?_) hc
        have hl' := hholds size received n hl
        obtain rfl : n = r.serial := hl'.symm.trans hser
        rw [hreq]
        exact hwrite hl' hop
      · refine hsound.writing (fun n hl => ?_) hc
        have hl' := hholds size received n hl
        rw [hreq]
        exact (ht.sound (i := r.index) hl').no_writes hflag
    · refine hsound.writing (fun n hl => ?_) hc
      have hl' := hholds size received n hl
      obtain rfl := hown hw hl'
      rw [hreq]
      exact hwrite hl' hop

/-- Behind a callback of the slot's own connection nothing is outstanding to receive. -/
theorem popped_reads (h : Accounted s) {f : Frame} {rest : List Frame} (hst : s.stack = f :: rest)
    (hf : f = .onCon i n ∨ f = .onRead i n) (hslot : s.FreeOr i n)
    (hl : (s.popped rest).Live i (s.m_peer_array i).serial) :
    recvs ((s.popped rest).requests i (s.m_peer_array i).serial)
      + (s.popped rest).waiting i (s.m_peer_array i).serial = 0 := by
  obtain rfl : (s.m_peer_array i).serial = n := by
    rcases hslot with hfree | hser
    · exact absurd hfree hl.1
    · exact hser
  have h1 := (h.sound (i := i) rfl).one_read
  rw [waiting_popped hst, if_pos hf] at h1
  have heq : (s.popped rest).requests i (s.m_peer_array i).serial
      = s.requests i (s.m_peer_array i).serial := rfl
  rw [heq]
  omega

/-- One step keeps every connection sound. -/
theorem step {a : Action} (h : Accounted s) (hok : SlotKept s a)
    (hstep : Iocp.step s a = some s') : Accounted s' := by
  cases stepping hstep with
  | send _ hs => exact h.sending hs
  | closePeer _ hs => exact h.closing hs
  | connectPeer _ hs | accept _ hs =>
    refine h.registering hok.1 (fun r hr hw => ?_) hs
    unfold Holds
    rw [registers_peer_ne rfl hstep (hok.2 r hr hw)]
    exact h.held r hr hw
  | @readMove _ i n rest hst k _ heq =>
    have hset : Accounted (s.setPeer i ((s.m_peer_array i).withReadBuf
        ((s.m_peer_array i).read_buf.setRead k))) := by
      refine h.setPeer rfl rfl fun m hl => ?_
      have hsound := h.sound hl
      exact ⟨hsound.one_read, hsound.one_write, hsound.flag, hsound.read_region,
        hsound.write_region⟩
    rcases heq with rfl | ⟨e, rfl⟩
    · exact hset
    · exact hset.throw e
  | onCon hst hs =>
    rw [SlotKept, hst] at hok
    exact (h.pop hst).recvPosting (h.popped_reads hst (Or.inl rfl) hok) hs
  | onRead hst hret hs =>
    rw [SlotKept, hst] at hok
    exact (h.pop hst).recvPosting (h.popped_reads hst (Or.inr rfl) (hok hret)) hs
  | onReadNegative hst _ hs => exact (h.pop hst).closing hs
  | onDisCon hst => exact (h.pop hst).closePeerEnd _
  | raise _ => exact h.throw _
  | dequeue hst hr hfits hs => exact h.ticking hst hr hfits hok hs
  | finish hst => exact (h.pop hst).same rfl rfl rfl rfl
  | unwind hst => exact h.pop hst
  | catch_ => exact h.same rfl rfl rfl rfl

end Accounted

/-- The `WSASend`s among the requests: the write requests with a region. -/
def sends (l : List Request) : Nat :=
  l.countP fun r => r.io_operation = .ClientIoWrite ∧ r.wsabuf.isSome

theorem sends_le_writes (l : List Request) : sends l ≤ writes l := by
  refine List.countP_mono_left fun r _ h => ?_
  simp only [Bool.decide_and, Bool.and_eq_true, decide_eq_true_eq] at h ⊢
  exact h.1

/-- The region the request was given is where the peer's buffer has it now, byte for byte. -/
def InPlace (p : Peer) (r : Request) : Prop :=
  (r.io_operation = .ClientIoRead → r.wsabuf = some p.readRegion) ∧
    (r.io_operation = .ClientIoWrite → ∀ w, r.wsabuf = some w → w = p.writeRegion)

/-- **Single outstanding requests.** In a run in which the service goes on only with slots that
kept their connection, and reuses none of which a region is outstanding, a live connection has at
most one `WSARecv` and at most one `WSASend` outstanding, and no region that is outstanding, also of
a connection that is closed, has been moved or written since it was given to its request. -/
theorem single_outstanding (hr : Reach Init step SlotKept s) :
    (∀ i n, s.Live i n → recvs (s.requests i n) ≤ 1 ∧ sends (s.requests i n) ≤ 1) ∧
      ∀ r ∈ s.posted, r.wsabuf ≠ none → InPlace (s.m_peer_array r.index) r := by
  have h : Accounted s :=
    hr.invariant _ (by rintro _ rfl; exact .new) fun _ _ _ h hok hs => h.step hok hs
  refine ⟨fun i n hl => ?_, fun r hr hw => ?_⟩
  · have hsound := h.sound hl.2
    exact ⟨Nat.le_of_add_right_le hsound.one_read,
      Nat.le_trans (sends_le_writes _) hsound.one_write⟩
  · have hsound := h.sound (h.held r hr hw)
    have hmem : r ∈ s.requests r.index r.serial := mem_requests.mpr ⟨hr, rfl, rfl⟩
    exact ⟨hsound.read_region r hmem, hsound.write_region r hmem⟩

instance (s : Service) (ret : Int) : ∀ st : List Frame, Decidable (s.WaitOwn ret st)
  | .onCon i n :: _ => inferInstanceAs (Decidable (s.FreeOr i n))
  | .onRead i n :: _ => inferInstanceAs (Decidable (0 ≤ ret → s.FreeOr i n))
  | [] | .onDisCon .. :: _ | .tick _ :: _ => .isTrue trivial

instance (s : Service) : ∀ a : Action, Decidable (SlotKept s a)
  | .dequeue r _ _ => inferInstanceAs (Decidable (r.wsabuf = none →
      s.FreeOr r.index r.serial ∨ (s.m_peer_array r.index).wsa_send = false))
  | .return_ ret _ => inferInstanceAs (Decidable (s.WaitOwn ret s.stack))
  | .connectPeer .. | .accept .. => inferInstanceAs (Decidable (s.m_serial + 1 < 2 ^ 64 ∧
      ∀ r ∈ s.posted, r.wsabuf ≠ none → r.index ≠ s.newPeer.1))
  | .send .. | .closePeer .. | .readMove .. | .raise | .finish | .unwind | .catch_ =>
    .isTrue trivial

/-- Two connections, each with its `WSARecv`. -/
theorem single_outstanding_twoPeers :
    (∀ i n, twoPeersState.Live i n →
        recvs (twoPeersState.requests i n) ≤ 1 ∧ sends (twoPeersState.requests i n) ≤ 1) ∧
      ∀ r ∈ twoPeersState.posted, r.wsabuf ≠ none →
        InPlace (twoPeersState.m_peer_array r.index) r :=
  single_outstanding
    (Reach.of_exec (.start rfl) (by decide +kernel) (Option.some_get twoPeers_runs).symm)

/-! ### A slot that changes hands inside `onCon` -/

/-- `onCon` closes its connection and connects again. The new connection gets the same slot, and
both `onCon`s return into `postRecvRequest` for it. -/
def reconnecting : List Action :=
  [.accept 7 ⟨"", 0⟩ ⟨"", 0⟩ true, .closePeer 0 0, .return_ 0 true,
    .connectPeer 8 ⟨"", 0⟩ ⟨"", 0⟩ true, .return_ 0 true, .return_ 0 true]

theorem reconnecting_runs : (exec step Service.new reconnecting).isSome = true := by
  decide +kernel

/-- **Two `WSARecv`s are outstanding for one connection.** -/
theorem two_receives_outstanding :
    ¬∀ (s : Service) (i n : Nat), Reach Init step anyStep s → s.Live i n →
      recvs (s.requests i n) ≤ 1 := by
  intro h
  have hle := h ((exec step Service.new reconnecting).get reconnecting_runs) 0 1
    (Reach.of_exec (.start rfl) (by decide +kernel) (Option.some_get _).symm) (by decide +kernel)
  exact absurd hle (by decide +kernel)

end GhNet.Iocp
