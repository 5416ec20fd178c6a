import GhNet.Iocp.Isolation

/-!
# The input stream of a connection

`postRecvRequest` makes room in `read_buf` and offers all of it to one `WSARecv`. When that has
completed, `processRead` makes the bytes readable and calls `onRead`, and behind the callback the
next request is posted.

So a connection has one read request outstanding, or a callback is running behind which it will be
posted. The invariant `Intake` says so, and that nobody else moves the write index meanwhile: what
arrives stands behind the content.
-/

namespace GhNet.Iocp

open GhNet Service

variable {s s' : Service} {i n : Nat}

/-- The read requests that are outstanding on slot `i`. -/
def Service.pendingReads (s : Service) (i : Nat) : List Request :=
  s.posted.filter fun r => r.index = i ∧ r.io_operation = .ClientIoRead

/-- A read request of slot `i` is posted behind the frame. -/
def Frame.postsRecv (i : Nat) : Frame → Bool
  | .onCon j _ => j = i
  | .onRead j _ => j = i
  | .onDisCon .. => false
  | .tick _ => false

/-- How many read requests of slot `i` are still to be posted. -/
def postsAhead (i : Nat) (st : List Frame) : Nat := st.countP (Frame.postsRecv i)

theorem Frame.not_postsRecv {f : Frame} (h : f.connection.1 ≠ i) : f.postsRecv i = false := by
  cases f with
  | onCon j m => exact decide_eq_false h
  | onRead j m => exact decide_eq_false h
  | onDisCon j m => rfl
  | tick r => rfl

/-- No callback of slot `i` has been called behind which a read request is posted. -/
structure Fewer (i : Nat) (st st' : List Frame) : Prop where
  waiting : postsAhead i st' ≤ postsAhead i st
  calls : ∀ m, .onRead i m ∈ st' → .onRead i m ∈ st

namespace Fewer

variable {st st' : List Frame} {f : Frame}

theorem refl (st : List Frame) : Fewer i st st := ⟨Nat.le_refl _, fun _ h => h⟩

theorem trans {st'' : List Frame} (h1 : Fewer i st st') (h2 : Fewer i st' st'') :
    Fewer i st st'' :=
  ⟨h2.waiting.trans h1.waiting, fun m hm => h1.calls m (h2.calls m hm)⟩

theorem cons (hf : f.postsRecv i = false) : Fewer i st (f :: st) := by
  refine ⟨?_, fun m hm => ?_⟩
  · rw [postsAhead, List.countP_cons_of_neg (by rw [hf]; exact Bool.false_ne_true)]
    exact Nat.le_refl _
  · rcases List.mem_cons.mp hm with rfl | hm
    · exact absurd hf (by simp [Frame.postsRecv])
    · exact hm

theorem tail : Fewer i (f :: st) st := by
  refine ⟨?_, fun m hm => List.mem_cons_of_mem f hm⟩
  rw [postsAhead, postsAhead, List.countP_cons]
  exact Nat.le_add_right _ _

end Fewer

/-! ## Steps beside the receive side -/

/-- Nothing has happened on the receive side of slot `i`; what was posted for it belongs to the
connection in it. -/
structure Beside (i : Nat) (s s' : Service) : Prop where
  serial : (s'.m_peer_array i).serial = (s.m_peer_array i).serial
  read_buf : (s'.m_peer_array i).read_buf = (s.m_peer_array i).read_buf
  reads : s'.pendingReads i = s.pendingReads i
  own : ∀ r ∈ s'.posted, r.index = i → r ∈ s.posted ∨ r.serial = (s.m_peer_array i).serial
  stack : Fewer i s.stack s'.stack

namespace Beside

theorem of_eq (hp : s'.m_peer_array = s.m_peer_array) (hr : s'.posted = s.posted)
    (hst : Fewer i s.stack s'.stack) : Beside i s s' :=
  ⟨by rw [hp], by rw [hp], by rw [pendingReads, hr]; rfl, fun r h _ => Or.inl (hr ▸ h), hst⟩

theorem refl (s : Service) : Beside i s s := of_eq rfl rfl (.refl _)

theorem throw (s : Service) (e : Exception) : Beside i s (s.throw e) := of_eq rfl rfl (.refl _)

theorem trans {t : Service} (h1 : Beside i s s') (h2 : Beside i s' t) : Beside i s t := by
  refine ⟨h2.serial.trans h1.serial, h2.read_buf.trans h1.read_buf, h2.reads.trans h1.reads,
    fun r hr hi => ?_, h1.stack.trans h2.stack⟩
  rcases h2.own r hr hi with hr | hser
  · exact h1.own r hr hi
  · exact Or.inr (hser.trans h1.serial)

/-- Whatever happens on another slot. -/
theorem of_local {j : Nat} (h : Local j s s') (hj : i ≠ j) (hst : Fewer i s.stack s'.stack) :
    Beside i s s' := by
  have hmem : ∀ {r : Request}, r.index = i → (r ∈ s'.posted ↔ r ∈ s.posted) := by
    intro r hi
    have hne : r.index ≠ j := hi ▸ hj
    have hfilter := congrArg (fun l => r ∈ l) h.posted
    simpa [hne] using hfilter
  exact ⟨by rw [h.peers i hj], by rw [h.peers i hj], h.filter_posted hj .ClientIoRead,
    fun r hr hi => Or.inl ((hmem hi).mp hr), hst⟩

/-- The send side of a connection. -/
theorem setPeer {j : Nat} {p : Peer} (hp : SendSide (s.m_peer_array j) p) :
    Beside i s (s.setPeer j p) := by
  refine ⟨?_, ?_, rfl, fun r hr _ => Or.inl hr, .refl _⟩
  all_goals
    by_cases hj : i = j
    · subst hj
      rw [setPeer_self]
      first | exact hp.serial | exact hp.read_buf
    · rw [setPeer_ne hj]

theorem post {r : Request} (hop : r.io_operation ≠ .ClientIoRead)
    (hser : r.index = i → r.serial = (s.m_peer_array i).serial) : Beside i s (s.post r) := by
  refine ⟨rfl, rfl, ?_, fun q hq hi => ?_, .refl _⟩
  · rw [pendingReads, post_posted, List.filter_append]
    simp [hop, pendingReads]
  · rw [post_posted, List.mem_append, List.mem_singleton] at hq
    rcases hq with hq | rfl
    · exact Or.inl hq
    · exact Or.inr (hser hi)

/-- A request that is not a read request has left. -/
theorem took {r : Request} (hop : r.io_operation ≠ .ClientIoRead) (s : Service) :
    Beside i s (s.took r) := by
  refine ⟨rfl, rfl, ?_, fun q hq _ => Or.inl (List.mem_of_mem_erase hq), .refl _⟩
  rw [pendingReads, took_posted, ← List.erase_filter, List.erase_of_not_mem]
  · rfl
  · simp [hop]

theorem closing {j m : Nat} (h : Closing s j m s') : Beside i s s' := by
  cases h with
  | outOfRange _ e => exact throw s e
  | stale _ => exact refl s
  | callback _ remote => exact of_eq rfl rfl (.cons rfl)

theorem sendPosting {j m : Nat} {accepted : Bool} (h : SendPosting s j m accepted s') :
    Beside i s s' := by
  have hcxt : Beside i s s.newIOCxt.2 := of_eq rfl rfl (.refl _)
  have hset : Beside i s (s.newIOCxt.2.setPeer j ((s.m_peer_array j).withWsaSend true)) :=
    hcxt.trans (setPeer (s := s.newIOCxt.2) ⟨rfl, rfl, rfl, rfl⟩)
  cases h with
  | outOfRange _ e => exact throw s e
  | stale _ => exact refl s
  | failed _ e p' hp _ => exact hp ▸ hset.trans (throw _ e)
  | accepted hl _ w p' hp _ =>
    subst hp
    refine hset.trans (post (by simp) ?_)
    rintro rfl
    rw [hset.serial]
    exact hl.2.symm
  | refused _ _ p' hp _ hc =>
    subst hp
    exact hset.trans (closing hc)

theorem sending {j m : Nat} {buf : Bytes} {accepted : Bool} (h : Sending s j m buf accepted s') :
    Beside i s s' := by
  have hrec : Beside i s (s.record (.sent j m buf)) := of_eq rfl rfl (.refl _)
  have hcxt : Beside i s (s.record (.sent j m buf)).newIOCxt.2 := of_eq rfl rfl (.refl _)
  have hkeep := keeps_onBackup (SockBuf.apendBuf buf)
  have hset : ∀ p', SendSide (s.m_peer_array j) p' →
      Beside i s ((s.record (.sent j m buf)).setPeer j p') :=
    fun p' hp => hrec.trans (setPeer (s := s.record (.sent j m buf)) hp)
  have hflag : ∀ p', SendSide (s.m_peer_array j) p' →
      Beside i s ((s.record (.sent j m buf)).newIOCxt.2.setPeer j (p'.withWsaSend true)) :=
    fun p' hp => hcxt.trans (setPeer (s := (s.record (.sent j m buf)).newIOCxt.2)
      ⟨hp.socket, hp.serial, hp.read_buf, hp.remote_addr⟩)
  cases h with
  | outOfRange _ e => exact throw s e
  | stale _ => exact refl s
  | failed _ e p' hm => exact (hset p' (hkeep.error hm)).trans (throw _ e)
  | queued _ p' hm _ => exact hset p' (hkeep.ok hm)
  | signalled hl _ p' hm _ =>
    have hp := hflag p' (hkeep.ok hm)
    refine hp.trans (post (by simp) ?_)
    rintro rfl
    rw [hp.serial]
    exact hl.2.symm
  | refused _ _ p' hm _ => exact (hflag p' (hkeep.ok hm)).trans (throw _ _)

theorem writing {j size : Nat} {accepted : Bool} (h : Writing s j size accepted s') :
    Beside i s s' := by
  have hkeep := keeps_drainWrite size
  cases h with
  | outOfRange _ e => exact throw s e
  | closed _ => exact refl s
  | failed _ e p' hm => exact (setPeer (hkeep.error hm)).trans (throw _ e)
  | drained _ p' hm => exact setPeer (hkeep.ok hm)
  | more _ k _ p' hm _ hs => exact (setPeer (hkeep.ok hm)).trans (sendPosting hs)

theorem popped {f : Frame} {rest : List Frame} (hst : s.stack = f :: rest) :
    Beside i s (s.popped rest) := of_eq rfl rfl (by rw [hst]; exact .tail)

theorem closePeerEnd (s : Service) (j : Nat) : Beside i s (s.closePeerEnd j) := by
  refine ⟨?_, ?_, by rw [pendingReads, closePeerEnd_posted]; rfl,
    fun r hr _ => Or.inl (closePeerEnd_posted s j ▸ hr), by rw [closePeerEnd_stack]; exact .refl _⟩
  all_goals
    by_cases hj : i = j
    · subst hj
      rw [closePeerEnd_peer_self]
      rfl
    · rw [closePeerEnd_peer_ne hj]

/-- A registration takes a free slot. -/
theorem registering (hl : s.Live i n) (h : Registering s s') : Beside i s s' := by
  have hne : ∀ {j}, (s.m_peer_array j).socket = none → i ≠ j := by
    rintro j hfree rfl
    exact hl.1 hfree
  have hset : ∀ {j p}, (s.m_peer_array j).socket = none →
      Beside i s ({ s with m_serial := (s.m_serial + 1) % 2 ^ 64 }.setPeer j p) := by
    intro j p hfree
    refine ⟨?_, ?_, rfl, fun r hr _ => Or.inl hr, .refl _⟩ <;> rw [setPeer_ne (hne hfree)]
  cases h with
  | full e => exact throw s e
  | unbound j hfree e => exact (hset hfree).trans (throw _ e)
  | callback j _ hfree p' _ _ rem _ =>
    exact (hset hfree).trans (of_eq rfl rfl (.cons (decide_eq_false (hne hfree).symm)))

/-- `onRead` of another slot consumes. -/
theorem readMove {j m len : Nat} {rest : List Frame} (hj : i ≠ j)
    (hst : s.stack = .onRead j m :: rest) (hs : step s (.readMove len) = some s') :
    Beside i s s' := by
  have hset : ∀ p, Beside i s (s.setPeer j p) :=
    fun p => of_local (.setPeer s p) hj (.refl _)
  rw [step_readMove hst hs]
  cases hm : Peer.onReadBuf (SockBuf.readMove len) (s.m_peer_array j) with
  | ok a p => rw [onPeer_ok hm]; exact hset p
  | error e p => rw [onPeer_error hm]; exact (hset p).trans (throw _ e)

/-- A completion without bytes. -/
theorem ticking {r : Request} {c : Completion} {accepted : Bool}
    (hquiet : ∀ size received, c = .success size received →
      received = [] ∧ (r.io_operation = .ClientIoRead → size = 0))
    (h : Ticking s r c accepted s') : Beside i s s' := by
  have harr : ∀ size received, c = .success size received →
      Beside i s (s.arrived r size received) := by
    intro size received hc
    have hpeer : (s.arrived r size received).m_peer_array = s.m_peer_array := by
      funext j
      rcases arrived_peer s r size received j with heq | ⟨-, hne, -⟩
      · exact heq
      · exact absurd (hquiet size received hc).1 hne
    exact of_eq hpeer (arrived_posted s r size received)
      (by rw [arrived_stack]; exact .refl _)
  have hpush : ∀ {t : Service}, Beside i t (t.push (.tick r)) := of_eq rfl rfl (.cons rfl)
  cases h with
  | lost _ _ h => exact hpush.trans (closing h)
  | other _ e => exact throw s e
  | outOfRange _ size received _ e => exact (harr size received rfl).trans (throw _ e)
  | free size received _ _ => exact harr size received rfl
  | shutdown received _ _ _ h => exact (harr 0 received rfl).trans (hpush.trans (closing h))
  | read size received _ hop hsize _ _ => exact absurd ((hquiet size received rfl).2 hop) hsize
  | write size received _ _ _ h =>
    exact (harr size received rfl).trans (hpush.trans (writing h))
  | unknown size received _ _ e =>
    exact (harr size received rfl).trans (hpush.trans (throw _ e))

end Beside

/-! ## The invariant -/

/-- The bytes of the slot's connection that can be read. -/
def Service.readable (s : Service) (i : Nat) : Bytes := (s.m_peer_array i).read_buf.content

/-- The receive side of the connection `(i, n)`. -/
structure Intake (i n : Nat) (s : Service) : Prop where
  index_lt : i < MAX_PEER_NUM
  serial : (s.m_peer_array i).serial = n
  valid : (s.m_peer_array i).read_buf.Valid
  own : ∀ r ∈ s.posted, r.index = i → r.serial = n
  single : postsAhead i s.stack + (s.pendingReads i).length ≤ 1
  /-- what is offered is the writable part of the buffer -/
  region : ∀ r ∈ s.pendingReads i, ∃ w, r.wsabuf = some w ∧
    w.mem.size = (s.m_peer_array i).read_buf.m_size ∧
    w.start = (s.m_peer_array i).read_buf.m_write_index ∧
    w.start + w.len ≤ (s.m_peer_array i).read_buf.m_size
  calls : ∀ m, .onRead i m ∈ s.stack → m = n

theorem Beside.readable (h : Beside i s s') : s'.readable i = s.readable i := by
  rw [Service.readable, h.read_buf]
  rfl

namespace Intake

theorem beside (h : Intake i n s) (hb : Beside i s s') : Intake i n s' where
  index_lt := h.index_lt
  serial := hb.serial.trans h.serial
  valid := hb.read_buf ▸ h.valid
  own r hr hi := by
    rcases hb.own r hr hi with hr | hser
    · exact h.own r hr hi
    · exact hser.trans h.serial
  single := by
    have hw := hb.stack.waiting
    have hs := h.single
    rw [hb.reads]
    omega
  region := by
    rw [hb.reads, hb.read_buf]
    exact h.region
  calls m hm := h.calls m (hb.stack.calls m hm)

/-- A registered connection has received nothing. -/
theorem registered (hreg : Registering s s') (hst : s.stack = []) (hst' : s'.stack = [.onCon i n])
    (hclean : ∀ r ∈ s.posted, r.index ≠ i) : Intake i n s' ∧ s'.readable i = [] := by
  cases hreg with
  | full e | unbound j hfree e => cases hst.symm.trans hst'
  | callback j hj hfree p' sd loc rem hp =>
    obtain ⟨rfl, rfl⟩ : j = i ∧ s.m_serial = n := by simpa [hst] using hst'
    generalize ht : (({ s with m_serial := (s.m_serial + 1) % 2 ^ 64 }.setPeer j p').record
      (.onCon j s.m_serial rem)).push (.onCon j s.m_serial) = t at hst' ⊢
    have hpeer : t.m_peer_array j = p' := by rw [← ht]; exact setPeer_self _ j p'
    have hbuf : (t.m_peer_array j).read_buf = (s.m_peer_array j).read_buf.reset := by
      rw [hpeer, hp]
      rfl
    have hposted : ∀ r ∈ t.posted, r.index ≠ j := by
      rw [← ht]
      exact hclean
    have hreads : t.pendingReads j = [] := by
      rw [pendingReads, List.filter_eq_nil_iff]
      intro r hr
      simp [hposted r hr]
    refine ⟨⟨hj, by rw [hpeer, hp]; rfl, hbuf ▸ SockBuf.valid_reset _,
      fun r hr hi => absurd hi (hposted r hr), ?_, ?_, fun m hm => ?_⟩, ?_⟩
    · rw [hst', hreads]
      simp [postsAhead, Frame.postsRecv]
    · rw [hreads]
      nofun
    · rw [hst', List.mem_singleton] at hm
      cases hm
    · rw [Service.readable, hbuf]
      exact SockBuf.content_reset _

/-- The buffer is replaced while nothing is offered of it. -/
theorem withReadBuf (h : Intake i n s) (hreads : s.pendingReads i = []) {b : SockBuf}
    (hv : b.Valid) : Intake i n (s.setPeer i ((s.m_peer_array i).withReadBuf b)) ∧
      (s.setPeer i ((s.m_peer_array i).withReadBuf b)).readable i = b.content := by
  have hpeer := setPeer_self s i ((s.m_peer_array i).withReadBuf b)
  refine ⟨⟨h.index_lt, by rw [hpeer]; exact h.serial, by rw [hpeer]; exact hv, h.own, h.single, ?_,
    h.calls⟩, by rw [Service.readable, hpeer]; rfl⟩
  show ∀ r ∈ s.pendingReads i, _
  rw [hreads]
  nofun

/-- A read request is posted when there is none and none is to come. -/
theorem post {r : Request} {w : WSABUF} (h : Intake i n s) (hidle : postsAhead i s.stack = 0)
    (hreads : s.pendingReads i = []) (hser : r.serial = n) (hw : r.wsabuf = some w)
    (hmem : w.mem.size = (s.m_peer_array i).read_buf.m_size)
    (hstart : w.start = (s.m_peer_array i).read_buf.m_write_index)
    (hlen : w.start + w.len ≤ (s.m_peer_array i).read_buf.m_size) : Intake i n (s.post r) := by
  have hpend : (s.post r).pendingReads i
      = [r].filter fun r => r.index = i ∧ r.io_operation = .ClientIoRead := by
    rw [pendingReads, post_posted, List.filter_append]
    show s.pendingReads i ++ _ = _
    rw [hreads, List.nil_append]
  refine ⟨h.index_lt, h.serial, h.valid, fun q hq hi => ?_, ?_, fun q hq => ?_, h.calls⟩
  · rw [post_posted, List.mem_append, List.mem_singleton] at hq
    rcases hq with hq | rfl
    · exact h.own q hq hi
    · exact hser
  · rw [hpend, post_stack, hidle, Nat.zero_add]
    exact List.length_filter_le _ _
  · rw [hpend] at hq
    obtain rfl := List.mem_singleton.mp (List.mem_of_mem_filter hq)
    exact ⟨w, hw, hmem, hstart, hlen⟩

/-- **`postRecvRequest`** offers what is writable, and keeps what is readable. -/
theorem postRecvRequest {accepted : Bool} (h : Intake i n s) (hidle : postsAhead i s.stack = 0)
    (hreads : s.pendingReads i = []) : Intake i n (s.postRecvRequest i n accepted) ∧
      (s.postRecvRequest i n accepted).readable i = s.readable i := by
  rw [Service.postRecvRequest]
  rcases getPeer_cases s i _ with ⟨hi, -⟩ | hget
  · exact absurd h.index_lt (Nat.not_lt.mpr hi)
  rw [hget]
  split
  · exact ⟨h, rfl⟩
  have hcxt : Intake i n s.newIOCxt.2 := h.beside (.of_eq rfl rfl (.refl _))
  have hcxtreads : s.newIOCxt.2.pendingReads i = [] := hreads
  rcases SockBuf.ensureWritableBytes_cases h.valid (show 512 ≤ 2 ^ 31 by decide) with
    ⟨e, he⟩ | ⟨b, hb, hv, hcont, -⟩
  · -- there is no room to be had, and the buffer is as it was
    have hensure : Peer.onReadBuf (SockBuf.ensureWritableBytes 512) (s.m_peer_array i)
        = .error e ((s.m_peer_array i).withReadBuf (s.m_peer_array i).read_buf) := by
      rw [Peer.onReadBuf, he]
    have hoffer : offerRead (s.newIOCxt.2.m_peer_array i)
        = .error e ((s.m_peer_array i).withReadBuf (s.m_peer_array i).read_buf) := by
      rw [offerRead]
      exact bind_error hensure
    rw [onPeer_error hoffer]
    obtain ⟨hset, hcont⟩ := hcxt.withReadBuf hcxtreads h.valid
    exact ⟨hset.beside (.throw _ e), hcont⟩
  · have hoffer : offerRead (s.newIOCxt.2.m_peer_array i)
        = .ok ⟨b.m_buf, b.m_write_index, b.m_size - b.m_write_index⟩
          ((s.m_peer_array i).withReadBuf b) := offerRead_ok hb hv
    rw [onPeer_ok hoffer]
    obtain ⟨hset, hsetcont⟩ := hcxt.withReadBuf hcxtreads hv
    have hle := hv.write_le
    cases accepted with
    | true =>
      rw [if_pos rfl]
      refine ⟨hset.post hidle hreads rfl rfl ?_ ?_ ?_, hsetcont.trans hcont⟩
      · rw [setPeer_self]
        rfl
      · rw [setPeer_self]
        rfl
      · rw [setPeer_self]
        show b.m_write_index + (b.m_size - b.m_write_index) ≤ b.m_size
        omega
    | false =>
      have hc := Beside.closing (i := i) (closePeer_outcome
        (s.newIOCxt.2.setPeer i ((s.m_peer_array i).withReadBuf b)) i n)
      rw [if_neg Bool.false_ne_true]
      exact ⟨hset.beside hc, hc.readable.trans (hsetcont.trans hcont)⟩

/-- The read request that is outstanding on the slot is the only one, and no callback is running
behind which another one will be posted. -/
theorem pending_eq {r : Request} (h : Intake i n s) (hr : r ∈ s.posted) (hi : r.index = i)
    (hop : r.io_operation = .ClientIoRead) :
    s.pendingReads i = [r] ∧ postsAhead i s.stack = 0 := by
  have hmem : r ∈ s.pendingReads i := by simp [pendingReads, hr, hi, hop]
  have hs := h.single
  have hpos := List.length_pos_of_mem hmem
  obtain ⟨q, hq⟩ := List.length_eq_one_iff.mp (show (s.pendingReads i).length = 1 by omega)
  rw [hq, List.mem_singleton] at hmem
  subst hmem
  exact ⟨hq, by omega⟩

/-- A read request comes back: nothing is offered of the buffer any more. -/
theorem took {r : Request} (h : Intake i n s) (hr : r ∈ s.posted) (hi : r.index = i)
    (hop : r.io_operation = .ClientIoRead) :
    Intake i n (s.took r) ∧ (s.took r).pendingReads i = [] := by
  obtain ⟨hpend, hidle⟩ := h.pending_eq hr hi hop
  have hreads : (s.took r).pendingReads i = [] := by
    rw [pendingReads, took_posted, ← List.erase_filter]
    show (s.pendingReads i).erase r = []
    rw [hpend, List.erase_cons_head]
  refine ⟨⟨h.index_lt, h.serial, h.valid, fun q hq => h.own q (List.mem_of_mem_erase hq), ?_, ?_,
    h.calls⟩, hreads⟩
  · rw [hreads]
    exact Nat.le_trans (Nat.le_of_eq hidle) (Nat.zero_le 1)
  · rw [hreads]
    nofun

/-- `onRead` is called, and the next read request is posted behind it. -/
theorem call (h : Intake i n s) (hidle : postsAhead i s.stack = 0) (hreads : s.pendingReads i = [])
    (e : Event) : Intake i n ((s.record e).push (.onRead i n)) := by
  have hreads' : ((s.record e).push (.onRead i n)).pendingReads i = [] := hreads
  refine ⟨h.index_lt, h.serial, h.valid, h.own, ?_, h.region, fun m hm => ?_⟩
  · rw [hreads', push_stack, postsAhead, List.countP_cons]
    show postsAhead i s.stack + _ + 0 ≤ 1
    rw [hidle, Nat.zero_add, Nat.add_zero]
    split
    · exact Nat.le_refl 1
    · exact Nat.zero_le 1
  · rcases List.mem_cons.mp hm with heq | hm
    · cases heq
      rfl
    · exact h.calls m hm

/-- **`processRead`**: what has arrived stands behind what was readable, and `onRead` is called. -/
theorem reading {r : Request} {received : Bytes} {w : WSABUF} (h : Intake i n s) (hl : s.Live i n)
    (hi : r.index = i) (hop : r.io_operation = .ClientIoRead)
    (hidle : postsAhead i s.stack = 0) (hreads : s.pendingReads i = []) (hw : r.wsabuf = some w)
    (hmem : w.mem.size = (s.m_peer_array i).read_buf.m_size)
    (hstart : w.start = (s.m_peer_array i).read_buf.m_write_index)
    (hroom : w.start + received.length ≤ (s.m_peer_array i).read_buf.m_size)
    (hne : received ≠ [])
    (hs : Reading ((s.arrived r received.length received).push (.tick r)) i received.length s') :
    Intake i n s' ∧ s'.readable i = s.readable i ++ received := by
  rw [hstart] at hroom
  obtain ⟨hv, b, hmove, hvb, hcont⟩ := SockBuf.writeMove_write h.valid hroom
  generalize hb₁ : (s.m_peer_array i).read_buf.setBlock
    ((s.m_peer_array i).read_buf.m_buf.write (s.m_peer_array i).read_buf.m_write_index received)
    = b₁ at hv hmove
  have harr : s.arrived r received.length received
      = s.setPeer i ((s.m_peer_array i).withReadBuf b₁) := by
    unfold Service.arrived deliver transmit
    rw [hi, hw, hop, ← hb₁, ← hstart]
    dsimp only
    rw [if_pos ⟨hmem.symm, hne⟩]
  rw [harr] at hs
  obtain ⟨h₁, -⟩ := h.withReadBuf hreads hv
  have h₂ : Intake i n ((s.setPeer i ((s.m_peer_array i).withReadBuf b₁)).push (.tick r)) :=
    h₁.beside (.of_eq rfl rfl (.cons rfl))
  have hpeer : ((s.setPeer i ((s.m_peer_array i).withReadBuf b₁)).push (.tick r)).m_peer_array i
      = (s.m_peer_array i).withReadBuf b₁ := setPeer_self _ i _
  have hidle₂ : postsAhead i ((s.setPeer i ((s.m_peer_array i).withReadBuf b₁)).push
      (.tick r)).stack = 0 := hidle
  have hreads₂ : ((s.setPeer i ((s.m_peer_array i).withReadBuf b₁)).push
      (.tick r)).pendingReads i = [] := hreads
  generalize (s.setPeer i ((s.m_peer_array i).withReadBuf b₁)).push (.tick r) = t at *
  have hread : Peer.onReadBuf (SockBuf.writeMove received.length) (t.m_peer_array i)
      = .ok () ((t.m_peer_array i).withReadBuf b) := by
    rw [hpeer, Peer.onReadBuf, show ((s.m_peer_array i).withReadBuf b₁).read_buf = b₁ from rfl,
      hmove]
  have hsock : (t.m_peer_array i).socket ≠ none := by
    rw [hpeer]
    exact hl.1
  cases hs with
  | outOfRange hge _ => exact absurd h.index_lt (Nat.not_lt.mpr hge)
  | closed hfree => exact absurd hfree hsock
  | failed _ e p' hm =>
    rw [hread] at hm
    cases hm
  | callback _ p' hm =>
    rw [hread] at hm
    obtain ⟨-, rfl⟩ := EStateM.Result.ok.inj hm
    obtain ⟨h₃, hcont₃⟩ := h₂.withReadBuf hreads₂ hvb
    rw [h₂.serial]
    exact ⟨h₃.call hidle₂ hreads₂ _, hcont₃.trans hcont⟩

end Intake

/-- The bytes that a completion brings for slot `i`. -/
def brought (i : Nat) (r : Request) (c : Completion) : Bytes :=
  match r.io_operation, c with
  | .ClientIoRead, .success _ received => if r.index = i then received else []
  | _, _ => []

theorem brought_of_index_ne {r : Request} {c : Completion} (h : r.index ≠ i) :
    brought i r c = [] := by
  unfold brought
  split
  · exact if_neg h
  · rfl

theorem brought_of_ne_read {r : Request} {c : Completion} (h : r.io_operation ≠ .ClientIoRead) :
    brought i r c = [] := by
  unfold brought
  split
  · next hop => exact absurd hop h
  · rfl

/-- **A completion** puts what it brings behind what was readable. -/
theorem Intake.ticking {r : Request} {c : Completion} {accepted : Bool} (h : Intake i n s)
    (hl : s.Live i n) (hr : r ∈ s.posted) (hfits : c.Fits r)
    (hs : Ticking (s.took r) r c accepted s') :
    Intake i n s' ∧ s'.readable i = s.readable i ++ brought i r c := by
  by_cases hi : r.index = i
  · by_cases hop : r.io_operation = .ClientIoRead
    · obtain ⟨htook, hreads⟩ := h.took hr hi hop
      obtain ⟨hpend, hidle⟩ := h.pending_eq hr hi hop
      obtain ⟨w, hw, hmem, hstart, hroom⟩ := h.region r (hpend ▸ List.mem_singleton_self r)
      -- without bytes, the buffer stays as it is
      have hquiet : (∀ size received, c = .success size received →
            received = [] ∧ (r.io_operation = .ClientIoRead → size = 0)) → brought i r c = [] →
          Intake i n s' ∧ s'.readable i = s.readable i ++ brought i r c := by
        intro hquiet hnone
        have hb : Beside i (s.took r) s' := .ticking hquiet hs
        rw [hnone, List.append_nil]
        exact ⟨htook.beside hb, hb.readable⟩
      cases c with
      | netnameDeleted | otherError =>
        refine hquiet nofun ?_
        unfold brought
        rw [hop]
      | success size received =>
        have hbrought : brought i r (.success size received) = received := by
          unfold brought
          rw [hop]
          exact if_pos hi
        obtain ⟨hsize, hlen⟩ : size ≤ w.len ∧ received.length = size := by
          unfold Completion.Fits at hfits
          rw [hw] at hfits
          dsimp only at hfits
          rwa [if_pos hop] at hfits
        by_cases hnil : received = []
        · refine hquiet (fun _ _ heq => ?_) (hbrought.trans hnil)
          cases heq
          rw [hnil] at hlen
          exact ⟨hnil, fun _ => hlen.symm⟩
        · rw [hbrought]
          have hsock : (((s.took r).arrived r size received).m_peer_array
              r.index).socket ≠ none := by
            rw [arrived_socket, hi]
            exact hl.1
          cases hs with
          | outOfRange hge => exact absurd h.index_lt (Nat.not_lt.mpr (hi ▸ hge))
          | free _ _ _ hfree => exact absurd hfree hsock
          | shutdown => exact absurd (List.eq_nil_of_length_eq_zero hlen) hnil
          | read _ _ _ _ _ _ hc =>
            rw [hi, ← hlen] at hc
            rw [← hlen] at hsize
            exact htook.reading hl hi hop hidle hreads hw hmem hstart
              (Nat.le_trans (Nat.add_le_add_left hsize _) hroom) hnil hc
          | write _ _ _ hop' | unknown _ _ _ hop' =>
            rw [hop] at hop'
            cases hop'
    · have hquiet : ∀ size received, c = .success size received →
          received = [] ∧ (r.io_operation = .ClientIoRead → size = 0) := by
        rintro size received rfl
        refine ⟨?_, fun h => absurd h hop⟩
        by_contra hne
        exact hop (hfits.read hne)
      have hb : Beside i s s' := (Beside.took hop s).trans (.ticking hquiet hs)
      rw [brought_of_ne_read hop, List.append_nil]
      exact ⟨h.beside hb, hb.readable⟩
  · have hnot : ∀ {f : Frame}, f.connection.1 = r.index → f.postsRecv i = false :=
      fun hf => Frame.not_postsRecv fun heq => hi (hf.symm.trans heq)
    have hfewer : Fewer i s.stack s'.stack := by
      rcases hs.stack_eq with hs' | hs' | ⟨-, hs' | hs'⟩ <;> rw [hs', took_stack]
      · exact .refl _
      · exact .cons rfl
      · exact Fewer.trans (.cons rfl) (.cons rfl)
      · have htick : Fewer i s.stack (.tick r :: s.stack) := .cons rfl
        exact htick.trans (.cons (hnot rfl))
    have hb : Beside i s s' :=
      .of_local ((Local.took s r).trans (.ticking hs)) (fun heq => hi heq.symm) hfewer
    rw [brought_of_index_ne hi, List.append_nil]
    exact ⟨h.beside hb, hb.readable⟩

namespace Intake

/-- A callback of the slot is running behind which a read request will be posted. -/
theorem running {f : Frame} {rest : List Frame} (h : Intake i n s) (hst : s.stack = f :: rest)
    (hf : f.postsRecv i = true) : postsAhead i rest = 0 ∧ s.pendingReads i = [] := by
  have hs := h.single
  rw [hst, postsAhead, List.countP_cons_of_pos hf] at hs
  exact ⟨by unfold postsAhead; omega, List.eq_nil_of_length_eq_zero (by omega)⟩

/-- `onRead` consumes from the front. -/
theorem readMove {len : Nat} {rest : List Frame} (h : Intake i n s)
    (hst : s.stack = .onRead i n :: rest) (hlen : len ≤ (s.readable i).length)
    (hs : step s (.readMove len) = some s') :
    Intake i n s' ∧ s'.readable i = (s.readable i).drop len := by
  obtain ⟨-, hreads⟩ := h.running hst (decide_eq_true rfl)
  obtain ⟨b, hmove, hv, hcont, -, -⟩ := SockBuf.readMove_spec h.valid hlen
  have hread : Peer.onReadBuf (SockBuf.readMove len) (s.m_peer_array i)
      = .ok () ((s.m_peer_array i).withReadBuf b) := by
    rw [Peer.onReadBuf, hmove]
  rw [step_readMove hst hs, onPeer_ok hread]
  obtain ⟨h', hcont'⟩ := h.withReadBuf hreads hv
  exact ⟨h', hcont'.trans hcont⟩

/-- **Behind `onCon` and `onRead`** what is readable stays, and the next request is posted. -/
theorem returned {ret : Int} {accepted : Bool} {f : Frame} {rest : List Frame} {j m : Nat}
    (h : Intake i n s) (hst : s.stack = f :: rest) (hf : f = .onCon j m ∨ f = .onRead j m)
    (hret : 0 ≤ ret) (hs : step s (.return_ ret accepted) = some s') :
    Intake i n s' ∧ s'.readable i = s.readable i := by
  have heq : s' = (s.popped rest).postRecvRequest j (s.m_peer_array j).serial accepted := by
    have hthrown := thrown_of_return hs
    rcases hf with rfl | rfl
    · rw [step_onCon hthrown hst] at hs
      exact (Option.some.inj hs).symm
    · rw [step_onRead hthrown hst, processReadEnd, if_neg (by omega)] at hs
      exact (Option.some.inj hs).symm
  have hpop := Beside.popped (i := i) hst
  have h' := h.beside hpop
  by_cases hj : i = j
  · subst hj
    have hposts : f.postsRecv i = true := by
      rcases hf with rfl | rfl <;> exact decide_eq_true rfl
    obtain ⟨hidle, hreads⟩ := h.running hst hposts
    rw [heq, h.serial]
    exact h'.postRecvRequest hidle hreads
  · have hpost := postRecvRequest_outcome (s.popped rest) j (s.m_peer_array j).serial accepted
    rw [← heq] at hpost
    have hfewer : Fewer i (s.popped rest).stack s'.stack := by
      rcases hpost.stack_eq with hs' | ⟨-, hs'⟩ <;> rw [hs']
      · exact .refl _
      · exact .cons rfl
    have hb := hpop.trans (.of_local (.recvPosting hpost) hj hfewer)
    exact ⟨h.beside hb, hb.readable⟩

end Intake

end GhNet.Iocp
