import GhNet.Iocp.Capacity
import GhNet.Iocp.Progress

/-!
# Where exceptions come from

The service throws where an index is out of range, where a buffer cannot grow or one of its indices
runs past the other, where no slot is free, where the system refuses a socket or a signal, and at
completions that it does not know. In a run of a program that leaves its connections to the service
the indices and the buffers never are the reason, as long as fewer than `2^30` bytes are waiting:
what is left are the refusals of the system, a full table, and an unknown error.
-/

namespace GhNet.Iocp

open GhNet Service

variable {s s' : Service} {i n : Nat}

/-! ## The functions of the service -/

/-- How far the read buffer of a slot is filled. -/
def Service.fill (s : Service) (i : Nat) : Nat := (s.m_peer_array i).read_buf.m_write_index

theorem Closing.thrown_eq (h : Closing s i n s') (hi : i < MAX_PEER_NUM) :
    s'.thrown = s.thrown := by
  cases h with
  | outOfRange hge => exact absurd hi (Nat.not_lt.mpr hge)
  | stale | callback => rfl

/-- **`send` throws nothing** where the backup can grow and the signal is posted. -/
theorem Sending.thrown_eq {buf : Bytes} (h : Sending s i n buf true s') (hi : i < MAX_PEER_NUM)
    (hroom : s.Live i n → (s.m_peer_array i).write_buf_backup_.Valid ∧
      (s.m_peer_array i).write_buf_backup_.m_write_index + buf.length < 2 ^ 31) :
    s'.thrown = s.thrown := by
  cases h with
  | outOfRange hge => exact absurd hi (Nat.not_lt.mpr hge)
  | stale | queued | signalled => rfl
  | failed hl e p' hm =>
    obtain ⟨hv, hlen⟩ := hroom hl
    obtain ⟨b, hb, -⟩ := SockBuf.apendBuf_spec hv hlen
    rw [Peer.onBackup, hb] at hm
    cases hm
  | refused _ hacc => cases hacc

/-- **`postRecvRequest` throws nothing** where the read buffer can grow, and fills nothing. -/
theorem postRecvRequest_spec {accepted : Bool} (hi : i < MAX_PEER_NUM)
    (hv : (s.m_peer_array i).read_buf.Valid) (hroom : s.fill i + 512 < 2 ^ 31) :
    (s.postRecvRequest i n accepted).thrown = s.thrown ∧
      (s.postRecvRequest i n accepted).fill i ≤ s.fill i := by
  rw [postRecvRequest]
  rcases getPeer_cases s i _ with ⟨hge, -⟩ | hget
  · exact absurd hi (Nat.not_lt.mpr hge)
  rw [hget]
  split
  · exact ⟨rfl, Nat.le_refl _⟩
  obtain ⟨b, hb, hvb, -, -, hle⟩ := SockBuf.ensureWritableBytes_spec hv hroom
  have hoffer : offerRead (s.newIOCxt.2.m_peer_array i)
      = .ok ⟨b.m_buf, b.m_write_index, b.m_size - b.m_write_index⟩
        ((s.m_peer_array i).withReadBuf b) := offerRead_ok hb hvb
  rw [onPeer_ok hoffer]
  have hfill : (s.newIOCxt.2.setPeer i ((s.m_peer_array i).withReadBuf b)).fill i ≤ s.fill i := by
    rw [fill, setPeer_self]
    exact hle
  split
  · exact ⟨rfl, hfill⟩
  · have hclose := closePeer_outcome
      (s.newIOCxt.2.setPeer i ((s.m_peer_array i).withReadBuf b)) i n
    refine ⟨hclose.thrown_eq hi, ?_⟩
    rw [fill, (Beside.closing (i := i) hclose).read_buf]
    exact hfill

/-- **`processWrite` throws nothing** at a completion of what was offered. -/
theorem Writing.thrown_eq {size : Nat} {accepted : Bool} (h : Writing s i size accepted s')
    (hw : (s.m_peer_array i).write_buf.Valid) (hb : (s.m_peer_array i).write_buf_backup_.Valid)
    (hsize : size ≤ (s.m_peer_array i).write_buf.content.length)
    (hlen : (s.m_peer_array i).write_buf.m_write_index
      + (s.m_peer_array i).write_buf_backup_.content.length < 2 ^ 31)
    (hi : i < MAX_PEER_NUM) : s'.thrown = s.thrown := by
  obtain ⟨p, hdrain, hp⟩ := drainWrite_spec hw hb hsize hlen
  cases h with
  | outOfRange hge => exact absurd hi (Nat.not_lt.mpr hge)
  | closed | drained => rfl
  | failed _ e p' hm =>
    rw [hdrain] at hm
    cases hm
  | more _ k _ p' hm _ hpost =>
    rw [hdrain] at hm
    obtain ⟨-, rfl⟩ := EStateM.Result.ok.inj hm
    cases hpost with
    | outOfRange hge => exact absurd hi (Nat.not_lt.mpr hge)
    | stale | accepted => rfl
    | failed _ e q hq hm =>
      have hoffer : offerWrite (p.withWsaSend true)
          = .ok (p.withWsaSend true).writeRegion (p.withWsaSend true) :=
        offerWrite_ok hp.write_valid
      rw [setPeer_self] at hq
      rw [hq, hoffer] at hm
      cases hm
    | refused _ _ _ _ _ hclose => exact hclose.thrown_eq hi

/-- **`processRead` throws nothing** where the bytes are inside the buffer, and fills them in. -/
theorem Reading.thrown_eq {size : Nat} (h : Reading s i size s') (hi : i < MAX_PEER_NUM)
    (hroom : s.fill i + size ≤ (s.m_peer_array i).read_buf.m_size) :
    s'.thrown = s.thrown := by
  cases h with
  | outOfRange hge => exact absurd hi (Nat.not_lt.mpr hge)
  | closed | callback => rfl
  | failed _ e p' hm => exact absurd (writeMove_error hm) (Nat.not_lt.mpr hroom)

/-- **A registration throws nothing** exactly if the system binds the socket and there is a slot. -/
theorem registerSocket_thrown_iff (hthrown : s.thrown = none) (sd : Nat) (loc rem : Addr)
    (bound : Bool) :
    (s.registerSocket sd loc rem bound).thrown = none ↔ bound = true ∧ ¬s.Full := by
  by_cases hfull : s.Full
  · refine iff_of_false ?_ fun h => h.2 hfull
    rw [registerSocket, newPeer_full hfull]
    dsimp only
    rw [getPeer, if_pos (by decide)]
    exact Option.some_ne_none _
  · obtain ⟨k, hk, hfree, hused⟩ : ∃ k < MAX_PEER_NUM, (s.m_peer_array k).socket = none ∧
        ∀ i < k, (s.m_peer_array i).socket ≠ none := by
      have hsome : ∃ k, k < MAX_PEER_NUM ∧ (s.m_peer_array k).socket = none := by
        simpa [Full] using hfull
      exact ⟨Nat.find hsome, (Nat.find_spec hsome).1, (Nat.find_spec hsome).2, fun i hi hnone =>
        Nat.find_min hsome hi ⟨hi.trans (Nat.find_spec hsome).1, hnone⟩⟩
    cases bound with
    | true =>
      rw [registerSocket_first hk hfree hused]
      exact iff_of_true hthrown ⟨rfl, hfull⟩
    | false =>
      refine iff_of_false ?_ fun h => Bool.false_ne_true h.1
      have hfind : findFree s.m_peer_array MAX_PEER_NUM 0 = some k :=
        findFree_first hfree (Nat.zero_le k) (by omega) fun j _ hj => hused j hj
      rw [registerSocket, newPeer, hfind]
      dsimp only
      rw [getPeer, if_neg (Nat.not_le.mpr hk)]
      exact Option.some_ne_none _

/-- **`onRead` may take what it finds.** -/
theorem step_readMove_spec {len : Nat} {rest : List Frame} (hthrown : s.thrown = none)
    (hst : s.stack = .onRead i n :: rest) (hv : (s.m_peer_array i).read_buf.Valid)
    (hlen : len ≤ (s.readable i).length) :
    ∃ s', step s (.readMove len) = some s' ∧ s'.thrown = none ∧ s'.stack = s.stack := by
  obtain ⟨b, hb, -⟩ := SockBuf.readMove_spec hv hlen
  have hm : Peer.onReadBuf (SockBuf.readMove len) (s.m_peer_array i)
      = .ok () ((s.m_peer_array i).withReadBuf b) := by rw [Peer.onReadBuf, hb]
  refine ⟨s.setPeer i ((s.m_peer_array i).withReadBuf b), ?_, hthrown, rfl⟩
  rw [step, hthrown, hst]
  dsimp only
  rw [onPeer_ok hm]

/-! ## Completions -/

/-- The requests that the service posts. -/
def Service.Regular (s : Service) : Prop :=
  ∀ r ∈ s.posted, r.index < MAX_PEER_NUM ∧ r.io_operation ≠ .ClientIoUnknown

/-- What is left of the buffers of a connection: fewer than `2^30` bytes have been sent to it. -/
def Service.Light (s : Service) : Prop := ∀ i n, (sentBytes i n s.log).length < 2 ^ 30

/-- **No completion throws** but one of an unknown error. -/
theorem Ticking.thrown_eq {r : Request} {c : Completion} {accepted : Bool}
    (h : Ticking (s.took r) r c accepted s') (hst : s.stack = []) (hthrown : s.thrown = none)
    (hr : r ∈ s.posted) (hfits : c.Fits r) (hc : c ≠ .otherError) (hreg : s.Regular)
    (hat : ∀ i n, Attended i n s) (hflow : ∀ i n, Flowing i n s) (hlight : s.Light) :
    s'.thrown = none := by
  obtain ⟨hi, hop⟩ := hreg r hr
  have harr : ∀ {size received}, (((s.took r).arrived r size received).push (.tick r)).thrown
      = none := fun {size received} => (arrived_thrown (s.took r) r size received).trans hthrown
  -- the connection of the slot is calm, so what is known of its buffers holds
  have hcalm : ∀ {size received}, (((s.took r).arrived r size received).m_peer_array
      r.index).socket ≠ none → ∃ n, s.Calm r.index n := by
    intro size received hsock
    rw [arrived_socket] at hsock
    exact ⟨_, ⟨hsock, rfl⟩, hthrown, hst ▸ List.not_mem_nil⟩
  cases h with
  | other => exact absurd rfl hc
  | lost _ _ hclose => exact (hclose.thrown_eq hi).trans hthrown
  | outOfRange hge => exact absurd hi (Nat.not_lt.mpr hge)
  | free size received => exact (arrived_thrown (s.took r) r size received).trans hthrown
  | shutdown _ _ _ _ hclose => exact (hclose.thrown_eq hi).trans harr
  | unknown _ _ _ hop' => exact absurd hop' hop
  | read size received _ hop _ _ hread =>
    by_cases hsock : (((s.took r).arrived r size received).m_peer_array r.index).socket = none
    · cases hread with
      | outOfRange hge => exact absurd hi (Nat.not_lt.mpr hge)
      | closed => exact harr
      | failed hlive | callback hlive => exact absurd hsock hlive
    · obtain ⟨n, hcalm⟩ := hcalm hsock
      obtain ⟨hin, -⟩ := hat _ n hcalm
      have hmem : r ∈ s.pendingReads r.index := by simp [pendingReads, hr, hop]
      obtain ⟨w, hw, -, hstart, hend⟩ := hin.region r hmem
      have hsize : size ≤ w.len := by
        unfold Completion.Fits at hfits
        rw [hw] at hfits
        exact hfits.1
      obtain ⟨hfill, hroom⟩ := arrived_indices (s.took r) r size received r.index
      refine (hread.thrown_eq hi ?_).trans harr
      rw [fill, push_peer, hfill, hroom, took_peer]
      omega
  | write size received _ hop _ hwrite =>
    by_cases hsock : (((s.took r).arrived r size received).m_peer_array r.index).socket = none
    · cases hwrite with
      | outOfRange hge => exact absurd hi (Nat.not_lt.mpr hge)
      | closed => exact harr
      | failed hlive | drained hlive | more hlive => exact absurd hsock hlive
    · obtain ⟨n, hcalm⟩ := hcalm hsock
      have hlen := hlight r.index n
      have hstream := (hflow _ n hlen).2 hcalm
      obtain ⟨hsize, hpeer, -⟩ := hstream.completed hr rfl hop hfits
      have hpeer : (((s.took r).arrived r size received).push (.tick r)).m_peer_array r.index
        = s.m_peer_array r.index := hpeer
      have hindex : _ ≤ (sentBytes r.index n s.log).length := hstream.write_index
      have hw := hstream.write_valid
      have hb := hstream.backup_valid
      rw [← hpeer] at hw hb hsize hindex
      exact (hwrite.thrown_eq hw hb hsize (by omega) hi).trans harr

/-! ## Requests stay regular -/

/-- What is posted are `WSARecv`s and `WSASend`s. -/
def Asks (s s' : Service) : Prop :=
  ∀ r ∈ s'.posted, r ∈ s.posted ∨ r.io_operation ≠ .ClientIoUnknown

namespace Asks

variable {t : Service}

theorem of_posted (h : s'.posted = s.posted) : Asks s s' := fun _ hr => Or.inl (h ▸ hr)

theorem trans (h : Asks s t) (h' : Asks t s') : Asks s s' := fun r hr =>
  (h' r hr).elim (h r) Or.inr

theorem post {r : Request} (hop : r.io_operation ≠ .ClientIoUnknown) : Asks s (s.post r) := by
  intro q hq
  rw [post_posted, List.mem_append, List.mem_singleton] at hq
  rcases hq with hq | rfl
  · exact Or.inl hq
  · exact Or.inr hop

theorem closing (h : Closing s i n s') : Asks s s' := by
  cases h <;> exact of_posted rfl

theorem recvPosting (h : RecvPosting s i n s') : Asks s s' := by
  cases h with
  | outOfRange | stale | failed => exact of_posted rfl
  | accepted _ w p' _ =>
    have hset : Asks s (s.newIOCxt.2.setPeer i p') := of_posted rfl
    exact hset.trans (post (by nofun))
  | refused _ p' _ _ hclose =>
    have hset : Asks s (s.newIOCxt.2.setPeer i p') := of_posted rfl
    exact hset.trans (closing hclose)

theorem writing {size : Nat} {accepted : Bool} (h : Writing s i size accepted s') :
    Asks s s' := by
  cases h with
  | outOfRange | closed | failed | drained => exact of_posted rfl
  | more _ _ _ p' _ _ hpost =>
    have hset : Asks s (s.setPeer i p') := of_posted rfl
    refine hset.trans ?_
    generalize s.setPeer i p' = t at hpost
    cases hpost with
    | outOfRange | stale | failed => exact of_posted rfl
    | accepted _ _ w q _ _ =>
      have hset : Asks t (t.newIOCxt.2.setPeer i q) := of_posted rfl
      exact hset.trans (post (by nofun))
    | refused _ _ q _ _ hclose =>
      have hset : Asks t (t.newIOCxt.2.setPeer i q) := of_posted rfl
      exact hset.trans (closing hclose)

theorem reading {size : Nat} (h : Reading s i size s') : Asks s s' := by
  cases h <;> exact of_posted rfl

theorem sending {buf : Bytes} {accepted : Bool} (h : Sending s i n buf accepted s') :
    Asks s s' := by
  cases h with
  | outOfRange | stale | failed | queued | refused => exact of_posted rfl
  | signalled _ _ p' _ _ =>
    have hset : Asks s ((s.record (.sent i n buf)).newIOCxt.2.setPeer i (p'.withWsaSend true)) :=
      of_posted rfl
    exact hset.trans (post (by nofun))

theorem ticking {r : Request} {c : Completion} {accepted : Bool} (h : Ticking s r c accepted s') :
    Asks s s' := by
  have harr : ∀ {size received f}, Asks s ((s.arrived r size received).push f) := fun {_ _ _} =>
    of_posted (arrived_posted s r _ _)
  cases h with
  | lost _ _ hclose =>
    have hpush : Asks s (s.push (.tick r)) := of_posted rfl
    exact hpush.trans (closing hclose)
  | other => exact of_posted rfl
  | outOfRange | free => exact of_posted (arrived_posted s r _ _)
  | shutdown _ _ _ _ hclose => exact harr.trans (closing hclose)
  | read _ _ _ _ _ _ hread => exact harr.trans (reading hread)
  | write _ _ _ _ _ hwrite => exact harr.trans (writing hwrite)
  | unknown => exact (harr (f := .tick r)).trans (of_posted rfl)

theorem stepping {a : Action} (h : Stepping s a s') : Asks s s' := by
  cases h with
  | send _ h => exact sending h
  | closePeer _ h => exact closing h
  | connectPeer _ h | accept _ h => cases h <;> exact of_posted rfl
  | readMove _ _ _ h => rcases h with rfl | ⟨e, rfl⟩ <;> exact of_posted rfl
  | @onCon _ _ _ _ rest _ _ h | @onRead _ _ _ _ rest _ _ _ h =>
    have hpop : Asks s (s.popped rest) := of_posted rfl
    exact hpop.trans (recvPosting h)
  | @onReadNegative _ _ _ _ rest _ _ _ h =>
    have hpop : Asks s (s.popped rest) := of_posted rfl
    exact hpop.trans (closing h)
  | onDisCon => exact of_posted (closePeerEnd_posted _ _)
  | raise | finish | unwind | catch_ => exact of_posted rfl
  | @dequeue r _ _ _ _ _ _ h =>
    have htook : Asks s (s.took r) := fun q hq => Or.inl (List.mem_of_mem_erase hq)
    exact htook.trans (ticking h)

end Asks

/-- **Requests stay regular.** -/
theorem Service.Regular.step {a : Action} (h : s.Regular) (hlt : ∀ {i n}, s.Live i n → i < MAX_PEER_NUM)
    (hs : Stepping s a s') : s'.Regular := by
  obtain ⟨kept, new, hposted, hkept, hnew⟩ := hs.adds.posted
  intro r hr
  have hop : r.io_operation ≠ .ClientIoUnknown :=
    (Asks.stepping hs r hr).elim (fun hold => (h r hold).2) id
  rw [hposted, List.mem_append] at hr
  rcases hr with hr | hr
  · exact h r (hkept.subset hr)
  · exact ⟨hlt (hnew r hr), hop⟩

/-! ## How far the read buffer is filled -/

/-- The bytes that a step brings for slot `i`. -/
def Action.brings (i : Nat) : Action → Bytes
  | .dequeue r c _ => brought i r c
  | _ => []

theorem writeMove_fill {p p' : Peer} {len : Nat}
    (hm : Peer.onReadBuf (SockBuf.writeMove len) p = .ok () p') :
    p'.read_buf.m_write_index ≤ p.read_buf.m_write_index + len := by
  rw [Peer.onReadBuf, SockBuf.writeMove] at hm
  by_cases hgt : (p.read_buf.setWrite (p.read_buf.m_write_index + len)).m_write_index
      > (p.read_buf.setWrite (p.read_buf.m_write_index + len)).m_size
  · simp only [if_pos hgt] at hm
    cases hm
  · simp only [if_neg hgt] at hm
    rw [← (EStateM.Result.ok.inj hm).2]
    exact Nat.mod_le _ _

/-- **A completion of the `WSARecv` fills in what it brings.** -/
theorem Ticking.fill_le {r : Request} {c : Completion} {accepted : Bool}
    (h : Ticking (s.took r) r c accepted s') (hi : r.index = i)
    (hop : r.io_operation = .ClientIoRead) (hfits : c.Fits r) (hthrown : s'.thrown = none) :
    s'.fill i ≤ s.fill i + (brought i r c).length := by
  have harr : ∀ size received f, (((s.took r).arrived r size received).push f).fill i = s.fill i :=
    fun size received f => (arrived_indices (s.took r) r size received i).1
  cases h with
  | lost _ _ hclose =>
    rw [fill, (Beside.closing (i := i) hclose).read_buf]
    exact Nat.le_add_right _ _
  | other | outOfRange | unknown => cases hthrown
  | free size received => exact (harr size received (.tick r)).le.trans (Nat.le_add_right _ _)
  | shutdown received _ _ _ hclose =>
    rw [fill, (Beside.closing (i := i) hclose).read_buf]
    exact (harr 0 received (.tick r)).le.trans (Nat.le_add_right _ _)
  | write _ _ _ hop' =>
    rw [hop] at hop'
    cases hop'
  | read size received _ _ hsize _ hread =>
    have hlen : received.length = size := by
      unfold Completion.Fits at hfits
      cases hw : r.wsabuf with
      | none =>
        rw [hw] at hfits
        exact absurd hfits.1 hsize
      | some w =>
        rw [hw] at hfits
        have hread := hfits.2
        rwa [if_pos hop] at hread
    have hbrought : brought i r (.success size received) = received := by
      unfold brought
      rw [hop]
      exact if_pos hi
    rw [hbrought, hlen]
    subst hi
    have harr := harr size received (.tick r)
    cases hread with
    | outOfRange | failed => cases hthrown
    | closed => omega
    | callback _ p' hm =>
      have hfill := writeMove_fill hm
      rw [fill, push_peer, record_peer, setPeer_self]
      have harr : (((((s.took r).arrived r size received).push (.tick r)).m_peer_array
        r.index).read_buf).m_write_index = s.fill r.index := harr
      omega

/-- **A read buffer is filled by what is brought, and by nothing else.** -/
theorem fill_step {a : Action} (h : Attended i n s) (hc : s'.Calm i n) (ha : Served s a)
    (hflat : ∀ f ∈ s.stack.tail, ∃ r, f = .tick r) (hroom : s.Calm i n → s.fill i + 512 < 2 ^ 31)
    (hs : Iocp.step s a = some s') :
    s'.fill i = 0 ∨ s.Calm i n ∧ s'.fill i ≤ s.fill i + (a.brings i).length := by
  have hsame : ∀ {t : Service}, (t.m_peer_array i).read_buf = (s.m_peer_array i).read_buf →
      t.fill i ≤ s.fill i + (a.brings i).length := by
    intro t ht
    rw [fill, ht]
    exact Nat.le_add_right _ _
  rcases hc.before ha hflat hs with hcalm | ⟨-, hreg, hst, hst'⟩
  · refine Or.inr ⟨hcalm, ?_⟩
    obtain ⟨hin, -⟩ := h hcalm
    have hpost : ∀ {ret accepted f rest j m}, a = .return_ ret accepted → s.stack = f :: rest →
        RecvPosting (s.popped rest) j m s' →
        (j = i → s' = (s.popped rest).postRecvRequest i m accepted) →
        s'.fill i ≤ s.fill i + (a.brings i).length := by
      intro ret accepted f rest j m heq hst hpost hself
      by_cases hj : i = j
      · rw [hself hj.symm]
        exact (postRecvRequest_spec (s := s.popped rest) hin.index_lt hin.valid (hroom hcalm)).2.trans
          (Nat.le_add_right _ _)
      · exact hsame (congrArg Peer.read_buf ((Local.recvPosting hpost).peers i hj))
    cases stepping hs with
    | send _ hsend => exact hsame (Beside.sending hsend).read_buf
    | accept _ hreg => exact hsame (Beside.registering hcalm.1 hreg).read_buf
    | @readMove _ j m rest _ k _ heq =>
      have hset : (s.setPeer j ((s.m_peer_array j).withReadBuf
          ((s.m_peer_array j).read_buf.setRead k))).fill i = s.fill i := by
        by_cases hj : i = j
        · rw [fill, hj, setPeer_self]
          rfl
        · rw [fill, setPeer_ne hj]
          rfl
      rcases heq with rfl | ⟨e, rfl⟩ <;> exact hset.le.trans (Nat.le_add_right _ _)
    | @onCon _ _ j m rest _ hst hrecv =>
      refine hpost rfl hst hrecv fun hj => ?_
      rw [step_onCon (hcalm.2.1) hst] at hs
      rw [← Option.some.inj hs, hj]
      rfl
    | @onRead ret _ j m rest _ hst hret hrecv =>
      refine hpost rfl hst hrecv fun hj => ?_
      rw [step_onRead (hcalm.2.1) hst, processReadEnd, if_neg (Int.not_lt.mpr hret)] at hs
      rw [← Option.some.inj hs, hj]
      rfl
    | onReadNegative _ hneg _ => exact absurd hneg (Int.not_lt.mpr ha)
    | @onDisCon _ _ j m rest hst =>
      by_cases hj : i = j
      · refine hsame ?_
        rw [hj, closePeerEnd_peer_self]
        rfl
      · exact hsame (congrArg Peer.read_buf (closePeerEnd_peer_ne hj _))
    | finish => exact hsame rfl
    | @dequeue r c _ _ hst hr hfits htick =>
      by_cases hown : r.index = i ∧ r.io_operation = .ClientIoRead
      · exact htick.fill_le hown.1 hown.2 hfits hc.2.1
      · exact hsame (htick.beside hfits hown).read_buf
    | closePeer | connectPeer | raise | unwind | catch_ => exact ha.elim
  · left
    cases hreg with
    | full e | unbound j _ e => cases hst.symm.trans hst'
    | callback j hj hfree p' sd loc rem hp =>
      obtain ⟨rfl, -⟩ : j = i ∧ s.m_serial = n := by simpa [hst] using hst'
      rw [fill, push_peer, record_peer, setPeer_self, hp]
      rfl

end GhNet.Iocp
