import GhNet.Iocp.Flow
import GhNet.Iocp.Input

/-!
# What goes on by itself

The service has no timer: a connection for which no `WSARecv` is outstanding is never heard again,
and bytes that stand in `write_buf_backup_` while no `WSASend` is outstanding are never transmitted.

Neither comes about as long as the program leaves its connections to the service. A connection that
is open, and is not being closed, has a `WSARecv` outstanding or a callback running behind which one
is posted (`Attended`), and where its `wsa_send` is not set, nothing is left to be sent (`Resting`).
From there the completions of two write requests transmit all that was sent.
-/

namespace GhNet.Iocp

open GhNet Service

variable {s s' : Service} {i n : Nat}

/-! ## Where a connection was before -/

/-- Nothing of a program that leaves connections to the service runs while an exception is in
flight. -/
theorem Served.thrown {a : Action} (ha : Served s a) (hs : step s a = some s') :
    s.thrown = none := by
  cases hthrown : s.thrown with
  | none => rfl
  | some e =>
    cases a with
    | send | accept | dequeue | readMove | return_ | finish =>
      simp [step, userRuns, hthrown] at hs
    | closePeer | connectPeer | raise | unwind | catch_ => exact ha.elim

/-- Where a callback runs and it is not `onDisCon`, nothing is being closed. -/
theorem not_closing {f : Frame} {rest : List Frame} (hst : s.stack = f :: rest)
    (hflat : ∀ f ∈ s.stack.tail, ∃ r, f = .tick r) (hf : f ≠ .onDisCon i n) :
    .onDisCon i n ∉ s.stack := by
  rw [hst] at hflat ⊢
  intro hm
  rcases List.mem_cons.mp hm with hm | hm
  · exact hf hm.symm
  · exact nomatch hflat _ hm

/-- **A calm connection was calm before, or it is new.** -/
theorem Service.Calm.before {a : Action} (hc : s'.Calm i n) (ha : Served s a)
    (hflat : ∀ f ∈ s.stack.tail, ∃ r, f = .tick r) (hs : step s a = some s') :
    s.Calm i n ∨
      (a.registers = true ∧ Registering s s' ∧ s.stack = [] ∧ s'.stack = [.onCon i n]) := by
  have hthrown := ha.thrown hs
  have hopen : ∀ {f rest}, s.stack = f :: rest → f ≠ .onDisCon i n → .onDisCon i n ∉ s.stack :=
    fun hst hf => not_closing hst hflat hf
  rcases Standing.stable.step (stepping hs) with hst | ⟨hacc, hreg⟩ | ⟨j, m, rest, _, _, hst, -, rfl⟩
  · refine Or.inl ⟨(hst.live i n).mp hc.1, hthrown, ?_⟩
    cases stepping hs with
    | send _ h => exact h.stack_eq ▸ hc.2.2
    | readMove hst' _ _ _ => exact hopen hst' (by nofun)
    | onCon hst' _ | onRead hst' _ _ => exact hopen hst' (by nofun)
    | dequeue hst' _ _ _ => rw [hst']; exact List.not_mem_nil
    | finish hst' => exact hopen hst' (by nofun)
    | accept _ h =>
      rcases h.stack_eq with h | ⟨j, h⟩
      · exact h ▸ hc.2.2
      · exact fun hm => hc.2.2 (h ▸ List.mem_cons_of_mem _ hm)
    | onReadNegative _ hneg _ => exact absurd hneg (Int.not_lt.mpr ha)
    | @onDisCon _ _ j m _ hst' =>
      refine hopen hst' ?_
      intro heq
      obtain ⟨rfl, rfl⟩ := Frame.onDisCon.inj heq
      exact ((closePeerEnd_live _ j j m).mp hc.1).1 rfl
    | closePeer | connectPeer | raise | unwind | catch_ => exact ha.elim
  · have hempty : s.stack = [] := by
      cases a with
      | accept sd loc rem bound =>
        simp only [step, Option.ite_none_right_eq_some] at hs
        exact hs.1.2
      | connectPeer => exact ha.elim
      | send | closePeer | readMove | return_ | raise | dequeue | finish | unwind | catch_ =>
        cases hacc
    cases hreg with
    | full e => cases hc.2.1
    | unbound j _ e => cases hc.2.1
    | callback j _ hfree p' _ _ rem hp =>
      rcases (setPeer_live_callback hfree hp i n).mp hc.1 with ⟨rfl, rfl⟩ | hl
      · exact Or.inr ⟨hacc, .callback i ‹_› hfree p' _ _ rem hp, hempty, congrArg _ hempty⟩
      · exact Or.inl ⟨hl, hthrown, by rw [hempty]; exact List.not_mem_nil⟩
  · obtain ⟨hne, hl⟩ := (closePeerEnd_live (s.popped rest) j i n).mp hc.1
    refine Or.inl ⟨hl, hthrown, hopen hst ?_⟩
    intro heq
    exact hne (Frame.onDisCon.inj heq).1.symm

/-! ## The receive side -/

/-- A `WSARecv` is outstanding on slot `i`, for 512 bytes or more. -/
def Service.Receives (s : Service) (i : Nat) : Prop :=
  ∃ r ∈ s.pendingReads i, ∃ w, r.wsabuf = some w ∧ 512 ≤ w.len

/-- A calm connection is heard: a `WSARecv` is outstanding, or a callback is running behind which
one is posted. -/
def Attended (i n : Nat) (s : Service) : Prop :=
  s.Calm i n → Intake i n s ∧ (s.Receives i ∨ 0 < postsAhead i s.stack)

theorem Beside.receives (h : Beside i s s') (hr : s.Receives i) : s'.Receives i := by
  rw [Service.Receives, h.reads]
  exact hr

theorem postsAhead_cons (f : Frame) (st : List Frame) : postsAhead i st ≤ postsAhead i (f :: st) := by
  rw [postsAhead, postsAhead, List.countP_cons]
  exact Nat.le_add_right _ _

theorem postsAhead_pos {f : Frame} (hf : f.postsRecv i = true) (st : List Frame) :
    0 < postsAhead i (f :: st) := by
  rw [postsAhead, List.countP_cons_of_pos hf]
  exact Nat.succ_pos _

/-- The frame that is gone did not stand before a `WSARecv`. -/
theorem postsAhead_tail {f : Frame} {st : List Frame} (hf : f.postsRecv i = false) :
    postsAhead i (f :: st) = postsAhead i st :=
  List.countP_cons_of_neg (by rw [hf]; exact Bool.false_ne_true)

/-- **A `WSARecv` that is posted is one for 512 bytes or more.** -/
theorem RecvPosting.receives (h : RecvPosting s i n s') (hl : s.Live i n)
    (hin : Intake i n s) (hc : s'.Calm i n) : s'.Receives i := by
  cases h with
  | outOfRange hge => exact absurd hin.index_lt (Nat.not_lt.mpr hge)
  | stale hdead => exact absurd hl hdead
  | failed _ e p' _ => cases hc.2.1
  | refused _ p' hp _ hclose =>
    have hset : Standing s (s.newIOCxt.2.setPeer i p') :=
      (Standing.newIOCxt s).trans (.setPeer hp.socket hp.serial)
    exact absurd hc (hclose.not_calm ((hset.live i n).mpr hl) hin.index_lt)
  | accepted _ w p' hm =>
    rcases SockBuf.ensureWritableBytes_cases hin.valid (show 512 ≤ 2 ^ 31 by decide) with
      ⟨e, he⟩ | ⟨b, hb, hv, -, hroom⟩
    · have hensure : Peer.onReadBuf (SockBuf.ensureWritableBytes 512) (s.m_peer_array i)
          = .error e ((s.m_peer_array i).withReadBuf (s.m_peer_array i).read_buf) := by
        rw [Peer.onReadBuf, he]
      rw [offerRead, bind_error hensure] at hm
      cases hm
    · rw [offerRead_ok hb hv] at hm
      obtain ⟨rfl, -⟩ := EStateM.Result.ok.inj hm
      refine ⟨⟨s.newIOCxt.1, .ClientIoRead, i, n,
        some ⟨b.m_buf, b.m_write_index, b.m_size - b.m_write_index⟩⟩, ?_, _, rfl, ?_⟩
      · rw [pendingReads, post_posted, List.filter_append]
        exact List.mem_append_right _ (by simp)
      · show 512 ≤ b.m_size - b.m_write_index
        omega

/-- What `readMove` leaves is a buffer, unless it throws. -/
theorem valid_of_readMove {p p' : Peer} {len : Nat} {a : Unit} (hv : p.read_buf.Valid)
    (hm : Peer.onReadBuf (SockBuf.readMove len) p = .ok a p') :
    ∃ b : SockBuf, b.Valid ∧ p' = p.withReadBuf b := by
  rw [Peer.onReadBuf, SockBuf.readMove] at hm
  by_cases hgt : (p.read_buf.setRead (p.read_buf.m_read_index + len)).m_read_index
      > (p.read_buf.setRead (p.read_buf.m_read_index + len)).m_write_index
  · simp only [if_pos hgt] at hm
    cases hm
  · simp only [if_neg hgt] at hm
    exact ⟨_, ⟨Nat.le_of_not_lt hgt, hv.write_le⟩, (EStateM.Result.ok.inj hm).2.symm⟩

/-- A completion that is not one of a `WSARecv` of the slot. -/
theorem Ticking.beside {r : Request} {c : Completion} {accepted : Bool} (hfits : c.Fits r)
    (hne : ¬(r.index = i ∧ r.io_operation = .ClientIoRead))
    (h : Ticking (s.took r) r c accepted s') : Beside i s s' := by
  by_cases hi : r.index = i
  · have hop : r.io_operation ≠ .ClientIoRead := fun hop => hne ⟨hi, hop⟩
    refine (Beside.took hop s).trans (.ticking ?_ h)
    rintro size received rfl
    exact ⟨by_contra fun hne => hop (hfits.read hne), fun hop' => absurd hop' hop⟩
  · refine .of_local ((Local.took s r).trans (.ticking h)) (Ne.symm hi) ?_
    have htick : Fewer i s.stack (.tick r :: s.stack) := .cons rfl
    rcases h.stack_eq with hs' | hs' | ⟨-, hs' | hs'⟩ <;> rw [hs', took_stack]
    · exact .refl _
    · exact htick
    · exact htick.trans (.cons rfl)
    · exact htick.trans (.cons (Frame.not_postsRecv hi))

/-- **A completion of the `WSARecv` calls `onRead`**, or the connection does not stay as it was. -/
theorem Ticking.postsAhead {r : Request} {c : Completion} {accepted : Bool} (hl : s.Live i n)
    (hlt : i < MAX_PEER_NUM) (hi : r.index = i) (hop : r.io_operation = .ClientIoRead)
    (h : Ticking (s.took r) r c accepted s') (hc : s'.Calm i n) : 0 < postsAhead i s'.stack := by
  subst hi
  have hser : ((s.took r).m_peer_array r.index).serial = n := hl.2
  cases h with
  | lost _ _ hclose =>
    rw [hser] at hclose
    have hl' : ((s.took r).push (.tick r)).Live r.index n := hl
    exact absurd hc (hclose.not_calm hl' hlt)
  | other | outOfRange | unknown => cases hc.2.1
  | free size received _ hfree =>
    rw [arrived_socket] at hfree
    exact absurd hfree hl.1
  | shutdown received _ _ _ hclose =>
    rw [arrived_serial, hser] at hclose
    have hl' : (((s.took r).arrived r 0 received).push (.tick r)).Live r.index n :=
      ((Standing.arrived (s.took r) r 0 received).live r.index n).mpr hl
    exact absurd hc (hclose.not_calm hl' hlt)
  | write _ _ _ hop' =>
    rw [hop] at hop'
    cases hop'
  | read size received _ _ _ _ hread =>
    cases hread with
    | outOfRange _ e => cases hc.2.1
    | failed _ e => cases hc.2.1
    | closed hfree =>
      rw [push_peer, arrived_socket] at hfree
      exact absurd hfree hl.1
    | callback _ p' _ =>
      rw [push_stack]
      exact postsAhead_pos (f := .onRead r.index _) (decide_eq_true rfl) _

namespace Attended

/-- A step beside the receive side, behind which no callback of the slot has returned. -/
theorem beside (h : Attended i n s) (hb : Beside i s s') (hcalm : s'.Calm i n → s.Calm i n)
    (hst : postsAhead i s.stack ≤ postsAhead i s'.stack) : Attended i n s' := by
  intro hc
  obtain ⟨hin, hgoes⟩ := h (hcalm hc)
  exact ⟨hin.beside hb, hgoes.imp hb.receives fun hpos => Nat.lt_of_lt_of_le hpos hst⟩

/-- **A new connection** is heard behind its `onCon`. -/
theorem fresh (hreg : Registering s s') (hst : s.stack = []) (hst' : s'.stack = [.onCon i n])
    (hclean : ∀ r ∈ s.posted, r.index ≠ i) : Attended i n s' := by
  refine fun _ => ⟨(Intake.registered hreg hst hst' hclean).1, Or.inr ?_⟩
  rw [hst']
  exact postsAhead_pos (f := .onCon i n) (decide_eq_true rfl) []

/-- **`onRead` consumes**: what it must not leave behind is a read index beyond the write index. -/
theorem readMove {len j m : Nat} {rest : List Frame} (h : Attended i n s)
    (hst : s.stack = .onRead j m :: rest) (hs : step s (.readMove len) = some s')
    (hcalm : s'.Calm i n → s.Calm i n) : Attended i n s' := by
  by_cases hj : i = j
  · subst hj
    intro hc
    obtain ⟨hin, -⟩ := h (hcalm hc)
    obtain ⟨-, hreads⟩ := hin.running hst (decide_eq_true rfl)
    rw [step_readMove hst hs] at hc ⊢
    cases hm : Peer.onReadBuf (SockBuf.readMove len) (s.m_peer_array i) with
    | error e p =>
      rw [onPeer_error hm] at hc
      cases hc.2.1
    | ok a p =>
      rw [onPeer_ok hm]
      obtain ⟨b, hv, rfl⟩ := valid_of_readMove hin.valid hm
      refine ⟨(hin.withReadBuf hreads hv).1, Or.inr ?_⟩
      rw [setPeer_stack, hst]
      exact postsAhead_pos (f := .onRead i m) (decide_eq_true rfl) rest
  · refine h.beside (.readMove hj hst hs) hcalm (Nat.le_of_eq ?_)
    rw [step_readMove hst hs]
    unfold Service.onPeer
    split <;> rfl

/-- **Behind `onCon` and `onRead`** the next `WSARecv` is posted. -/
theorem returned {ret : Int} {accepted : Bool} {f : Frame} {rest : List Frame} {j m : Nat}
    (h : Attended i n s) (hst : s.stack = f :: rest) (hf : f = .onCon j m ∨ f = .onRead j m)
    (hret : 0 ≤ ret) (hs : step s (.return_ ret accepted) = some s')
    (hpost : RecvPosting (s.popped rest) j (s.m_peer_array j).serial s')
    (hcalm : s'.Calm i n → s.Calm i n) : Attended i n s' := by
  intro hc
  obtain ⟨hin, hgoes⟩ := h (hcalm hc)
  refine ⟨(hin.returned hst hf hret hs).1, ?_⟩
  have hpop := Beside.popped (i := i) hst
  by_cases hj : i = j
  · subst hj
    rw [hin.serial] at hpost
    exact Or.inl (hpost.receives (hcalm hc).1 (hin.beside hpop) hc)
  · have hrest : postsAhead i s.stack = postsAhead i rest := by
      rw [hst]
      refine postsAhead_tail (Frame.not_postsRecv ?_)
      rcases hf with rfl | rfl <;> exact Ne.symm hj
    have hfewer : Fewer i (s.popped rest).stack s'.stack ∧
        postsAhead i rest ≤ postsAhead i s'.stack := by
      rcases hpost.stack_eq with hs' | ⟨-, hs'⟩ <;> rw [hs']
      · exact ⟨.refl _, Nat.le_refl _⟩
      · exact ⟨.cons rfl, postsAhead_cons _ _⟩
    have hb := hpop.trans (.of_local (.recvPosting hpost) hj hfewer.1)
    exact hgoes.imp hb.receives fun hpos =>
      Nat.lt_of_lt_of_le (hrest ▸ hpos) hfewer.2

/-- **A completion** of the `WSARecv` calls `onRead`, or the connection is being closed. -/
theorem dequeue {r : Request} {c : Completion} {accepted : Bool} (h : Attended i n s)
    (hst : s.stack = []) (hr : r ∈ s.posted) (hfits : c.Fits r)
    (htick : Ticking (s.took r) r c accepted s') (hcalm : s'.Calm i n → s.Calm i n) :
    Attended i n s' := by
  intro hc
  obtain ⟨hin, hgoes⟩ := h (hcalm hc)
  have hl := (hcalm hc).1
  refine ⟨(hin.ticking hl hr hfits htick).1, ?_⟩
  have hrec : s.Receives i := by
    rw [hst] at hgoes
    exact hgoes.resolve_right (Nat.lt_irrefl 0)
  by_cases hown : r.index = i ∧ r.io_operation = .ClientIoRead
  · exact Or.inr (htick.postsAhead hl hin.index_lt hown.1 hown.2 hc)
  · -- any other completion leaves the request where it is
    exact Or.inl ((htick.beside hfits hown).receives hrec)

end Attended

/-- **No step leaves a connection without a `WSARecv`.** -/
theorem Attended.step {a : Action} (h : Attended i n s)
    (hflat : ∀ f ∈ s.stack.tail, ∃ r, f = .tick r) (ha : Served s a)
    (hclean : a.registers = true → Clean s s') (hs : Iocp.step s a = some s') :
    Attended i n s' := by
  intro hc
  rcases hc.before ha hflat hs with hcalm | ⟨hacc, hreg, hst, hst'⟩
  · have hcalm : s'.Calm i n → s.Calm i n := fun _ => hcalm
    revert hc
    cases stepping hs with
    | send _ hsend => exact h.beside (.sending hsend) hcalm (Nat.le_of_eq (by rw [hsend.stack_eq]))
    | accept _ hreg =>
      refine fun hc => h.beside (.registering (hcalm hc).1 hreg) hcalm ?_ hc
      rcases hreg.stack_eq with hst | ⟨j, hst⟩ <;> rw [hst]
      exact postsAhead_cons _ _
    | readMove hst _ _ _ => exact h.readMove hst hs hcalm
    | onCon hst hpost => exact h.returned hst (Or.inl rfl) ha hs hpost hcalm
    | onRead hst _ hpost => exact h.returned hst (Or.inr rfl) ha hs hpost hcalm
    | onReadNegative _ hneg _ => exact absurd hneg (Int.not_lt.mpr ha)
    | @onDisCon _ _ j m rest hst =>
      refine h.beside ((Beside.popped hst).trans (.closePeerEnd _ j)) hcalm (Nat.le_of_eq ?_)
      rw [hst, closePeerEnd_stack]
      exact postsAhead_tail rfl
    | finish hst =>
      refine h.beside ((Beside.popped hst).trans (.of_eq rfl rfl (.refl _))) hcalm (Nat.le_of_eq ?_)
      rw [hst]
      exact postsAhead_tail rfl
    | dequeue hst hr hfits htick => exact h.dequeue hst hr hfits htick hcalm
    | closePeer | connectPeer | raise | unwind | catch_ => exact ha.elim
  · have hnew : s'.stack = .onCon i n :: s.stack := by rw [hst', hst]
    exact Attended.fresh hreg hst hst' (hclean hacc i n hnew).1 hc

/-! ## The send side -/

/-- Nothing of the slot is left to be sent. -/
def Service.Empty (s : Service) (i : Nat) : Prop :=
  (s.m_peer_array i).write_buf.content = [] ∧ (s.m_peer_array i).write_buf_backup_.content = []

/-- A calm connection for which no write request is outstanding has nothing left to be sent. -/
def Resting (i n : Nat) (s : Service) : Prop :=
  (sentBytes i n s.log).length < 2 ^ 30 → s.Calm i n →
    (s.m_peer_array i).wsa_send = false → s.Empty i

namespace Resting

theorem aside (h : Resting i n s) (ha : Aside i n s s') (hcalm : s'.Calm i n → s.Calm i n) :
    Resting i n s' := by
  intro hlen hc hidle
  have hsent := (Onward.of_aside ha).sent.length_le
  rw [ha.peer.wsa_send] at hidle
  rw [Service.Empty, ha.peer.write_buf, ha.peer.write_buf_backup_]
  exact h (Nat.lt_of_le_of_lt hsent hlen) (hcalm hc) hidle

/-- **`send`** sets `wsa_send`. -/
theorem send {j m : Nat} {buf : Bytes} {accepted : Bool} (h : Resting i n s)
    (hsend : Sending s j m buf accepted s') (hcalm : s'.Calm i n → s.Calm i n) :
    Resting i n s' := by
  by_cases hj : j = i
  · subst hj
    intro hlen hc hidle
    cases hsend with
    | outOfRange | failed | refused => cases hc.2.1
    | stale _ => exact h hlen hc hidle
    | queued _ p' _ hw =>
      rw [setPeer_self, hw] at hidle
      cases hidle
    | signalled _ _ p' _ _ =>
      rw [post_peer, setPeer_self] at hidle
      cases hidle
  · exact h.aside (.of_local (.sending hsend) (Ne.symm hj)) hcalm

end Resting

/-- All that was waiting has been offered to a `WSASend`. -/
structure Flushed (i : Nat) (s : Service) : Prop where
  backup : (s.m_peer_array i).write_buf_backup_.content = []
  idle : (s.m_peer_array i).wsa_send = false → (s.m_peer_array i).write_buf.content = []
  offered : ∀ r ∈ s.pendingWrites i, r.wsabuf ≠ none

/-- **`processWrite`** offers all that is left to the next `WSASend`. -/
theorem Writing.flushed {size : Nat} {accepted : Bool} (h : Writing s i size accepted s')
    (hw : (s.m_peer_array i).write_buf.Valid) (hb : (s.m_peer_array i).write_buf_backup_.Valid)
    (hsize : size ≤ (s.m_peer_array i).write_buf.content.length)
    (hlen : (s.m_peer_array i).write_buf.m_write_index
      + (s.m_peer_array i).write_buf_backup_.content.length < 2 ^ 31)
    (hl : s.Live i n) (hlt : i < MAX_PEER_NUM) (hpend : s.pendingWrites i = [])
    (hc : s'.Calm i n) : Flushed i s' := by
  obtain ⟨p, hdrain, hp⟩ := drainWrite_spec hw hb hsize hlen
  have hkeep := (keeps_drainWrite size).ok hdrain
  cases h with
  | outOfRange | failed => cases hc.2.1
  | closed hfree => exact absurd hfree hl.1
  | drained _ p' hm =>
    rw [hdrain] at hm
    obtain ⟨hnil, rfl⟩ := EStateM.Result.ok.inj hm
    refine ⟨?_, fun _ => ?_, fun r hr => ?_⟩
    · rw [setPeer_self]
      exact hp.backup_content
    · rw [setPeer_self]
      exact List.eq_nil_of_length_eq_zero hnil
    · have hr : r ∈ s.pendingWrites i := hr
      rw [hpend] at hr
      cases hr
  | more _ k _ p' hm _ hpost =>
    rw [hdrain] at hm
    obtain ⟨-, rfl⟩ := EStateM.Result.ok.inj hm
    have hl' : (s.setPeer i p).Live i (s.m_peer_array i).serial :=
      (live_setPeer hkeep.socket hkeep.serial).mpr ⟨hl.1, rfl⟩
    cases hpost with
    | outOfRange | failed => cases hc.2.1
    | stale hdead => exact absurd hl' hdead
    | refused hl' hacc p' hp' _ hclose =>
      rw [hl.2] at hl'
      exact absurd hc (SendPosting.not_calm (.refused hl' rfl p' hp' _ (hl.2 ▸ hclose)) hl' hlt)
    | accepted _ _ w q hq _ =>
      rw [setPeer_self] at hq
      subst hq
      have hself : ((((s.setPeer i p).newIOCxt.2.setPeer i (p.withWsaSend true)).post
          ⟨(s.setPeer i p).newIOCxt.1, .ClientIoWrite, i, (s.m_peer_array i).serial,
            some w⟩).m_peer_array i) = p.withWsaSend true := setPeer_self _ i _
      refine ⟨?_, fun hidle => ?_, fun r hr => ?_⟩
      · rw [hself]
        exact hp.backup_content
      · rw [hself] at hidle
        cases hidle
      · rw [pendingWrites_post (s := (s.setPeer i p).newIOCxt.2.setPeer i (p.withWsaSend true))
          hpend rfl rfl, List.mem_singleton] at hr
        rw [hr]
        exact Option.some_ne_none w

/-- **Behind a completed write request** the rest is offered to the next one. -/
theorem Flowing.flushed {r : Request} {c : Completion} {accepted : Bool} (hflow : Flowing i n s)
    (hlen : (sentBytes i n s.log).length < 2 ^ 30) (hcalm : s.Calm i n) (hlt : i < MAX_PEER_NUM)
    (hr : r ∈ s.posted) (hi : r.index = i) (hop : r.io_operation = .ClientIoWrite)
    (hfits : c.Fits r) (htick : Ticking (s.took r) r c accepted s') (hc : s'.Calm i n) :
    Flushed i s' := by
  subst hi
  have hl := hcalm.1
  have hstream := (hflow hlen).2 hcalm
  have hser : ((s.took r).m_peer_array r.index).serial = n := hl.2
  cases htick with
  | lost _ _ hclose =>
    rw [hser] at hclose
    have hl' : ((s.took r).push (.tick r)).Live r.index n := hl
    exact absurd hc (hclose.not_calm hl' hlt)
  | other | outOfRange | unknown => cases hc.2.1
  | free size received _ hfree =>
    rw [arrived_socket] at hfree
    exact absurd hfree hl.1
  | shutdown _ _ hop' | read _ _ _ hop' =>
    rw [hop] at hop'
    cases hop'
  | write size received _ _ _ hwrite =>
    obtain ⟨hsize, hpeer, hpend, -⟩ := hstream.completed hr rfl hop hfits
    have hindex : _ ≤ (sentBytes r.index n s.log).length := hstream.write_index
    generalize ht : (s.took r).arrived r size received = t at hwrite hpeer hpend
    have htpeer : (t.push (.tick r)).m_peer_array r.index = s.m_peer_array r.index := hpeer
    have htl : (t.push (.tick r)).Live r.index n := by
      unfold Live
      rw [htpeer]
      exact hl
    refine (hwrite.flushed ?_ ?_ ?_ ?_ htl hlt hpend hc)
    · rw [htpeer]
      exact hstream.write_valid
    · rw [htpeer]
      exact hstream.backup_valid
    · rw [htpeer]
      exact hsize
    · rw [htpeer]
      omega

/-- A new connection has nothing to send. -/
theorem Resting.fresh (hreg : Registering s s') (hst : s'.stack = .onCon i n :: s.stack)
    (hclean : ∀ r ∈ s.posted, r.index ≠ i) (hfresh : ∀ e ∈ s.log, e.connection ≠ (i, n))
    (hsent : sentBytes i n s'.log = sentBytes i n s.log) : Resting i n s' := by
  intro _ _ _
  have hbytes : _ = sentBytes i n s'.log := (Stream.fresh hreg hst hclean hfresh).bytes
  rw [hsent, (bytes_of_fresh hfresh).1, List.append_eq_nil_iff, List.append_eq_nil_iff] at hbytes
  exact ⟨hbytes.1.2, hbytes.2⟩

/-- **Where no write request is outstanding behind a step, nothing is left to be sent.** -/
theorem Resting.step {a : Action} (h : Resting i n s) (hflow : Flowing i n s)
    (hlt : s.Live i n → i < MAX_PEER_NUM) (hflat : ∀ f ∈ s.stack.tail, ∃ r, f = .tick r)
    (ha : Served s a) (hclean : a.registers = true → Clean s s')
    (hs : Iocp.step s a = some s') : Resting i n s' := by
  intro hlen hc hidle
  have hstep := stepping hs
  have hlen' := Nat.lt_of_le_of_lt (hstep.sentBytes_prefix i n).length_le hlen
  rcases hc.before ha hflat hs with hcalm | ⟨hacc, hreg, hst, hst'⟩
  · have haside : Aside i n s s' → s'.Empty i := fun has =>
      h.aside has (fun _ => hcalm) hlen hc hidle
    have hpop : ∀ rest, Aside i n s (s.popped rest) := fun _ => .of_eq rfl rfl rfl
    cases hstep with
    | send _ hsend => exact h.send hsend (fun _ => hcalm) hlen hc hidle
    | accept _ hreg => exact haside (.registering hcalm.1 hreg)
    | @readMove _ j _ _ _ k _ heq =>
      have hset : Aside i n s (s.setPeer j ((s.m_peer_array j).withReadBuf
          ((s.m_peer_array j).read_buf.setRead k))) := .setPeer ⟨rfl, rfl, rfl, rfl⟩
      rcases heq with rfl | ⟨e, rfl⟩
      · exact haside hset
      · cases hc.2.1
    | onCon _ hpost | onRead _ _ hpost => exact haside ((hpop _).trans (.recvPosting hpost))
    | onReadNegative _ hneg _ => exact absurd hneg (Int.not_lt.mpr ha)
    | onDisCon _ => exact haside ((hpop _).trans (.closePeerEnd _ _))
    | finish _ => exact haside (.of_eq rfl rfl rfl)
    | @dequeue r c _ _ _ hr hfits htick =>
      by_cases hi : r.index = i
      · by_cases hop : r.io_operation = .ClientIoWrite
        · have hflushed := hflow.flushed hlen' hcalm (hlt hcalm.1) hr hi hop hfits htick hc
          exact ⟨hflushed.idle hidle, hflushed.backup⟩
        · exact haside ((Aside.took hop s).trans (.ticking hop htick))
      · exact haside (.of_local ((Local.took s r).trans (.ticking htick)) (Ne.symm hi))
    | closePeer | connectPeer | raise | unwind | catch_ => exact ha.elim
  · have hnew : s'.stack = .onCon i n :: s.stack := by rw [hst', hst]
    obtain ⟨hposted, hfresh⟩ := hclean hacc i n hnew
    have hsent := hstep.sentBytes_eq (fun j m buf accepted heq => by rw [heq] at hacc; cases hacc) i n
    exact Resting.fresh hreg hnew hposted hfresh hsent hlen hc hidle

/-! ## What completes -/

/-- What a `WSASend` was offered. A signal was offered nothing. -/
def Request.full (r : Request) : Nat :=
  match r.wsabuf with
  | none => 0
  | some w => w.len

/-- A write request comes back, with all that it was offered transmitted, and is handled. -/
def completed (r : Request) : List Action := [.dequeue r (.success r.full []) true, .finish]

theorem Request.full_fits {r : Request} (hop : r.io_operation = .ClientIoWrite) :
    (Completion.success r.full []).Fits r := by
  unfold Completion.Fits Request.full
  cases r.wsabuf with
  | none => exact ⟨rfl, rfl⟩
  | some w => exact ⟨Nat.le_refl _, by rw [hop]; rfl⟩

/-- A completion is dequeued where nothing is running. -/
theorem step_dequeue {r : Request} {c : Completion} {accepted : Bool} (hthrown : s.thrown = none)
    (hst : s.stack = []) (hr : r ∈ s.posted) (hfits : c.Fits r) :
    step s (.dequeue r c accepted) = some ((s.took r).onEventTick r c accepted) :=
  if_pos ⟨by simp [userRuns, hthrown, hst], hst, hr, hfits⟩

theorem step_finish {r : Request} {rest : List Frame} (hthrown : s.thrown = none)
    (hst : s.stack = .tick r :: rest) :
    step s .finish = some ((s.popped rest).deleteIOCxt r.io_context) := by
  simp only [step, hthrown, hst, popped]

theorem arrived_thrown (s : Service) (r : Request) (size : Nat) (received : Bytes) :
    (s.arrived r size received).thrown = s.thrown := by
  have hdeliver : (s.deliver r received).thrown = s.thrown := by
    unfold deliver
    dsimp only
    split
    · split <;> rfl
    · rfl
  unfold Service.arrived transmit
  split
  · exact hdeliver
  · exact hdeliver

theorem mem_pendingWrites {r : Request} : r ∈ s.pendingWrites i ↔
    r ∈ s.posted ∧ r.index = i ∧ r.io_operation = .ClientIoWrite := by
  simp [pendingWrites]

/-- **`processWrite` of a calm connection calls nobody**, if the system takes the `WSASend`. -/
theorem Writing.smooth {size : Nat} (h : Writing s i size true s')
    (hw : (s.m_peer_array i).write_buf.Valid) (hb : (s.m_peer_array i).write_buf_backup_.Valid)
    (hsize : size ≤ (s.m_peer_array i).write_buf.content.length)
    (hlen : (s.m_peer_array i).write_buf.m_write_index
      + (s.m_peer_array i).write_buf_backup_.content.length < 2 ^ 31)
    (hl : s.Live i n) (hlt : i < MAX_PEER_NUM) :
    s'.log = s.log ∧ s'.stack = s.stack ∧ s'.thrown = s.thrown := by
  obtain ⟨p, hdrain, hp⟩ := drainWrite_spec hw hb hsize hlen
  have hkeep := (keeps_drainWrite size).ok hdrain
  cases h with
  | outOfRange hge => omega
  | closed hfree => exact absurd hfree hl.1
  | failed _ e p' hm =>
    rw [hdrain] at hm
    cases hm
  | drained _ p' _ => exact ⟨rfl, rfl, rfl⟩
  | more _ k _ p' hm _ hpost =>
    rw [hdrain] at hm
    obtain ⟨-, rfl⟩ := EStateM.Result.ok.inj hm
    cases hpost with
    | outOfRange hge => omega
    | stale hdead => exact absurd ((live_setPeer hkeep.socket hkeep.serial).mpr ⟨hl.1, rfl⟩) hdead
    | refused _ hacc => cases hacc
    | accepted _ _ w q _ _ => exact ⟨rfl, rfl, rfl⟩
    | failed _ e q hq hm =>
      rw [setPeer_self] at hq
      have hoffer : offerWrite (p.withWsaSend true)
          = .ok (p.withWsaSend true).writeRegion (p.withWsaSend true) :=
        offerWrite_ok hp.write_valid
      rw [hq, hoffer] at hm
      cases hm

/-- **A write request completes in full**, and what is left goes into the next one. -/
theorem Flowing.complete {r : Request} (hflow : Flowing i n s)
    (hlen : (sentBytes i n s.log).length < 2 ^ 30) (hlt : i < MAX_PEER_NUM) (hst : s.stack = [])
    (hcalm : s.Calm i n) (hr : r ∈ s.pendingWrites i) :
    ∃ s', exec Iocp.step s (completed r) = some s' ∧ s'.stack = [] ∧ s'.Calm i n ∧ Flushed i s' ∧
      Stream i n 0 s' ∧ sentBytes i n s'.log = sentBytes i n s.log ∧
      transmittedBytes i n s'.log
        = transmittedBytes i n s.log ++ (s.m_peer_array i).write_buf.content.take r.full := by
  obtain ⟨hposted, rfl, hop⟩ := mem_pendingWrites.mp hr
  have hl := hcalm.1
  have hfits := Request.full_fits hop
  have hstream := (hflow hlen).2 hcalm
  have hstep : Iocp.step s (.dequeue r (.success r.full []) true) = _ :=
    step_dequeue hcalm.2.1 hst hposted hfits
  have htick := onEventTick_outcome (s.took r) r (.success r.full []) true
  obtain ⟨hsize, hpeer, hpend, hbase, hsent, htrans⟩ := hstream.completed hposted rfl hop hfits
  have hindex : _ ≤ (sentBytes r.index n s.log).length := hstream.write_index
  unfold completed
  generalize r.full = size at *
  generalize (s.took r).onEventTick r (.success size []) true = s₁ at hstep htick
  cases htick with
  | outOfRange hge => omega
  | free _ _ _ hfree =>
    rw [arrived_socket] at hfree
    exact absurd hfree hl.1
  | shutdown _ _ hop' | read _ _ _ hop' | unknown _ _ _ hop' =>
    rw [hop] at hop'
    cases hop'
  | write _ _ _ _ _ hwrite =>
    have hthrown : (((s.took r).arrived r size []).push (.tick r)).thrown = none := by
      exact (arrived_thrown (s.took r) r size []).trans hcalm.2.1
    have hstack : (((s.took r).arrived r size []).push (.tick r)).stack = [.tick r] := by
      rw [push_stack, arrived_stack, took_stack, hst]
    have hpeer : (((s.took r).arrived r size []).push (.tick r)).m_peer_array r.index
      = s.m_peer_array r.index := hpeer
    have hpend : (((s.took r).arrived r size []).push (.tick r)).pendingWrites r.index = [] := hpend
    have hsent : sentBytes r.index n (((s.took r).arrived r size []).push (.tick r)).log
      = sentBytes r.index n s.log := hsent
    have htrans : transmittedBytes r.index n (((s.took r).arrived r size []).push (.tick r)).log
      = transmittedBytes r.index n s.log
        ++ (s.m_peer_array r.index).write_buf.content.take size := htrans
    generalize ((s.took r).arrived r size []).push (.tick r) = t at *
    have hl' : t.Live r.index n := by
      unfold Live
      rw [hpeer]
      exact hl
    have hstream₁ := hstream.writing hl hlt hlen hsize hpeer hpend (Nat.zero_le _) hsent htrans hwrite
    have hw := hstream.write_valid
    have hb := hstream.backup_valid
    rw [← hpeer] at hw hb hsize hindex
    obtain ⟨hlog₁, hstack₁, hthrown₁⟩ := hwrite.smooth hw hb hsize (by omega) hl' hlt
    have hcalm₁ : s₁.Calm r.index n := by
      refine ⟨((Standing.stable.writing (.refl t) hwrite).live _ _).mpr hl', hthrown₁.trans hthrown, ?_⟩
      rw [hstack₁, hstack]
      nofun
    have hflushed := hwrite.flushed hw hb hsize (by omega) hl' hlt hpend hcalm₁
    have hfinish := step_finish hcalm₁.2.1 (hstack₁.trans hstack)
    have hrun : exec Iocp.step s [.dequeue r (.success size []) true, .finish]
        = some ((s₁.popped []).deleteIOCxt r.io_context) := by
      rw [exec_cons hstep, exec_cons hfinish, exec]
    refine ⟨_, hrun, rfl, ⟨hcalm₁.1, hcalm₁.2.1, List.not_mem_nil⟩,
      ⟨hflushed.backup, hflushed.idle, hflushed.offered⟩, hstream₁.aside (.of_eq rfl rfl rfl), ?_, ?_⟩
    · show sentBytes r.index n s₁.log = _
      rw [hlog₁, hsent]
    · show transmittedBytes r.index n s₁.log = _
      rw [hlog₁, htrans]

/-- **Two completions transmit all that was sent.** The first may be the one of a signal, or of a
`WSASend` that was posted before the rest was sent. -/
theorem Flowing.drains (hflow : Flowing i n s) (hrest : Resting i n s)
    (hlen : (sentBytes i n s.log).length < 2 ^ 30) (hlt : i < MAX_PEER_NUM) (hst : s.stack = [])
    (hcalm : s.Calm i n) :
    ∃ (rs : List Request) (s' : Service), rs.length ≤ 2 ∧ exec Iocp.step s (rs.flatMap completed) = some s' ∧
      s'.stack = [] ∧ s'.Calm i n ∧ sentBytes i n s'.log = sentBytes i n s.log ∧
      transmittedBytes i n s'.log = sentBytes i n s.log := by
  have hstream := (hflow hlen).2 hcalm
  have hbytes : transmittedBytes i n s.log ++ (s.m_peer_array i).write_buf.content
    ++ (s.m_peer_array i).write_buf_backup_.content = sentBytes i n s.log := hstream.bytes
  cases hflag : (s.m_peer_array i).wsa_send with
  | false =>
    obtain ⟨hw, hb⟩ := hrest hlen hcalm hflag
    rw [hw, hb, List.append_nil, List.append_nil] at hbytes
    exact ⟨[], s, Nat.zero_le 2, rfl, hst, hcalm, rfl, hbytes⟩
  | true =>
    obtain ⟨r, hr, -⟩ := hstream.busy hflag
    obtain ⟨s₁, hrun₁, hst₁, hcalm₁, hflushed, hstream₁, hsent₁, -⟩ :=
      hflow.complete hlen hlt hst hcalm (hr ▸ List.mem_singleton_self r)
    have hbytes₁ : transmittedBytes i n s₁.log ++ (s₁.m_peer_array i).write_buf.content
      ++ (s₁.m_peer_array i).write_buf_backup_.content = sentBytes i n s₁.log := hstream₁.bytes
    rw [hflushed.backup, List.append_nil, hsent₁] at hbytes₁
    cases hflag₁ : (s₁.m_peer_array i).wsa_send with
    | false =>
      rw [hflushed.idle hflag₁, List.append_nil] at hbytes₁
      exact ⟨[r], s₁, Nat.le_succ 1, by simpa using hrun₁, hst₁, hcalm₁, hsent₁, hbytes₁⟩
    | true =>
      obtain ⟨q, hq, -, hregion⟩ := hstream₁.busy hflag₁
      have hmem : q ∈ s₁.pendingWrites i := hq ▸ List.mem_singleton_self q
      obtain ⟨w, hw⟩ := Option.ne_none_iff_exists'.mp (hflushed.offered q hmem)
      have hfull : q.full = (s₁.m_peer_array i).write_buf.content.length := by
        rw [← (writeRegion_bytes hstream₁.write_valid).2, ← hregion w hw, Request.full, hw]
      obtain ⟨s₂, hrun₂, hst₂, hcalm₂, -, -, hsent₂, htrans₂⟩ :=
        Flowing.complete (.of_stream hstream₁) (hsent₁.symm ▸ hlen) hlt hst₁ hcalm₁ hmem
      rw [hfull, List.take_length, hbytes₁] at htrans₂
      refine ⟨[r, q], s₂, Nat.le_refl 2, ?_, hst₂, hcalm₂, hsent₂.trans hsent₁, htrans₂⟩
      rw [List.flatMap_cons, List.flatMap_singleton]
      rw [exec_append, hrun₁]
      exact hrun₂

theorem writeMove_error {p p' : Peer} {len : Nat} {e : Exception}
    (hm : Peer.onReadBuf (SockBuf.writeMove len) p = .error e p') :
    p.read_buf.m_size < p.read_buf.m_write_index + len := by
  rw [Peer.onReadBuf, SockBuf.writeMove] at hm
  by_cases hgt : (p.read_buf.setWrite (p.read_buf.m_write_index + len)).m_write_index
      > (p.read_buf.setWrite (p.read_buf.m_write_index + len)).m_size
  · exact Nat.lt_of_lt_of_le hgt (Nat.mod_le _ _)
  · simp only [if_neg hgt] at hm
    cases hm

/-- The region that is filled is inside the buffer as it was. -/
theorem arrived_indices (s : Service) (r : Request) (size : Nat) (received : Bytes) (j : Nat) :
    ((s.arrived r size received).m_peer_array j).read_buf.m_write_index
        = (s.m_peer_array j).read_buf.m_write_index ∧
      ((s.arrived r size received).m_peer_array j).read_buf.m_size
        = (s.m_peer_array j).read_buf.m_size := by
  rcases arrived_peer s r size received j with h | ⟨-, -, w, -, h⟩ <;> rw [h]
  · exact ⟨rfl, rfl⟩
  · exact ⟨rfl, Block.size_write _ _ _⟩

/-- **A calm connection hears what comes next**: where nothing is running, a `WSARecv` is
outstanding that any 512 bytes complete, and they stand behind what was readable when `onRead` is
called. -/
theorem Attended.hears (h : Attended i n s) (hst : s.stack = []) (hcalm : s.Calm i n) :
    ∃ r ∈ s.pendingReads i, r.serial = n ∧ ∀ bytes : Bytes, bytes ≠ [] → bytes.length ≤ 512 →
      ∃ s', Iocp.step s (.dequeue r (.success bytes.length bytes) true) = some s' ∧
        s'.stack = [.onRead i n, .tick r] ∧ s'.Calm i n ∧
        s'.readable i = s.readable i ++ bytes := by
  obtain ⟨hin, hgoes⟩ := h hcalm
  obtain ⟨r, hr, w, hw, hroom⟩ := hgoes.resolve_right (hst ▸ Nat.lt_irrefl 0)
  obtain ⟨hposted, hi, hop⟩ : r ∈ s.posted ∧ r.index = i ∧ r.io_operation = .ClientIoRead := by
    simpa [pendingReads] using hr
  have hser := hin.own r hposted hi
  refine ⟨r, hr, hser, fun bytes hne hle => ?_⟩
  have hfits : (Completion.success bytes.length bytes).Fits r := by
    unfold Completion.Fits
    rw [hw]
    exact ⟨hle.trans hroom, by rw [if_pos hop]⟩
  obtain ⟨w', hw', -, hstart, hsize⟩ := hin.region r hr
  obtain rfl := Option.some.inj (hw.symm.trans hw')
  have htick := onEventTick_outcome (s.took r) r (.success bytes.length bytes) true
  have hread := (hin.ticking hcalm.1 hposted hfits htick).2
  have hbrought : brought i r (.success bytes.length bytes) = bytes := by
    unfold brought
    rw [hop]
    exact if_pos hi
  rw [hbrought] at hread
  refine ⟨_, step_dequeue hcalm.2.1 hst hposted hfits, ?_⟩
  generalize (s.took r).onEventTick r (.success bytes.length bytes) true = s' at htick hread
  obtain ⟨hwrite, hbuf⟩ := arrived_indices (s.took r) r bytes.length bytes i
  have hsock : (((s.took r).arrived r bytes.length bytes).m_peer_array r.index).socket ≠ none := by
    rw [arrived_socket, hi]
    exact hcalm.1.1
  have hlt := hin.index_lt
  have hpos := List.length_pos_of_ne_nil hne
  generalize hk : bytes.length = k at *
  cases htick with
  | outOfRange hge => omega
  | free _ _ _ hfree => exact absurd hfree hsock
  | shutdown => omega
  | write _ _ _ hop' | unknown _ _ _ hop' =>
    rw [hop] at hop'
    cases hop'
  | read _ _ _ _ _ _ hreading =>
    subst hi
    cases hreading with
    | outOfRange hge => omega
    | closed hfree => exact absurd hfree hsock
    | failed _ e p' hm =>
      have hover := writeMove_error hm
      rw [push_peer, hwrite, hbuf, took_peer] at hover
      omega
    | callback _ p' hm =>
      have hnum : (((s.took r).arrived r k bytes).m_peer_array r.index).serial = n := by
        rw [arrived_serial]
        exact hin.serial
      have hp := (keeps_onReadBuf (SockBuf.writeMove k)).ok hm
      have hthrown : ((s.took r).arrived r k bytes).thrown = none :=
        (arrived_thrown (s.took r) r k bytes).trans hcalm.2.1
      rw [push_peer, hnum] at hread ⊢
      refine ⟨?_, ⟨?_, hthrown, ?_⟩, hread⟩
      · rw [push_stack, record_stack, setPeer_stack, push_stack, arrived_stack, took_stack, hst]
      · refine (live_setPeer hp.socket hp.serial).mpr ⟨hsock, ?_⟩
        exact hnum
      · rw [push_stack, record_stack, setPeer_stack, push_stack, arrived_stack, took_stack, hst]
        simp

end GhNet.Iocp
