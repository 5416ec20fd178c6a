import GhNet.Iocp.Additions
import GhNet.Iocp.Output

/-!
# What of the output is on its way

`Stream` speaks of a connection that is open and whose write requests succeed. Here is what holds
of its history in every case: what was transmitted, and what the one outstanding `WSASend` offers
behind it, is the front of what was passed to `send`. A request that fails or is refused, an
exception and the end of the connection only stop the stream, and the history of a closed connection
stays as it is, whoever has its slot.
-/

namespace GhNet.Iocp

open GhNet Service

variable {s s' t : Service} {i n : Nat}

/-! ## The front of the output -/

theorem Event.Marks.silent {e : Event} (h : e.Marks) (i n : Nat) : e.Silent i n := by
  cases e with
  | onRead | onDisCon | closesocket => exact ⟨rfl, rfl⟩
  | onCon | sent | transmitted => exact h.elim

/-- The write requests that are outstanding for the connection `(i, n)`. -/
def Service.writesOf (s : Service) (i n : Nat) : List Request :=
  (s.pendingWrites i).filter fun r => r.serial = n

theorem mem_writesOf {r : Request} : r ∈ s.writesOf i n ↔
    r ∈ s.posted ∧ r.index = i ∧ r.io_operation = .ClientIoWrite ∧ r.serial = n := by
  simp only [writesOf, pendingWrites, List.mem_filter, decide_eq_true_eq, and_assoc]

theorem writesOf_eq (s : Service) (i n : Nat) : s.writesOf i n = s.posted.filter fun r =>
    r.serial = n ∧ r.index = i ∧ r.io_operation = .ClientIoWrite := by
  rw [writesOf, pendingWrites, List.filter_filter]
  simp

/-- What was transmitted, and what the one outstanding write request offers behind it, is the front
of what was passed to `send`. -/
structure Outflow (i n : Nat) (s : Service) : Prop where
  front : transmittedBytes i n s.log <+: sentBytes i n s.log
  single : (s.writesOf i n).length ≤ 1
  offered : ∀ r ∈ s.writesOf i n, ∀ w, r.wsabuf = some w →
    transmittedBytes i n s.log ++ w.bytes <+: sentBytes i n s.log

/-- Between `s` and `s'` nothing was transmitted on the connection `(i, n)` and no write request was
posted for it. -/
structure Onward (i n : Nat) (s s' : Service) : Prop where
  sent : sentBytes i n s.log <+: sentBytes i n s'.log
  transmitted : transmittedBytes i n s'.log = transmittedBytes i n s.log
  writes : (s'.writesOf i n).Sublist (s.writesOf i n)

namespace Onward

theorem of_aside (h : Aside i n s s') : Onward i n s s' := by
  obtain ⟨ext, hlog, hext⟩ := h.log
  refine ⟨?_, ?_, ?_⟩
  · rw [hlog, sentBytes_append]
    exact List.prefix_append _ _
  · rw [hlog, transmittedBytes_append, transmittedBytes_silent hext, List.append_nil]
  · rw [writesOf, h.pending]
    exact .refl _

theorem trans (h1 : Onward i n s t) (h2 : Onward i n t s') : Onward i n s s' :=
  ⟨h1.sent.trans h2.sent, h2.transmitted.trans h1.transmitted, h2.writes.trans h1.writes⟩

/-- Nothing but the history has changed, and nothing was transmitted. -/
theorem of_log {ext : List Event} (hr : s'.posted.Sublist s.posted) (hlog : s'.log = s.log ++ ext)
    (hext : transmittedBytes i n ext = []) : Onward i n s s' := by
  refine ⟨?_, ?_, ?_⟩
  · rw [hlog, sentBytes_append]
    exact List.prefix_append _ _
  · rw [hlog, transmittedBytes_append, hext, List.append_nil]
  · rw [writesOf_eq, writesOf_eq]
    exact hr.filter _

/-- A refused `send` is recorded, and that is all. -/
theorem refused {j m : Nat} {buf : Bytes} (h : Sending s j m buf false s') : Onward i n s s' := by
  have hlog : ∀ {u : Service}, u.posted = s.posted → u.log = s.log ++ [.sent j m buf] →
      Onward i n s u := fun hr hl => of_log (by rw [hr]) hl rfl
  cases h with
  | outOfRange _ e => exact of_aside (.throw s e)
  | stale _ => exact of_aside (.refl s)
  | failed | queued | refused => exact hlog rfl rfl
  | signalled _ hacc => cases hacc

/-- What was added is not about the connection, if that is closed. -/
theorem of_adds {E : Event → Prop} (h : Adds E s s') (hdead : ¬s.Live i n)
    (hE : ∀ e, E e → e.Silent i n) : Onward i n s s' := by
  obtain ⟨⟨kept, new, hposted, hkept, hnew⟩, ext, hlog, hext⟩ := h
  have hnone : new.filter (fun r => r.serial = n ∧ r.index = i ∧ r.io_operation = .ClientIoWrite)
      = [] := by
    refine List.filter_eq_nil_iff.mpr fun r hr hown => ?_
    simp only [decide_eq_true_eq] at hown
    have hl := hnew r hr
    rw [hown.1, hown.2.1] at hl
    exact hdead hl
  have hsilent : ∀ e ∈ ext, e.Silent i n := by
    intro e he
    rcases hext e he with ⟨-, hmarks⟩ | hdue
    · exact hmarks.silent i n
    · exact hE e hdue
  refine ⟨?_, ?_, ?_⟩
  · rw [hlog, sentBytes_append]
    exact List.prefix_append _ _
  · rw [hlog, transmittedBytes_append, transmittedBytes_silent hsilent, List.append_nil]
  · rw [writesOf_eq, writesOf_eq, hposted, List.filter_append, hnone, List.append_nil]
    exact hkept.filter _

theorem throw (s : Service) (e : Exception) : Onward i n s (s.throw e) := .of_aside (.throw s e)

theorem took (s : Service) (r : Request) : Onward i n s (s.took r) :=
  of_log List.erase_sublist (List.append_nil _).symm rfl

/-- `closePeer`, with its handler on the stack. -/
theorem closing {j m : Nat} {f : Frame} (h : Closing (s.push f) j m s') : Onward i n s s' :=
  have hpush : Aside i n s (s.push f) := .of_eq rfl rfl rfl
  .of_aside (hpush.trans (.closing h))

/-- `processWrite` whose next `WSASend` is refused. -/
theorem writing {j size : Nat} {f : Frame} (h : Writing (s.push f) j size false s') :
    Onward i n s s' := by
  have hpush : ∀ {u : Service}, u.posted = s.posted → u.log = s.log → Onward i n s u :=
    fun hr hl => of_log (by rw [hr]) (by rw [hl, List.append_nil]) rfl
  cases h with
  | outOfRange _ e | failed _ e p' _ => exact hpush rfl rfl
  | closed _ | drained _ p' _ => exact hpush rfl rfl
  | more _ k _ p' _ _ hs =>
    cases hs with
    | outOfRange _ e | failed _ e _ _ _ => exact hpush rfl rfl
    | stale _ => exact hpush rfl rfl
    | accepted _ hacc => cases hacc
    | refused _ _ q _ _ hc =>
      have hset : Onward i n s (((s.push f).setPeer j p').newIOCxt.2.setPeer j q) := hpush rfl rfl
      exact hset.trans (.of_aside (.closing hc))

end Onward

namespace Outflow

theorem onward (h : Outflow i n s) (ho : Onward i n s s') : Outflow i n s' where
  front := by
    rw [ho.transmitted]
    exact h.front.trans ho.sent
  single := Nat.le_trans ho.writes.length_le h.single
  offered r hr w hw := by
    rw [ho.transmitted]
    exact (h.offered r (ho.writes.subset hr) w hw).trans ho.sent

/-- **A write request of the connection completes**: what it has transmitted was offered. -/
theorem completed {r : Request} (h : Outflow i n s) (hr : r ∈ s.writesOf i n) (size : Nat)
    (received : Bytes) : Outflow i n ((s.took r).arrived r size received) := by
  obtain ⟨-, hi, hop, hn⟩ := mem_writesOf.mp hr
  have hnone : ((s.took r).arrived r size received).writesOf i n = [] := by
    have hsingle := h.single
    rw [writesOf_eq] at hr hsingle ⊢
    rw [arrived_posted, took_posted, ← List.erase_filter]
    obtain ⟨a, ha⟩ := List.length_eq_one_iff.mp
      (Nat.le_antisymm hsingle (List.length_pos_of_mem hr))
    rw [ha] at hr ⊢
    rw [List.mem_singleton.mp hr, List.erase_cons_head]
  have hsent : sentBytes i n ((s.took r).arrived r size received).log = sentBytes i n s.log := by
    rcases arrived_log (s.took r) r size received with hlog | ⟨bytes, hlog⟩
    · rw [hlog]
      rfl
    · rw [hlog, sentBytes_append]
      exact List.append_nil _
  refine ⟨?_, by rw [hnone]; exact Nat.zero_le 1, fun q hq => ?_⟩
  · rw [hsent]
    have hlog := (deliver_fields (s.took r) r received).2.2.2
    unfold Service.arrived transmit
    split
    · next w _ hw =>
      have hoffered := h.offered r hr w hw
      rw [record_log, hlog, transmittedBytes_append]
      have hown : transmittedBytes i n [.transmitted r.index r.serial (w.bytes.take size)]
          = w.bytes.take size := by
        simp [transmittedBytes, Event.transmittedBytes, hi, hn]
      rw [hown]
      exact (List.prefix_append_right_inj _ |>.mpr (List.take_prefix _ _)).trans hoffered
    · rw [hlog]
      exact h.front
  · rw [hnone] at hq
    cases hq

end Outflow

/-- What an open connection has of its stream, its history has, too. -/
theorem Stream.outflow (h : Stream i n 0 s) : Outflow i n s := by
  have hbytes := h.bytes
  rw [show s.since 0 = s.log from rfl, List.append_assoc] at hbytes
  have hlen : (s.pendingWrites i).length ≤ 1 := by
    cases hf : (s.m_peer_array i).wsa_send with
    | false =>
      rw [h.idle hf]
      exact Nat.zero_le 1
    | true =>
      obtain ⟨r, hr, -⟩ := h.busy hf
      rw [hr]
      exact Nat.le_refl 1
  refine ⟨?_, Nat.le_trans (List.length_filter_le _ _) hlen, fun r hr w hw => ?_⟩
  · rw [← hbytes]
    exact List.prefix_append _ _
  · obtain ⟨hposted, hi, hop, -⟩ := mem_writesOf.mp hr
    obtain ⟨-, -, hregion⟩ := h.pending_eq hposted hi hop
    rw [hregion w hw, (writeRegion_bytes h.write_valid).1, ← hbytes]
    exact (List.prefix_append_right_inj _).mpr (List.prefix_append _ _)

/-- What was passed to `send` stays in the history. -/
theorem Stepping.sentBytes_prefix {a : Action} (h : Stepping s a s') (i n : Nat) :
    sentBytes i n s.log <+: sentBytes i n s'.log := by
  obtain ⟨ext, hlog, -⟩ := h.adds.log
  rw [hlog, sentBytes_append]
  exact List.prefix_append _ _

/-- Only `send` adds to what was passed to it. -/
theorem Stepping.sentBytes_eq {a : Action} (h : Stepping s a s')
    (ha : ∀ i n buf accepted, a ≠ .send i n buf accepted) (i n : Nat) :
    sentBytes i n s'.log = sentBytes i n s.log := by
  obtain ⟨ext, hlog, hext⟩ := h.adds.log
  have hnone : sentBytes i n ext = [] := by
    refine List.flatMap_eq_nil_iff.mpr fun e he => ?_
    rcases hext e he with ⟨-, hmarks⟩ | hdue
    · exact (hmarks.silent i n).1
    · cases hdue with
      | sent => exact absurd rfl (ha _ _ _ _)
      | transmitted | announced => rfl
  rw [hlog, sentBytes_append, hnone, List.append_nil]

/-! ## The invariant -/

/-- The connection is open, is not being closed, and no exception is in flight. -/
def Service.Calm (s : Service) (i n : Nat) : Prop :=
  s.Live i n ∧ s.thrown = none ∧ .onDisCon i n ∉ s.stack

theorem Closing.not_calm (h : Closing s i n s') (hl : s.Live i n) (hi : i < MAX_PEER_NUM) :
    ¬s'.Calm i n := by
  intro hcalm
  cases h with
  | outOfRange hge e => omega
  | stale hdead => exact hdead hl
  | callback _ remote => exact hcalm.2.2 List.mem_cons_self

theorem SendPosting.not_calm (h : SendPosting s i n false s') (hl : s.Live i n)
    (hi : i < MAX_PEER_NUM) : ¬s'.Calm i n := by
  intro hcalm
  cases h with
  | outOfRange hge e => omega
  | stale hdead => exact hdead hl
  | failed _ e p' _ _ => cases hcalm.2.1
  | accepted _ hacc => cases hacc
  | refused _ _ p' hp _ hc =>
    subst hp
    have hset : Standing s (s.newIOCxt.2.setPeer i ((s.m_peer_array i).withWsaSend true)) :=
      (Standing.newIOCxt s).trans (.setPeer rfl rfl)
    exact hc.not_calm ((hset.live i n).mpr hl) hi hcalm

/-- The output of `(i, n)` is in order: the front of what was passed to `send` is on its way, and
while the connection is calm, the rest of it is in the two buffers. -/
def Flowing (i n : Nat) (s : Service) : Prop :=
  (sentBytes i n s.log).length < 2 ^ 30 → Outflow i n s ∧ (s.Calm i n → Stream i n 0 s)

/-- Nothing has been sent on a connection that is not in the history. -/
theorem bytes_of_fresh (h : ∀ e ∈ s.log, e.connection ≠ (i, n)) :
    sentBytes i n s.log = [] ∧ transmittedBytes i n s.log = [] := by
  have hsilent : ∀ e ∈ s.log, e.Silent i n := by
    intro e he
    have hne := h e he
    cases e with
    | sent j m buf | transmitted j m buf =>
      have hne : ¬(j = i ∧ m = n) := fun ⟨hi, hn⟩ => hne (by rw [← hi, ← hn]; rfl)
      simp [Event.Silent, Event.sentBytes, Event.transmittedBytes, hne]
    | onCon | onRead | onDisCon | closesocket => exact ⟨rfl, rfl⟩
  exact ⟨sentBytes_silent hsilent, transmittedBytes_silent hsilent⟩

/-- The stream may be counted from the beginning of the history. -/
theorem Stream.rebase {L : Nat} (h : Stream i n L s) (hsent : sentBytes i n (s.log.take L) = [])
    (htrans : transmittedBytes i n (s.log.take L) = []) : Stream i n 0 s := by
  have hs : sentBytes i n (s.since 0) = sentBytes i n (s.since L) := by
    show sentBytes i n s.log = sentBytes i n (s.log.drop L)
    rw [← List.take_append_drop L s.log, sentBytes_append, hsent, List.nil_append,
      List.take_append_drop]
  have ht : transmittedBytes i n (s.since 0) = transmittedBytes i n (s.since L) := by
    show transmittedBytes i n s.log = transmittedBytes i n (s.log.drop L)
    rw [← List.take_append_drop L s.log, transmittedBytes_append, htrans, List.nil_append,
      List.take_append_drop]
  refine ⟨h.serial, h.write_valid, h.backup_valid, h.idle, h.busy, Nat.zero_le _, ?_, ?_, ?_⟩
  · rw [hs, ht]
    exact h.bytes
  · rw [hs]
    exact h.write_index
  · rw [hs]
    exact h.backup_index

/-- **A new connection has an empty stream.** -/
theorem Stream.fresh (hreg : Registering s s') (hst : s'.stack = .onCon i n :: s.stack)
    (hclean : ∀ r ∈ s.posted, r.index ≠ i) (hfresh : ∀ e ∈ s.log, e.connection ≠ (i, n)) :
    Stream i n 0 s' := by
  obtain ⟨hstream, -⟩ := Stream.registered hreg hst hclean
  obtain ⟨hs, ht⟩ := bytes_of_fresh hfresh
  have hbytes : sentBytes i n s'.log = [] ∧ transmittedBytes i n s'.log = [] := by
    cases hreg with
    | full e | unbound j _ e => exact absurd (congrArg List.length hst) (by simp)
    | callback j _ _ _ _ _ rem _ =>
      refine ⟨?_, ?_⟩
      · rw [push_log, record_log, sentBytes_append, setPeer_log, hs]
        rfl
      · rw [push_log, record_log, transmittedBytes_append, setPeer_log, ht]
        rfl
  refine hstream.rebase ?_ ?_
  · rw [List.take_length]
    exact hbytes.1
  · rw [List.take_length]
    exact hbytes.2

namespace Flowing

/-- A stream that a step keeps. -/
theorem of_stream (h : Stream i n 0 s') : Flowing i n s' := fun _ => ⟨h.outflow, fun _ => h⟩

/-- A step behind which the connection is not calm. -/
theorem stopped (h : Flowing i n s) (ho : Onward i n s s') (hcalm : ¬s'.Calm i n) :
    Flowing i n s' := by
  intro hlen
  have hlen' := Nat.lt_of_le_of_lt ho.sent.length_le hlen
  exact ⟨(h hlen').1.onward ho, fun hc => absurd hc hcalm⟩

/-- A step beside the stream. -/
theorem aside (h : Flowing i n s) (ha : Aside i n s s') (hcalm : s'.Calm i n → s.Calm i n) :
    Flowing i n s' := by
  intro hlen
  have ho := Onward.of_aside ha
  obtain ⟨hout, hstream⟩ := h (Nat.lt_of_le_of_lt ho.sent.length_le hlen)
  exact ⟨hout.onward ho, fun hc => (hstream (hcalm hc)).aside ha⟩

/-- **`send`**, from where the connection is not being closed. -/
theorem send {j m : Nat} {buf : Bytes} {accepted : Bool} (h : Flowing i n s)
    (hopen : .onDisCon i n ∉ s.stack) (hs : Iocp.step s (.send j m buf accepted) = some s') :
    Flowing i n s' := by
  have hstep := stepping hs
  obtain ⟨hu, hsend⟩ : s.userRuns = true ∧ Sending s j m buf accepted s' := by
    cases hstep with
    | send hu hsend => exact ⟨hu, hsend⟩
  have hthrown := thrown_of_userRuns hu
  have hlive := (Standing.sending hsend).live i n
  have hcalm : s'.Calm i n → s.Calm i n := fun hc => ⟨hlive.mp hc.1, hthrown, hopen⟩
  by_cases hl : s.Live i n
  · by_cases hown : j = i ∧ m = n
    · obtain ⟨rfl, rfl⟩ := hown
      intro hlen
      have hlen' := Nat.lt_of_le_of_lt (hstep.sentBytes_prefix j m).length_le hlen
      obtain ⟨hout, hstream⟩ := h hlen'
      have hstream := hstream ⟨hl, hthrown, hopen⟩
      cases accepted with
      | true => exact of_stream (hstream.sending hsend hlen) hlen
      | false =>
        cases hsend with
        | outOfRange hi e => exact (h.aside (.throw s e) fun hc => nomatch hc.2.1) hlen
        | stale hdead => exact absurd hl hdead
        | failed _ e p' _ => exact ⟨hout.onward (.refused (.failed hl e p' ‹_›)), fun hc => nomatch hc.2.1⟩
        | queued _ p' hm hw => exact of_stream (hstream.sending (.queued hl p' hm hw) hlen) hlen
        | signalled _ hacc => cases hacc
        | refused _ _ p' hm hw =>
          exact ⟨hout.onward (.refused (.refused hl rfl p' hm hw)), fun hc => nomatch hc.2.1⟩
    · -- another connection, and so another slot
      by_cases hj : j = i
      · subst hj
        have hdead : ¬s.Live j m := fun hl' => hown ⟨rfl, hl'.2.symm.trans hl.2⟩
        cases hsend with
        | outOfRange _ e => exact h.aside (.throw s e) fun hc => nomatch hc.2.1
        | stale _ => exact h
        | failed hl' | queued hl' | signalled hl' | refused hl' => exact absurd hl' hdead
      · exact h.aside (.of_local (.sending hsend) (Ne.symm hj)) hcalm
  · refine h.stopped (.of_adds hstep.adds hl fun e he => ?_) fun hc => hl (hlive.mp hc.1)
    cases he with
    | sent hl' =>
      have hne : ¬(j = i ∧ m = n) := by
        rintro ⟨rfl, rfl⟩
        exact hl hl'
      simp [Event.Silent, Event.sentBytes, Event.transmittedBytes, hne]
    | announced => exact ⟨rfl, rfl⟩

/-- A completion of a write request of an open connection that does not succeed, or behind which the
next `WSASend` is refused. -/
theorem faulted {r : Request} {c : Completion} {accepted : Bool} (hl : s.Live i n)
    (hi : i < MAX_PEER_NUM) (hstream : Stream i n 0 s)
    (hlen : (sentBytes i n s.log).length < 2 ^ 30)
    (hr : r ∈ s.posted) (hri : r.index = i) (hop : r.io_operation = .ClientIoWrite)
    (hfits : c.Fits r)
    (hbad : ¬(accepted = true ∧ ∃ size received, c = .success size received))
    (hs : Ticking (s.took r) r c accepted s') : Outflow i n s' ∧ (s'.Calm i n → Stream i n 0 s') := by
  obtain ⟨-, hrn, -⟩ := hstream.pending_eq hr hri hop
  have hmem : r ∈ s.writesOf i n := mem_writesOf.mpr ⟨hr, hri, hop, hrn⟩
  have hout := hstream.outflow
  subst hri
  cases hs with
  | lost _ _ hc =>
    have hser : ((s.took r).m_peer_array r.index).serial = n := hl.2
    rw [hser] at hc
    refine ⟨(hout.onward (.took s r)).onward (.closing hc), fun hcalm => ?_⟩
    have hl' : ((s.took r).push (.tick r)).Live r.index n := hl
    exact absurd hcalm (hc.not_calm hl' hi)
  | other _ e =>
    exact ⟨(hout.onward (.took s r)).onward (.throw _ e), fun hcalm => nomatch hcalm.2.1⟩
  | outOfRange hge => omega
  | free size received _ hfree =>
    rw [arrived_socket] at hfree
    exact absurd hfree hl.1
  | shutdown _ _ hop' | read _ _ _ hop' | unknown _ _ _ hop' =>
    rw [hop] at hop'
    cases hop'
  | write size received _ _ _ hc =>
    obtain rfl : accepted = false := by
      cases accepted with
      | false => rfl
      | true => exact absurd ⟨rfl, size, received, rfl⟩ hbad
    refine ⟨(hout.completed hmem size received).onward (.writing hc), fun hcalm => ?_⟩
    obtain ⟨hsize, hpeer, hpend, hbase, hsent, htrans⟩ := hstream.completed hr rfl hop hfits
    have hsock : ((((s.took r).arrived r size received).push (.tick r)).m_peer_array
        r.index).socket ≠ none := by
      rw [push_peer, hpeer]
      exact hl.1
    cases hc with
    | outOfRange hge => omega
    | closed hfree => exact absurd hfree hsock
    | failed _ e p' _ => cases hcalm.2.1
    | drained _ p' hm =>
      have hdone : Writing (((s.took r).arrived r size received).push (.tick r)) r.index size true
          ((((s.took r).arrived r size received).push (.tick r)).setPeer r.index p') :=
        .drained hsock p' hm
      exact hstream.writing (t := ((s.took r).arrived r size received).push (.tick r)) hl hi hlen
        hsize hpeer hpend hbase hsent htrans hdone
    | more _ k _ p' hm _ hpost =>
      have hp := (keeps_drainWrite size).ok hm
      have hser : ((((s.took r).arrived r size received).push (.tick r)).m_peer_array
          r.index).serial = n := by
        rw [push_peer, hpeer]
        exact hl.2
      rw [hser] at hpost
      exact absurd hcalm (hpost.not_calm ((live_setPeer hp.socket hp.serial).mpr ⟨hsock, hser⟩) hi)

/-- A completion of a write request of a connection that is closed. -/
theorem outlived {r : Request} {c : Completion} {accepted : Bool} (hdead : ¬s.Live i n)
    (hout : Outflow i n s) (hr : r ∈ s.writesOf i n) (hs : Ticking (s.took r) r c accepted s') :
    Outflow i n s' := by
  obtain ⟨-, -, hop, -⟩ := mem_writesOf.mp hr
  have harr : ∀ size received, Outflow i n ((s.took r).arrived r size received) :=
    hout.completed hr
  cases hs with
  | lost _ _ hc => exact (hout.onward (.took s r)).onward (.closing hc)
  | other _ e => exact (hout.onward (.took s r)).onward (.throw _ e)
  | outOfRange _ size received _ e => exact (harr size received).onward (.throw _ e)
  | free size received _ _ => exact harr size received
  | shutdown _ _ hop' | read _ _ _ hop' | unknown _ _ _ hop' =>
    rw [hop] at hop'
    cases hop'
  | write size received _ _ _ hc =>
    have hown : Own (fun _ => False) ((s.took r).arrived r size received) s' :=
      ((Own.refl _).push _).writing hc
    refine (harr size received).onward (.of_adds hown.toAdds (fun hl => hdead ?_) nofun)
    exact ((Standing.arrived (s.took r) r size received).live i n).mp hl

/-- **A dequeued completion.** -/
theorem dequeue {r : Request} {c : Completion} {accepted : Bool} (h : Flowing i n s)
    (hi : s.Live i n → i < MAX_PEER_NUM)
    (hs : Iocp.step s (.dequeue r c accepted) = some s') : Flowing i n s' := by
  have hstep := stepping hs
  have hthrown : s.thrown = none := by
    simp only [Iocp.step, Option.ite_none_right_eq_some] at hs
    exact thrown_of_userRuns hs.1.1
  obtain ⟨hst, hr, hfits, htick⟩ : s.stack = [] ∧ r ∈ s.posted ∧ c.Fits r ∧
      Ticking (s.took r) r c accepted s' := by
    cases hstep with
    | dequeue hst hr hfits htick => exact ⟨hst, hr, hfits, htick⟩
  have hlive := (Standing.stable.ticking (Standing.stable.took (.refl s) r) htick).live i n
  have hback : s'.Calm i n → s.Calm i n := fun hc =>
    ⟨hlive.mp hc.1, hthrown, by rw [hst]; exact List.not_mem_nil⟩
  by_cases hl : s.Live i n
  · by_cases hri : r.index = i
    · by_cases hop : r.io_operation = .ClientIoWrite
      · intro hlen
        have hlen' := Nat.lt_of_le_of_lt (hstep.sentBytes_prefix i n).length_le hlen
        have hstream := (h hlen').2 ⟨hl, hthrown, by rw [hst]; exact List.not_mem_nil⟩
        by_cases hgood : accepted = true ∧ ∃ size received, c = .success size received
        · have hok : WritesSucceed i n s (.dequeue r c accepted) := ⟨hl, fun _ _ => hgood⟩
          exact of_stream (hstream.step (hi hl) hok hs hlen' hlen) hlen
        · exact faulted hl (hi hl) hstream hlen' hr hri hop hfits hgood htick
      · exact h.aside ((Aside.took hop s).trans (.ticking hop htick)) hback
    · exact h.aside (.of_local ((Local.took s r).trans (.ticking htick)) (Ne.symm hri)) hback
  · have hcalm : ¬s'.Calm i n := fun hc => hl (hlive.mp hc.1)
    by_cases hmem : r ∈ s.writesOf i n
    · intro hlen
      have hlen' := Nat.lt_of_le_of_lt (hstep.sentBytes_prefix i n).length_le hlen
      have hout := (h hlen').1
      exact ⟨outlived hl hout hmem htick, fun hc => absurd hc hcalm⟩
    · refine h.stopped (.of_adds hstep.adds hl fun e he => ?_) hcalm
      cases he with
      | transmitted hr hop bytes =>
        have hne : ¬(r.index = i ∧ r.serial = n) := fun h =>
          hmem (mem_writesOf.mpr ⟨hr, h.1, hop, h.2⟩)
        simp [Event.Silent, Event.sentBytes, Event.transmittedBytes, hne]
      | announced => exact ⟨rfl, rfl⟩

end Flowing

/-- What a program does with the service that leaves connections to the service: it sends, but not
from `onDisCon`, consumes, and returns from its callbacks without an error. -/
def Served (s : Service) : Action → Prop
  | .send .. => ∀ i n, .onDisCon i n ∉ s.stack
  | .return_ ret _ => 0 ≤ ret
  | .accept .. | .readMove _ | .dequeue .. | .finish => True
  | .closePeer .. | .connectPeer .. | .raise | .unwind | .catch_ => False

/-- A new connection gets a slot for which nothing is outstanding, and a serial that is new. -/
def Clean (s s' : Service) : Prop :=
  ∀ i n, s'.stack = .onCon i n :: s.stack →
    (∀ r ∈ s.posted, r.index ≠ i) ∧ ∀ e ∈ s.log, e.connection ≠ (i, n)

/-- **It is enough that nothing is outstanding for the slot that is handed out next.** -/
theorem Clean.of_slot {sd : Nat} {loc rem : Addr} {bound : Bool} (h : Registered s)
    (hslot : ∀ j ∈ findFree s.m_peer_array MAX_PEER_NUM 0, ∀ r ∈ s.posted, r.index ≠ j)
    (hs : Iocp.step s (.accept sd loc rem bound) = some s') : Clean s s' := by
  intro i n hst
  obtain rfl : s.registerSocket sd loc rem bound = s' := by
    simp only [Iocp.step, Option.ite_none_right_eq_some] at hs
    exact Option.some.inj hs.2
  obtain ⟨hfind, rfl⟩ : findFree s.m_peer_array MAX_PEER_NUM 0 = some i ∧ n = s.m_serial := by
    rw [registerSocket, newPeer] at hst
    cases hf : findFree s.m_peer_array MAX_PEER_NUM 0 with
    | none =>
      rw [hf] at hst
      dsimp only at hst
      rw [getPeer, if_pos (by decide)] at hst
      exact absurd (congrArg List.length hst) (by simp)
    | some j =>
      rw [hf] at hst
      dsimp only at hst
      obtain ⟨-, -, hlt⟩ := findFree_some hf
      rw [getPeer, if_neg (by omega)] at hst
      cases bound with
      | false => exact absurd (congrArg List.length hst) (by simp)
      | true =>
        rw [if_pos rfl, setPeer_self] at hst
        cases (List.cons.inj hst).1
        exact ⟨rfl, rfl⟩
  refine ⟨hslot i hfind, fun e he heq => ?_⟩
  have hlt := h.serial_lt (h.covered.log e he)
  rw [heq] at hlt
  exact Nat.lt_irrefl _ hlt

/-- **Every step keeps the output in order.** -/
theorem Flowing.step {a : Action} (h : Flowing i n s) (hi : s.Live i n → i < MAX_PEER_NUM)
    (hflat : ∀ f ∈ s.stack.tail, ∃ r, f = .tick r) (ha : Served s a)
    (hclean : a.registers = true → Clean s s') (hs : Iocp.step s a = some s') :
    Flowing i n s' := by
  cases stepping hs with
  | send _ _ => exact h.send (ha i n) hs
  | dequeue _ _ _ _ => exact h.dequeue hi hs
  | closePeer | connectPeer | raise | unwind | catch_ => exact ha.elim
  | accept hu hc =>
    have hthrown := thrown_of_userRuns hu
    by_cases hnew : s'.stack = .onCon i n :: s.stack
    · obtain ⟨hposted, hfresh⟩ := hclean rfl i n hnew
      exact of_stream (.fresh hc hnew hposted hfresh)
    · have hlive : s'.Live i n → s.Live i n := by
        intro hl
        cases hc with
        | full e => exact hl
        | unbound j hfree e => exact (setPeer_live_unbound hfree i n).mp hl
        | callback j _ hfree p' _ _ rem hp =>
          rcases (setPeer_live_callback hfree hp i n).mp hl with ⟨rfl, rfl⟩ | hl
          · exact absurd rfl hnew
          · exact hl
      by_cases hl : s.Live i n
      · refine h.aside (.registering hl hc) fun hcalm => ⟨hl, hthrown, fun hm => hcalm.2.2 ?_⟩
        rcases hc.stack_eq with hst | ⟨j, hst⟩ <;> rw [hst]
        · exact hm
        · exact List.mem_cons_of_mem _ hm
      · refine h.stopped (.of_adds (stepping hs).adds hl fun e he => ?_)
          fun hcalm => hl (hlive hcalm.1)
        cases he
        exact ⟨rfl, rfl⟩
  | @readMove len j m rest hst k _ heq =>
    have hset : Aside i n s (s.setPeer j ((s.m_peer_array j).withReadBuf
        ((s.m_peer_array j).read_buf.setRead k))) := .setPeer ⟨rfl, rfl, rfl, rfl⟩
    have hlive : (s.setPeer j ((s.m_peer_array j).withReadBuf
        ((s.m_peer_array j).read_buf.setRead k))).Live i n ↔ s.Live i n := live_setPeer rfl rfl
    rcases heq with rfl | ⟨e, rfl⟩
    · exact h.aside hset fun hcalm => ⟨hlive.mp hcalm.1, hcalm.2⟩
    · exact h.aside (hset.trans (.throw _ e)) fun hcalm => nomatch hcalm.2.1
  | @onCon ret accepted j m rest _ hst hc | @onRead ret accepted j m rest _ hst _ hc =>
    have hstand := Standing.stable.recvPosting (Standing.stable.popped (.refl s) rest) hc
    have hpop : Aside i n s (s.popped rest) := .of_eq rfl rfl rfl
    rw [hst, List.tail_cons] at hflat
    refine h.aside (hpop.trans (.recvPosting hc)) fun hcalm =>
      ⟨(hstand.live i n).mp hcalm.1, thrown_of_return hs, fun hm => ?_⟩
    rw [hst] at hm
    rcases List.mem_cons.mp hm with hm | hm
    · cases hm
    · exact nomatch hflat _ hm
  | onReadNegative _ hneg _ => exact absurd hneg (Int.not_lt.mpr ha)
  | @onDisCon ret accepted j m rest hst =>
    have hpop : Aside i n s (s.popped rest) := .of_eq rfl rfl rfl
    refine h.aside (hpop.trans (.closePeerEnd (s.popped rest) j)) fun hcalm => ?_
    obtain ⟨hne, hl⟩ := (closePeerEnd_live (s.popped rest) j i n).mp hcalm.1
    refine ⟨hl, thrown_of_return hs, fun hm => ?_⟩
    rw [hst] at hm
    rcases List.mem_cons.mp hm with hm | hm
    · cases hm
      exact hne rfl
    · exact hcalm.2.2 ((closePeerEnd_stack (s.popped rest) j).symm ▸ hm)
  | @finish r rest hst =>
    refine h.aside (.of_eq rfl rfl rfl) fun hcalm => ⟨hcalm.1, ?_, fun hm => hcalm.2.2 ?_⟩
    · exact hcalm.2.1
    · rw [hst] at hm
      rcases List.mem_cons.mp hm with hm | hm
      · cases hm
      · exact hm

end GhNet.Iocp
