import GhNet.Iocp.Isolation

/-!
# What a step adds

Nothing is posted or recorded for a connection that is not there: the requests and the events of a
step are about connections that are open when it begins, about the request that it handles, or about
the connection that it makes. So whatever is said of connections, it is enough to look at new ones.
And only `send` records what was sent, and only a completion what was transmitted.
-/

namespace GhNet.Iocp

open GhNet Service

variable {s s' t : Service} {i n : Nat}

/-! ## Requests and events -/

/-- The event is a callback of an open connection, or its end. -/
def Event.Marks : Event → Prop
  | .onRead .. | .onDisCon .. | .closesocket .. => True
  | .onCon .. | .sent .. | .transmitted .. => False

/-- Between `s` and `t` requests were posted and events recorded for connections that were open at
`s`, and perhaps events of the kind `E`. -/
structure Adds (E : Event → Prop) (s t : Service) : Prop where
  posted : ∃ kept new, t.posted = kept ++ new ∧ kept.Sublist s.posted ∧
    ∀ r ∈ new, s.Live r.index r.serial
  log : ∃ ext, t.log = s.log ++ ext ∧
    ∀ e ∈ ext, (s.Live e.connection.1 e.connection.2 ∧ e.Marks) ∨ E e

/-- The same, while no connection comes or goes. -/
structure Own (E : Event → Prop) (s t : Service) : Prop extends Standing s t, Adds E s t

namespace Own

variable {E : Event → Prop}

theorem refl (s : Service) : Own E s s :=
  ⟨.refl s, ⟨s.posted, [], (List.append_nil _).symm, .refl _, nofun⟩,
    [], (List.append_nil _).symm, nofun⟩

theorem of_eq (h : Own E s t) (hp : s'.m_peer_array = t.m_peer_array)
    (hm : s'.m_serial = t.m_serial) (hr : s'.posted = t.posted) (hlog : s'.log = t.log) :
    Own E s s' :=
  ⟨h.toStanding.trans (.of_eq hp hm), by rw [hr]; exact h.posted, by rw [hlog]; exact h.log⟩

theorem throw (h : Own E s t) (e : Exception) : Own E s (t.throw e) := h.of_eq rfl rfl rfl rfl

theorem push (h : Own E s t) (f : Frame) : Own E s (t.push f) := h.of_eq rfl rfl rfl rfl

theorem popped (h : Own E s t) (rest : List Frame) : Own E s (t.popped rest) :=
  h.of_eq rfl rfl rfl rfl

theorem newIOCxt (h : Own E s t) : Own E s t.newIOCxt.2 := h.of_eq rfl rfl rfl rfl

theorem setPeer {p : Peer} (h : Own E s t) (hs : p.socket = (t.m_peer_array i).socket)
    (hn : p.serial = (t.m_peer_array i).serial) : Own E s (t.setPeer i p) :=
  ⟨h.toStanding.trans (.setPeer hs hn), h.posted, h.log⟩

theorem record {e : Event} (h : Own E s t)
    (he : (t.Live e.connection.1 e.connection.2 ∧ e.Marks) ∨ E e) : Own E s (t.record e) := by
  obtain ⟨ext, hlog, hext⟩ := h.log
  refine ⟨h.toStanding.trans (.of_eq rfl rfl), h.posted, ext ++ [e], ?_, fun e' he' => ?_⟩
  · rw [record_log, hlog, List.append_assoc]
  · rcases List.mem_append.mp he' with he' | he'
    · exact hext e' he'
    · rw [List.mem_singleton.mp he']
      exact he.imp_left (And.imp_left (h.live _ _).mp)

theorem post {r : Request} (h : Own E s t) (hr : t.Live r.index r.serial) :
    Own E s (t.post r) := by
  obtain ⟨kept, new, hposted, hkept, hnew⟩ := h.posted
  refine ⟨h.toStanding.trans (.of_eq rfl rfl), ⟨kept, new ++ [r], ?_, hkept, fun q hq => ?_⟩, h.log⟩
  · rw [post_posted, hposted, List.append_assoc]
  · rcases List.mem_append.mp hq with hq | hq
    · exact hnew q hq
    · rw [List.mem_singleton.mp hq]
      exact (h.live _ _).mp hr

theorem took (s : Service) (r : Request) : Own E s (s.took r) :=
  ⟨.of_eq rfl rfl, ⟨s.posted.erase r, [], (List.append_nil _).symm, List.erase_sublist, nofun⟩,
    [], (List.append_nil _).symm, nofun⟩

theorem closing (h : Own E s t) (hc : Closing t i n s') : Own E s s' := by
  cases hc with
  | outOfRange _ e => exact h.throw e
  | stale _ => exact h
  | callback hl remote => exact (h.record (e := .onDisCon i n remote) (Or.inl ⟨hl, trivial⟩)).push _

theorem recvPosting (h : Own E s t) (hc : RecvPosting t i n s') : Own E s s' := by
  have hset : ∀ p', ReadSide (t.m_peer_array i) p' → Own E s (t.newIOCxt.2.setPeer i p') :=
    fun p' hp => h.newIOCxt.setPeer hp.socket hp.serial
  cases hc with
  | outOfRange _ e => exact h.throw e
  | stale _ => exact h
  | failed _ e p' hp => exact (hset p' hp).throw e
  | accepted hl w p' hm =>
    have hp := keeps_offerRead.ok hm
    exact (hset p' hp).post (((hset p' hp).live i n).mpr ((h.live i n).mp hl))
  | refused _ p' hp _ hc => exact (hset p' hp).closing hc

theorem sendPosting {accepted : Bool} (h : Own E s t) (hc : SendPosting t i n accepted s') :
    Own E s s' := by
  have hset : Own E s (t.newIOCxt.2.setPeer i ((t.m_peer_array i).withWsaSend true)) :=
    h.newIOCxt.setPeer rfl rfl
  cases hc with
  | outOfRange _ e => exact h.throw e
  | stale _ => exact h
  | failed _ e p' hp _ => exact hp ▸ hset.throw e
  | accepted hl _ w p' hp _ =>
    subst hp
    exact hset.post ((hset.live i n).mpr ((h.live i n).mp hl))
  | refused _ _ p' hp _ hc => exact (hp ▸ hset).closing hc

theorem sending {buf : Bytes} {accepted : Bool} (h : Own E s t)
    (hE : s.Live i n → E (.sent i n buf)) (hc : Sending t i n buf accepted s') : Own E s s' := by
  have hsent : t.Live i n → Own E s (t.record (.sent i n buf)) := fun hl =>
    h.record (Or.inr (hE ((h.live i n).mp hl)))
  have hset : ∀ {p'}, SendSide (t.m_peer_array i) p' → t.Live i n →
      Own E s ((t.record (.sent i n buf)).setPeer i p') := fun hp hl =>
    (hsent hl).setPeer hp.socket hp.serial
  have hflag : ∀ {p'}, SendSide (t.m_peer_array i) p' → t.Live i n → Own E s
      ((t.record (.sent i n buf)).newIOCxt.2.setPeer i (p'.withWsaSend true)) := fun hp hl =>
    (hsent hl).newIOCxt.setPeer hp.socket hp.serial
  have hkeep := keeps_onBackup (SockBuf.apendBuf buf)
  cases hc with
  | outOfRange _ e => exact h.throw e
  | stale _ => exact h
  | failed hl e p' hm => exact (hset (hkeep.error hm) hl).throw e
  | queued hl p' hm _ => exact hset (hkeep.ok hm) hl
  | signalled hl _ p' hm _ =>
    have hq := hflag (hkeep.ok hm) hl
    exact hq.post ((hq.live i n).mpr ((h.live i n).mp hl))
  | refused hl _ p' hm _ =>
    exact (hflag (hkeep.ok hm) hl).throw _

theorem writing {size : Nat} {accepted : Bool} (h : Own E s t)
    (hc : Writing t i size accepted s') : Own E s s' := by
  have hkeep := keeps_drainWrite size
  have hset : ∀ p', SendSide (t.m_peer_array i) p' → Own E s (t.setPeer i p') :=
    fun p' hp => h.setPeer hp.socket hp.serial
  cases hc with
  | outOfRange _ e => exact h.throw e
  | closed _ => exact h
  | failed _ e p' hm => exact (hset p' (hkeep.error hm)).throw e
  | drained _ p' hm => exact hset p' (hkeep.ok hm)
  | more _ k _ p' hm _ hs => exact (hset p' (hkeep.ok hm)).sendPosting hs

theorem reading {size : Nat} (h : Own E s t) (hc : Reading t i size s') : Own E s s' := by
  have hkeep := keeps_onReadBuf (SockBuf.writeMove size)
  have hset : ∀ p', ReadSide (t.m_peer_array i) p' → Own E s (t.setPeer i p') :=
    fun p' hp => h.setPeer hp.socket hp.serial
  cases hc with
  | outOfRange _ e => exact h.throw e
  | closed _ => exact h
  | failed _ e p' hm => exact (hset p' (hkeep.error hm)).throw e
  | callback hsock p' hm =>
    have hp := hkeep.ok hm
    exact ((hset p' hp).record (e := .onRead i (t.m_peer_array i).serial)
      (Or.inl ⟨(live_setPeer hp.socket hp.serial).mpr ⟨hsock, rfl⟩, trivial⟩)).push _

theorem arrived (h : Own E s t) (r : Request) (size : Nat) (received : Bytes)
    (hr : r.io_operation = .ClientIoWrite → ∀ bytes, E (.transmitted r.index r.serial bytes)) :
    Own E s (t.arrived r size received) := by
  have hst := h.toStanding.trans (Standing.arrived t r size received)
  refine ⟨hst, by rw [arrived_posted]; exact h.posted, ?_⟩
  have hlog := (deliver_fields t r received).2.2.2
  unfold Service.arrived transmit
  split
  · next hop _ =>
    rw [record_log, hlog]
    exact (h.record (Or.inr (hr hop _))).log
  · rw [hlog]
    exact h.log

theorem ticking {r : Request} {c : Completion} {accepted : Bool} (h : Own E s t)
    (hr : r.io_operation = .ClientIoWrite → ∀ bytes, E (.transmitted r.index r.serial bytes))
    (hc : Ticking t r c accepted s') : Own E s s' := by
  have harr : ∀ size received, Own E s (t.arrived r size received) :=
    fun size received => h.arrived r size received hr
  cases hc with
  | lost _ _ hc => exact (h.push _).closing hc
  | other _ e => exact h.throw e
  | outOfRange _ size received _ e => exact (harr size received).throw e
  | free size received _ _ => exact harr size received
  | shutdown received _ _ _ hc => exact ((harr 0 received).push _).closing hc
  | read size received _ _ _ _ hc => exact ((harr size received).push _).reading hc
  | write size received _ _ _ hc => exact ((harr size received).push _).writing hc
  | unknown size received _ _ e => exact ((harr size received).push _).throw e

end Own

/-- The other events of a step: what `send` was given for an open connection, what a completed
request has transmitted, and the announcement of a new connection. -/
inductive Due (s s' : Service) : Action → Event → Prop
  | sent {i n : Nat} {buf : Bytes} {accepted : Bool} (hl : s.Live i n) :
      Due s s' (.send i n buf accepted) (.sent i n buf)
  | transmitted {r : Request} {c : Completion} {accepted : Bool} (hr : r ∈ s.posted)
      (hop : r.io_operation = .ClientIoWrite) (bytes : Bytes) :
      Due s s' (.dequeue r c accepted) (.transmitted r.index r.serial bytes)
  | announced {a : Action} {i : Nat} (hl : s'.Live i s.m_serial) (remote : Addr) :
      Due s s' a (.onCon i s.m_serial remote)

/-- A registration posts nothing and announces the connection that it makes. -/
theorem Registering.adds {E : Event → Prop} (h : Registering s s')
    (hE : ∀ i remote, s'.Live i s.m_serial → E (.onCon i s.m_serial remote)) : Adds E s s' := by
  have hposted : ∀ {t : Service}, t.posted = s.posted → ∃ kept new, t.posted = kept ++ new ∧
      kept.Sublist s.posted ∧ ∀ r ∈ new, s.Live r.index r.serial := fun ht =>
    ⟨s.posted, [], by rw [ht, List.append_nil], .refl _, nofun⟩
  cases h with
  | full e => exact ⟨hposted rfl, [], (List.append_nil _).symm, nofun⟩
  | unbound j _ e => exact ⟨hposted rfl, [], (List.append_nil _).symm, nofun⟩
  | callback j _ hfree _ _ _ rem hp =>
    refine ⟨hposted rfl, [.onCon j s.m_serial rem], rfl, fun e he => Or.inr ?_⟩
    rw [List.mem_singleton.mp he]
    exact hE j rem ((setPeer_live_callback hfree hp j _).mpr (Or.inl ⟨rfl, rfl⟩))

/-- **Nothing is posted or recorded for a connection that is not there.** -/
theorem Stepping.adds {a : Action} (h : Stepping s a s') : Adds (Due s s' a) s s' := by
  have hrefl : ∀ {u}, Own (Due s u a) s s := .refl s
  cases h with
  | send _ hc => exact (hrefl.sending .sent hc).toAdds
  | closePeer _ hc => exact (hrefl.closing hc).toAdds
  | connectPeer _ hc | accept _ hc => exact hc.adds fun _ remote hl => .announced hl remote
  | @readMove _ j m rest _ k _ heq =>
    have hset : ∀ {u}, Own (Due s u (.readMove _)) s (s.setPeer j ((s.m_peer_array j).withReadBuf
        ((s.m_peer_array j).read_buf.setRead k))) := hrefl.setPeer rfl rfl
    rcases heq with rfl | ⟨e, rfl⟩
    · exact hset.toAdds
    · exact (hset.throw e).toAdds
  | onCon _ hc | onRead _ _ hc => exact ((hrefl.popped _).recvPosting hc).toAdds
  | onReadNegative _ _ hc => exact ((hrefl.popped _).closing hc).toAdds
  | @onDisCon _ _ j m rest _ =>
    have hpop : Own (Due s ((s.popped rest).closePeerEnd j) _) s (s.popped rest) :=
      hrefl.popped rest
    refine ⟨by rw [closePeerEnd_posted]; exact hpop.posted, ?_⟩
    rcases closePeerEnd_log (s.popped rest) j with ⟨-, hlog⟩ | ⟨hsock, hlog⟩
    · rw [hlog]
      exact hpop.log
    · rw [hlog]
      exact (hpop.record (e := .closesocket j _) (Or.inl ⟨⟨hsock, rfl⟩, trivial⟩)).log
  | raise _ => exact (hrefl.throw _).toAdds
  | dequeue _ hr _ hc => exact ((Own.took s _).ticking (fun hop bytes => .transmitted hr hop bytes) hc).toAdds
  | @finish r rest _ =>
    have hdelete : ∀ {u}, Own (Due s u _) s ((s.popped rest).deleteIOCxt r.io_context) :=
      hrefl.of_eq rfl rfl rfl rfl
    exact hdelete.toAdds
  | unwind _ => exact (hrefl.popped _).toAdds
  | catch_ =>
    have hcatch : ∀ {u}, Own (Due s u _) s { s with thrown := none } :=
      hrefl.of_eq rfl rfl rfl rfl
    exact hcatch.toAdds

/-! ## Whose requests and events there are -/

/-- The connections, the requests and the history are those of connections of which `P` holds. -/
structure Covered (P : Nat → Nat → Prop) (s : Service) : Prop where
  live : ∀ {i n}, s.Live i n → P i n
  posted : ∀ r ∈ s.posted, P r.index r.serial
  log : ∀ e ∈ s.log, P e.connection.1 e.connection.2

theorem Covered.mono {P Q : Nat → Nat → Prop} (h : Covered P s) (hPQ : ∀ i n, P i n → Q i n) :
    Covered Q s :=
  ⟨fun hl => hPQ _ _ (h.live hl), fun r hr => hPQ _ _ (h.posted r hr),
    fun e he => hPQ _ _ (h.log e he)⟩

/-- **New connections are all that has to be looked at.** -/
theorem Covered.step {P : Nat → Nat → Prop} {a : Action} (h : Covered P s) (hs : Stepping s a s')
    (hlive : ∀ i n, s'.Live i n → P i n) : Covered P s' := by
  obtain ⟨⟨kept, new, hposted, hkept, hnew⟩, ext, hlog, hext⟩ := hs.adds
  refine ⟨fun hl => hlive _ _ hl, fun r hr => ?_, fun e he => ?_⟩
  · rw [hposted] at hr
    rcases List.mem_append.mp hr with hr | hr
    · exact h.posted r (hkept.subset hr)
    · exact h.live (hnew r hr)
  · rw [hlog] at he
    rcases List.mem_append.mp he with he | he
    · exact h.log e he
    · rcases hext e he with ⟨hl, -⟩ | hdue
      · exact h.live hl
      · cases hdue with
        | sent hl => exact h.live hl
        | transmitted hr _ _ => exact h.posted _ hr
        | announced hl remote => exact hlive _ _ hl

/-! ## Connections that were announced -/

/-- The connection `(i, n)` was announced. -/
def Service.Seen (s : Service) (i n : Nat) : Prop := ∃ remote, .onCon i n remote ∈ s.log

/-- Whatever there is is about connections that were announced, each with a serial of its own. -/
structure Registered (s : Service) : Prop where
  covered : Covered s.Seen s
  serial_lt : ∀ {i n}, s.Seen i n → n < s.m_serial
  slot : ∀ {i j n}, s.Seen i n → s.Seen j n → i = j

theorem Registered.new : Registered Service.new where
  covered := ⟨fun hl => absurd rfl hl.1, nofun, nofun⟩
  serial_lt := by
    rintro _ _ ⟨_, h⟩
    cases h
  slot := by
    rintro _ _ _ ⟨_, h⟩
    cases h

/-- The history is not taken back. -/
theorem Stepping.seen {a : Action} (hs : Stepping s a s') (h : s.Seen i n) : s'.Seen i n := by
  obtain ⟨ext, hlog, -⟩ := hs.adds.log
  exact h.imp fun _ he => hlog ▸ List.mem_append_left ext he

/-- What is announced in a step is open behind it, with the next serial. -/
theorem Stepping.seen_new {a : Action} (hs : Stepping s a s') (h : s'.Seen i n) :
    s.Seen i n ∨ (n = s.m_serial ∧ s'.Live i n) := by
  obtain ⟨ext, hlog, hext⟩ := hs.adds.log
  obtain ⟨remote, he⟩ := h
  rw [hlog] at he
  rcases List.mem_append.mp he with he | he
  · exact Or.inl ⟨remote, he⟩
  · rcases hext _ he with ⟨-, hm⟩ | hdue
    · exact hm.elim
    · cases hdue with
      | announced hl _ => exact Or.inr ⟨rfl, hl⟩

namespace Registered

/-- No connection is announced where none comes. -/
theorem seen_iff {a : Action} (h : Registered s) (hs : Stepping s a s')
    (hlive : ∀ i n, s'.Live i n → s.Live i n) (i n : Nat) : s'.Seen i n ↔ s.Seen i n := by
  refine ⟨fun hn => ?_, hs.seen⟩
  rcases hs.seen_new hn with hold | ⟨-, hl⟩
  · exact hold
  · exact h.covered.live (hlive i n hl)

/-- A step in which no connection comes announces none. -/
theorem settled {a : Action} (h : Registered s) (hs : Stepping s a s')
    (hlive : ∀ i n, s'.Live i n → s.Live i n) (hle : s.m_serial ≤ s'.m_serial) :
    Registered s' := by
  have hback := h.seen_iff hs hlive
  exact ⟨(h.covered.mono fun _ _ => hs.seen).step hs fun i n hl =>
      hs.seen (h.covered.live (hlive i n hl)),
    fun hn => Nat.lt_of_lt_of_le (h.serial_lt ((hback _ _).mp hn)) hle,
    fun h1 h2 => h.slot ((hback _ _).mp h1) ((hback _ _).mp h2)⟩

/-- **A serial is given to one connection**, as long as the counter does not wrap around. -/
theorem step {a : Action} (h : Registered s) (hs : Stepping s a s')
    (hser : a.registers = true → s.m_serial + 1 < 2 ^ 64) : Registered s' := by
  rcases Standing.stable.step hs with hst | ⟨hreg, hc⟩ | ⟨j, m, rest, _, _, _, _, rfl⟩
  · exact h.settled hs (fun i n => (hst.live i n).mp) (Nat.le_of_eq hst.m_serial.symm)
  · have hmod := Nat.mod_eq_of_lt (hser hreg)
    cases hc with
    | full e => exact h.settled hs (fun _ _ => id) (Nat.le_refl _)
    | unbound j hfree e =>
      refine h.settled hs (fun i n => (setPeer_live_unbound hfree i n).mp) ?_
      show s.m_serial ≤ (s.m_serial + 1) % 2 ^ 64
      omega
    | callback j _ hfree p' _ _ rem hp =>
      have hlive := setPeer_live_callback hfree hp
      have hnew : ∀ {i n}, Seen (((({ s with m_serial := (s.m_serial + 1) % 2 ^ 64 } :
          Service).setPeer j p').record (.onCon j s.m_serial rem)).push (.onCon j s.m_serial)) i n →
          s.Seen i n ∨ (i = j ∧ n = s.m_serial) := by
        intro i n hn
        rcases hs.seen_new hn with hold | ⟨rfl, hl⟩
        · exact Or.inl hold
        · rcases (hlive i _).mp hl with hown | hl
          · exact Or.inr hown
          · exact absurd (h.serial_lt (h.covered.live hl)) (Nat.lt_irrefl _)
      refine ⟨(h.covered.mono fun _ _ => hs.seen).step hs fun i n hl => ?_, fun hn => ?_,
        fun h1 h2 => ?_⟩
      · rcases (hlive i n).mp hl with ⟨rfl, rfl⟩ | hl
        · exact ⟨rem, List.mem_append_right _ List.mem_cons_self⟩
        · exact hs.seen (h.covered.live hl)
      · show _ < (s.m_serial + 1) % 2 ^ 64
        rcases hnew hn with hn | ⟨-, rfl⟩
        · have := h.serial_lt hn
          omega
        · omega
      · rcases hnew h1 with hold | ⟨hi, hn⟩ <;> rcases hnew h2 with hold' | ⟨hj, hn'⟩
        · exact h.slot hold hold'
        · exact absurd (h.serial_lt hold) (by omega)
        · exact absurd (h.serial_lt hold') (by omega)
        · exact hi.trans hj.symm
  · exact h.settled hs (fun i n hl => ((closePeerEnd_live (s.popped rest) j i n).mp hl).2)
      (Nat.le_of_eq (closePeerEnd_m_serial (s.popped rest) j).symm)

end Registered

/-- No code of the program runs while an exception is in flight. -/
theorem thrown_of_userRuns (h : s.userRuns = true) : s.thrown = none := by
  cases ht : s.thrown with
  | none => rfl
  | some e => simp [userRuns, ht] at h

end GhNet.Iocp
