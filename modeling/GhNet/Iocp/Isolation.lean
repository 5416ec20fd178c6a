import GhNet.Iocp.Steps

/-!
# Completions and connections

A completion carries a slot index. Between posting and dequeuing the slot may have been given to
another connection, and the handler of the completion then works on that one.

`Isolated` says that the handling of a completion leaves every other connection alone.
`OwnSlot` is the condition under which it does: whenever the service goes on with a slot, after
dequeuing or after a callback, the slot is free or still holds the connection the completion was
posted for. (The signal of `send` may also reach an idle peer: there it finds nothing to do.)
-/

namespace GhNet.Iocp

open GhNet Service

variable {s s' : Service} {i n : Nat}

/-- The connection an event is about. -/
def Event.connection : Event → Nat × Nat
  | .onCon i n _ => (i, n)
  | .onRead i n => (i, n)
  | .onDisCon i n _ => (i, n)
  | .sent i n _ => (i, n)
  | .transmitted i n _ => (i, n)
  | .closesocket i n => (i, n)

/-- The connection a frame works for. -/
def Frame.connection : Frame → Nat × Nat
  | .onCon i n => (i, n)
  | .onRead i n => (i, n)
  | .onDisCon i n => (i, n)
  | .tick r => (r.index, r.serial)

/-! ## Effects on one slot -/

/-- Between `s` and `s'` the service has worked on slot `i` only. -/
structure Local (i : Nat) (s s' : Service) : Prop where
  peers : ∀ j, j ≠ i → s'.m_peer_array j = s.m_peer_array j
  log : ∃ ext, s'.log = s.log ++ ext ∧ ∀ e ∈ ext, e.connection.1 = i
  posted : s'.posted.filter (·.index ≠ i) = s.posted.filter (·.index ≠ i)

namespace Local

theorem refl (s : Service) : Local i s s :=
  ⟨fun _ _ => rfl, ⟨[], by simp, by simp⟩, rfl⟩

theorem trans {t : Service} (h1 : Local i s s') (h2 : Local i s' t) : Local i s t := by
  refine ⟨fun j hj => (h2.peers j hj).trans (h1.peers j hj), ?_, h2.posted.trans h1.posted⟩
  obtain ⟨ext1, hl1, hc1⟩ := h1.log
  obtain ⟨ext2, hl2, hc2⟩ := h2.log
  refine ⟨ext1 ++ ext2, by rw [hl2, hl1, List.append_assoc], ?_⟩
  intro e he
  rcases List.mem_append.mp he with he | he
  · exact hc1 e he
  · exact hc2 e he

/-- The requests of another slot are the same. -/
theorem filter_posted {j : Nat} (h : Local j s s') (hj : i ≠ j) (op : IO_OPERATION) :
    s'.posted.filter (fun r => r.index = i ∧ r.io_operation = op) =
      s.posted.filter fun r => r.index = i ∧ r.io_operation = op := by
  have hfilter : ∀ l : List Request,
      l.filter (fun r => r.index = i ∧ r.io_operation = op)
        = (l.filter (·.index ≠ j)).filter fun r => r.index = i ∧ r.io_operation = op := by
    intro l
    rw [List.filter_filter]
    refine List.filter_congr fun r _ => ?_
    by_cases hi : r.index = i <;> simp [hi, hj]
  rw [hfilter, h.posted, ← hfilter]

/-- Updates that keep the history and the requests. -/
theorem of_eq (hpeers : ∀ j, j ≠ i → s'.m_peer_array j = s.m_peer_array j)
    (hlog : s'.log = s.log) (hposted : s'.posted = s.posted) : Local i s s' :=
  ⟨hpeers, ⟨[], by simpa using hlog, by simp⟩, by rw [hposted]⟩

theorem throw (s : Service) (e : Exception) : Local i s (s.throw e) :=
  of_eq (fun _ _ => rfl) rfl rfl

theorem setPeer (s : Service) (p : Peer) : Local i s (s.setPeer i p) :=
  of_eq (fun _ hj => setPeer_ne hj _ _) rfl rfl

theorem newIOCxt (s : Service) : Local i s s.newIOCxt.2 :=
  of_eq (fun _ _ => rfl) rfl rfl

theorem push (s : Service) (f : Frame) : Local i s (s.push f) :=
  of_eq (fun _ _ => rfl) rfl rfl

/-- An element that the filter drops anyway can be erased. -/
theorem filter_erase_of_not {l : List Request} {r : Request} (hi : r.index = i) :
    (l.erase r).filter (·.index ≠ i) = l.filter (·.index ≠ i) := by
  rw [← List.erase_filter, List.erase_of_not_mem]
  simp [hi]

theorem took (s : Service) (r : Request) : Local r.index s (s.took r) :=
  ⟨fun _ _ => rfl, ⟨[], by simp, by simp⟩, filter_erase_of_not rfl⟩

theorem record (s : Service) {e : Event} (he : e.connection.1 = i) : Local i s (s.record e) :=
  ⟨fun _ _ => rfl, ⟨[e], rfl, by simpa using he⟩, rfl⟩

theorem post (s : Service) {r : Request} (hi : r.index = i) : Local i s (s.post r) := by
  refine ⟨fun _ _ => rfl, ⟨[], by simp, by simp⟩, ?_⟩
  rw [post_posted, List.filter_append]
  simp [hi]

/-- Requests of other slots are neither posted nor taken. -/
theorem mem_posted (h : Local i s s') {r : Request} (hr : r ∈ s'.posted) :
    r ∈ s.posted ∨ r.index = i := by
  by_cases hi : r.index = i
  · exact Or.inr hi
  · have hmem : r ∈ s'.posted.filter (·.index ≠ i) := by simp [hr, hi]
    rw [h.posted] at hmem
    exact Or.inl (List.mem_filter.mp hmem).1

theorem closing (h : Closing s i n s') : Local i s s' := by
  cases h with
  | outOfRange _ e => exact throw s e
  | stale _ => exact refl s
  | callback _ remote => exact (record s (e := .onDisCon i n remote) rfl).trans (push _ _)

theorem closePeerEnd (s : Service) (i : Nat) : Local i s (s.closePeerEnd i) := by
  refine ⟨fun j hj => closePeerEnd_peer_ne hj s, ?_, by rw [closePeerEnd_posted]⟩
  · rcases closePeerEnd_log s i with ⟨-, h⟩ | ⟨-, h⟩
    · exact ⟨[], by simpa using h, by simp⟩
    · exact ⟨_, h, by intro e he; rw [List.mem_singleton.mp he]; rfl⟩

theorem recvPosting (h : RecvPosting s i n s') : Local i s s' := by
  have hset : ∀ p', Local i s (s.newIOCxt.2.setPeer i p') :=
    fun p' => (newIOCxt s).trans (setPeer _ p')
  cases h with
  | outOfRange _ e => exact throw s e
  | stale _ => exact refl s
  | failed _ e p' _ => exact (hset p').trans (throw _ e)
  | accepted _ w p' _ => exact (hset p').trans (post _ rfl)
  | refused _ p' _ _ hc => exact (hset p').trans (closing hc)

theorem sendPosting {accepted : Bool} (h : SendPosting s i n accepted s') : Local i s s' := by
  have hset : ∀ p', Local i s (s.newIOCxt.2.setPeer i p') :=
    fun p' => (newIOCxt s).trans (setPeer _ p')
  cases h with
  | outOfRange _ e => exact throw s e
  | stale _ => exact refl s
  | failed _ e p' _ _ => exact (hset p').trans (throw _ e)
  | accepted _ _ w p' _ _ => exact (hset p').trans (post _ rfl)
  | refused _ _ p' _ _ hc => exact (hset p').trans (closing hc)

theorem writing {size : Nat} {accepted : Bool} (h : Writing s i size accepted s') :
    Local i s s' := by
  cases h with
  | outOfRange _ e => exact throw s e
  | closed _ => exact refl s
  | failed _ e p' _ => exact (setPeer s p').trans (throw _ e)
  | drained _ p' _ => exact setPeer s p'
  | more _ k _ p' _ _ hs => exact (setPeer s p').trans (sendPosting hs)

theorem sending {buf : Bytes} {accepted : Bool} (h : Sending s i n buf accepted s') :
    Local i s s' := by
  have hset : ∀ p', Local i s ((s.record (.sent i n buf)).setPeer i p') :=
    fun p' => (record s (e := .sent i n buf) rfl).trans (setPeer _ p')
  have hcxt : ∀ p', Local i s ((s.record (.sent i n buf)).newIOCxt.2.setPeer i p') :=
    fun p' => ((record s (e := .sent i n buf) rfl).trans (newIOCxt _)).trans (setPeer _ p')
  cases h with
  | outOfRange _ e => exact throw s e
  | stale _ => exact refl s
  | failed _ e p' _ => exact (hset p').trans (throw _ e)
  | queued _ p' _ _ => exact hset p'
  | signalled _ _ p' _ _ => exact (hcxt _).trans (post _ rfl)
  | refused _ _ p' _ _ => exact (hcxt _).trans (throw _ _)

/-- A registration works on the slot it takes. -/
theorem registering (h : Registering s s') : ∃ i, Local i s s' := by
  have hset : ∀ i p', Local i s ({ s with m_serial := (s.m_serial + 1) % 2 ^ 64 }.setPeer i p') :=
    fun _ _ => of_eq (fun _ hj => setPeer_ne hj _ _) rfl rfl
  cases h with
  | full e => exact ⟨0, throw s e⟩
  | unbound i _ e => exact ⟨i, (hset i _).trans (throw _ e)⟩
  | callback i _ _ p' _ _ rem _ =>
    exact ⟨i, ((hset i p').trans (record _ (e := .onCon i s.m_serial rem) rfl)).trans (push _ _)⟩

theorem reading {size : Nat} (h : Reading s i size s') : Local i s s' := by
  cases h with
  | outOfRange _ e => exact throw s e
  | closed _ => exact refl s
  | failed _ e p' _ => exact (setPeer s p').trans (throw _ e)
  | callback _ p' _ =>
    exact ((setPeer s p').trans (record _ (e := .onRead i _) rfl)).trans (push _ _)

theorem arrived (s : Service) (r : Request) (size : Nat) (received : Bytes) :
    Local r.index s (s.arrived r size received) := by
  refine ⟨?_, ?_, by rw [arrived_posted]⟩
  · intro j hj
    rcases arrived_peer s r size received j with h | ⟨h, -⟩
    · exact h
    · exact absurd h hj
  · rcases arrived_log s r size received with h | ⟨bytes, h⟩
    · exact ⟨[], by simpa using h, by simp⟩
    · exact ⟨_, h, by intro e he; rw [List.mem_singleton.mp he]; rfl⟩

/-- The handling of a completion works on the slot of its key. -/
theorem ticking {r : Request} {c : Completion} {accepted : Bool} (h : Ticking s r c accepted s') :
    Local r.index s s' := by
  have harr : ∀ size received, Local r.index s ((s.arrived r size received).push (.tick r)) :=
    fun size received => (arrived s r size received).trans (push _ _)
  cases h with
  | lost _ _ h => exact (push s _).trans (closing h)
  | other _ e => exact throw s e
  | outOfRange _ size received _ e => exact (arrived s r size received).trans (throw _ e)
  | free size received _ _ => exact arrived s r size received
  | shutdown received _ _ _ h => exact (harr 0 received).trans (closing h)
  | read size received _ _ _ _ h => exact (harr size received).trans (reading h)
  | write size received _ _ _ h => exact (harr size received).trans (writing h)
  | unknown size received _ _ e => exact (harr size received).trans (throw _ e)

end Local

/-- **Every step works on one slot.** -/
theorem Stepping.locally {a : Action} (h : Stepping s a s') : ∃ i, Local i s s' := by
  have hpop : ∀ {i : Nat} (rest : List Frame), Local i s (s.popped rest) :=
    fun _ => .of_eq (fun _ _ => rfl) rfl rfl
  cases h with
  | send _ hs => exact ⟨_, .sending hs⟩
  | closePeer _ hs => exact ⟨_, .closing hs⟩
  | connectPeer _ hs | accept _ hs => exact Local.registering hs
  | readMove _ k _ heq =>
    rcases heq with rfl | ⟨e, rfl⟩
    · exact ⟨_, .setPeer s _⟩
    · exact ⟨_, (Local.setPeer s _).trans (.throw _ e)⟩
  | onCon _ hs | onRead _ _ hs => exact ⟨_, (hpop _).trans (.recvPosting hs)⟩
  | onReadNegative _ _ hs => exact ⟨_, (hpop _).trans (.closing hs)⟩
  | onDisCon _ => exact ⟨_, (hpop _).trans (.closePeerEnd _ _)⟩
  | dequeue _ _ _ hs => exact ⟨_, (Local.took s _).trans (.ticking hs)⟩
  | raise _ => exact ⟨0, .throw s _⟩
  | finish _ | unwind _ | catch_ => exact ⟨0, .of_eq (fun _ _ => rfl) rfl rfl⟩

/-! ## Isolation -/

/-- The completion whose handling the step is part of: the steps that the service makes on its own
between dequeuing a completion and the end of `onEventTick`. What a callback does by calling the
service is not among them. -/
def handled (s : Service) : Action → Option Request
  | .dequeue r _ _ => some r
  | .return_ _ _ =>
    match s.stack with
    | [_, .tick r] => some r
    | _ => none
  | .finish =>
    match s.stack with
    | [.tick r] => some r
    | _ => none
  | _ => none

/-- The step from `s` to `s'`, which handles a completion of `r`, leaves alone every connection
with another serial: its peer keeps its buffers, its flag and its socket, none of its callbacks is
called, and nothing is posted for it. -/
def Isolated (s s' : Service) (r : Request) : Prop :=
  ∀ j m, s.Live j m → m ≠ r.serial →
    s'.m_peer_array j = s.m_peer_array j ∧
    (∀ e ∈ s'.log.drop s.log.length, e.connection ≠ (j, m)) ∧
    ∀ q ∈ s'.posted, q.index = j → q.serial = m → q ∈ s.posted

/-- The slot `i` is free or still holds the connection `n`. -/
def Service.FreeOr (s : Service) (i n : Nat) : Prop :=
  (s.m_peer_array i).socket = none ∨ (s.m_peer_array i).serial = n

/-- A write completion of size 0 at a peer that has nothing to send and nothing posted. -/
def IdleSignal (s : Service) (r : Request) (c : Completion) : Prop :=
  r.io_operation = .ClientIoWrite ∧ c = .success 0 [] ∧
    (s.m_peer_array r.index).wsa_send = false ∧
    (s.m_peer_array r.index).write_buf.m_read_index
      = (s.m_peer_array r.index).write_buf.m_write_index ∧
    (s.m_peer_array r.index).write_buf_backup_.m_read_index
      = (s.m_peer_array r.index).write_buf_backup_.m_write_index

/-- If the handler of a completion waits for a callback, the slot is free or still holds the
connection that the callback was called for. -/
def Service.TopOwn (s : Service) : List Frame → Prop
  | [f, .tick _] => s.FreeOr f.connection.1 f.connection.2
  | _ => True

/-- When a completion is dequeued, and when a callback of its handler returns, the slot is free or
still holds the connection the request was posted for. (An error that `onEventTick` does not know
makes it throw before it looks at the slot.) -/
def OwnSlot (s : Service) : Action → Prop
  | .dequeue r c _ => s.FreeOr r.index r.serial ∨ IdleSignal s r c ∨ c = .otherError
  | .return_ _ _ => s.TopOwn s.stack
  | _ => True

/-- Effects on the slot of the request alone are isolated, as long as no other connection sits
there. -/
theorem Local.isolated {r : Request} (h : Local r.index s s')
    (hslot : s.FreeOr r.index r.serial) : Isolated s s' r := by
  intro j m hl hm
  have hj : j ≠ r.index := by
    rintro rfl
    rcases hslot with hfree | hser
    · exact hl.1 hfree
    · exact hm (hl.2.symm.trans hser)
  refine ⟨h.peers j hj, ?_, ?_⟩
  · obtain ⟨ext, hlog, hext⟩ := h.log
    rw [hlog, List.drop_left]
    intro e he hc
    exact hj ((congrArg Prod.fst hc).symm.trans (hext e he))
  · intro q hq hqi hqn
    rcases h.mem_posted hq with hq | hi
    · exact hq
    · exact absurd (hqi.symm.trans hi) hj

/-! ### The frame above `tick` -/

/-- The callback that the handler of a completion calls is one of the completion's connection. -/
def TickOwn (st : List Frame) : Prop :=
  ∀ f r, [f, .tick r] <:+ st → f.connection = (r.index, r.serial)

theorem TickOwn.nil : TickOwn [] := by
  intro f r h
  simp at h

theorem TickOwn.tail {f : Frame} {st : List Frame} (h : TickOwn (f :: st)) : TickOwn st :=
  fun g r hg => h g r (List.suffix_cons_iff.mpr (Or.inr hg))

theorem TickOwn.cons {f : Frame} {st : List Frame} (h : TickOwn st)
    (hf : ∀ r, st = [.tick r] → f.connection = (r.index, r.serial)) : TickOwn (f :: st) := by
  intro g r hg
  rcases List.suffix_cons_iff.mp hg with hg | hg
  · obtain ⟨rfl, hst⟩ := List.cons.inj hg
    exact hf r hst.symm
  · exact h g r hg

theorem TickOwn.tick (r : Request) : TickOwn [.tick r] :=
  TickOwn.nil.cons fun _ h => absurd h (by simp)

/-- A callback that is called while user code runs is not directly on a `tick`. -/
theorem TickOwn.user {f : Frame} (h : TickOwn s.stack) (hu : s.userRuns = true) :
    TickOwn (f :: s.stack) :=
  h.cons fun r hr => absurd hr (userRuns_not_tick hu r [])

/-- Idle signals change no peer and call nothing. -/
theorem drainWrite_idle {p : Peer} (hw : p.wsa_send = false)
    (hb : p.write_buf.m_read_index = p.write_buf.m_write_index)
    (hbb : p.write_buf_backup_.m_read_index = p.write_buf_backup_.m_write_index) :
    drainWrite 0 p = .ok 0 p := by
  have hread : ∀ b : SockBuf, b.m_read_index = b.m_write_index →
      SockBuf.readMove 0 b = .ok () b := by
    intro b h
    have hu : u32 b.m_read_index = b.m_read_index := u32_of_lt b.m_read_index_lt
    have hset : b.setRead (b.m_read_index + 0) = b := by
      cases b
      simp only [SockBuf.setRead, Nat.add_zero] at hu ⊢
      simp only [hu]
    unfold SockBuf.readMove
    rw [hset]
    exact if_neg (by omega)
  have hreadable : ∀ b : SockBuf, b.m_read_index = b.m_write_index →
      SockBuf.readableBytes b = .ok 0 b := by
    intro b h
    have hu : u32Sub b.m_write_index b.m_read_index = 0 := by
      rw [u32Sub_of_le (Nat.le_of_eq h)]
      omega
    unfold SockBuf.readableBytes
    rw [hu]
    rfl
  have h1 : Peer.setWsaSend false p = .ok () p := by
    show EStateM.Result.ok () (p.withWsaSend false) = _
    rw [← hw]
    rfl
  have h2 : Peer.onWriteBuf (SockBuf.readMove 0) p = .ok () p := by
    rw [Peer.onWriteBuf, hread _ hb]
  have h3 : Peer.onBackup SockBuf.readableBytes p = .ok 0 p := by
    rw [Peer.onBackup, hreadable _ hbb]
  have h4 : Peer.onWriteBuf SockBuf.readableBytes p = .ok 0 p := by
    rw [Peer.onWriteBuf, hreadable _ hb]
  rw [drainWrite, bind_ok h1, bind_ok h2, bind_ok h3]
  exact h4

theorem setPeer_eq_self (s : Service) (i : Nat) : s.setPeer i (s.m_peer_array i) = s := by
  have hfun : (fun j => if j = i then s.m_peer_array i else s.m_peer_array j)
      = s.m_peer_array := by
    funext j
    by_cases h : j = i
    · rw [if_pos h, h]
    · rw [if_neg h]
  unfold setPeer
  rw [hfun]

/-- The handler of an idle signal does nothing but wait for its `tick` to end. -/
theorem Ticking.idle {r : Request} {c : Completion} {accepted : Bool}
    (h : Ticking s r c accepted s') (hidle : IdleSignal s r c) :
    s'.m_peer_array = s.m_peer_array ∧ s'.posted = s.posted ∧
      (s'.stack = s.stack ∨ s'.stack = .tick r :: s.stack) ∧
      (s'.log = s.log ∨
        ∃ bytes, s'.log = s.log ++ [.transmitted r.index r.serial bytes]) := by
  obtain ⟨hop, rfl, hw, hb, hbb⟩ := hidle
  have hpeers : (s.arrived r 0 []).m_peer_array = s.m_peer_array := by
    funext j
    rcases arrived_peer s r 0 [] j with h | ⟨-, hne, -⟩
    · exact h
    · exact absurd rfl hne
  have hdrain : drainWrite 0 (s.m_peer_array r.index) = .ok 0 (s.m_peer_array r.index) :=
    drainWrite_idle hw hb hbb
  have hlog := arrived_log s r 0 []
  have hpost := arrived_posted s r 0 []
  have hstack := arrived_stack s r 0 []
  cases h with
  | outOfRange _ _ _ _ e => exact ⟨hpeers, hpost, Or.inl hstack, hlog⟩
  | free _ _ _ _ => exact ⟨hpeers, hpost, Or.inl hstack, hlog⟩
  | shutdown _ _ hop' _ _ => rw [hop] at hop'; simp at hop'
  | read _ _ _ hop' _ _ _ => rw [hop] at hop'; simp at hop'
  | unknown _ _ _ _ e => exact ⟨hpeers, hpost, Or.inr (congrArg (List.cons _) hstack), hlog⟩
  | write _ _ _ _ _ h =>
    cases h with
    | outOfRange _ e => exact ⟨hpeers, hpost, Or.inr (congrArg (List.cons _) hstack), hlog⟩
    | closed _ => exact ⟨hpeers, hpost, Or.inr (congrArg (List.cons _) hstack), hlog⟩
    | failed _ e p' hm => rw [push_peer, hpeers, hdrain] at hm; simp at hm
    | more _ k hk p' hm _ _ =>
      rw [push_peer, hpeers, hdrain] at hm
      simp only [EStateM.Result.ok.injEq] at hm
      omega
    | drained _ p' hm =>
      rw [push_peer, hpeers, hdrain] at hm
      simp only [EStateM.Result.ok.injEq, true_and] at hm
      subst hm
      refine ⟨?_, hpost, Or.inr (congrArg (List.cons _) hstack), hlog⟩
      have hself := setPeer_eq_self ((s.arrived r 0 []).push (.tick r)) r.index
      rw [push_peer] at hself
      rw [← hpeers, hself, push_peer]

/-- The frame above `tick` stays one of the completion's connection. -/
theorem tickOwn_step {a : Action} (h : TickOwn s.stack) (hok : OwnSlot s a)
    (hs : step s a = some s') : TickOwn s'.stack := by
  -- a callback that is called when `f` has returned, for the connection in the slot of `f`
  have hret : ∀ {f : Frame} {rest : List Frame} {i n : Nat}, s.stack = f :: rest →
      f.connection = (i, n) → OwnSlot s (.return_ 0 true) →
      (s.m_peer_array i).socket ≠ none →
      TickOwn (.onDisCon i (s.m_peer_array i).serial :: rest) := by
    intro f rest i n hst hf hok hsock
    rw [hst] at h
    refine h.tail.cons ?_
    intro r hr
    subst hr
    have hown : f.connection = (r.index, r.serial) := h f r (List.suffix_refl _)
    simp only [OwnSlot, hst, TopOwn, FreeOr, hf] at hok
    rcases hok with hfree | hser
    · exact absurd hfree hsock
    · rw [← hown, hf, ← hser]
      rfl
  cases stepping hs with
  | send _ hs => rw [hs.stack_eq]; exact h
  | closePeer hu hs =>
    rcases hs.stack_eq with hs | ⟨-, hs⟩ <;> rw [hs]
    · exact h
    · exact h.user hu
  | connectPeer hu hs | accept hu hs =>
    rcases hs.stack_eq with hs | ⟨i, hs⟩ <;> rw [hs]
    · exact h
    · exact h.user hu
  | readMove hst k _ heq =>
    rcases heq with rfl | ⟨e, rfl⟩ <;> exact h
  | onCon hst hs | onRead hst _ hs =>
    rcases hs.stack_eq with hs | ⟨hl, hs⟩ <;> rw [hs]
    · exact (hst ▸ h).tail
    · exact hret hst rfl hok hl.1
  | onReadNegative hst _ hs =>
    rcases hs.stack_eq with hs | ⟨hl, hs⟩ <;> rw [hs]
    · exact (hst ▸ h).tail
    · exact hret hst rfl hok hl.1
  | onDisCon hst =>
    rw [closePeerEnd_stack]
    exact (hst ▸ h).tail
  | raise _ => exact h
  | finish hst => exact (hst ▸ h).tail
  | unwind hst => exact (hst ▸ h).tail
  | catch_ => exact h
  | @dequeue r c accepted _ hst hr hc hs =>
    rcases hok with hslot | hidle | hother
    · rcases hs.stack_eq with hs | hs | ⟨hsock, hs | hs⟩ <;> rw [hs, took_stack, hst]
      · exact .nil
      · exact .tick r
      all_goals
        refine (TickOwn.tick r).cons ?_
        rintro r' hr'
        obtain rfl : r = r' := by simpa using hr'
        rcases hslot with hfree | hser
        · exact absurd hfree hsock
        · rw [took_peer, hser]
          rfl
    · obtain ⟨-, -, hs | hs, -⟩ := hs.idle hidle <;> rw [hs, took_stack, hst]
      · exact .nil
      · exact .tick r
    · subst hother
      cases hs
      rw [throw_stack, took_stack, hst]
      exact .nil

theorem handled_return {ret : Int} {accepted : Bool} {r : Request} {f : Frame}
    {rest : List Frame} (hst : s.stack = f :: rest)
    (hh : handled s (.return_ ret accepted) = some r) : rest = [.tick r] := by
  simp only [handled, hst] at hh
  split at hh
  · next heq =>
    obtain ⟨-, hrest⟩ := List.cons.inj heq
    rw [hrest, Option.some.inj hh]
  · simp at hh

/-- **Completion isolation.** In a run in which every completion and every callback of its handler
comes back to the connection's own slot, the handling of a completion leaves every other
connection alone. -/
theorem completion_isolation {a : Action} {r : Request} (hr : Reach Init step OwnSlot s)
    (hok : OwnSlot s a) (hs : step s a = some s') (hh : handled s a = some r) :
    Isolated s s' r := by
  have hown : TickOwn s.stack := by
    refine hr.invariant (fun s => TickOwn s.stack) ?_ ?_
    · rintro _ rfl
      exact .nil
    · exact fun _ _ _ h hok hs => tickOwn_step h hok hs
  -- the callback `f`, directly above `tick r`, has returned
  have hret : ∀ {ret : Int} {accepted : Bool} {f : Frame} {rest : List Frame} {i n : Nat}
      {t : Service}, s.stack = f :: rest → f.connection = (i, n) →
      OwnSlot s (.return_ ret accepted) → handled s (.return_ ret accepted) = some r →
      Local i (s.popped rest) t → Isolated s t r := by
    intro ret accepted f rest i n t hst hf hok hh hloc
    obtain rfl := handled_return hst hh
    have hconn : f.connection = (r.index, r.serial) := hown f r (hst ▸ List.suffix_refl _)
    obtain ⟨rfl, rfl⟩ := Prod.mk.inj (hf.symm.trans hconn)
    simp only [OwnSlot, hst, TopOwn, hf] at hok
    have hpop : Local r.index s (s.popped [.tick r]) := .of_eq (fun _ _ => rfl) rfl rfl
    exact (hpop.trans hloc).isolated hok
  cases stepping hs with
  | send | closePeer | connectPeer | accept | readMove | raise | unwind | catch_ =>
    simp [handled] at hh
  | onCon hst hs => exact hret hst rfl hok hh (.recvPosting hs)
  | onRead hst _ hs => exact hret hst rfl hok hh (.recvPosting hs)
  | onReadNegative hst _ hs => exact hret hst rfl hok hh (.closing hs)
  | onDisCon hst => exact hret hst rfl hok hh (.closePeerEnd _ _)
  | finish hst =>
    intro j m _ _
    exact ⟨rfl, by simp [deleteIOCxt], fun q hq _ _ => hq⟩
  | dequeue hst hr hc hs =>
    obtain rfl : _ = r := Option.some.inj hh
    rcases hok with hslot | hidle | hother
    · exact ((Local.took s _).trans (.ticking hs)).isolated hslot
    · obtain ⟨hpeers, hposted, -, hlog⟩ := hs.idle hidle
      intro j m _ hm
      refine ⟨congrFun hpeers j, ?_, fun q hq _ _ => ?_⟩
      · rcases hlog with h | ⟨bytes, h⟩
        · simp [h]
        · intro e he hc
          rw [h, took_log, List.drop_left, List.mem_singleton] at he
          rw [he] at hc
          exact hm (congrArg Prod.snd hc).symm
      · rw [hposted] at hq
        exact List.mem_of_mem_erase hq
    · subst hother
      cases hs
      intro j m _ _
      exact ⟨rfl, by simp, fun q hq _ _ => List.mem_of_mem_erase hq⟩

/-- Two connections in two slots, each with its `WSARecv` posted. -/
def twoPeers : List Action :=
  [.accept 7 ⟨"", 0⟩ ⟨"", 0⟩ true, .return_ 0 true, .accept 8 ⟨"", 0⟩ ⟨"", 0⟩ true, .return_ 0 true]

/-- The first request of the connection with serial 0, in slot 0. -/
def firstRequest : Request :=
  ⟨0, .ClientIoRead, 0, 0, some ⟨⟨List.replicate 512 0, by decide +kernel⟩, 0, 512⟩⟩

theorem twoPeers_runs : (exec step Service.new twoPeers).isSome = true := by decide +kernel

/-- The service behind that run. -/
def twoPeersState : Service := (exec step Service.new twoPeers).get twoPeers_runs

instance (s : Service) (i n : Nat) : Decidable (s.FreeOr i n) :=
  inferInstanceAs (Decidable (_ ∨ _))

instance (s : Service) (r : Request) (c : Completion) : Decidable (IdleSignal s r c) :=
  inferInstanceAs (Decidable (_ ∧ _))

instance (s : Service) : ∀ st : List Frame, Decidable (s.TopOwn st)
  | [f, .tick _] => inferInstanceAs (Decidable (s.FreeOr f.connection.1 f.connection.2))
  | [] | [_] | _ :: .onCon .. :: _ | _ :: .onRead .. :: _ | _ :: .onDisCon .. :: _
  | _ :: .tick _ :: _ :: _ => .isTrue trivial

instance (s : Service) : ∀ a : Action, Decidable (OwnSlot s a)
  | .dequeue r c _ =>
    inferInstanceAs (Decidable (s.FreeOr r.index r.serial ∨ IdleSignal s r c ∨ c = .otherError))
  | .return_ _ _ => inferInstanceAs (Decidable (s.TopOwn s.stack))
  | .send .. | .closePeer .. | .connectPeer .. | .accept .. | .readMove .. | .raise | .finish
  | .unwind | .catch_ => .isTrue trivial

theorem firstRequest_dequeues :
    (step twoPeersState (.dequeue firstRequest (.success 3 [0, 1, 7]) true)).isSome = true := by
  decide +kernel

/-- Three bytes for the first connection leave the second one alone. -/
theorem completion_isolation_twoPeers :
    Isolated twoPeersState
      ((step twoPeersState (.dequeue firstRequest (.success 3 [0, 1, 7]) true)).get
        firstRequest_dequeues) firstRequest :=
  completion_isolation (a := .dequeue firstRequest (.success 3 [0, 1, 7]) true)
    (Reach.of_exec (.start rfl) (by decide +kernel) (Option.some_get twoPeers_runs).symm)
    (by decide +kernel) (Option.some_get _).symm rfl

/-! ### A slot that is given to a second connection -/

/-- Two connections one after the other in slot 0. The `WSARecv` of the first, cancelled when it
was closed, has not been dequeued yet. -/
def reusedSlot : List Action :=
  [.accept 7 ⟨"", 0⟩ ⟨"", 0⟩ true, .return_ 0 true, .closePeer 0 0, .return_ 0 true,
    .accept 8 ⟨"", 0⟩ ⟨"", 0⟩ true, .return_ 0 true]

theorem reusedSlot_runs : (exec step Service.new reusedSlot).isSome = true := by decide +kernel

/-- The state after `reusedSlot`. -/
def reusedState : Service := (exec step Service.new reusedSlot).get reusedSlot_runs

theorem staleRequest_dequeues :
    (step reusedState (.dequeue firstRequest .netnameDeleted true)).isSome = true := by
  decide +kernel

theorem reach_reusedState : Reach Init step anyStep reusedState :=
  Reach.of_exec (.start rfl) (by decide +kernel) (Option.some_get _).symm

/-- **The handler of the first connection's completion closes the second connection.** -/
theorem completion_not_isolated :
    ¬∀ (s s' : Service) (a : Action) (r : Request), Reach Init step anyStep s →
      step s a = some s' → handled s a = some r → Isolated s s' r := by
  intro h
  have hiso := h reusedState _ (.dequeue firstRequest .netnameDeleted true) firstRequest
    reach_reusedState (Option.some_get staleRequest_dequeues).symm rfl
  obtain ⟨-, hlog, -⟩ := hiso 0 1 (by decide +kernel) (by decide +kernel)
  exact hlog (.onDisCon 0 1 ⟨"", 0⟩) (by decide +kernel) rfl

end GhNet.Iocp
