import GhNet.Iocp.Steps

/-!
# A full peer table

When every slot holds a socket, `newPeer` returns `-1`, and `getPeer` takes that for an index: what
registers the socket ends with an exception. The peers are as they were, but nobody closes the
socket. While there is a free slot, the first one is taken.
-/

namespace GhNet.Iocp

open GhNet Service

variable {s s' : Service} {k : Nat}

/-- All `MAX_PEER_NUM` slots hold sockets. -/
def Service.Full (s : Service) : Prop := ∀ i < MAX_PEER_NUM, (s.m_peer_array i).socket ≠ none

/-- The newcomer is refused and nothing else happens: its socket is closed, every peer is as it was,
no callback is called and the loop goes on. -/
structure Refuses (s s' : Service) : Prop where
  peers : s'.m_peer_array = s.m_peer_array
  stack : s'.stack = s.stack
  closed : ∃ i n, .closesocket i n ∈ s'.log.drop s.log.length
  thrown : s'.thrown = none

namespace Service

theorem findFree_eq_none {peers : Nat → Peer} : ∀ {m i : Nat},
    (∀ j, i ≤ j → j < i + m → (peers j).socket ≠ none) → findFree peers m i = none
  | 0, _, _ => rfl
  | m + 1, i, h => by
    rw [findFree, if_pos (h i (Nat.le_refl i) (by omega))]
    exact findFree_eq_none fun j hj hlt => h j (by omega) (by omega)

/-- The first free slot is found. -/
theorem findFree_first {peers : Nat → Peer} {k : Nat} (hfree : (peers k).socket = none) :
    ∀ {m i : Nat}, i ≤ k → k < i + m → (∀ j, i ≤ j → j < k → (peers j).socket ≠ none) →
      findFree peers m i = some k
  | 0, i, hle, hlt, _ => by omega
  | m + 1, i, hle, hlt, h => by
    rw [findFree]
    by_cases hik : i = k
    · rw [if_neg (not_not_intro (hik ▸ hfree)), hik]
    · rw [if_pos (h i (Nat.le_refl i) (by omega))]
      exact findFree_first hfree (by omega) (by omega) fun j hj => h j (by omega)

theorem newPeer_full (h : s.Full) : s.newPeer = (2 ^ 32 - 1, s) := by
  rw [newPeer, findFree_eq_none fun j _ hj => h j (by omega)]

/-- The peer that a socket becomes. -/
def newcomer (s : Service) (k sd : Nat) (local_addr remote_addr : Addr) : Peer :=
  { resetPeer (s.m_peer_array k) s.m_serial with
    socket := some sd, local_addr := local_addr, remote_addr := remote_addr }

/-- The service in which the socket is in slot `k` and `onCon` has been called. -/
def admitted (s : Service) (k sd : Nat) (local_addr remote_addr : Addr) : Service :=
  (({ s with m_serial := (s.m_serial + 1) % 2 ^ 64 }.setPeer k
    (s.newcomer k sd local_addr remote_addr)).record
      (.onCon k s.m_serial remote_addr)).push (.onCon k s.m_serial)

/-- **A free slot is enough.** -/
theorem registerSocket_first (hk : k < MAX_PEER_NUM) (hfree : (s.m_peer_array k).socket = none)
    (hused : ∀ i < k, (s.m_peer_array i).socket ≠ none) (sd : Nat) (local_addr remote_addr : Addr) :
    s.registerSocket sd local_addr remote_addr true = s.admitted k sd local_addr remote_addr := by
  have hfind : findFree s.m_peer_array MAX_PEER_NUM 0 = some k :=
    findFree_first hfree (Nat.zero_le k) (by omega) fun j _ hj => hused j hj
  have hnew : s.newPeer = (k, { s with m_serial := (s.m_serial + 1) % 2 ^ 64 }.setPeer k
      (resetPeer (s.m_peer_array k) s.m_serial)) := by
    rw [newPeer, hfind]
  rw [registerSocket, hnew]
  dsimp only
  rw [getPeer, if_neg (Nat.not_le.mpr hk), if_pos rfl, setPeer_self, setPeer_setPeer]
  rfl

end Service

/-- **A full table refuses nobody properly.** Whatever registers a socket then does nothing but
throw an exception, which leaves the loop. -/
theorem full_never_refuses (hfull : s.Full) {a : Action} (ha : a.registers = true)
    (hs : step s a = some s') :
    s' = s.throw (.indexOutOfRange (2 ^ 32 - 1) MAX_PEER_NUM) ∧ ¬Refuses s s' := by
  have hthrow : ∀ sd local_addr remote_addr bound,
      s.registerSocket sd local_addr remote_addr bound
        = s.throw (.indexOutOfRange (2 ^ 32 - 1) MAX_PEER_NUM) := by
    intro sd local_addr remote_addr bound
    rw [registerSocket, newPeer_full hfull]
    dsimp only
    rw [getPeer, if_pos (by decide)]
  have heq : s' = s.throw (.indexOutOfRange (2 ^ 32 - 1) MAX_PEER_NUM) := by
    cases a with
    | connectPeer sd local_addr remote_addr bound =>
      rw [step] at hs
      split at hs
      · rw [← Option.some.inj hs, hthrow]
      · cases hs
    | accept sd local_addr remote_addr bound =>
      rw [step] at hs
      split at hs
      · rw [← Option.some.inj hs, hthrow]
      · cases hs
    | _ => cases ha
  refine ⟨heq, fun h => ?_⟩
  have hthrown := h.thrown
  rw [heq] at hthrown
  cases hthrown

/-! ## A table that fills up -/

/-- The first `k` slots hold sockets, and the program's own loop is running. -/
structure Filled (k : Nat) (s : Service) : Prop where
  stack : s.stack = []
  thrown : s.thrown = none
  used : ∀ i < k, (s.m_peer_array i).socket ≠ none
  free : ∀ i, k ≤ i → (s.m_peer_array i).socket = none

theorem Filled.accept (h : Filled k s) (hk : k < MAX_PEER_NUM) (sd : Nat) :
    step s (.accept sd ⟨"", 0⟩ ⟨"", 0⟩ true) = some (s.admitted k sd ⟨"", 0⟩ ⟨"", 0⟩) := by
  have hu : s.userRuns = true := by rw [userRuns, h.thrown, h.stack]
  rw [step, if_pos ⟨hu, h.stack⟩, registerSocket_first hk (h.free k (Nat.le_refl k)) h.used]

/-- `postRecvRequest` when the system takes the `WSARecv`. -/
theorem postRecvRequest_taken {i n : Nat} {w : WSABUF} {p' : Peer} (hi : i < MAX_PEER_NUM)
    (hl : s.Live i n) (hm : offerRead (s.m_peer_array i) = .ok w p') :
    s.postRecvRequest i n true = (s.newIOCxt.2.setPeer i p').post
      ⟨s.newIOCxt.1, .ClientIoRead, i, n, some w⟩ := by
  rw [postRecvRequest, getPeer, if_neg (Nat.not_le.mpr hi),
    if_neg (not_or.mpr ⟨not_not_intro hl.2, hl.1⟩)]
  dsimp only
  rw [onPeer_ok (s := s.newIOCxt.2) hm, if_pos rfl]

/-- `onCon` returns. -/
theorem Filled.return_ (h : Filled k s) (hk : k < MAX_PEER_NUM) (sd : Nat) :
    ∃ s', step (s.admitted k sd ⟨"", 0⟩ ⟨"", 0⟩) (.return_ 0 true) = some s' ∧
      Filled (k + 1) s' := by
  have hstack : (s.admitted k sd ⟨"", 0⟩ ⟨"", 0⟩).stack = [.onCon k s.m_serial] :=
    congrArg (_ :: ·) h.stack
  have hthrown : (s.admitted k sd ⟨"", 0⟩ ⟨"", 0⟩).thrown = none := h.thrown
  have hpeer : (s.admitted k sd ⟨"", 0⟩ ⟨"", 0⟩).m_peer_array k
      = s.newcomer k sd ⟨"", 0⟩ ⟨"", 0⟩ := by
    rw [admitted, push_peer, record_peer, setPeer_self]
  have hother : ∀ {i}, i ≠ k →
      (s.admitted k sd ⟨"", 0⟩ ⟨"", 0⟩).m_peer_array i = s.m_peer_array i := fun hi => by
    rw [admitted, push_peer, record_peer, setPeer_ne hi]
  -- the buffers are empty, so that there is room
  have hvalid : (s.newcomer k sd ⟨"", 0⟩ ⟨"", 0⟩).read_buf.Valid := SockBuf.valid_reset _
  obtain ⟨b, hb, hvb, -⟩ := SockBuf.ensureWritableBytes_spec hvalid
    (show 0 + 512 < 2 ^ 31 by decide)
  have hoffer := offerRead_ok hb hvb
  have hsocket : ((s.newcomer k sd ⟨"", 0⟩ ⟨"", 0⟩).withReadBuf b).socket ≠ none :=
    Option.some_ne_none sd
  rw [← hpeer] at hoffer hsocket
  generalize s.admitted k sd ⟨"", 0⟩ ⟨"", 0⟩ = t at hstack hthrown hpeer hother hoffer hsocket
  generalize (t.m_peer_array k).withReadBuf b = q at hoffer hsocket
  have hlive : (t.popped []).Live k ((t.popped []).m_peer_array k).serial :=
    ⟨by rw [popped_peer, hpeer]; exact Option.some_ne_none sd, rfl⟩
  refine ⟨_, step_onCon hthrown hstack, ?_⟩
  rw [registerSocketEnd, postRecvRequest_taken hk hlive hoffer]
  refine ⟨rfl, hthrown, fun i hi => ?_, fun i hi => ?_⟩
  · rw [post_peer]
    by_cases hik : i = k
    · rw [hik, setPeer_self]
      exact hsocket
    · rw [setPeer_ne hik, newIOCxt_peer, popped_peer, hother hik]
      exact h.used i (by omega)
  · have hik : i ≠ k := by omega
    rw [post_peer, setPeer_ne hik, newIOCxt_peer, popped_peer, hother hik]
    exact h.free i (by omega)

/-- Any number of slots can be filled. -/
theorem filled_reached (hk : k ≤ MAX_PEER_NUM) : ∃ s, Reach Init step anyStep s ∧ Filled k s := by
  induction k with
  | zero =>
    exact ⟨Service.new, .start rfl, rfl, rfl, fun i hi => absurd hi (Nat.not_lt_zero i),
      fun _ _ => rfl⟩
  | succ k ih =>
    obtain ⟨s, hr, hfilled⟩ := ih (Nat.le_of_succ_le hk)
    obtain ⟨s', hs', hfilled'⟩ := hfilled.return_ hk k
    exact ⟨s', .next (.next hr trivial (hfilled.accept hk k)) trivial hs', hfilled'⟩

/-- The table can be full while the loop is running. -/
theorem exists_full :
    ∃ s, Reach Init step anyStep s ∧ s.Full ∧ s.userRuns = true ∧ s.stack = [] := by
  obtain ⟨s, hr, hfilled⟩ := filled_reached (Nat.le_refl MAX_PEER_NUM)
  exact ⟨s, hr, hfilled.used, by rw [userRuns, hfilled.thrown, hfilled.stack], hfilled.stack⟩

/-- One more socket is accepted. -/
theorem full_never_refuses_accept :
    ∃ s s', Reach Init step anyStep s ∧ step s (.accept 5120 ⟨"", 0⟩ ⟨"", 0⟩ true) = some s' ∧
      s' = s.throw (.indexOutOfRange (2 ^ 32 - 1) MAX_PEER_NUM) ∧ ¬Refuses s s' := by
  obtain ⟨s, hr, hfull, hu, hstack⟩ := exists_full
  have hs : step s (.accept 5120 ⟨"", 0⟩ ⟨"", 0⟩ true) =
      some (s.registerSocket 5120 ⟨"", 0⟩ ⟨"", 0⟩ true) := by
    rw [step, if_pos ⟨hu, hstack⟩]
  exact ⟨s, _, hr, hs, full_never_refuses hfull rfl hs⟩

/-- **The newcomer of a full table is not refused.** -/
theorem newcomer_not_refused :
    ¬∀ s, Reach Init step anyStep s → s.Full → ∀ a s', a.registers = true →
      step s a = some s' → Refuses s s' := by
  intro h
  obtain ⟨s, hr, hfull, hu, hstack⟩ := exists_full
  have hs : step s (.accept 5120 ⟨"", 0⟩ ⟨"", 0⟩ true) =
      some (s.registerSocket 5120 ⟨"", 0⟩ ⟨"", 0⟩ true) := by
    rw [step, if_pos ⟨hu, hstack⟩]
  have hrefuses := h s hr hfull (.accept 5120 ⟨"", 0⟩ ⟨"", 0⟩ true) _ rfl hs
  have hthrown := hrefuses.thrown
  rw [registerSocket, newPeer_full hfull] at hthrown
  dsimp only at hthrown
  rw [getPeer, if_pos (by decide)] at hthrown
  cases hthrown

end GhNet.Iocp
