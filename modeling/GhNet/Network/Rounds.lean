import GhNet.Network.Receiving

/-!
# What a round does before it looks at the state

`DefProc` raises no exception as long as there is a socket and `Send` throws none. It may send a
packet of the session's own, it flushes and it reads, and the session becomes dead only if one of
these fails or nothing was received for too long.
-/

namespace GhNet.Network

open GhNet TNetState

/-- If `Receive` is called in the round, it does not fail. -/
def Env.ReceiveOk (env : Env) : Prop :=
  env.canRead = true → env.receive ≠ .negative ∧ env.receive ≠ .exception

/-- What `Receive` gives in the round. -/
def Env.chunk (env : Env) : Bytes :=
  if env.canRead then
    match env.receive with
    | .bytes b => b.take NetPacket.MAX_BUFFER_SIZE
    | _ => []
  else []

namespace TcpSession

variable {env : Env} {s : TcpSession}

/-- Nothing has been received for longer than `NET_TIMEOUT`. -/
def TimedOut (env : Env) (s : TcpSession) : Prop :=
  env.ticks s.ticksRead - s.m_lastRecvTime > NET_TIMEOUT

theorem readData_spec (env : Env) (h : s.m_clientSocket = true)
    (hstate : s.m_state ≠ NET_STATE_DEAD) :
    ∃ r s', s.readData env = .ok (r, s') ∧ Works env.ReceiveOk s s' [] env.chunk := by
  have hselect : s.select env.canRead = .ok env.canRead := if_pos h
  rw [readData, if_neg hstate, hselect, Env.chunk]
  simp only [bind, Except.bind, pure, Except.pure]
  cases hread : env.canRead with
  | false => exact ⟨false, s, rfl, .refl _ s⟩
  | true =>
    rw [Bool.not_true, if_neg Bool.false_ne_true, if_pos rfl]
    cases hret : env.receive with
    | bytes b =>
      dsimp only
      by_cases hlen : (b.take NetPacket.MAX_BUFFER_SIZE).length > 0
      · rw [if_pos hlen]
        refine ⟨true, _, rfl, { Works.refl _ s with
          received := rfl
          readBuff := rfl
          lastRecvTime := fun hnil => ?_ }⟩
        rw [hnil] at hlen
        exact absurd hlen (Nat.lt_irrefl 0)
      · rw [if_neg hlen, List.eq_nil_of_length_eq_zero (Nat.eq_zero_of_not_pos hlen)]
        exact ⟨false, s, rfl, .refl _ s⟩
    | negative => exact ⟨false, _, rfl, .die _ s fun hok => (hok hread).1 hret⟩
    | exception => exact ⟨false, _, rfl, .die _ s fun hok => (hok hread).2 hret⟩

theorem beat_spec (env : Env) (h : s.m_clientSocket = true) (now : UInt32) :
    (s.beat env now = .error .socket ∧ ∃ k, env.send k = .exception) ∨
    ∃ s' d, s.beat env now = .ok s' ∧ Works env.SendsOk s s' d [] ∧ OwnPacket d := by
  unfold beat
  split
  · rcases keepAlive_spec env h now with ⟨hthrows, herror⟩ | ⟨s', d, hs', hwork, hown⟩
    · exact .inl ⟨by rw [herror]; rfl, _, hthrows.2⟩
    · refine .inr ⟨{ s' with m_lastSendTime := now }, d, ?_,
        { hwork.mono fun hok _ => hok with }, hown⟩
      rw [hs']
      rfl
  · exact .inr ⟨s, [], rfl, .refl _ s, .inl rfl⟩

theorem keepUp_spec (env : Env) (h : s.m_clientSocket = true) :
    (s.keepUp env = .error .socket ∧ ∃ k, env.send k = .exception) ∨
    ∃ s' d, s.keepUp env = .ok s' ∧
      Works (s.m_state = NET_STATE_CONNECTED → env.SendsOk ∧ ¬TimedOut env s) s s' d [] ∧
      OwnPacket d := by
  unfold keepUp
  split
  · next hstate =>
    have htick : Works env.SendsOk s (Sys_GetTime env s).2 [] [] := { Works.refl _ s with }
    rcases beat_spec (s := (Sys_GetTime env s).2) env h (env.ticks s.ticksRead) with
      ⟨herror, hthrows⟩ | ⟨s₁, d, hs₁, hbeat, hown⟩
    · exact .inl ⟨congrArg (Except.bind · _) herror, hthrows⟩
    have hwork := htick.trans hbeat
    have htest : Works (env.SendsOk ∧ ¬TimedOut env s) s₁
        (s₁.checkTimeout (env.ticks s.ticksRead)) [] [] := by
      unfold checkTimeout
      split
      · next hlate =>
        refine .die _ s₁ fun hok => hok.2 ?_
        rw [TimedOut, ← hwork.lastRecvTime rfl]
        exact hlate
      · exact .refl _ s₁
    rcases flushData_spec env ((htest.socket.trans hwork.socket).trans h) with
      ⟨herror, hthrows⟩ | ⟨s', hs', hflush⟩
    · exact .inl ⟨(congrArg (Except.bind · _) hs₁).trans herror, hthrows⟩
    refine .inr ⟨s', d, ?_, ?_, hown⟩
    · exact (congrArg (Except.bind · _) hs₁).trans hs'
    · have hall := ((hwork.mono And.left).trans htest).trans (hflush.mono And.left)
      rw [List.append_nil, List.append_nil] at hall
      exact hall.mono fun hok => hok hstate
  · exact .inr ⟨s, [], rfl, .refl _ s, .inl rfl⟩

/-- In the other states nothing is done. -/
theorem defProc_idle (env : Env) (h : s.m_state ≠ NET_STATE_CONNECTED)
    (h' : s.m_state ≠ NET_STATE_WAITING_SEED) : s.defProc env = .ok s := by
  rw [defProc, if_pos ⟨h, h'⟩]
  rfl

/-- What keeps a session alive in `DefProc`. -/
def DefProcOk (env : Env) (s : TcpSession) : Prop :=
  (s.m_state = NET_STATE_CONNECTED → env.SendsOk ∧ ¬TimedOut env s) ∧ env.ReceiveOk

theorem defProc_spec (env : Env) (h : s.m_clientSocket = true) :
    (s.defProc env = .error .socket ∧ ∃ k, env.send k = .exception) ∨
    ∃ s' d c, s.defProc env = .ok s' ∧ Works (DefProcOk env s) s s' d c ∧ OwnPacket d ∧
      (DefProcOk env s → s.m_state = NET_STATE_CONNECTED ∨ s.m_state = NET_STATE_WAITING_SEED →
        c = env.chunk) := by
  by_cases hidle : s.m_state ≠ NET_STATE_CONNECTED ∧ s.m_state ≠ NET_STATE_WAITING_SEED
  · exact .inr ⟨s, [], [], defProc_idle env hidle.1 hidle.2, .refl _ s, .inl rfl,
      fun _ hstate => absurd hstate (not_or.mpr hidle)⟩
  · rcases keepUp_spec env h with ⟨herror, hthrows⟩ | ⟨s₁, d, hs₁, hwork, hown⟩
    · exact .inl ⟨by rw [defProc, if_neg hidle, herror]; rfl, hthrows⟩
    by_cases hdead : s₁.m_state = NET_STATE_DEAD
    · refine .inr ⟨s₁, d, [], ?_, hwork.mono And.left, hown, fun hok hstate => ?_⟩
      · rw [defProc, if_neg hidle, hs₁]
        show (s₁.readData env).bind _ = _
        rw [readData, if_pos hdead]
        rfl
      · rw [(hwork.alive hok.1).1] at hdead
        rw [hdead] at hstate
        exact absurd hstate (by decide)
    · obtain ⟨r, s', hs', hread⟩ := readData_spec env (hwork.socket.trans h) hdead
      refine .inr ⟨s', d, env.chunk, ?_, ?_, hown, fun _ _ => rfl⟩
      · rw [defProc, if_neg hidle, hs₁]
        exact congrArg (Except.bind · fun r => Except.ok r.2) hs'
      · have hall := (hwork.mono And.left).trans (hread.mono And.right)
        rwa [List.append_nil, List.nil_append] at hall

end TcpSession

end GhNet.Network
