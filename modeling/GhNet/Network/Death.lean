import GhNet.Network.Survival

/-!
# How a session ends

A session that fails while it is connecting is closed, `OnConnect` hears of it and the thread ends.
Behind that the death of a session is not brought to its end: found by `DefProc` it is followed by
`Close`, whose `NET_STATE_ZERO` hides it from `ListenThread`; found behind `DefProc` it ends the
thread before the session has been closed.
-/

namespace GhNet.Network

open GhNet TNetState NetPacket TcpSession

namespace TcpSession

variable {env : Env} {ok : Prop} {s s' : TcpSession} {ps : List NetPacket} {ds : List Bytes}

/-- A session that nothing has ended yet. -/
structure Alive (s : TcpSession) : Prop where
  sound : Sound s
  dead : s.m_state ≠ NET_STATE_DEAD
  zero : s.m_state ≠ NET_STATE_ZERO
  calm : ∀ e ∈ s.events, e.Calm
  connecting : s.m_state = NET_STATE_CONNECTING → s.events = []

namespace Alive

theorem socket (h : Alive s) : s.m_clientSocket = true := h.sound.socket h.zero

theorem dead_not_mem (h : Alive s) : .dead ∉ s.events := fun hmem => h.calm _ hmem

theorem of_same (h : Alive s) (hstate : s'.m_state = s.m_state) (hevents : s'.events = s.events)
    (hsound : Sound s') : Alive s' where
  sound := hsound
  dead := hstate ▸ h.dead
  zero := hstate ▸ h.zero
  calm := hevents ▸ h.calm
  connecting hc := hevents.trans (h.connecting (hstate.symm.trans hc))

theorem of_works {d c : Bytes} (h : Alive s) (hok : ok) (hwork : Works ok s s' d c) : Alive s' :=
  h.of_same (hwork.alive hok).1 (hwork.alive hok).2 (h.sound.of_works h.socket hwork)

theorem of_takes (h : Alive s) (hok : ok) (htakes : Takes ok s s' ps ds)
    (hstate : s.m_state ≠ NET_STATE_CONNECTING) : Alive s' := by
  obtain ⟨hstate', es, hes, hcalm⟩ := htakes.calm hok
  have hlive : ∀ {t}, s.m_state ≠ t → NET_STATE_CONNECTED ≠ t → s'.m_state ≠ t := by
    intro t ht hc
    rcases hstate' with hs | hs
    · rwa [hs]
    · rwa [hs]
  refine ⟨⟨htakes.valid h.sound.valid, fun _ => htakes.socket.trans h.socket⟩,
    hlive h.dead (by decide), hlive h.zero (by decide), fun e he => ?_,
    fun hc => absurd hc (hlive hstate (by decide))⟩
  rw [hes] at he
  rcases List.mem_append.mp he with he | he
  · exact h.calm e he
  · exact hcalm e he

theorem stopped (h : Alive s) (hgood : ¬Bad s.m_readBuff) (packet : NetPacket) :
    Alive (s.stopped packet) := by
  rw [TcpSession.stopped, if_neg hgood]
  exact h.of_same rfl rfl ⟨h.sound.valid, fun _ => h.socket⟩

end Alive

/-- Nothing fails in the round once the connection stands: nothing was waited for too long, no call
of the socket fails, and no packet has a wrong flag or size. -/
structure Quiet (env : Env) (s : TcpSession) : Prop where
  defProc : s.m_state ≠ NET_STATE_CONNECTING → DefProcOk env s
  connected : s.m_state = NET_STATE_CONNECTED → ¬Bad (cutter.rest (s.m_readBuff ++ env.chunk))
  waiting : s.m_state = NET_STATE_WAITING_SEED → ¬Bad (s.m_readBuff ++ env.chunk)

/-- The connection has not come about: the session is closed. -/
structure Failed (s : TcpSession) : Prop where
  state : s.m_state = NET_STATE_DEAD
  socket : s.m_clientSocket = false
  readBuff : s.m_readBuff = []
  writeBuf : s.m_writeBuf = []
  events : s.events = [.closed, .onConnect false, .dead]

/-- Whatever happens while the session is connecting, it is alive afterwards or closed. -/
theorem connecting_alive_or_failed (env : Env) (h : Alive s)
    (hstate : s.m_state = NET_STATE_CONNECTING) :
    ∃ s', s.dispatch env = .ok s' ∧ (Alive s' ∨ Failed s') := by
  obtain ⟨s', hok, hs'⟩ := dispatch_connecting env h.socket hstate
  have hnone := h.connecting hstate
  refine ⟨s', hok, ?_⟩
  rcases hs' with ⟨hdead, hsock, hread, hwrite, hevents⟩ | ⟨hlive, hsock, hkey, -, hevents⟩
  · rw [hnone] at hevents
    exact .inr ⟨hdead, hsock, hread, hwrite, hevents⟩
  · rw [hnone] at hevents
    refine .inl ⟨⟨hkey ▸ h.sound.valid, fun _ => hsock⟩, ?_, ?_, ?_, fun _ => hevents⟩
    · rcases hlive with hs | hs <;> rw [hs] <;> decide
    · rcases hlive with hs | hs <;> rw [hs] <;> decide
    · rw [hevents]
      nofun

/-- A round in which nothing fails leaves the session alive. -/
theorem dispatch_alive (h : Alive s) (hdispatch : s.dispatch env = .ok s')
    (hstate : s.m_state ≠ NET_STATE_CONNECTING)
    (hsends : s.m_state = NET_STATE_CONNECTED → env.SendsOk)
    (hconnected : s.m_state = NET_STATE_CONNECTED → ¬Bad (cutter.rest s.m_readBuff))
    (hwaiting : s.m_state = NET_STATE_WAITING_SEED → ¬Bad s.m_readBuff) : Alive s' := by
  cases hs : s.m_state with
  | NET_STATE_CONNECTED =>
    rcases dispatch_connected env h.sound.valid h.socket hs with
      ⟨-, e, herror, -⟩ | ⟨-, s₁, packet, htakes, hbuff, hok⟩
    · rw [hdispatch] at herror
      cases herror
    · rw [hdispatch] at hok
      rw [Except.ok.inj hok]
      exact (h.of_takes (hsends hs) htakes hstate).stopped (hbuff ▸ hconnected hs) packet
  | NET_STATE_WAITING_SEED =>
    rcases dispatch_waiting env h.sound.valid h.socket hs with
      ⟨-, packet, hok⟩ | ⟨-, -, herror⟩ | ⟨-, -, s₁, hok, htakes, -⟩
    · rw [hdispatch] at hok
      rw [Except.ok.inj hok]
      exact h.stopped (hwaiting hs) packet
    · rw [hdispatch] at herror
      cases herror
    · rw [hdispatch] at hok
      rw [Except.ok.inj hok]
      exact h.of_takes trivial htakes hstate
  | NET_STATE_CONNECTING => exact absurd hs hstate
  | NET_STATE_DEAD => exact absurd hs h.dead
  | NET_STATE_ZERO => exact absurd hs h.zero

/-- **One round.** -/
theorem process_quiet (h : Alive s) (hquiet : Quiet env s) (hprocess : s.process env = .ok s') :
    Alive s' ∨ Failed s' := by
  by_cases hstate : s.m_state = NET_STATE_CONNECTING
  · have hidle := defProc_idle env (s := s) (by rw [hstate]; decide) (by rw [hstate]; decide)
    obtain ⟨s₁, hok, hs₁⟩ := connecting_alive_or_failed env h hstate
    rw [process, hidle] at hprocess
    rw [← Except.ok.inj (hok.symm.trans hprocess)]
    exact hs₁
  · rcases defProc_spec env h.socket with ⟨herror, -⟩ | ⟨s₁, d, c, hs₁, hwork, -, hc⟩
    · rw [process, herror] at hprocess
      cases hprocess
    have hok := hquiet.defProc hstate
    have hsame := (hwork.alive hok).1
    have hbuff : s.m_state = NET_STATE_CONNECTED ∨ s.m_state = NET_STATE_WAITING_SEED →
        s₁.m_readBuff = s.m_readBuff ++ env.chunk := fun hs => by rw [hwork.readBuff, hc hok hs]
    rw [process, hs₁] at hprocess
    refine .inl (dispatch_alive (h.of_works hok hwork) hprocess (hsame ▸ hstate)
      (fun hs => (hok.1 (hsame ▸ hs)).1) (fun hs => ?_) fun hs => ?_)
    · rw [hsame] at hs
      exact hbuff (.inl hs) ▸ hquiet.connected hs
    · rw [hsame] at hs
      exact hbuff (.inr hs) ▸ hquiet.waiting hs

/-- The user's packet waits for the next round to be sent. -/
theorem sendPacket_alive {packet : CmdPacket} {r : Bool} (h : Alive s)
    (hsend : s.sendPacket env packet false false = .ok (r, s')) : Alive s' := by
  rcases sendPacket_works h.sound hsend with rfl | ⟨-, d, hwork⟩
  · exact h
  · exact h.of_works trivial hwork

end TcpSession

namespace Listener

variable {l l' : Listener}

/-! ## The thread -/

/-- The thread is over and the session closed, and the user has heard once that it is. -/
structure Ended (l : Listener) : Prop where
  running : l.running = false
  socket : l.session.m_clientSocket = false
  readBuff : l.session.m_readBuff = []
  writeBuf : l.session.m_writeBuf = []
  called : if .onConnect true ∈ l.session.events then l.session.events.count .onDisconnect = 1
    else l.session.events.count (.onConnect false) = 1

/-- The session has become dead a round ago or earlier, or in the last round that there is. -/
def Died (l : Listener) : Prop :=
  .dead ∈ l.previous.events ∨ l.running = false ∧ .dead ∈ l.session.events

/-- A session that has become dead has come to its end, and the thread never runs without one. -/
structure Settled (l : Listener) : Prop where
  died : l.Died → l.Ended
  running : l.running = true → l.session.m_state ≠ NET_STATE_ZERO

/-- Nothing fails in the round. The user may send what he likes. -/
def QuietStep (l : Listener) : Action → Prop
  | .process env => Quiet env l.session
  | .sendPacket _ _ => True

/-- The session is alive, or it has never been connected and is closed. -/
def Undisturbed (l : Listener) : Prop :=
  (l.running = true ∧ Alive l.session ∧ .dead ∉ l.previous.events) ∨
    (l.running = false ∧ Failed l.session)

theorem undisturbed_init (h : Init l) : Undisturbed l := by
  obtain ⟨env, s, hvalid, rfl⟩ := h
  exact .inl ⟨rfl, ⟨⟨hvalid, fun _ => rfl⟩, nofun, nofun, nofun, fun _ => rfl⟩, nofun⟩

theorem undisturbed_step {a : Action} (h : Undisturbed l) (hquiet : QuietStep l a)
    (hs : l.step a = some l') : Undisturbed l' := by
  cases a with
  | process env =>
    rcases h with ⟨hrun, halive, -⟩ | ⟨hrun, -⟩
    · rw [step, if_pos hrun] at hs
      cases hprocess : l.session.process env with
      | error e =>
        rw [hprocess] at hs
        cases hs
      | ok s' =>
        rw [hprocess] at hs
        obtain rfl := Option.some.inj hs
        rcases process_quiet halive hquiet hprocess with halive' | hfailed
        · exact .inl ⟨decide_eq_true halive'.dead, halive', halive.dead_not_mem⟩
        · exact .inr ⟨decide_eq_false (not_not_intro hfailed.state), hfailed⟩
    · rw [step, if_neg (by rw [hrun]; exact Bool.false_ne_true)] at hs
      cases hs
  | sendPacket env packet =>
    rw [step] at hs
    cases hsend : l.session.sendPacket env packet false false with
    | error e =>
      rw [hsend] at hs
      cases hs
    | ok r =>
      rw [hsend] at hs
      obtain rfl := Option.some.inj hs
      rcases h with ⟨hrun, halive, hprevious⟩ | ⟨hrun, hfailed⟩
      · exact .inl ⟨hrun, sendPacket_alive halive hsend, hprevious⟩
      · rw [sendPacket_refused env _ _ _ (by rw [hfailed.state]; decide)] at hsend
        obtain rfl := Except.ok.inj hsend
        exact .inr ⟨hrun, hfailed⟩

theorem settled_of_undisturbed (h : Undisturbed l) : Settled l := by
  rcases h with ⟨hrun, halive, hprevious⟩ | ⟨hrun, hfailed⟩
  · refine ⟨fun hdied => ?_, fun _ => halive.zero⟩
    rcases hdied with hmem | ⟨hover, -⟩
    · exact absurd hmem hprevious
    · rw [hrun] at hover
      cases hover
  · refine ⟨fun _ => ⟨hrun, hfailed.socket, hfailed.readBuff, hfailed.writeBuf, ?_⟩, fun hx => ?_⟩
    · rw [hfailed.events]
      decide
    · rw [hrun] at hx
      cases hx

/-- **When the death of a session is brought to its end.** In a run in which nothing fails after the
connection stands, a session can die of the connection only. -/
theorem settled_quiet (h : Reach Init step QuietStep l) : Settled l :=
  settled_of_undisturbed <|
    h.invariant Undisturbed (fun _ => undisturbed_init) fun _ _ _ => undisturbed_step

/-- The connection fails at once. -/
def refused : Env := { round [] with hasExcept := true }

theorem connecting_refused : (step connecting (.process refused)).isSome = true := by
  decide +kernel

theorem quietStep_refused : QuietStep connecting (.process refused) :=
  ⟨fun h => absurd rfl h, nofun, nofun⟩

theorem settled_quiet_refused :
    Settled ((step connecting (.process refused)).get connecting_refused) :=
  settled_quiet <| .next (.start ⟨round [], .new, ⟨rfl, .inl rfl⟩, rfl⟩) quietStep_refused
    (Option.some_get _).symm

/-- The other side resets the connection. -/
def disconnected : Env := { round [] with receive := .exception }

theorem waiting_disconnected : (step waiting (.process disconnected)).isSome = true := by
  decide +kernel

/-- **A session that `Receive` fails for is closed, and its thread goes on for ever.** -/
theorem disconnected_not_settled : ¬∀ l, Reach Init step anyStep l → Settled l := by
  intro h
  have hsettled := h _ (.next reach_waiting trivial (Option.some_get waiting_disconnected).symm)
  exact hsettled.running (by decide +kernel) (by decide +kernel)

end Listener

end GhNet.Network
