import GhNet.Server.Delivery

/-!
# What a step of the server comes to

The lobby is called at most once in a step of the server: for a connection that has come or is going,
for a message, or from the loop of `main`. In every other step nothing happens that anyone could see:
the lobby stays as it is and sends nothing.
-/

namespace GhNet.Server

open GhNet GhNet.Net Iocp Iocp.Service

variable {sv sv₁ sv' : Program} {i n : Nat}

/-! ## Silence -/

/-- Nothing is handed to the lobby, and nothing is sent. -/
structure Silent (sv sv' : Program) : Prop where
  lobby : sv'.lobby = sv.lobby
  handed : sv'.handed = sv.handed
  sent : ∀ i n, sentBytes i n sv'.io_service.log = sentBytes i n sv.io_service.log
  seen : ∀ i n, sv'.io_service.Seen i n ↔ sv.io_service.Seen i n

/-- The service goes on without `send`. -/
theorem Silent.io {a : Action} {s : Service} (hk : Known sv)
    (hs : Iocp.step sv.io_service a = some s) (hsend : ∀ j m buf accepted, a ≠ .send j m buf accepted)
    (hlive : ∀ i n, s.Live i n → sv.io_service.Live i n) :
    Silent sv { sv with io_service := s } :=
  ⟨rfl, rfl, fun i n => (stepping hs).sentBytes_eq hsend i n,
    hk.service.seen_iff (stepping hs) hlive⟩

/-! ## Calls -/

/-- The lobby is called. It sends `out`, and has been handed the messages `pieces` before. -/
structure Turn (sv sv' : Program) (c : Lobby.Call) (env : Lobby.Env) (out : List Lobby.Sent)
    (pieces : List Piece) : Prop where
  lobby : Lobby.step sv.lobby (c, env) = some sv'.lobby
  mail : sv'.lobby.sent = sv.lobby.sent ++ out
  handed : sv'.handed = sv.handed ++ pieces
  sent : ∀ i n, sentBytes i n sv'.io_service.log = sentBytes i n sv.io_service.log ++
    if sv.io_service.Live i n then mailBytes i n out else []
  seen : ∀ i n, sv'.io_service.Seen i n ↔ sv.io_service.Seen i n

variable {c : Lobby.Call} {env : Lobby.Env} {out : List Lobby.Sent} {pieces : List Piece}

theorem Turn.silent (h : Turn sv sv₁ c env out pieces) (h' : Silent sv₁ sv') :
    Turn sv sv' c env out pieces where
  lobby := h'.lobby.symm ▸ h.lobby
  mail := h'.lobby.symm ▸ h.mail
  handed := h'.handed.trans h.handed
  sent i n := (h'.sent i n).trans (h.sent i n)
  seen i n := (h'.seen i n).trans (h.seen i n)

/-- **A call of the lobby**, and what the service is given in it. -/
theorem call_turn {posts : Nat → Bool} (hk : Known sv) (hsane : Sane sv.io_service)
    (hcall : sv.call c env posts = some sv') :
    ∃ out, Turn sv sv' c env out [] ∧ (∀ n, c = .onDisCon n → out = []) ∧
      (∀ i n, c = .onCon i n → out = []) := by
  obtain ⟨lobby, out, s, hlobby, hsent, hdis, hrun, rfl⟩ := call_cases hcall
  refine ⟨out, ⟨hlobby, hsent, (List.append_nil _).symm, fun i n =>
    sentBytes_sends hsane.alive.index_lt hrun, (Known.sends_seen hk.service hrun).2⟩, hdis, ?_⟩
  rintro i n rfl
  have hnone := (Lobby.step_onCon hlobby).2
  rw [hsent] at hnone
  exact List.append_right_eq_self.mp hnone

/-- A message is handed over, and taken off the buffer. -/
theorem message_turn {posts : Nat → Bool} {rest : List Frame} {body : Bytes} (hk : Known sv)
    (hsane : Sane sv.io_service) (hst : sv.io_service.stack = .onRead i n :: rest)
    (hm : NetEvent.message i n env posts sv body = some sv') :
    Known sv' ∧ ∃ out, Turn sv sv' (.onRead n body) env out [⟨i, n, body⟩] := by
  obtain ⟨sv₁, hcall, hmove⟩ := Option.bind_eq_some_iff.mp hm
  obtain ⟨s, hs, rfl⟩ := Option.map_eq_some_iff.mp hmove
  have hk₀ : Known (sv.hand ⟨i, n, body⟩) := hk.part hsane (.hand hst body)
  have hs₀ : Sane (sv.hand ⟨i, n, body⟩).io_service := hsane
  have hcalling : Calling (sv.hand ⟨i, n, body⟩).io_service.stack (.onRead n body) :=
    hst.symm ▸ .onRead i n rest body
  have hs₁ := (call_spec hs₀ hcall).1
  have hk₁ := hk₀.call hs₀ hcalling hcall
  obtain ⟨out, hturn, -, -⟩ := call_turn hk₀ hs₀ hcall
  have hpart : Part sv₁ { sv₁ with io_service := s } := .readMove hs
  have hmoved := hturn.silent (.io hk₁ hs nofun fun j m hl => hpart.live hs₁ hl)
  refine ⟨hk₁.part hs₁ hpart, out, hmoved.lobby, hmoved.mail, ?_, hmoved.sent, hmoved.seen⟩
  rw [hmoved.handed, List.append_nil]
  rfl

/-! ## Steps -/

/-- Nobody comes or goes. -/
structure Steady (sv sv' : Program) : Prop where
  live : ∀ i n, sv'.io_service.Live i n ↔ sv.io_service.Live i n
  onCon : ∀ i n, .onCon i n ∈ sv'.io_service.stack ↔ .onCon i n ∈ sv.io_service.stack

/-- What a step comes to: nothing that can be seen, a new socket, or one call of the lobby. -/
inductive Outcome (sv : Program) : Input → Program → Prop
  | quiet {a : Input} {sv' : Program} (ha : a.accepts = false)
      (h : Silent sv sv') (hsteady : Steady sv sv') : Outcome sv a sv'
  | accepted {sd : Nat} {loc rem : Addr} {bound : Bool} {s : Service}
      (hst : sv.io_service.stack = [])
      (hs : Iocp.step sv.io_service (.accept sd loc rem bound) = some s) :
      Outcome sv (.accept sd loc rem bound) { sv with io_service := s }
  | joined {env : Lobby.Env} {posts : Nat → Bool} {accepted : Bool} {sv' : Program} {i n : Nat}
      {rest : List Frame} (hst : sv.io_service.stack = .onCon i n :: rest)
      (h : Turn sv sv' (.onCon i n) env [] [])
      (hlive : ∀ j m, sv'.io_service.Live j m ↔ sv.io_service.Live j m)
      (honCon : ∀ j m, .onCon j m ∉ sv'.io_service.stack) :
      Outcome sv (.callback env posts accepted) sv'
  | left {env : Lobby.Env} {posts : Nat → Bool} {accepted : Bool} {sv' : Program} {i n : Nat}
      {rest : List Frame} (hst : sv.io_service.stack = .onDisCon i n :: rest)
      (h : Turn sv sv' (.onDisCon n) env [] [])
      (hlive : ∀ j m, sv'.io_service.Live j m ↔ j ≠ i ∧ sv.io_service.Live j m)
      (honCon : ∀ j m, .onCon j m ∉ sv'.io_service.stack) :
      Outcome sv (.callback env posts accepted) sv'
  | heard {env : Lobby.Env} {posts : Nat → Bool} {accepted : Bool} {sv' : Program} {i n : Nat}
      {rest : List Frame} {body : Bytes} {out : List Lobby.Sent}
      (hst : sv.io_service.stack = .onRead i n :: rest)
      (hbody : body ∈ (be16Format.takeOne (sv.io_service.readable i)).1)
      (h : Turn sv sv' (.onRead n body) env out [⟨i, n, body⟩]) (hsteady : Steady sv sv') :
      Outcome sv (.callback env posts accepted) sv'
  | processed {env : Lobby.Env} {posts : Nat → Bool} {sv' : Program} {out : List Lobby.Sent}
      (hst : sv.io_service.stack = []) (h : Turn sv sv' .process env out [])
      (hsteady : Steady sv sv') : Outcome sv (.process env posts) sv'

/-- A completion. -/
theorem dequeue_outcome {r : Request} {c : Completion} {accepted : Bool} (h : Fluent sv)
    (hs : Server.step sv (.dequeue r c accepted) = some sv') :
    Outcome sv (.dequeue r c accepted) sv' := by
  obtain ⟨sv₁, hstep, rfl⟩ := Option.map_eq_some_iff.mp hs
  obtain ⟨s, hio, rfl⟩ := Option.map_eq_some_iff.mp hstep
  obtain ⟨-, hstand, hst, hno⟩ := dequeued h.wired.sane hio
  have hsilent := Silent.io h.known hio nofun fun i n => (hstand.live i n).mp
  obtain ⟨hservice, hlobby, hhanded, -⟩ := receive_fields r c { sv with io_service := s }
  refine .quiet rfl ⟨?_, ?_, ?_, ?_⟩ ⟨?_, fun i n => ?_⟩
  · rw [hlobby]
  · rw [hhanded]
  · rw [hservice]
    exact hsilent.sent
  · rw [hservice]
    exact hsilent.seen
  · rw [hservice]
    exact hstand.live
  · rw [hservice, hst]
    exact iff_of_false (hno i n) List.not_mem_nil

/-- Below a callback there are handlers only. -/
theorem no_onCon {f : Frame} {rest : List Frame} (hsane : Sane sv.io_service)
    (hst : sv.io_service.stack = f :: rest) {stack : List Frame}
    (hstack : stack = rest ∨ stack = .onDisCon i n :: rest) (j m : Nat) : .onCon j m ∉ stack := by
  have hflat := hsane.flat
  rw [hst, List.tail_cons] at hflat
  have hrest : .onCon j m ∉ rest := fun hm => nomatch hflat _ hm
  rcases hstack with rfl | rfl
  · exact hrest
  · intro hm
    rcases List.mem_cons.mp hm with hm | hm
    · cases hm
    · exact hrest hm

/-- **A callback** calls the lobby, unless it is an `onRead` that finds no message. -/
theorem callback_outcome {posts : Nat → Bool} {accepted : Bool} (h : Fluent sv)
    (hc : Server.callback env posts accepted sv = some sv') :
    Outcome sv (.callback env posts accepted) sv' := by
  have hsane := h.wired.sane
  unfold Server.callback at hc
  split at hc
  · next i n rest hst =>
    obtain ⟨sv₁, hcall, hio⟩ := Option.bind_eq_some_iff.mp hc
    obtain ⟨hs₁, hst₁, hstack₁, -⟩ := call_spec hsane hcall
    have hk₁ := h.known.call hsane (hst.symm ▸ .onCon i n rest) hcall
    obtain ⟨out, hturn, -, hout⟩ := call_turn h.known hsane hcall
    obtain rfl := hout i n rfl
    obtain ⟨s, hs, rfl⟩ := Option.map_eq_some_iff.mp hio
    obtain ⟨-, hst₂, hstack₂⟩ := returned hs₁ (hstack₁.trans hst) (Or.inl rfl) (Int.le_refl 0) hs
    exact .joined hst (hturn.silent (.io hk₁ hs nofun fun j m => (hst₂.live j m).mp))
      ((hst₁.trans hst₂).live) (no_onCon hsane hst hstack₂)
  · next i n rest hst =>
    obtain ⟨sv₁, hcall, hio⟩ := Option.bind_eq_some_iff.mp hc
    obtain ⟨hs₁, hst₁, hstack₁, -⟩ := call_spec hsane hcall
    have hk₁ := h.known.call hsane (hst.symm ▸ .onDisCon i n rest) hcall
    obtain ⟨out, hturn, hout, -⟩ := call_turn h.known hsane hcall
    obtain rfl := hout n rfl
    obtain ⟨s, hs, rfl⟩ := Option.map_eq_some_iff.mp hio
    obtain ⟨-, -, hlive, -, hstack₂⟩ := disconnected hs₁ (hstack₁.trans hst) hs
    refine .left hst (hturn.silent (.io hk₁ hs nofun fun j m hl => ((hlive j m).mp hl).2))
      (fun j m => ?_) (no_onCon (i := i) (n := n) hsane hst (Or.inl hstack₂))
    rw [← hst₁.live j m]
    exact hlive j m
  · next i n rest hst =>
    obtain ⟨⟨ret, sv₁⟩, hread, hio⟩ := Option.bind_eq_some_iff.mp hc
    obtain ⟨s, hs, rfl⟩ := Option.map_eq_some_iff.mp hio
    have hl : sv.io_service.Live i n := by
      rcases hsane.calling (.onRead i n) (hst ▸ List.mem_cons_self) with ⟨r, hr⟩ | hl
      · cases hr
      · exact hl
    have hnone : ∀ j m, .onCon j m ∉ sv.io_service.stack := by
      intro j m hm
      rw [hst] at hm
      rcases List.mem_cons.mp hm with hm | hm
      · cases hm
      · have hflat := hsane.flat
        rw [hst, List.tail_cons] at hflat
        exact nomatch hflat _ hm
    unfold NetEvent.onRead at hread
    obtain ⟨c', hc', -, hhanded, -⟩ := Net.onRead_spec
      (c := ⟨(sv.io_service.m_peer_array i).read_buf, []⟩) (h.parsing i n hl).intake.valid
    rw [hc'] at hread
    rw [List.nil_append] at hhanded
    obtain ⟨sv₂, hmessages, heq⟩ := Option.map_eq_some_iff.mp hread
    obtain ⟨rfl, rfl⟩ := Prod.mk.inj heq
    have hinside := h.wired.messages hst hmessages
    obtain ⟨-, hst₂, hstack₂⟩ := returned hinside.wired.sane (hinside.stack.trans hst) (Or.inr rfl)
      (Int.le_refl 0) hs
    have hsteady : Steady sv { sv₂ with io_service := s } :=
      ⟨(hinside.standing.trans hst₂).live,
        fun j m => iff_of_false (no_onCon hsane hst hstack₂ j m) (hnone j m)⟩
    have hreturn : Known sv₂ → Silent sv₂ { sv₂ with io_service := s } := fun hk =>
      .io hk hs nofun fun j m => (hst₂.live j m).mp
    have htake : ∀ body, body ∈ c'.handed →
        body ∈ (be16Format.takeOne (sv.io_service.readable i)).1 := fun body hb => hhanded ▸ hb
    have hone : c'.handed = [] ∨ ∃ body, c'.handed = [body] := by
      rw [hhanded]
      unfold FrameFormat.takeOne
      split
      · exact Or.inr ⟨_, rfl⟩
      · exact Or.inl rfl
    rcases hone with hnil | ⟨body, hbody⟩
    · rw [hnil] at hmessages
      obtain rfl := Option.some.inj hmessages
      exact .quiet rfl (hreturn h.known) hsteady
    · rw [hbody] at hmessages
      obtain ⟨sv₃, hmessage, hdone⟩ := Option.bind_eq_some_iff.mp hmessages
      obtain rfl := Option.some.inj hdone
      obtain ⟨hk, out, hturn⟩ := message_turn h.known hsane hst hmessage
      exact .heard hst (htake body (hbody ▸ List.mem_cons_self)) (hturn.silent (hreturn hk)) hsteady
  · cases hc

/-- **What a step comes to.** -/
theorem step_outcome {a : Input} (h : Fluent sv) (hs : Server.step sv a = some sv') :
    Outcome sv a sv' := by
  cases a with
  | accept sd loc rem bound =>
    obtain ⟨s, hio, rfl⟩ := Option.map_eq_some_iff.mp hs
    refine .accepted ?_ hio
    simp only [Iocp.step, Option.ite_none_right_eq_some] at hio
    exact hio.1.2
  | dequeue r c accepted => exact dequeue_outcome h hs
  | finish =>
    obtain ⟨s, hio, rfl⟩ := Option.map_eq_some_iff.mp hs
    obtain ⟨-, hstand, r, hstack⟩ := finished h.wired.sane hio
    refine .quiet rfl (.io h.known hio ?_ fun i n => (hstand.live i n).mp)
      ⟨hstand.live, fun i n => ?_⟩
    · rintro _ _ _ _ ⟨⟩
    · rw [hstack]
      simp
  | callback env posts accepted => exact callback_outcome h hs
  | process env posts =>
    simp only [Server.step, Option.ite_none_right_eq_some] at hs
    obtain ⟨hs₁, hst₁, hstack₁, -⟩ := call_spec h.wired.sane hs.2
    obtain ⟨out, hturn, -, -⟩ := call_turn h.known h.wired.sane hs.2
    exact .processed hs.1.2 hturn ⟨hst₁.live, fun i n => by rw [hstack₁]⟩

/-- Nothing is taken back, and only a new socket is announced. -/
theorem Outcome.onwards {a : Input} (h : Outcome sv a sv') (ha : a.accepts = false) (i n : Nat) :
    sentBytes i n sv.io_service.log <+: sentBytes i n sv'.io_service.log ∧
      (sv'.io_service.Seen i n ↔ sv.io_service.Seen i n) := by
  have hturn : ∀ {c env out pieces}, Turn sv sv' c env out pieces →
      sentBytes i n sv.io_service.log <+: sentBytes i n sv'.io_service.log ∧
        (sv'.io_service.Seen i n ↔ sv.io_service.Seen i n) := fun ht =>
    ⟨ht.sent i n ▸ List.prefix_append _ _, ht.seen i n⟩
  cases h with
  | quiet _ hsilent _ => exact ⟨hsilent.sent i n ▸ List.prefix_rfl, hsilent.seen i n⟩
  | accepted => cases ha
  | joined _ ht | left _ ht | heard _ _ ht | processed _ ht => exact hturn ht

/-! ## What was received -/

theorem io_received {a : Action} (h : sv.io a = some sv') : sv'.received = sv.received := by
  obtain ⟨s, -, rfl⟩ := Option.map_eq_some_iff.mp h
  rfl

theorem messages_received {posts : Nat → Bool} {bodies : List Bytes}
    (h : bodies.foldlM (NetEvent.message i n env posts) sv = some sv') :
    sv'.received = sv.received := by
  induction bodies generalizing sv with
  | nil =>
    obtain rfl := Option.some.inj h
    rfl
  | cons body bodies ih =>
    rw [List.foldlM_cons] at h
    obtain ⟨sv₁, h1, h⟩ := Option.bind_eq_some_iff.mp h
    obtain ⟨sv₂, hcall, hio⟩ := Option.bind_eq_some_iff.mp h1
    exact (ih h).trans ((io_received hio).trans (call_unread (i := i) hcall).1.received)

/-- Only a completion brings anything. -/
theorem step_received {a : Input} (ha : ∀ r c accepted, a ≠ .dequeue r c accepted)
    (hs : Server.step sv a = some sv') : sv'.received = sv.received := by
  cases a with
  | accept | finish => exact io_received hs
  | dequeue r c accepted => exact absurd rfl (ha r c accepted)
  | process env posts =>
    simp only [Server.step, Option.ite_none_right_eq_some] at hs
    exact (call_unread (i := 0) hs.2).1.received
  | callback env posts accepted =>
    unfold Server.step Server.callback at hs
    dsimp only at hs
    split at hs
    · obtain ⟨sv₁, hcall, hio⟩ := Option.bind_eq_some_iff.mp hs
      exact (io_received hio).trans (call_unread (i := 0) hcall).1.received
    · obtain ⟨sv₁, hcall, hio⟩ := Option.bind_eq_some_iff.mp hs
      exact (io_received hio).trans (call_unread (i := 0) hcall).1.received
    · obtain ⟨⟨ret, sv₁⟩, hread, hio⟩ := Option.bind_eq_some_iff.mp hs
      unfold NetEvent.onRead at hread
      split at hread
      · cases hread
      · obtain ⟨sv₂, hmessages, heq⟩ := Option.map_eq_some_iff.mp hread
        obtain ⟨rfl, rfl⟩ := Prod.mk.inj heq
        exact (io_received hio).trans (messages_received hmessages)
    · cases hs

end GhNet.Server
