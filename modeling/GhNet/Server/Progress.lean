import GhNet.Iocp.Progress
import GhNet.Server.Delivery

/-!
# The server goes on

Safety does not say that anything happens. Here it is shown that nothing of a connection comes to a
stop: in every run of the program, wherever nothing is running, an open connection is still heard,
and what the lobby has sent to it leaves with the next two completions of its write requests.
-/

namespace GhNet.Server

open GhNet GhNet.Net Iocp Iocp.Service

variable {sv sv' : Program} {i n : Nat}

/-! ## The invariant -/

/-- Every connection of the service is heard, and none is left with something to send. -/
structure Lively (s : Service) : Prop where
  attended : ∀ i n, Attended i n s
  resting : ∀ i n, Resting i n s

namespace Lively

variable {s s' : Service}

theorem new : Lively Service.new :=
  ⟨fun _ _ hc => absurd rfl hc.1.1, fun _ _ _ hc => absurd rfl hc.1.1⟩

theorem io {a : Action} (h : Lively s) (hflows : Flows s) (hsane : Sane s) (ha : Served s a)
    (hclean : a.registers = true → Clean s s') (hs : Iocp.step s a = some s') : Lively s' :=
  ⟨fun i n => (h.attended i n).step hsane.flat ha hclean hs,
    fun i n => (h.resting i n).step (hflows i n) hsane.alive.index_lt hsane.flat ha hclean hs⟩

/-- The calls of `send`, from where no connection is being closed. -/
theorem sends {posts : Nat → Bool} {sent : List Lobby.Sent} (h : Lively s) (hflows : Flows s)
    (hsane : Sane s) (hopen : ∀ i n, .onDisCon i n ∉ s.stack)
    (hrun : exec Iocp.step s (Program.sends posts sent) = some s') : Lively s' := by
  refine (Program.sends_induction
    (R := fun s s' => (∀ i n, .onDisCon i n ∉ s.stack) → Sane s → Flows s → Lively s →
      Lively s' ∧ Flows s' ∧ Sane s' ∧ s'.stack = s.stack)
    (fun s _ hsane hflows h => ⟨h, hflows, hsane, rfl⟩)
    (fun s t u h1 h2 hopen hsane hflows h => ?_)
    (fun s t j m buf accepted hs hopen hsane hflows h => ?_) hrun hopen hsane hflows h).1
  · obtain ⟨ht, hflows, hsane, hstack⟩ := h1 hopen hsane hflows h
    obtain ⟨hu, hflows, hsane, hstack'⟩ := h2 (hstack ▸ hopen) hsane hflows ht
    exact ⟨hu, hflows, hsane, hstack'.trans hstack⟩
  · have ha : Served s (.send j m buf accepted) := hopen
    have hclean : Action.registers (.send j m buf accepted) = true → Clean s t := nofun
    refine ⟨h.io hflows hsane ha hclean hs, hflows.io hsane ha hclean hs, ?_⟩
    cases stepping hs with
    | send _ hsend =>
      have hord : Orderly s (.send j m buf accepted) := trivial
      exact ⟨hsane.same (hsane.alive.step hord hs) (.sending hsend) hsend.stack_eq, hsend.stack_eq⟩

/-- **Every part of a step keeps the service lively.** -/
theorem part (h : Lively sv.io_service) (hflows : Flows sv.io_service)
    (hsane : Sane sv.io_service) (hp : Part sv sv') : Lively sv'.io_service := by
  have hio : ∀ {a s}, Iocp.step sv.io_service a = some s → a.registers = false →
      Served sv.io_service a → Lively s := fun hs hreg ha =>
    h.io hflows hsane ha (fun hacc => by rw [hreg] at hacc; cases hacc) hs
  cases hp with
  | @dequeue r c accepted s hs =>
    rw [(receive_fields r c { sv with io_service := s }).1]
    exact hio hs rfl trivial
  | finish hs | readMove hs => exact hio hs rfl trivial
  | return_ hs => exact hio hs rfl (Int.le_refl 0)
  | hand _ _ => exact h
  | @call c _ _ _ hc hcall =>
    obtain ⟨lobby, out, s, -, -, hdis, hrun, rfl⟩ := call_cases hcall
    by_cases hleave : ∃ n, c = .onDisCon n
    · obtain ⟨n, rfl⟩ := hleave
      rw [hdis n rfl] at hrun
      obtain rfl := Option.some.inj hrun
      exact h
    · exact h.sends hflows hsane (hc.open_ hsane.flat fun n heq => hleave ⟨n, heq⟩) hrun

/-- **Every step of the server keeps the service lively.** -/
theorem step {a : Input} (h : Lively sv.io_service) (hfluent : Fluent sv) (hfresh : Fresh sv a)
    (hs : Server.step sv a = some sv') : Lively sv'.io_service := by
  cases ha : a.accepts with
  | true =>
    cases a with
    | accept sd loc rem bound =>
      obtain ⟨s, hio, rfl⟩ := Option.map_eq_some_iff.mp hs
      have ha : Served sv.io_service (.accept sd loc rem bound) := trivial
      exact h.io hfluent.outbox.flows hfluent.wired.sane ha
        (fun _ => Clean.of_slot hfluent.known.service hfresh.2 hio) hio
    | dequeue | finish | callback | process => cases ha
  | false =>
    refine ((step_parts hfluent.wired ha hs).invariant
      (P := fun t => Outbox t ∧ Lively t.io_service) ⟨hfluent.outbox, h⟩
      fun t u hsane ht hp => ⟨ht.1.part hsane hp, ht.2.part ht.1.flows hsane hp⟩).2

theorem of_reach (hr : Reach (· = Program.new) Server.step Fresh sv) : Lively sv.io_service := by
  refine (hr.invariant (fun sv => Fluent sv ∧ Lively sv.io_service) ?_
    fun _ _ _ h hfresh hs => ⟨h.1.step hfresh hs, h.2.step h.1 hfresh hs⟩).2
  rintro sv rfl
  exact ⟨.new, .new⟩

end Lively

/-! ## What is outstanding completes -/

/-- The completions of `rs` in full, each of them handled to its end. -/
def completions (rs : List Request) : List Input :=
  rs.flatMap fun r => [.dequeue r (.success r.full []) true, .finish]

/-- The server does what its service does, and the lobby has no part in it. -/
theorem exec_completions {rs : List Request} {s' : Service}
    (h : exec Iocp.step sv.io_service (rs.flatMap completed) = some s') :
    ∃ sv', exec Server.step sv (completions rs) = some sv' ∧ sv'.io_service = s' ∧
      sv'.lobby = sv.lobby := by
  induction rs generalizing sv with
  | nil => exact ⟨sv, rfl, Option.some.inj h, rfl⟩
  | cons r rs ih =>
    rw [List.flatMap_cons, exec_append] at h
    obtain ⟨s₂, hfirst, hrest⟩ := Option.bind_eq_some_iff.mp h
    obtain ⟨s₁, hdeq, hfinish⟩ := exec_uncons hfirst
    obtain ⟨t, hfin, ht⟩ := exec_uncons hfinish
    obtain rfl := Option.some.inj ht
    obtain ⟨hio, hlobby, -⟩ := receive_fields r (.success r.full []) { sv with io_service := s₁ }
    generalize hsv₁ : Program.receive r (.success r.full []) { sv with io_service := s₁ } = sv₁
      at hio hlobby
    have hstep₁ : Server.step sv (.dequeue r (.success r.full []) true) = some sv₁ := by
      rw [Server.step, Program.io, hdeq]
      exact congrArg some hsv₁
    have hstep₂ : Server.step sv₁ .finish = some { sv₁ with io_service := t } := by
      rw [Server.step, Program.io, hio, hfin]
      rfl
    obtain ⟨sv', hrun, hservice, hsame⟩ := @ih { sv₁ with io_service := t } hrest
    refine ⟨sv', ?_, hservice, hsame.trans hlobby⟩
    rw [completions, List.flatMap_cons]
    exact (exec_cons hstep₁).trans ((exec_cons hstep₂).trans hrun)

/-! ## What a connection can count on -/

/-- **No connection is forgotten**: wherever nothing is running, an open connection has a `WSARecv`
outstanding, and up to 512 bytes that complete it reach `onRead` behind what is still readable. -/
theorem stays_receptive (hr : Reach (· = Program.new) Server.step Fresh sv)
    (hidle : sv.io_service.stack = []) (hcalm : sv.io_service.Calm i n) :
    ∃ r ∈ sv.io_service.pendingReads i, r.serial = n ∧ ∀ bytes : Bytes, bytes ≠ [] →
      bytes.length ≤ 512 → ∃ sv',
        Server.step sv (.dequeue r (.success bytes.length bytes) true) = some sv' ∧
        sv'.io_service.stack = [.onRead i n, .tick r] ∧ sv'.io_service.Calm i n ∧
        sv'.io_service.readable i = sv.io_service.readable i ++ bytes ∧
        sv'.received = sv.received ++ [⟨i, n, bytes⟩] ∧ sv'.lobby = sv.lobby := by
  obtain ⟨r, hr', hser, hears⟩ := ((Lively.of_reach hr).attended i n).hears hidle hcalm
  refine ⟨r, hr', hser, fun bytes hne hle => ?_⟩
  obtain ⟨s', hs, hstack, hcalm', hread⟩ := hears bytes hne hle
  obtain ⟨-, hi, hop⟩ : r ∈ sv.io_service.posted ∧ r.index = i ∧ r.io_operation = .ClientIoRead := by
    simpa [pendingReads] using hr'
  refine ⟨{ sv with io_service := s', received := sv.received ++ [⟨i, n, bytes⟩] }, ?_, hstack,
    hcalm', hread, rfl, rfl⟩
  rw [Server.step, Program.io, hs, Option.map_some, Option.map_some]
  unfold Program.receive
  rw [hop, hi, hser]

/-- **What the lobby has sent leaves**: wherever nothing is running, the next two completions of
an open connection's `WSASend`s transmit all that was sent to it. -/
theorem drains_mail (hr : Reach (· = Program.new) Server.step Fresh sv)
    (hidle : sv.io_service.stack = []) (hcalm : sv.io_service.Calm i n)
    (hlen : (mailBytes i n sv.lobby.sent).length < 2 ^ 30) :
    ∃ (rs : List Request) (sv' : Program), rs.length ≤ 2 ∧
      exec Server.step sv (completions rs) = some sv' ∧ sv'.io_service.stack = [] ∧
      sv'.io_service.Calm i n ∧ sv'.lobby = sv.lobby ∧
      transmittedBytes i n sv'.io_service.log = mailBytes i n sv.lobby.sent := by
  have hfluent := Fluent.of_reach hr
  have hmail := hfluent.outbox.mail i n hcalm.1
  obtain ⟨rs, s', htwo, hrun, hst, hcalm', -, htrans⟩ := (hfluent.outbox.flows i n).drains
    ((Lively.of_reach hr).resting i n) (hmail ▸ hlen)
    (hfluent.wired.sane.alive.index_lt hcalm.1) hidle hcalm
  obtain ⟨sv', hexec, rfl, hlobby⟩ := exec_completions hrun
  exact ⟨rs, sv', htwo, hexec, hst, hcalm', hlobby, htrans.trans hmail⟩

/-- A client says that it is there, and the lobby answers. -/
def keptAlive : List Input :=
  [.callback Lobby.Env.zero (fun _ => true) true,
    .dequeue firstRequest (.success 8 [0, 6, 0, 8, 1, 2, 3, 4]) true,
    .callback Lobby.Env.zero (fun _ => true) true, .finish]

theorem keptAlive_runs : (exec Server.step acceptedProgram keptAlive).isSome = true := by
  decide +kernel

/-- The answer waits to be sent. -/
def answering : Program := (exec Server.step acceptedProgram keptAlive).get keptAlive_runs

theorem reach_answering : Reach (· = Program.new) Server.step Fresh answering :=
  Reach.of_exec reach_accepted (by decide +kernel) (Option.some_get keptAlive_runs).symm

theorem stays_receptive_answering : ∃ r ∈ answering.io_service.pendingReads 0, r.serial = 0 ∧
    ∃ sv', Server.step answering (.dequeue r (.success 2 [0, 0]) true) = some sv' ∧
      sv'.io_service.stack = [.onRead 0 0, .tick r] := by
  obtain ⟨r, hr, hser, hears⟩ := stays_receptive reach_answering (i := 0) (n := 0)
    (by decide +kernel) ⟨by decide +kernel, by decide +kernel, by decide +kernel⟩
  obtain ⟨sv', hs, hstack, -⟩ := hears [0, 0] (by decide) (by decide)
  exact ⟨r, hr, hser, sv', hs, hstack⟩

theorem drains_mail_answering :
    transmittedBytes 0 0 answering.io_service.log = [] ∧
      ∃ (rs : List Request) (sv' : Program), rs.length ≤ 2 ∧
        exec Server.step answering (completions rs) = some sv' ∧
        transmittedBytes 0 0 sv'.io_service.log = [0, 6, 0, 9, 1, 2, 3, 4] := by
  have hmail : mailBytes 0 0 answering.lobby.sent = [0, 6, 0, 9, 1, 2, 3, 4] := by decide +kernel
  obtain ⟨rs, sv', htwo, hrun, -, -, -, hall⟩ := drains_mail reach_answering (i := 0) (n := 0)
    (by decide +kernel) ⟨by decide +kernel, by decide +kernel, by decide +kernel⟩
    (by decide +kernel)
  exact ⟨by decide +kernel, rs, sv', htwo, hrun, hall.trans hmail⟩

end GhNet.Server
