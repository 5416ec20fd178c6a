import GhNet.Iocp.Faults
import GhNet.Lobby.Total
import GhNet.Server.Progress

/-!
# What ends the server

`main` catches nothing, so one exception ends the server for all of its connections. No client can
bring one about: whatever the messages are, however they are split, and whenever connections come
and go, every callback of the service comes back, as long as less than half a gigabyte has been sent
to and received from each connection. What ends the server is a socket that comes while the table is
full or that is not bound, a signal that is not posted, and a completion with an unknown error.
-/

namespace GhNet.Server

open GhNet GhNet.Net Iocp Iocp.Service

variable {sv sv' : Program} {i n : Nat}

/-! ## What the lobby sends -/

section Sends

variable {s s' : Service}

/-- A message is given to the service. -/
theorem send_survives {j m : Nat} {buf : Bytes} (hu : s.userRuns = true)
    (hlen : buf.length < 2 ^ 32) (hj : j < MAX_PEER_NUM) (hflow : Flowing j m s)
    (hopen : .onDisCon j m ∉ s.stack)
    (hroom : s.Live j m → (sentBytes j m s.log).length + buf.length < 2 ^ 30) :
    ∃ s', Iocp.step s (.send j m buf true) = some s' ∧ s'.thrown = none := by
  have hthrown := thrown_of_userRuns hu
  refine ⟨s.send j m buf true, by rw [Iocp.step, if_pos ⟨hu, hlen⟩], ?_⟩
  refine ((send_outcome s j m buf true).thrown_eq hj fun hl => ?_).trans hthrown
  have hstream := (hflow (by have := hroom hl; omega)).2 ⟨hl, hthrown, hopen⟩
  have hindex : _ ≤ (sentBytes j m s.log).length := hstream.backup_index
  have hsum := hroom hl
  exact ⟨hstream.backup_valid, by omega⟩

/-- **All that a call of the lobby sends is given to the service**, if the signals are posted. -/
theorem sends_survive {posts : Nat → Bool} (hposts : ∀ k, posts k = true) {out : List Lobby.Sent}
    (hu : s.userRuns = true) (hlive : ∀ {i n}, s.Live i n → i < MAX_PEER_NUM) (hflows : Flows s)
    (hopen : ∀ i n, .onDisCon i n ∉ s.stack)
    (hout : ∀ m ∈ out, m.index < MAX_PEER_NUM ∧ m.bytes.length < 2 ^ 32)
    (hroom : ∀ i n, s.Live i n →
      (sentBytes i n s.log).length + (mailBytes i n out).length < 2 ^ 30) :
    ∃ s', exec Iocp.step s (Program.sends posts out) = some s' ∧ s'.thrown = none := by
  induction out generalizing posts s with
  | nil => exact ⟨s, rfl, thrown_of_userRuns hu⟩
  | cons m out ih =>
    obtain ⟨hindex, hlen⟩ := hout m List.mem_cons_self
    have hown : s.Live m.index m.serial → mailBytes m.index m.serial (m :: out)
        = m.bytes ++ mailBytes m.index m.serial out := by
      intro _
      rw [mailBytes, mailFor, List.filter_cons_of_pos (by simp)]
      rfl
    obtain ⟨t, hs, hthrown⟩ := send_survives (m := m.serial) hu hlen hindex
      (hflows m.index m.serial) (hopen _ _) fun hl => by
        have hroom := hroom m.index m.serial hl
        rw [hown hl, List.length_append] at hroom
        omega
    have hsend : Sending s m.index m.serial m.bytes true t := by
      cases stepping hs with
      | send _ h => exact h
    have hstand := Standing.sending hsend
    have ht : t.userRuns = true := by
      unfold userRuns at hu ⊢
      rw [hsend.stack_eq, hthrown]
      rwa [thrown_of_userRuns hu] at hu
    obtain ⟨s', hrun, hsafe⟩ := ih (fun k => hposts (k + 1)) ht
      (fun hl => hlive ((hstand.live _ _).mp hl)) (fun i n => (hflows i n).send (hopen i n) hs)
      (hsend.stack_eq ▸ hopen) (fun q hq => hout q (List.mem_cons_of_mem m hq)) fun i n hl => by
        have hl := (hstand.live i n).mp hl
        have hroom := hroom i n hl
        rw [sentBytes_send hlive hsend, List.length_append]
        rw [mailBytes, mailFor, List.filter_cons] at hroom
        by_cases hm : m.index = i ∧ m.serial = n
        · rw [if_pos (decide_eq_true hm), List.flatMap_cons, List.length_append] at hroom
          rw [if_pos ⟨hl, hm⟩]
          exact (Nat.add_assoc _ _ _).trans_lt hroom
        · rw [if_neg (by simpa using hm)] at hroom
          rw [if_neg fun h => hm h.2]
          exact hroom
    refine ⟨s', ?_, hsafe⟩
    rw [Program.sends, List.mapIdx_cons, hposts 0, exec_cons hs]
    exact hrun

end Sends

/-! ## Calls of the lobby -/

/-- Less than half a gigabyte was sent to a connection, and received from it. -/
def Modest (sv : Program) : Prop :=
  ∀ i n, (mailBytes i n sv.lobby.sent).length < 2 ^ 29 ∧
    (piecesOf i n sv.received).flatten.length < 2 ^ 29

/-- Two frames are not long. -/
theorem length_mailBytes_le {out : List Lobby.Sent} (hout : ∀ m ∈ out, Lobby.Frame m.bytes) :
    (mailBytes i n out).length ≤ (out.map Lobby.Sent.serial).count n * (2 ^ 16 + 2) := by
  induction out with
  | nil => exact Nat.zero_le _
  | cons m out ih =>
    have ih := ih fun q hq => hout q (List.mem_cons_of_mem m hq)
    obtain ⟨body, hbytes, hlen⟩ := hout m List.mem_cons_self
    have hframe : m.bytes.length ≤ 2 ^ 16 + 2 := by
      rw [hbytes, List.length_append, length_be16]
      omega
    rw [List.map_cons, List.count_cons]
    rw [mailBytes, mailFor, List.filter_cons]
    by_cases hm : m.index = i ∧ m.serial = n
    · rw [if_pos (decide_eq_true hm), List.flatMap_cons, List.length_append, hm.2, if_pos (by simp)]
      have hrest : ((out.filter fun m => m.index = i ∧ m.serial = n).flatMap
        Lobby.Sent.bytes).length ≤ _ := ih
      omega
    · rw [if_neg (by simpa using hm)]
      have hrest : ((out.filter fun m => m.index = i ∧ m.serial = n).flatMap
        Lobby.Sent.bytes).length ≤ _ := ih
      exact hrest.trans (Nat.mul_le_mul_right _ (Nat.le_add_right _ _))

/-- Where the lobby is called, no exception is in flight and no completion is being handled. -/
theorem Calling.userRuns {s : Service} {c : Lobby.Call} (hc : Calling s.stack c)
    (hthrown : s.thrown = none) : s.userRuns = true := by
  unfold Service.userRuns
  rw [hthrown]
  generalize s.stack = stack at hc
  cases hc <;> rfl

/-- **A call of the lobby comes back**, if it is none in which the lobby ends the program and the
signals for what is sent are posted. -/
theorem call_survives (env : Lobby.Env) {c : Lobby.Call} {posts : Nat → Bool}
    (hreach : Lobby.Reachable sv.lobby) (hsane : Sane sv.io_service) (hbox : Outbox sv)
    (hc : Calling sv.io_service.stack c) (hthrown : sv.io_service.thrown = none)
    (hends : ¬Lobby.Ends sv.lobby c)
    (hbody : ∀ serial body, c = .onRead serial body → body.length < 2 ^ 16)
    (hposts : ∀ k, posts k = true)
    (hmodest : ∀ i n, (mailBytes i n sv.lobby.sent).length < 2 ^ 29) :
    ∃ sv', sv.call c env posts = some sv' ∧ sv'.io_service.thrown = none := by
  obtain ⟨lobby, hlobby, out, hsent, hfew⟩ := Lobby.step_total env hreach hends hbody
  have hframes : ∀ m ∈ out, Lobby.Frame m.bytes ∧ m.index < MAX_PEER_NUM := by
    by_cases hcon : ∃ index serial, c = .onCon index serial
    · obtain ⟨index, serial, rfl⟩ := hcon
      have hnone := (Lobby.step_onCon hlobby).2
      rw [hsent, List.append_right_eq_self] at hnone
      rw [hnone]
      nofun
    · have hmails := Lobby.step_mails (fun index serial h => hcon ⟨index, serial, h⟩) hlobby
      obtain ⟨out', hsent', hout⟩ := hmails.sent
      obtain rfl := List.append_cancel_left (hsent.symm.trans hsent')
      intro m hm
      obtain ⟨hframe, hhandle⟩ := hout m hm
      obtain ⟨player, hplayer, heq⟩ := List.mem_map.mp hhandle
      have hindex : player.m_index = m.index := congrArg Prod.fst heq
      exact ⟨hframe, hindex ▸ (hreach.equipped player hplayer).1⟩
  have hrun : ∃ s, exec Iocp.step sv.io_service (Program.sends posts out) = some s ∧
      s.thrown = none := by
    by_cases hleave : ∃ n, c = .onDisCon n
    · obtain ⟨n, rfl⟩ := hleave
      have hnone := (Lobby.step_onDisCon hlobby).2
      rw [hsent, List.append_right_eq_self] at hnone
      rw [hnone]
      exact ⟨sv.io_service, rfl, hthrown⟩
    · refine sends_survive hposts (hc.userRuns hthrown) hsane.alive.index_lt hbox.flows
        (hc.open_ hsane.flat fun n heq => hleave ⟨n, heq⟩) (fun m hm => ?_) fun i n hl => ?_
      · obtain ⟨⟨body, hbytes, hlen⟩, hindex⟩ := hframes m hm
        refine ⟨hindex, ?_⟩
        rw [hbytes, List.length_append, length_be16]
        omega
      · rw [hbox.mail i n hl]
        have hmodest := hmodest i n
        have hout := length_mailBytes_le (i := i) (n := n) fun m hm => (hframes m hm).1
        have hfew := Nat.mul_le_mul_right (2 ^ 16 + 2) (hfew n)
        omega
  obtain ⟨s, hs, hsafe⟩ := hrun
  refine ⟨{ sv with io_service := s, lobby := lobby }, ?_, hsafe⟩
  unfold Program.call
  rw [hlobby, Option.bind_eq_bind, Option.bind_some, hsent, List.drop_left, hs]
  rfl

/-- A call does not catch an exception. -/
theorem call_thrown {c : Lobby.Call} {env : Lobby.Env} {posts : Nat → Bool}
    (hcall : sv.call c env posts = some sv') (hthrown : sv'.io_service.thrown = none) :
    sv.io_service.thrown = none := by
  obtain ⟨lobby, out, s, -, -, -, hrun, rfl⟩ := call_cases hcall
  exact Program.sends_induction (R := fun s s' => s'.thrown = none → s.thrown = none)
    (fun _ => id) (fun _ _ _ h1 h2 h => h1 (h2 h)) (fun _ _ _ _ _ _ hsend _ => by
      cases stepping hsend with
      | send hu _ => exact thrown_of_userRuns hu) hrun hthrown

/-! ## What is kept -/

/-- What the callbacks rely on: the lobby is one that calls lead to, and a read buffer is not filled
further than with all that was received. -/
structure Grounded (sv : Program) : Prop where
  lobby : Lobby.Reachable sv.lobby
  regular : sv.io_service.Regular
  filled : ∀ i n, sv.io_service.Calm i n → (piecesOf i n sv.received).flatten.length < 2 ^ 30 →
    sv.io_service.fill i ≤ (piecesOf i n sv.received).flatten.length

namespace Grounded

theorem new : Grounded Program.new := ⟨.start rfl, nofun, fun _ _ hc => absurd rfl hc.1.1⟩

/-- A step of the service, with what it brings. -/
theorem io {a : Action} {s : Service} {received : List Piece} (h : Grounded sv)
    (hlively : Lively sv.io_service) (hsane : Sane sv.io_service) (ha : Served sv.io_service a)
    (hs : Iocp.step sv.io_service a = some s)
    (hbrings : ∀ i n, sv.io_service.Calm i n → (piecesOf i n received).flatten
      = (piecesOf i n sv.received).flatten ++ a.brings i) :
    Grounded { sv with io_service := s, received := received } where
  lobby := h.lobby
  regular := h.regular.step hsane.alive.index_lt (stepping hs)
  filled i n hc hlen := by
    have hroom : sv.io_service.Calm i n → sv.io_service.fill i + 512 < 2 ^ 31 := by
      intro hcalm
      rw [hbrings i n hcalm, List.length_append] at hlen
      have hfill := h.filled i n hcalm (by omega)
      omega
    rcases fill_step (hlively.attended i n) hc ha hsane.flat hroom hs with hzero | ⟨hcalm, hfill⟩
    · rw [hzero]
      exact Nat.zero_le _
    · rw [hbrings i n hcalm, List.length_append] at hlen
      have hfilled := h.filled i n hcalm (by omega)
      rw [hbrings i n hcalm, List.length_append]
      exact hfill.trans (Nat.add_le_add_right hfilled _)

/-- What the lobby sends leaves the read buffers alone. -/
theorem call {c : Lobby.Call} {env : Lobby.Env} {posts : Nat → Bool} (h : Grounded sv)
    (hsane : Sane sv.io_service) (hcalling : Calling sv.io_service.stack c)
    (hcall : sv.call c env posts = some sv') : Grounded sv' := by
  obtain ⟨-, hstand, hstack, -⟩ := call_spec hsane hcall
  have hunread := fun i => (call_unread (i := i) hcall).1
  obtain ⟨lobby, out, s, hlobby, -, -, hrun, rfl⟩ := call_cases hcall
  refine ⟨.next h.lobby (hcalling.slotted hsane) hlobby, ?_, fun i n hc hlen => ?_⟩
  · exact (Program.sends_induction
      (R := fun s s' => Sane s → s.Regular → Sane s' ∧ s'.Regular) (fun s hs hr => ⟨hs, hr⟩)
      (fun s t u h1 h2 hs hr => h2 (h1 hs hr).1 (h1 hs hr).2)
      (fun s t j m buf accepted hsend hs hr => by
        refine ⟨?_, hr.step hs.alive.index_lt (stepping hsend)⟩
        have hord : Orderly s (.send j m buf accepted) := trivial
        cases stepping hsend with
        | send _ hsending =>
          exact hs.same (hs.alive.step hord hsend) (.sending hsending) hsending.stack_eq)
      hrun hsane h.regular).2
  · have hcalm : sv.io_service.Calm i n :=
      ⟨(hstand.live i n).mp hc.1, call_thrown hcall hc.2.1, hstack ▸ hc.2.2⟩
    have hfill : s.fill i = sv.io_service.fill i :=
      congrArg SockBuf.m_write_index (hunread i).beside.read_buf
    rw [hfill]
    exact h.filled i n hcalm hlen

/-- **Every part of a step that an exception does not stop keeps it.** -/
theorem part (h : Grounded sv) (hlively : Lively sv.io_service) (hsane : Sane sv.io_service)
    (hp : Part sv sv') : Grounded sv' := by
  have hnone : ∀ {a : Action}, (∀ i, a.brings i = []) → ∀ i n, sv.io_service.Calm i n →
      (piecesOf i n sv.received).flatten
        = (piecesOf i n sv.received).flatten ++ a.brings i := fun hb i n _ => by
    rw [hb i, List.append_nil]
  cases hp with
  | @dequeue r c accepted s hs =>
    have ha : Served sv.io_service (.dequeue r c accepted) := trivial
    have hposted : r ∈ sv.io_service.posted := by
      cases stepping hs with
      | dequeue _ hr _ _ => exact hr
    have hgrounded : Grounded { sv with
        io_service := s, received := (Program.receive r c { sv with io_service := s }).received } :=
      h.io hlively hsane ha hs fun i n hcalm => by
        obtain ⟨hin, -⟩ := hlively.attended i n hcalm
        obtain ⟨ps, hrec, hps, -⟩ := Parsing.receive_spec (i := i) (n := n)
          { sv with io_service := s } (c := c) (hin.own r hposted)
        rw [hrec, piecesOf_append, List.flatten_append, hps]
        rfl
    obtain ⟨hservice, hlobby, -⟩ := receive_fields r c { sv with io_service := s }
    refine ⟨?_, ?_, fun i n hc hlen => ?_⟩
    · rw [hlobby]
      exact hgrounded.lobby
    · rw [hservice]
      exact hgrounded.regular
    · rw [hservice] at hc ⊢
      exact hgrounded.filled i n hc hlen
  | finish hs =>
    have ha : Served sv.io_service .finish := trivial
    exact h.io hlively hsane ha hs (hnone fun _ => rfl)
  | @readMove len _ hs =>
    have ha : Served sv.io_service (.readMove len) := trivial
    exact h.io hlively hsane ha hs (hnone fun _ => rfl)
  | @return_ accepted _ hs =>
    have ha : Served sv.io_service (.return_ 0 accepted) := Int.le_refl 0
    exact h.io hlively hsane ha hs (hnone fun _ => rfl)
  | call hcalling hcall => exact h.call hsane hcalling hcall
  | hand _ _ => exact ⟨h.lobby, h.regular, h.filled⟩

/-- **Every step of the server keeps it.** -/
theorem step {a : Input} (h : Grounded sv) (hlively : Lively sv.io_service) (hfluent : Fluent sv)
    (hs : Server.step sv a = some sv') : Grounded sv' := by
  cases ha : a.accepts with
  | true =>
    cases a with
    | accept sd loc rem bound =>
      obtain ⟨s, hio, rfl⟩ := Option.map_eq_some_iff.mp hs
      have ha : Served sv.io_service (.accept sd loc rem bound) := trivial
      exact h.io hlively hfluent.wired.sane ha hio fun i n _ => (List.append_nil _).symm
    | dequeue | finish | callback | process => cases ha
  | false =>
    refine ((step_parts hfluent.wired ha hs).invariant
      (P := fun t => Grounded t ∧ Outbox t ∧ Lively t.io_service)
      ⟨h, hfluent.outbox, hlively⟩ fun t u hsane ht hp => ?_).1
    obtain ⟨hgrounded, hbox, hlively⟩ := ht
    exact ⟨hgrounded.part hlively hsane hp, hbox.part hsane hp, hlively.part hbox.flows hsane hp⟩

theorem of_reach (hr : Reach (· = Program.new) Server.step Fresh sv) : Grounded sv := by
  refine (hr.invariant (fun sv => Fluent sv ∧ Lively sv.io_service ∧ Grounded sv) ?_ ?_).2.2
  · rintro sv rfl
    exact ⟨.new, .new, .new⟩
  · rintro sv a sv' ⟨hfluent, hlively, h⟩ hfresh hs
    exact ⟨hfluent.step hfresh hs, hlively.step hfluent hfresh hs, h.step hlively hfluent hs⟩

end Grounded

/-! ## Callbacks come back -/

/-- All that holds of the server between the parts of a step. -/
structure Sound (sv : Program) : Prop where
  sane : Sane sv.io_service
  outbox : Outbox sv
  lively : Lively sv.io_service
  grounded : Grounded sv

theorem Sound.part (h : Sound sv) (hp : Part sv sv') (hsane : Sane sv'.io_service) : Sound sv' :=
  ⟨hsane, h.outbox.part h.sane hp, h.lively.part h.outbox.flows h.sane hp,
    h.grounded.part h.lively h.sane hp⟩

/-- The connection that a callback is for is calm. -/
theorem Sound.calm {f : Frame} {rest : List Frame} (h : Sound sv)
    (hthrown : sv.io_service.thrown = none) (hst : sv.io_service.stack = f :: rest)
    (hf : f = .onCon i n ∨ f = .onRead i n) : sv.io_service.Calm i n := by
  refine ⟨?_, hthrown, not_closing hst h.sane.flat ?_⟩
  · rcases h.sane.calling f (hst ▸ List.mem_cons_self) with ⟨r, hr⟩ | hl
    · subst hr
      rcases hf with hf | hf <;> cases hf
    · rcases hf with rfl | rfl <;> exact hl
  · rcases hf with rfl | rfl <;> nofun

/-- **What is behind a callback comes back.** -/
theorem return_survives {accepted : Bool} {f : Frame} {rest : List Frame} (h : Sound sv)
    (hthrown : sv.io_service.thrown = none) (hst : sv.io_service.stack = f :: rest)
    (hf : ∀ r, f ≠ .tick r) (hmodest : ∀ i n, (piecesOf i n sv.received).flatten.length < 2 ^ 29) :
    ∃ sv', sv.io (.return_ 0 accepted) = some sv' ∧ sv'.io_service.thrown = none := by
  suffices hs : ∃ s, Iocp.step sv.io_service (.return_ 0 accepted) = some s ∧ s.thrown = none by
    obtain ⟨s, hs, hsafe⟩ := hs
    refine ⟨{ sv with io_service := s }, ?_, hsafe⟩
    rw [Program.io, hs]
    rfl
  have hpost : ∀ {i n}, f = .onCon i n ∨ f = .onRead i n →
      ((sv.io_service.popped rest).postRecvRequest i
        ((sv.io_service.popped rest).m_peer_array i).serial accepted).thrown = none := by
    intro i n hf
    have hcalm := h.calm hthrown hst hf
    obtain ⟨hin, -⟩ := h.lively.attended i n hcalm
    have hroom := hmodest i n
    have hfill := h.grounded.filled i n hcalm (by omega)
    exact (postRecvRequest_spec (s := sv.io_service.popped rest) hin.index_lt hin.valid
      (show sv.io_service.fill i + 512 < 2 ^ 31 by omega)).1.trans hthrown
  cases f with
  | onCon i n => exact ⟨_, step_onCon hthrown hst, hpost (Or.inl rfl)⟩
  | onRead i n =>
    refine ⟨_, step_onRead hthrown hst, ?_⟩
    rw [processReadEnd, if_neg (by decide)]
    exact hpost (Or.inr rfl)
  | onDisCon i n =>
    refine ⟨_, step_onDisCon hthrown hst, ?_⟩
    unfold closePeerEnd
    dsimp only
    split <;> exact hthrown
  | tick r => exact absurd rfl (hf r)

theorem length_body_lt (s : Bytes) : (be16Format.body s).length < 2 ^ 16 := by
  have hlen : ∀ l, be16Format.bodyLen l < 2 ^ 16
    | [] | [_] | _ :: _ :: _ :: _ => Nat.pos_of_ne_zero (by decide)
    | [hi, lo] => be16Val_lt hi lo
  exact Nat.lt_of_le_of_lt (List.length_take_le _ _) (hlen _)

/-- **A message is handled**, whatever is in it. -/
theorem message_survives (env : Lobby.Env) {posts : Nat → Bool} {rest : List Frame}
    (hwired : Wired sv.io_service sv.lobby.board) (h : Sound sv) (hthrown : sv.io_service.thrown = none)
    (hst : sv.io_service.stack = .onRead i n :: rest)
    (hcomplete : be16Format.Complete (sv.io_service.readable i)) (hposts : ∀ k, posts k = true)
    (hmodest : ∀ i n, (mailBytes i n sv.lobby.sent).length < 2 ^ 29) :
    ∃ sv', NetEvent.message i n env posts sv (be16Format.body (sv.io_service.readable i))
      = some sv' ∧ Sound sv' ∧ sv'.io_service.thrown = none ∧
      sv'.io_service.stack = sv.io_service.stack ∧ sv'.received = sv.received := by
  generalize hbody : be16Format.body (sv.io_service.readable i) = body
  have hhand : Sound (sv.hand ⟨i, n, body⟩) := h.part (.hand hst body) h.sane
  have hcalling : Calling (sv.hand ⟨i, n, body⟩).io_service.stack (.onRead n body) :=
    hst.symm ▸ .onRead i n rest body
  obtain ⟨sv₁, hcall, hsafe⟩ := call_survives env hhand.grounded.lobby hhand.sane hhand.outbox hcalling
    hthrown id (fun serial b heq => by
      obtain ⟨-, rfl⟩ := Lobby.Call.onRead.inj heq
      exact hbody ▸ length_body_lt _) hposts hmodest
  have hsound := hhand.part (.call hcalling hcall) (call_spec hhand.sane hcall).1
  obtain ⟨hbeside, hstack, hrec⟩ := (call_unread (i := i) hcall).1
  have hst₁ : sv₁.io_service.stack = .onRead i n :: rest := hstack.trans hst
  obtain ⟨hin, -⟩ := hsound.lively.attended i n (hsound.calm hsafe hst₁ (Or.inr rfl))
  have hlen : MSGHEADERLEN + body.length ≤ (sv₁.io_service.readable i).length := by
    rw [hbeside.readable]
    have htotal := FrameFormat.total_eq_of_complete hcomplete
    rw [hbody] at htotal
    exact htotal ▸ hcomplete.2
  obtain ⟨s, hs, hsafe', hstack'⟩ := step_readMove_spec hsafe hst₁ hin.valid hlen
  have hpart : Part sv₁ { sv₁ with io_service := s } := .readMove hs
  have hmessage : NetEvent.message i n env posts sv body = some { sv₁ with io_service := s } := by
    unfold NetEvent.message
    rw [hcall, Option.bind_eq_bind, Option.bind_some, Program.io, hs]
    rfl
  exact ⟨{ sv₁ with io_service := s }, hmessage,
    hsound.part hpart (hwired.message hst hmessage).wired.sane, hsafe', hstack'.trans hstack, hrec⟩

/-- **`NetEvent::onRead` comes back.** -/
theorem onRead_survives (env : Lobby.Env) {posts : Nat → Bool} {rest : List Frame}
    (hwired : Wired sv.io_service sv.lobby.board) (h : Sound sv)
    (hthrown : sv.io_service.thrown = none) (hst : sv.io_service.stack = .onRead i n :: rest)
    (hposts : ∀ k, posts k = true)
    (hmodest : ∀ i n, (mailBytes i n sv.lobby.sent).length < 2 ^ 29) :
    ∃ sv', NetEvent.onRead i n env posts sv = some (0, sv') ∧ Sound sv' ∧
      sv'.io_service.thrown = none ∧ sv'.io_service.stack = sv.io_service.stack ∧
      sv'.received = sv.received := by
  obtain ⟨hin, -⟩ := h.lively.attended i n (h.calm hthrown hst (Or.inr rfl))
  obtain ⟨c, hc, -, hhanded, -⟩ := Net.onRead_spec
    (c := ⟨(sv.io_service.m_peer_array i).read_buf, []⟩) hin.valid
  unfold NetEvent.onRead
  rw [hc]
  dsimp only
  rw [hhanded, List.nil_append]
  unfold FrameFormat.takeOne
  split
  · next hcomplete =>
    obtain ⟨sv', hmessage, hkept⟩ :=
      message_survives env hwired h hthrown hst hcomplete.2 hposts hmodest
    refine ⟨sv', ?_, hkept⟩
    rw [List.foldlM_cons]
    show Option.map _ (Option.bind (NetEvent.message i n env posts sv
      (be16Format.body (sv.io_service.readable i))) _) = _
    rw [hmessage]
    rfl
  · exact ⟨sv, rfl, h, hthrown, rfl, rfl⟩

/-- A connection that has just come has no player. -/
theorem Fluent.not_ends_onCon {rest : List Frame} (h : Fluent sv)
    (hst : sv.io_service.stack = .onCon i n :: rest) :
    ¬Lobby.Ends sv.lobby (.onCon i n) := by
  have hmem : .onCon i n ∈ sv.io_service.stack := hst ▸ List.mem_cons_self
  have hl : sv.io_service.Live i n := by
    rcases h.wired.sane.calling _ hmem with ⟨r, hr⟩ | hl
    · cases hr
    · exact hl
  intro hfind
  obtain ⟨e, he⟩ := Option.ne_none_iff_exists'.mp hfind
  obtain ⟨j, hlj, hno, -⟩ := h.wired.entry n e he
  obtain rfl := h.known.service.slot (h.known.service.covered.live hlj)
    (h.known.service.covered.live hl)
  exact hno hmem

/-- There are only players in the registry. -/
theorem Fluent.not_ends_process (h : Fluent sv) : ¬Lobby.Ends sv.lobby .process := by
  rintro ⟨n, hfind⟩
  obtain ⟨i, -, -, p, hp, -⟩ := h.wired.entry n none hfind
  rw [show sv.lobby.board.registry.find n = some none from hfind] at hp
  cases hp

/-- **A callback comes back**, whichever it is. -/
theorem callback_survives {env : Lobby.Env} {posts : Nat → Bool} {accepted : Bool} {f : Frame}
    {rest : List Frame} (hfluent : Fluent sv) (h : Sound sv)
    (hthrown : sv.io_service.thrown = none) (hst : sv.io_service.stack = f :: rest)
    (hf : ∀ r, f ≠ .tick r) (hposts : ∀ k, posts k = true) (hmodest : Modest sv) :
    ∃ sv', Server.callback env posts accepted sv = some sv' ∧ sv'.io_service.thrown = none := by
  have hmail := fun i n => (hmodest i n).1
  have hreturn : ∀ {sv₁ : Program}, Sound sv₁ → sv₁.io_service.thrown = none →
      sv₁.io_service.stack = sv.io_service.stack → sv₁.received = sv.received →
      ∃ sv', sv₁.io (.return_ 0 accepted) = some sv' ∧ sv'.io_service.thrown = none := by
    intro sv₁ h₁ hsafe hstack hrec
    exact return_survives h₁ hsafe (hstack.trans hst) hf fun i n => hrec ▸ (hmodest i n).2
  have hcall : ∀ {c : Lobby.Call}, Calling sv.io_service.stack c → ¬Lobby.Ends sv.lobby c →
      (∀ serial body, c ≠ .onRead serial body) → ∃ sv' sv₁, sv.call c env posts = some sv₁ ∧
        sv₁.io (.return_ 0 accepted) = some sv' ∧ sv'.io_service.thrown = none := by
    intro c hc hends hread
    obtain ⟨sv₁, hrun, hsafe⟩ := call_survives env h.grounded.lobby h.sane h.outbox hc hthrown hends
      (fun serial body heq => absurd heq (hread serial body)) hposts hmail
    have hunread := (call_unread (i := 0) hrun).1
    obtain ⟨sv', hdone, hsafe'⟩ := hreturn (h.part (.call hc hrun) (call_spec h.sane hrun).1) hsafe
      hunread.stack hunread.received
    exact ⟨sv', sv₁, hrun, hdone, hsafe'⟩
  unfold Server.callback
  rw [hst]
  cases f with
  | onCon i n =>
    obtain ⟨sv', sv₁, hrun, hdone, hsafe⟩ := hcall (hst.symm ▸ Calling.onCon i n rest)
      (hfluent.not_ends_onCon hst) nofun
    refine ⟨sv', ?_, hsafe⟩
    dsimp only
    unfold NetEvent.onCon
    rw [hrun]
    exact hdone
  | onDisCon i n =>
    obtain ⟨sv', sv₁, hrun, hdone, hsafe⟩ := hcall (c := .onDisCon n)
      (hst.symm ▸ Calling.onDisCon i n rest) id nofun
    refine ⟨sv', ?_, hsafe⟩
    dsimp only
    unfold NetEvent.onDisCon
    rw [hrun]
    exact hdone
  | onRead i n =>
    obtain ⟨sv₁, hrun, h₁, hsafe, hstack, hrec⟩ :=
      onRead_survives env hfluent.wired h hthrown hst hposts hmail
    obtain ⟨sv', hdone, hsafe'⟩ := hreturn h₁ hsafe hstack hrec
    refine ⟨sv', ?_, hsafe'⟩
    dsimp only
    rw [hrun]
    exact hdone
  | tick r => exact absurd rfl (hf r)

/-! ## Steps -/

/-- What the program waits for or goes on with. -/
def Possible (sv : Program) : Input → Prop
  | .accept .. => sv.io_service.stack = []
  | .dequeue r c _ => sv.io_service.stack = [] ∧ r ∈ sv.io_service.posted ∧ c.Fits r
  | .finish => ∃ r rest, sv.io_service.stack = .tick r :: rest
  | .callback .. => ∃ f rest, sv.io_service.stack = f :: rest ∧ ∀ r, f ≠ .tick r
  | .process .. => sv.io_service.stack = []

/-- What is asked of the system, and of the table. -/
def Spared (sv : Program) : Input → Prop
  | .accept _ _ _ bound => bound = true ∧ ¬sv.io_service.Full
  | .dequeue _ c _ => c ≠ .otherError
  | .finish => True
  | .callback _ posts _ => ∀ k, posts k = true
  | .process _ posts => ∀ k, posts k = true

theorem Modest.light (h : Modest sv) (hbox : Outbox sv) : sv.io_service.Light := by
  intro i n
  have hlen := (hbox.front i n).length_le
  have hmail := (h i n).1
  omega

/-- **Whatever is possible is done**, and no exception comes out of it. -/
theorem step_survives {a : Input} (hfluent : Fluent sv) (hlively : Lively sv.io_service)
    (hgrounded : Grounded sv) (hthrown : sv.io_service.thrown = none) (hmodest : Modest sv)
    (hp : Possible sv a) (ha : Spared sv a) :
    ∃ sv', Server.step sv a = some sv' ∧ sv'.io_service.thrown = none := by
  have h : Sound sv := ⟨hfluent.wired.sane, hfluent.outbox, hlively, hgrounded⟩
  have hidle : sv.io_service.stack = [] → sv.io_service.userRuns = true := by
    intro hst
    rw [userRuns, hthrown, hst]
  cases a with
  | accept sd loc rem bound =>
    have hs : Iocp.step sv.io_service (.accept sd loc rem bound)
        = some (sv.io_service.registerSocket sd loc rem bound) := by
      rw [Iocp.step, if_pos ⟨hidle hp, hp⟩]
    refine ⟨{ sv with io_service := sv.io_service.registerSocket sd loc rem bound }, ?_,
      (registerSocket_thrown_iff hthrown sd loc rem bound).mpr ha⟩
    rw [Server.step, Program.io, hs]
    rfl
  | dequeue r c accepted =>
    obtain ⟨hst, hr, hfits⟩ := hp
    have hs : Iocp.step sv.io_service (.dequeue r c accepted)
        = some ((sv.io_service.took r).onEventTick r c accepted) := by
      rw [Iocp.step, if_pos ⟨hidle hst, hst, hr, hfits⟩]
      rfl
    have hsafe := (onEventTick_outcome (sv.io_service.took r) r c accepted).thrown_eq hst hthrown
      hr hfits ha hgrounded.regular hlively.attended hfluent.outbox.flows
      (hmodest.light hfluent.outbox)
    refine ⟨Program.receive r c { sv with
      io_service := (sv.io_service.took r).onEventTick r c accepted }, ?_, ?_⟩
    · rw [Server.step, Program.io, hs]
      rfl
    · rw [(receive_fields r c _).1]
      exact hsafe
  | finish =>
    obtain ⟨r, rest, hst⟩ := hp
    have hs := step_finish hthrown hst
    refine ⟨{ sv with io_service := (sv.io_service.popped rest).deleteIOCxt r.io_context }, ?_,
      hthrown⟩
    rw [Server.step, Program.io, hs]
    rfl
  | callback env posts accepted =>
    obtain ⟨f, rest, hst, hf⟩ := hp
    exact callback_survives hfluent h hthrown hst hf ha hmodest
  | process env posts =>
    have hst : sv.io_service.stack = [] := hp
    obtain ⟨sv', hcall, hsafe⟩ := call_survives env hgrounded.lobby h.sane h.outbox
      (hst.symm ▸ Calling.process) hthrown hfluent.not_ends_process
      (fun _ _ heq => by cases heq) ha
      fun i n => (hmodest i n).1
    refine ⟨sv', ?_, hsafe⟩
    rw [Server.step, if_pos ⟨hidle hst, hst⟩]
    exact hcall

/-! ## Runs -/

/-- What is done was possible. -/
theorem possible_of_step {a : Input} (hs : Server.step sv a = some sv') : Possible sv a := by
  cases a with
  | accept sd loc rem bound =>
    obtain ⟨s, hio, rfl⟩ := Option.map_eq_some_iff.mp hs
    simp only [Iocp.step, Option.ite_none_right_eq_some] at hio
    exact hio.1.2
  | dequeue r c accepted =>
    obtain ⟨sv₁, hstep, rfl⟩ := Option.map_eq_some_iff.mp hs
    obtain ⟨s, hio, rfl⟩ := Option.map_eq_some_iff.mp hstep
    cases stepping hio with
    | dequeue hst hr hfits _ => exact ⟨hst, hr, hfits⟩
  | finish =>
    obtain ⟨s, hio, rfl⟩ := Option.map_eq_some_iff.mp hs
    cases stepping hio with
    | @finish r rest hst => exact ⟨r, rest, hst⟩
  | callback env posts accepted =>
    have hs : Server.callback env posts accepted sv = some sv' := hs
    unfold Server.callback at hs
    split at hs
    · next i n rest hst => exact ⟨.onCon i n, rest, hst, fun _ heq => by cases heq⟩
    · next i n rest hst => exact ⟨.onDisCon i n, rest, hst, fun _ heq => by cases heq⟩
    · next i n rest hst => exact ⟨.onRead i n, rest, hst, fun _ heq => by cases heq⟩
    · cases hs
  | process env posts =>
    simp only [Server.step, Option.ite_none_right_eq_some] at hs
    exact hs.1.2

/-- A step of a run in which the system refuses nothing, the table has room for who comes, and less
than half a gigabyte was sent and received on each connection. -/
def Tame (sv : Program) (a : Input) : Prop := Fresh sv a ∧ Spared sv a ∧ Modest sv

/-- No step of such a run throws. -/
theorem unthrown_of_reach (hr : Reach (· = Program.new) Server.step Tame sv) :
    sv.io_service.thrown = none := by
  refine (hr.invariant (fun sv => Fluent sv ∧ Lively sv.io_service ∧ Grounded sv ∧
    sv.io_service.thrown = none) ?_ ?_).2.2.2
  · rintro sv rfl
    exact ⟨.new, .new, .new, rfl⟩
  · rintro sv a sv' ⟨hfluent, hlively, hgrounded, hthrown⟩ ⟨hfresh, hspared, hmodest⟩ hs
    obtain ⟨sv₁, hstep, hsafe⟩ := step_survives hfluent hlively hgrounded hthrown hmodest
      (possible_of_step hs) hspared
    obtain rfl := Option.some.inj (hs.symm.trans hstep)
    exact ⟨hfluent.step hfresh hs, hlively.step hfluent hfresh hs,
      hgrounded.step hlively hfluent hs, hsafe⟩

/-- What is possible behind such a run is done. -/
theorem step_survives_of_reach (hr : Reach (· = Program.new) Server.step Tame sv)
    (hmodest : Modest sv) {a : Input} (hp : Possible sv a) (ha : Spared sv a) :
    ∃ sv', Server.step sv a = some sv' ∧ sv'.io_service.thrown = none := by
  have hfresh : Reach (· = Program.new) Server.step Fresh sv := hr.mono fun _ _ h => h.1
  exact step_survives (.of_reach hfresh) (.of_reach hfresh) (.of_reach hfresh)
    (unthrown_of_reach hr) hmodest hp ha

/-- **An exception is the end**: there is no step behind it. -/
theorem dead_end (hthrown : sv.io_service.thrown ≠ none) (a : Input) : Server.step sv a = none := by
  have hidle : ¬sv.io_service.userRuns = true := fun hu => hthrown (thrown_of_userRuns hu)
  have hreturn : ∀ {sv₁ : Program} {ret : Int} {accepted : Bool},
      sv₁.io_service.thrown ≠ none → sv₁.io (.return_ ret accepted) = none := by
    intro sv₁ ret accepted hthrown₁
    rw [Program.io, Option.map_eq_none_iff]
    cases hs : Iocp.step sv₁.io_service (.return_ ret accepted) with
    | none => rfl
    | some s => exact absurd (thrown_of_return hs) hthrown₁
  have hcall : ∀ {c env posts accepted}, (sv.call c env posts).bind
      (fun sv => sv.io (.return_ 0 accepted)) = none := by
    intro c env posts accepted
    cases hrun : sv.call c env posts with
    | none => rfl
    | some sv₁ => exact hreturn fun h => hthrown (call_thrown hrun h)
  cases a with
  | accept sd loc rem bound =>
    rw [Server.step, Program.io, Iocp.step, if_neg fun h => hidle h.1]
    rfl
  | dequeue r c accepted =>
    rw [Server.step, Program.io, Iocp.step, if_neg fun h => hidle h.1]
    rfl
  | finish =>
    obtain ⟨e, he⟩ := Option.ne_none_iff_exists'.mp hthrown
    rw [Server.step, Program.io, Iocp.step, he]
    rfl
  | callback env posts accepted =>
    rw [Server.step]
    unfold Server.callback
    split
    · exact hcall
    · exact hcall
    · next i n rest hst =>
      cases hread : NetEvent.onRead i n env posts sv with
      | none => rfl
      | some p =>
        obtain ⟨ret, sv₁⟩ := p
        show sv₁.io (.return_ ret accepted) = none
        refine hreturn fun hsafe => hthrown ?_
        unfold NetEvent.onRead at hread
        split at hread
        · cases hread
        · next ret' c hc =>
          obtain ⟨sv₂, hmessages, heq⟩ := Option.map_eq_some_iff.mp hread
          obtain ⟨-, rfl⟩ := Prod.mk.inj heq
          generalize c.handed = bodies at hmessages
          cases bodies with
          | nil =>
            obtain rfl := Option.some.inj hmessages
            exact hsafe
          | cons body bodies =>
            -- the first message is taken off the buffer, which no exception lets it be
            rw [List.foldlM_cons] at hmessages
            obtain ⟨sv₃, hmessage, -⟩ := Option.bind_eq_some_iff.mp hmessages
            obtain ⟨sv₄, hrun, hio⟩ := Option.bind_eq_some_iff.mp hmessage
            obtain ⟨s, hs, -⟩ := Option.map_eq_some_iff.mp hio
            have hmove : Served sv₄.io_service (.readMove (MSGHEADERLEN + body.length)) := trivial
            have hhand : (sv.hand ⟨i, n, body⟩).io_service.thrown = none :=
              call_thrown hrun (hmove.thrown hs)
            exact hhand
    · rfl
  | process env posts => rw [Server.step, if_neg fun h => hidle h.1]

/-- **What ends the server.** A new socket or a completion that is possible ends it for good, with
every connection, exactly if the table is full, the socket is not bound or the error is unknown. -/
theorem ends_iff_not_spared (hr : Reach (· = Program.new) Server.step Tame sv)
    (hmodest : Modest sv) {a : Input} (hp : Possible sv a)
    (ha : ∀ env posts accepted, a ≠ .callback env posts accepted ∧ a ≠ .process env posts) :
    (∃ sv', Server.step sv a = some sv' ∧ sv'.io_service.thrown ≠ none ∧
      ∀ b, Server.step sv' b = none) ↔ ¬Spared sv a := by
  have hthrown := unthrown_of_reach hr
  constructor
  · rintro ⟨sv', hs, hthrown', -⟩ hspared
    obtain ⟨sv₁, hs₁, hsafe⟩ := step_survives_of_reach hr hmodest hp hspared
    obtain rfl := Option.some.inj (hs.symm.trans hs₁)
    exact hthrown' hsafe
  · intro hspared
    suffices hend : ∃ sv', Server.step sv a = some sv' ∧ sv'.io_service.thrown ≠ none by
      obtain ⟨sv', hs, hthrown'⟩ := hend
      exact ⟨sv', hs, hthrown', dead_end hthrown'⟩
    have hidle : sv.io_service.stack = [] → sv.io_service.userRuns = true := by
      intro hst
      rw [userRuns, hthrown, hst]
    cases a with
    | accept sd loc rem bound =>
      refine ⟨{ sv with io_service := sv.io_service.registerSocket sd loc rem bound }, ?_,
        fun hsafe => hspared ((registerSocket_thrown_iff hthrown sd loc rem bound).mp hsafe)⟩
      rw [Server.step, Program.io, Iocp.step, if_pos ⟨hidle hp, hp⟩]
      rfl
    | dequeue r c accepted =>
      obtain ⟨hst, hr, hfits⟩ := hp
      obtain rfl : c = .otherError := not_not.mp hspared
      refine ⟨Program.receive r .otherError { sv with
        io_service := (sv.io_service.took r).throw .shouldNotBeHere }, ?_, ?_⟩
      · rw [Server.step, Program.io, Iocp.step, if_pos ⟨hidle hst, hst, hr, hfits⟩]
        rfl
      · rw [(receive_fields r .otherError _).1]
        exact Option.some_ne_none _
    | finish => exact absurd trivial hspared
    | callback env posts accepted => exact absurd rfl (ha env posts accepted).1
    | process env posts => exact absurd rfl (ha env posts true).2

/-! ### The first connection -/

theorem modest_of_nil (hsent : sv.lobby.sent = []) (hrec : sv.received = []) : Modest sv := by
  intro i n
  rw [hsent, hrec]
  exact ⟨Nat.zero_lt_of_lt (Nat.lt_two_pow_self), Nat.zero_lt_of_lt (Nat.lt_two_pow_self)⟩

/-- A socket that the system does not bind ends the program. -/
theorem ends_iff_not_spared_unbound : ∃ sv',
    Server.step Program.new (.accept 7 ⟨"", 0⟩ ⟨"", 0⟩ false) = some sv' ∧
      sv'.io_service.thrown ≠ none ∧ ∀ b, Server.step sv' b = none :=
  (ends_iff_not_spared (.start rfl) (modest_of_nil rfl rfl)
    (a := .accept 7 ⟨"", 0⟩ ⟨"", 0⟩ false) rfl fun _ _ _ => ⟨by nofun, by nofun⟩).mpr
    fun h => nomatch h.1

end GhNet.Server
