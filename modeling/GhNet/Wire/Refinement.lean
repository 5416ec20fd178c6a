import GhNet.Infra.Simulation
import GhNet.Match.Agreement
import GhNet.Wire.Channels

/-!
# Bytes carry messages

The world of bytes does what the system of messages does: whatever happens to the bytes is nothing
to the messages, or one step of them. A datagram is on its way from `Send` to the `onRead` that
hands it over; a message of the lobby from the call that sends it to the receive that completes it.

What clients do with a packet that they have read already is not in the system of messages, so each
receive of a client has to complete a message.
-/

namespace GhNet.Wire

open GhNet GhNet.Net GhNet.Server GhNet.Script
open GhNet.Match (Connection System)

/-! ## Connections -/

/-- The messages of the connection in slot `i` are those of its bytes. -/
structure Shows (i : Nat) (sv : Program) (n : Nat) (e : End) (k : Connection) : Prop where
  slot : ∀ j, sv.io_service.Seen j n → j = i
  unused : k.stage = .unused ↔ e.requested = false
  accepted : k.stage = .accepted ↔ sv.io_service.Live i n ∧ .onCon i n ∉ sv.io_service.stack
  gone : k.stage = .gone ↔ sv.io_service.Seen i n ∧ ¬sv.io_service.Live i n
  up : e.output.datagrams = piecesOf i n sv.handed ++ k.up
  down : Iocp.sentBytes i n sv.io_service.log
    = (e.cli.session.begun ++ k.down).flatMap be16Frame
  short : ∀ body ∈ e.cli.session.begun ++ k.down, body.length < 65536

section Shows

variable {i n : Nat} {sv sv' : Program} {e : End} {k : Connection}

theorem Shows.new : Shows 0 Program.new n End.new .unused where
  slot := by
    rintro j ⟨_, h⟩
    cases h
  unused := ⟨fun _ => rfl, fun _ => rfl⟩
  accepted := ⟨nofun, fun h => absurd rfl h.1.1⟩
  gone := ⟨nofun, by rintro ⟨⟨_, h⟩, -⟩; cases h⟩
  up := rfl
  down := rfl
  short := nofun

/-- The server has gone on, and nothing is to be seen of it on this connection. -/
theorem Shows.keep (h : Shows i sv n e k) (hhanded : sv'.handed = sv.handed)
    (hsent : Iocp.sentBytes i n sv'.io_service.log = Iocp.sentBytes i n sv.io_service.log)
    (hseen : ∀ j, sv'.io_service.Seen j n ↔ sv.io_service.Seen j n)
    (hlive : sv'.io_service.Live i n ↔ sv.io_service.Live i n)
    (honCon : .onCon i n ∈ sv'.io_service.stack ↔ .onCon i n ∈ sv.io_service.stack) :
    Shows i sv' n e k where
  slot j hj := h.slot j ((hseen j).mp hj)
  unused := h.unused
  accepted := h.accepted.trans (and_congr hlive.symm (not_congr honCon.symm))
  gone := h.gone.trans (and_congr (hseen i).symm (not_congr hlive.symm))
  up := hhanded.symm ▸ h.up
  down := hsent.trans h.down
  short := h.short

theorem Shows.silent (h : Shows i sv n e k) (hs : Silent sv sv') (hsteady : Steady sv sv') :
    Shows i sv' n e k :=
  h.keep hs.handed (hs.sent i n) (fun j => hs.seen j n) (hsteady.live i n) (hsteady.onCon i n)

/-- What a connection shows goes by a part of its end. -/
theorem Shows.of_end {e' : End} (h : Shows i sv n e k) (hreq : e'.requested = e.requested)
    (hdata : e'.output.datagrams = e.output.datagrams)
    (hbegun : e'.cli.session.begun = e.cli.session.begun) : Shows i sv n e' k :=
  ⟨h.slot, h.unused.trans (by rw [hreq]), h.accepted, h.gone, hdata.trans h.up, hbegun ▸ h.down,
    hbegun ▸ h.short⟩

/-- The client has sent. -/
theorem Shows.sends {datagrams written : _} (h : Shows i sv n e k) :
    Shows i sv n { e with output := ⟨written, e.output.datagrams ++ datagrams⟩ }
      { k with up := k.up ++ datagrams } :=
  ⟨h.slot, h.unused, h.accepted, h.gone, by
    show e.output.datagrams ++ datagrams = piecesOf i n sv.handed ++ (k.up ++ datagrams)
    rw [h.up, List.append_assoc], h.down, h.short⟩

/-- **A call of the lobby**: what it sends is on its way. `k₀` is the connection as the step leaves
it but for what is sent. -/
theorem Shows.turn {c : Lobby.Call} {env : Lobby.Env} {out : List Lobby.Sent}
    {pieces : List Piece} {k₀ : Connection} (h : Shows i sv n e k) (hk : Known sv')
    (ht : Turn sv sv' c env out pieces) (hdown : k₀.down = k.down)
    (hup : e.output.datagrams = piecesOf i n sv'.handed ++ k₀.up)
    (hunused : k₀.stage = .unused ↔ e.requested = false)
    (haccepted : k₀.stage = .accepted ↔
      sv'.io_service.Live i n ∧ .onCon i n ∉ sv'.io_service.stack)
    (hgone : k₀.stage = .gone ↔ sv'.io_service.Seen i n ∧ ¬sv'.io_service.Live i n)
    (hmail : out = [] ∨ (sv.io_service.Live i n ↔ k₀.stage = .accepted)) :
    Shows i sv' n e (System.Connection.deliver n out k₀) := by
  have hslot : ∀ j, sv'.io_service.Seen j n → j = i := fun j hj => h.slot j ((ht.seen j n).mp hj)
  have hsub : ∀ m ∈ out, m ∈ sv'.lobby.sent := fun m hm =>
    ht.mail ▸ List.mem_append_right _ hm
  -- what the service is given are the frames of what is delivered
  obtain ⟨new, hdeliver, hbytes, hshort⟩ : ∃ new : List Bytes,
      (System.Connection.deliver n out k₀).down = k.down ++ new ∧
      (if sv.io_service.Live i n then mailBytes i n out else []) = new.flatMap be16Frame ∧
      ∀ body ∈ new, body.length < 65536 := by
    unfold System.Connection.deliver
    by_cases hl : sv.io_service.Live i n ∧ k₀.stage = .accepted
    · rw [if_pos hl.1, if_pos hl.2]
      refine ⟨(mailOf n out).map Lobby.Sent.body, by rw [← hdown]; rfl, ?_, fun body hbody => ?_⟩
      · rw [mailBytes_eq hk hsub, mailFor_eq hk hsub hslot]
      · obtain ⟨m, hm, rfl⟩ := List.mem_map.mp hbody
        obtain ⟨⟨body, hbytes, hlen⟩, -⟩ := hk.mail m (hsub m (List.mem_of_mem_filter hm))
        rw [Lobby.Sent.body, hbytes]
        exact hlen
    · refine ⟨[], ?_, ?_, fun _ hb => absurd hb List.not_mem_nil⟩
      · rw [List.append_nil, ← hdown]
        rcases hmail with rfl | hiff
        · split
          · exact List.append_nil _
          · rfl
        · rw [if_neg fun hs => hl ⟨hiff.mpr hs, hs⟩]
      · rcases hmail with rfl | hiff
        · exact ite_self _
        · rw [if_neg fun hl' => hl ⟨hl', hiff.mp hl'⟩]
          rfl
  refine ⟨hslot, ?_, ?_, ?_, ?_, ?_, ?_⟩
  · rw [Match.stage_deliver]
    exact hunused
  · rw [Match.stage_deliver]
    exact haccepted
  · rw [Match.stage_deliver]
    exact hgone
  · rw [Match.up_deliver]
    exact hup
  · rw [ht.sent i n, hbytes, h.down, hdeliver, ← List.flatMap_append, List.append_assoc]
  · rw [hdeliver, ← List.append_assoc]
    intro body hbody
    rcases List.mem_append.mp hbody with hold | hnew
    · exact h.short body hold
    · exact hshort body hnew

/-- A call that is about another connection, or about none. -/
theorem Shows.beside {c : Lobby.Call} {env : Lobby.Env} {out : List Lobby.Sent}
    {pieces : List Piece} (h : Shows i sv n e k) (hk : Known sv')
    (ht : Turn sv sv' c env out pieces) (hpieces : piecesOf i n pieces = [])
    (hlive : sv'.io_service.Live i n ↔ sv.io_service.Live i n)
    (hbefore : .onCon i n ∉ sv.io_service.stack) (hbehind : .onCon i n ∉ sv'.io_service.stack) :
    Shows i sv' n e (System.Connection.deliver n out k) := by
  have haccepted := h.accepted.trans (and_iff_left hbefore)
  refine h.turn hk ht rfl ?_ h.unused ?_ ?_ (Or.inr haccepted.symm)
  · rw [ht.handed, piecesOf_append, hpieces, List.append_nil]
    exact h.up
  · exact haccepted.trans (hlive.symm.trans (and_iff_left hbehind).symm)
  · exact h.gone.trans (and_congr (ht.seen i n).symm (not_congr hlive.symm))

end Shows

/-! ## The relation -/

/-- The system of messages, with these connections. -/
def view (W : World) (ks : Nat → Connection) : System where
  lobby := W.server.lobby
  clients := W.clients
  connecting := W.connecting
  session := W.session
  connections := ks

/-- The connections of messages show what the bytes of the world carry. -/
structure Carries (W : World) (ks : Nat → Connection) : Prop where
  sound : Sound W
  shows : ∀ n, ∃ i, Shows i W.server n (W.ends n) (ks n)

/-- The world of bytes stands for a system of messages. -/
def Refines (W : World) (S : System) : Prop := ∃ ks, S = view W ks ∧ Carries W ks

/-- Every receive of a client completes a message. -/
def WholePackets (W : World) : Event → Prop
  | .recvData x r _ => ∀ n ∈ W.session x,
    (be16Format.takeOne ((W.ends n).cli.session.RecvBuffer ++ r.buff)).1 ≠ []
  | _ => True

/-- No player that has an opponent asks for a match. -/
def AsksUnmatched (W : World) : Event → Prop
  | .serve (.callback env _ _) =>
    match W.server.io_service.stack with
    | .onRead i n :: _ => ∀ body ∈ (be16Format.takeOne (W.server.io_service.readable i)).1,
      Lobby.commandOf (Lobby.opcode body env) = .autoMatch →
        ∀ p, W.server.lobby.m_players.find n = some (some p) →
          W.server.lobby.board.other p = none
    | _ => True
  | _ => True

section Steps

variable {W W' : World} {ks : Nat → Connection} {x n : Nat}

theorem Carries.new : Carries World.new fun _ => .unused := ⟨.new, fun _ => ⟨0, .new⟩⟩

/-- An end and its connection change. -/
theorem Carries.setEnd {e : End} {k : Connection} {i : Nat} (h : Carries W ks)
    (hfits : Fits W.server n e) (hshows : Shows i W.server n e k) :
    Carries (W.setEnd n e) (Function.update ks n k) := by
  refine ⟨h.sound.setEnd hfits, fun m => ?_⟩
  show ∃ j, Shows j W.server m (Function.update W.ends n e m) (Function.update ks n k m)
  by_cases hm : m = n
  · subst hm
    rw [Function.update_self, Function.update_self]
    exact ⟨i, hshows⟩
  · rw [Function.update_of_ne hm, Function.update_of_ne hm]
    exact h.shows m

/-- An end changes where nobody sees it. -/
theorem Carries.within {e : End} (h : Carries W ks) (hfits : Fits W.server n e)
    (hreq : e.requested = (W.ends n).requested)
    (hdata : e.output.datagrams = (W.ends n).output.datagrams)
    (hbegun : e.cli.session.begun = (W.ends n).cli.session.begun) :
    Carries (W.setEnd n e) ks := by
  obtain ⟨i, hi⟩ := h.shows n
  have hset := h.setEnd hfits (hi.of_end hreq hdata hbegun)
  rwa [Function.update_eq_self] at hset

/-- The sizes of what the scripts send. -/
theorem whole_of_sized {body : Bytes} (h : Match.Sized body) : Client.Output.Whole body :=
  ⟨Nat.lt_of_lt_of_le (by decide) h.1, Nat.lt_of_le_of_lt h.2 (by decide)⟩

/-- **A client sends the same.** -/
theorem Carries.give {r : Script.Client × List Bytes} (h : Carries W ks)
    (hwhole : ∀ body ∈ r.2, Client.Output.Whole body) (hs : W.give x r = some W') :
    ∃ ks', (view W ks).give x r = some (view W' ks') ∧ Carries W' ks' := by
  have hsound := h.sound.give hs
  unfold World.give at hs
  unfold System.give
  rw [show (view W ks).session x = W.session x from rfl]
  cases hsession : W.session x with
  | some n =>
    rw [hsession] at hs
    dsimp only at hs ⊢
    rw [Client.Output.sends_whole hwhole] at hs
    obtain rfl := Option.some.inj hs
    obtain ⟨i, hi⟩ := h.shows n
    refine ⟨_, rfl, ?_⟩
    have hclient : Carries (W.setClient x r.1) ks := ⟨⟨h.sound.server, h.sound.ends⟩, h.shows⟩
    have hfits := hsound.ends n
    replace hfits : Fits W.server n (Function.update W.ends n _ n) := hfits
    rw [Function.update_self] at hfits
    exact hclient.setEnd hfits hi.sends
  | none =>
    rw [hsession] at hs
    dsimp only at hs ⊢
    obtain ⟨o, ho, rfl⟩ := Option.map_eq_some_iff.mp hs
    have hnil : r.2 = [] := by
      cases hr : r.2 with
      | nil => rfl
      | cons d rest =>
        rw [hr, List.foldlM_cons] at ho
        obtain ⟨o₁, h1, -⟩ := Option.bind_eq_some_iff.mp ho
        rcases Client.Output.send_cases h1 with ⟨rfl, -⟩ | ⟨-, hcon, -⟩
        · exact absurd (hwhole [] (hr ▸ List.mem_cons_self)).1 (Nat.lt_irrefl 0)
        · cases hcon
    rw [if_pos hnil]
    exact ⟨ks, rfl, ⟨⟨h.sound.server, h.sound.ends⟩, h.shows⟩⟩

/-! ## Clients -/

theorem Carries.connected {ticks : Nat → UInt32} (h : Carries W ks)
    (hs : W.connected x n ticks = some W') :
    ∃ ks', (view W ks).connected x n ticks = some (view W' ks') ∧ Carries W' ks' := by
  have hsound := h.sound.connected hs
  unfold World.connected at hs
  split at hs
  · next hnew =>
    obtain rfl := Option.some.inj hs
    obtain ⟨i, hi⟩ := h.shows n
    have hstage : (ks n).stage = .unused := hi.unused.mpr hnew.2
    refine ⟨Function.update ks n { Connection.unused with stage := .requested }, ?_, ?_⟩
    · unfold System.connected
      rw [if_pos ⟨hnew.1, hstage⟩]
      rfl
    · have hclient : Carries (((W.setConnecting x (W.connecting x - 1)).setClient x
          ((W.clients x).clientConn ticks)).setSession x (some n)) ks :=
        ⟨⟨h.sound.server, h.sound.ends⟩, h.shows⟩
      have hunseen : ∀ j, ¬W.server.io_service.Seen j n := by
        intro j hj
        have hreq := (h.sound.ends n).requested j hj
        rw [hnew.2] at hreq
        cases hreq
      have hdead : ¬W.server.io_service.Live i n := fun hl =>
        hunseen i (h.sound.server.known.service.covered.live hl)
      obtain ⟨hsent, -, -, hhanded⟩ := h.sound.server.known.unseen (hunseen i)
      have hfits := (h.sound.ends n).opened h.sound.server.known hnew.2
      refine hclient.setEnd (i := i) hfits ⟨hi.slot, ?_, ?_, ?_, ?_, ?_, nofun⟩
      · exact ⟨nofun, nofun⟩
      · exact ⟨nofun, fun hl => absurd hl.1 hdead⟩
      · exact ⟨nofun, fun hl => absurd hl.1 (hunseen i)⟩
      · exact (hhanded.symm ▸ rfl : [] = piecesOf i n W.server.handed ++ [])
      · exact hsent
  · cases hs

theorem Carries.press {button : Script.Client.Button} {now : UInt32} (h : Carries W ks)
    (hs : W.press x button now = some W') :
    ∃ ks', (view W ks).press x button now = some (view W' ks') ∧ Carries W' ks' := by
  unfold World.press at hs
  unfold System.press
  split at hs
  · next hshows =>
    rw [if_pos (show ((view W ks).clients x).Shows button from hshows)]
    cases button with
    | connect | disconnect =>
      obtain rfl := Option.some.inj hs
      exact ⟨ks, rfl, ⟨h.sound.server, h.sound.ends⟩, h.shows⟩
    | automatch | cancelMatch | ready =>
      have hfollows := Match.onGUI_follows now hshows ⟨nofun, nofun⟩
      exact h.give (fun body hbody => whole_of_sized (hfollows.sized body hbody)) hs
  · cases hs

/-- **A receive that completes a message** takes the first message that is on its way. -/
theorem Carries.recvData {r : Client.Receive} {ticks : Nat → UInt32} (h : Carries W ks)
    (hwhole : ∀ n ∈ W.session x,
      (be16Format.takeOne ((W.ends n).cli.session.RecvBuffer ++ r.buff)).1 ≠ [])
    (hs : W.recvData x r ticks = some W') :
    ∃ ks', (view W ks).recvData x ticks = some (view W' ks') ∧ Carries W' ks' := by
  unfold World.recvData at hs
  split at hs
  · cases hs
  · next n hn =>
    split at hs
    · next htaken =>
      obtain ⟨cli, hcli, hs⟩ := Option.bind_eq_some_iff.mp hs
      obtain ⟨answer, hanswer, hs⟩ := Option.bind_eq_some_iff.mp hs
      obtain ⟨-, hbegun, -⟩ := Client.TcpCli.recvData_spec hcli
      -- it is one message
      obtain ⟨body, hbody⟩ : ∃ body,
          (be16Format.takeOne ((W.ends n).cli.session.RecvBuffer ++ r.buff)).1 = [body] := by
        have hne := hwhole n hn
        unfold FrameFormat.takeOne at hne ⊢
        split
        · exact ⟨_, rfl⟩
        · next hnot =>
          rw [if_neg hnot] at hne
          exact absurd rfl hne
      have hpos : 0 < r.buff.length := by
        unfold Client.TcpCli.recvData at hcli
        split at hcli
        · next hlen => exact hlen.1
        · cases hcli
      rw [Client.Session.addBuff_eq _ hpos, hbody] at hanswer
      rw [hbody] at hbegun
      have hfit := h.sound.ends n
      have hfits : Fits W.server n
          { W.ends n with fetched := (W.ends n).fetched ++ r.buff, cli := cli } :=
        ⟨hfit.framed, hfit.received, hfit.taken, htaken, hfit.parsed.recvData hcli, hfit.requested⟩
      obtain ⟨i, hi⟩ := h.shows n
      -- and the first one
      obtain ⟨down, hdown⟩ : ∃ down, (ks n).down = body :: down := by
        have hfront := hfits.begun.trans (FrameFormat.frames_mono (hfits.taken_front hi.slot))
        rw [hi.down, frames_flatMap hi.short] at hfront
        replace hfront : cli.session.begun <+: _ := hfront
        rw [hbegun] at hfront
        obtain ⟨down, hdown⟩ := (List.prefix_append_right_inj _).mp hfront
        exact ⟨down, hdown.symm⟩
      have hset := h.setEnd (i := i) (k := { ks n with down := down }) hfits
        ⟨hi.slot, hi.unused, hi.accepted, hi.gone, hi.up, ?_, ?_⟩
      · have hsized : ∀ b ∈ answer.2, Client.Output.Whole b := by
          intro b hb
          rcases Match.recvData_cases hanswer with hfollows | hstarts
          · exact whole_of_sized (hfollows.sized b hb)
          · rw [hstarts.2.1] at hb
            cases hb
        obtain ⟨ks', hgive, hcarries⟩ := hset.give hsized hs
        refine ⟨ks', ?_, hcarries⟩
        unfold System.recvData
        rw [show (view W ks).session x = some n from hn]
        dsimp only
        rw [show ((view W ks).connections n).down = body :: down from hdown]
        dsimp only
        exact Option.bind_eq_some_iff.mpr ⟨answer, hanswer, hgive⟩
      · rw [hi.down, hdown]
        show _ = (cli.session.begun ++ down).flatMap be16Frame
        rw [hbegun, List.append_assoc]
        rfl
      · have hshort := hi.short
        rw [hdown] at hshort
        show ∀ b ∈ cli.session.begun ++ down, _
        rw [hbegun, List.append_assoc]
        exact hshort
    · cases hs

/-! ## The server -/

theorem Carries.take {i : Nat} {bytes : Bytes} (h : Carries W ks) (hshort : Short W.server)
    (hs : W.take i n bytes = some W') : view W' ks = view W ks ∧ Carries W' ks := by
  have hsound := h.sound.take hshort hs
  unfold World.take at hs
  split at hs
  · obtain rfl := Option.some.inj hs
    have hfits := hsound.ends n
    replace hfits : Fits W.server n (Function.update W.ends n _ n) := hfits
    rw [Function.update_self] at hfits
    exact ⟨rfl, h.within hfits rfl rfl rfl⟩
  · cases hs

/-- **A socket is accepted**: the lobby has not heard of it yet. -/
theorem Carries.accept {sd : Nat} {loc rem : Iocp.Addr} {bound : Bool} (h : Carries W ks)
    (hfresh : Fresh W.server (.accept sd loc rem bound))
    (hs : W.accept sd loc rem bound = some W') : view W' ks = view W ks ∧ Carries W' ks := by
  have hsound := h.sound.accept hfresh hs
  obtain ⟨server, hserver, hs⟩ := Option.bind_eq_some_iff.mp hs
  obtain ⟨s, hio, rfl⟩ := Option.map_eq_some_iff.mp hserver
  obtain rfl : W.setServer { W.server with io_service := s } = W' := by
    dsimp only at hs
    split at hs
    · split at hs
      · exact Option.some.inj hs
      · cases hs
    · exact Option.some.inj hs
  refine ⟨rfl, hsound, fun m => ?_⟩
  show ∃ i, Shows i { W.server with io_service := s } m (W.ends m) (ks m)
  have hstep := Iocp.stepping hio
  have hreg := h.sound.server.known.service
  have hreg' : Iocp.Registered s := hsound.server.known.service
  have hsent := hstep.sentBytes_eq nofun
  obtain ⟨-, hst, -, hcases⟩ := accepted h.sound.server.wired.sane hfresh.1 hio
  obtain ⟨i, hi⟩ := h.shows m
  rcases hcases with ⟨hstack, hlive⟩ | ⟨j, n, hann⟩
  · refine ⟨i, hi.keep rfl (hsent i m) (fun k => ?_) (hlive i m) ?_⟩
    · exact hreg.seen_iff hstep (fun a b => (hlive a b).mp) k m
    · show _ ∈ s.stack ↔ _
      rw [hstack, hst]
  · have hback : ∀ k, s.Seen k m → W.server.io_service.Seen k m ∨ (k = j ∧ m = n) := by
      intro k hk
      rcases hstep.seen_new hk with hold | ⟨-, hl⟩
      · exact Or.inl hold
      · rcases (hann.old k m).mp hl with hown | hl
        · exact Or.inr hown
        · exact Or.inl (hreg.covered.live hl)
    by_cases hm : m = n
    · subst hm
      have hseen : s.Seen j m := hreg'.covered.live hann.live
      have hclean := Iocp.Clean.of_slot hreg hfresh.2 hio j m (by rw [hann.stack, hst])
      -- nobody has had the serial before
      have hunseen : ∀ k, ¬W.server.io_service.Seen k m := by
        intro k hk
        obtain rfl := hreg'.slot (hstep.seen hk) hseen
        obtain ⟨_, he⟩ := hk
        exact hclean.2 _ he rfl
      have hdead : ∀ k, ¬W.server.io_service.Live k m := fun k hl =>
        hunseen k (hreg.covered.live hl)
      obtain ⟨hnone, -, -, hhanded⟩ := h.sound.server.known.unseen (hunseen i)
      obtain ⟨hnone', -, -, hhanded'⟩ := h.sound.server.known.unseen (hunseen j)
      refine ⟨j, fun k hk => ?_, hi.unused, ?_, ?_, ?_, ?_, hi.short⟩
      · exact (hback k hk).elim (fun hold => absurd hold (hunseen k)) And.left
      · refine ⟨fun hk => absurd (hi.accepted.mp hk).1 (hdead i), fun hl => absurd ?_ hl.2⟩
        show _ ∈ s.stack
        rw [hann.stack]
        exact List.mem_cons_self
      · exact ⟨fun hk => absurd (hi.gone.mp hk).1 (hunseen i), fun hk => absurd hann.live hk.2⟩
      · rw [hi.up, hhanded]
        show _ = piecesOf j m W.server.handed ++ _
        rw [hhanded']
      · rw [← hi.down, hnone]
        exact (hsent j m).trans hnone'
    · refine ⟨i, hi.keep rfl (hsent i m) (fun k => ?_) ?_ ?_⟩
      · exact ⟨fun hk => (hback k hk).resolve_right fun hown => hm hown.2, hstep.seen⟩
      · exact ⟨fun hl => ((hann.old i m).mp hl).resolve_left fun hown => hm hown.2,
          fun hl => (hann.old i m).mpr (Or.inr hl)⟩
      · show _ ∈ s.stack ↔ _
        rw [hann.stack, hst, List.mem_singleton]
        refine iff_of_false (fun heq => ?_) List.not_mem_nil
        cases heq
        exact hm rfl

/-- What a completion changes of the ends is not to be seen. -/
theorem completed_ends {r : Iocp.Request} {c : Iocp.Completion} {server : Program}
    (hs : W.completed r c server = some W') :
    ∃ ends, W' = { W with server := server, ends := ends } ∧ ∀ m,
      (ends m).requested = (W.ends m).requested ∧ (ends m).output = (W.ends m).output ∧
        (ends m).cli = (W.ends m).cli := by
  unfold World.completed at hs
  split at hs
  · split at hs
    · obtain rfl := Option.some.inj hs
      exact ⟨W.ends, rfl, fun _ => ⟨rfl, rfl, rfl⟩⟩
    · cases hs
  · dsimp only at hs
    split at hs
    · obtain rfl := Option.some.inj hs
      refine ⟨_, rfl, fun m => ?_⟩
      by_cases hm : m = r.serial
      · subst hm
        rw [Function.update_self]
        exact ⟨rfl, rfl, rfl⟩
      · rw [Function.update_of_ne hm]
        exact ⟨rfl, rfl, rfl⟩
    · cases hs
  · obtain rfl := Option.some.inj hs
    exact ⟨W.ends, rfl, fun _ => ⟨rfl, rfl, rfl⟩⟩

theorem Carries.dequeue {r : Iocp.Request} {c : Iocp.Completion} {accepted : Bool}
    (h : Carries W ks) (hshort : Short W.server) (hs : W.dequeue r c accepted = some W') :
    view W' ks = view W ks ∧ Carries W' ks := by
  have hsound := h.sound.dequeue hshort hs
  obtain ⟨server, hserver, hs⟩ := Option.bind_eq_some_iff.mp hs
  obtain ⟨ends, rfl, hends⟩ := completed_ends hs
  cases step_outcome h.sound.server hserver with
  | quiet _ hsilent hsteady =>
    refine ⟨?_, hsound, fun m => ?_⟩
    · unfold view
      rw [hsilent.lobby]
    · obtain ⟨i, hi⟩ := h.shows m
      obtain ⟨hreq, hout, hcli⟩ := hends m
      exact ⟨i, (hi.silent hsilent hsteady).of_end hreq (by rw [hout]) (by rw [hcli])⟩

/-- Nothing is to be seen of a step of the server. -/
theorem Carries.quiet {sv : Program} (h : Carries W ks) (hsound : Sound (W.setServer sv))
    (hsilent : Silent W.server sv) (hsteady : Steady W.server sv) :
    view (W.setServer sv) ks = view W ks ∧ Carries (W.setServer sv) ks := by
  refine ⟨?_, hsound, fun m => ?_⟩
  · show view { W with server := sv } ks = _
    unfold view
    rw [hsilent.lobby]
  · obtain ⟨i, hi⟩ := h.shows m
    exact ⟨i, hi.silent hsilent hsteady⟩

/-- The lobby is called in both. -/
theorem view_call {sv : Program} {c : Lobby.Call} {env : Lobby.Env} {out : List Lobby.Sent}
    {pieces : List Piece} (ht : Turn W.server sv c env out pieces) (ks : Nat → Connection) :
    (view W ks).call c env
      = some (view (W.setServer sv) fun n => System.Connection.deliver n out (ks n)) := by
  unfold System.call
  rw [show (view W ks).lobby = W.server.lobby from rfl, ht.lobby, Option.map_some, ht.mail,
    List.drop_left]
  rfl

/-- Below a callback there is no `onCon`. -/
theorem no_onCon_tail {f : Iocp.Frame} {rest : List Iocp.Frame} {s : Iocp.Service} (hsane : Sane s)
    (hst : s.stack = f :: rest) {i m : Nat} (hne : f ≠ .onCon i m) : .onCon i m ∉ s.stack := by
  have hflat := hsane.flat
  rw [hst, List.tail_cons] at hflat
  intro hm
  rw [hst] at hm
  rcases List.mem_cons.mp hm with hm | hm
  · exact hne hm.symm
  · exact nomatch hflat _ hm

/-- The connection that is called back is open, and in the slot that it shows. -/
theorem Carries.called {i j n : Nat} {f : Iocp.Frame} {rest : List Iocp.Frame} (h : Carries W ks)
    (hst : W.server.io_service.stack = f :: rest) (hf : f.connection = (i, n))
    (hcall : ∀ r, f ≠ .tick r) (hj : Shows j W.server n (W.ends n) (ks n)) :
    W.server.io_service.Live i n ∧ j = i := by
  have hl : W.server.io_service.Live i n := by
    rcases h.sound.server.wired.sane.calling f (hst ▸ List.mem_cons_self) with ⟨r, rfl⟩ | hl
    · exact absurd rfl (hcall r)
    · rwa [hf] at hl
  exact ⟨hl, (hj.slot i (h.sound.server.known.service.covered.live hl)).symm⟩

/-- **`onCon`** -/
theorem Carries.joined {i n : Nat} {env : Lobby.Env} {rest : List Iocp.Frame} {sv : Program}
    (h : Carries W ks) (hsound : Sound (W.setServer sv))
    (hst : W.server.io_service.stack = .onCon i n :: rest)
    (ht : Turn W.server sv (.onCon i n) env [] [])
    (hlive : ∀ j m, sv.io_service.Live j m ↔ W.server.io_service.Live j m)
    (honCon : ∀ j m, .onCon j m ∉ sv.io_service.stack) :
    ∃ ks', (view W ks).accept n i env = some (view (W.setServer sv) ks') ∧
      Carries (W.setServer sv) ks' := by
  obtain ⟨j, hj⟩ := h.shows n
  obtain ⟨hl, rfl⟩ := h.called hst rfl nofun hj
  have hseen := h.sound.server.known.service.covered.live hl
  have hreq := (h.sound.ends n).requested j hseen
  have hmem : .onCon j n ∈ W.server.io_service.stack := hst ▸ List.mem_cons_self
  have hstage : (ks n).stage = .requested := by
    cases hk : (ks n).stage with
    | unused =>
      have hno := hj.unused.mp hk
      rw [hreq] at hno
      cases hno
    | requested => rfl
    | accepted => exact absurd hmem (hj.accepted.mp hk).2
    | gone => exact absurd hl (hj.gone.mp hk).2
  refine ⟨fun m => System.Connection.deliver m []
    (Function.update ks n { ks n with stage := .accepted } m), ?_, hsound, fun m => ?_⟩
  · unfold System.accept
    have hslot := h.sound.server.wired.sane.alive.index_lt hl
    rw [if_pos (show ((view W ks).connections n).stage = .requested ∧ j < Iocp.MAX_PEER_NUM from
      ⟨hstage, hslot⟩)]
    exact view_call ht _
  · show ∃ a, Shows a sv m (W.ends m) _
    by_cases hm : m = n
    · subst hm
      rw [Function.update_self]
      refine ⟨j, hj.turn hsound.server.known ht rfl ?_ ?_ ?_ ?_ (Or.inl rfl)⟩
      · rw [ht.handed, List.append_nil]
        exact hj.up
      · exact iff_of_false nofun (by rw [hreq]; nofun)
      · exact iff_of_true rfl ⟨(hlive j m).mpr hl, honCon j m⟩
      · exact iff_of_false nofun fun hgone => hgone.2 ((hlive j m).mpr hl)
    · rw [Function.update_of_ne hm]
      obtain ⟨a, ha⟩ := h.shows m
      refine ⟨a, ha.beside hsound.server.known ht rfl (hlive a m) ?_ (honCon a m)⟩
      refine no_onCon_tail h.sound.server.wired.sane hst fun heq => ?_
      cases heq
      exact hm rfl

/-- **`onDisCon`** -/
theorem Carries.left {i n : Nat} {env : Lobby.Env} {rest : List Iocp.Frame} {sv : Program}
    (h : Carries W ks) (hsound : Sound (W.setServer sv))
    (hst : W.server.io_service.stack = .onDisCon i n :: rest)
    (ht : Turn W.server sv (.onDisCon n) env [] [])
    (hlive : ∀ j m, sv.io_service.Live j m ↔ j ≠ i ∧ W.server.io_service.Live j m)
    (honCon : ∀ j m, .onCon j m ∉ sv.io_service.stack) :
    ∃ ks', (view W ks).onDisCon n env = some (view (W.setServer sv) ks') ∧
      Carries (W.setServer sv) ks' := by
  obtain ⟨j, hj⟩ := h.shows n
  obtain ⟨hl, rfl⟩ := h.called hst rfl nofun hj
  have hseen := h.sound.server.known.service.covered.live hl
  have hreq := (h.sound.ends n).requested j hseen
  have hsane := h.sound.server.wired.sane
  have hnone : ∀ a m, .onCon a m ∉ W.server.io_service.stack := fun a m =>
    no_onCon_tail hsane hst nofun
  have hstage : (ks n).stage = .accepted := hj.accepted.mpr ⟨hl, hnone j n⟩
  have hdead : ¬sv.io_service.Live j n := fun hl' => ((hlive j n).mp hl').1 rfl
  refine ⟨fun m => System.Connection.deliver m []
    (Function.update ks n { ks n with stage := .gone } m), ?_, hsound, fun m => ?_⟩
  · unfold System.onDisCon
    rw [if_pos (show ((view W ks).connections n).stage = .accepted from hstage)]
    exact view_call ht _
  · show ∃ a, Shows a sv m (W.ends m) _
    by_cases hm : m = n
    · subst hm
      rw [Function.update_self]
      refine ⟨j, hj.turn hsound.server.known ht rfl ?_ ?_ ?_ ?_ (Or.inl rfl)⟩
      · rw [ht.handed, List.append_nil]
        exact hj.up
      · exact iff_of_false nofun (by rw [hreq]; nofun)
      · exact iff_of_false nofun fun hacc => hdead hacc.1
      · exact iff_of_true rfl ⟨(ht.seen j m).mpr hseen, hdead⟩
    · rw [Function.update_of_ne hm]
      obtain ⟨a, ha⟩ := h.shows m
      refine ⟨a, ha.beside hsound.server.known ht rfl ?_ (hnone a m) (honCon a m)⟩
      refine (hlive a m).trans (and_iff_right_of_imp fun hla hai => hm ?_)
      exact hla.2.symm.trans (hai ▸ hl.2)

/-- **A message of a client** is the first one that is on its way. -/
theorem Carries.heard {i n : Nat} {env : Lobby.Env} {rest : List Iocp.Frame} {sv : Program}
    {body : Bytes} {out : List Lobby.Sent} (h : Carries W ks) (hsound : Sound (W.setServer sv))
    (hst : W.server.io_service.stack = .onRead i n :: rest)
    (ht : Turn W.server sv (.onRead n body) env out [⟨i, n, body⟩])
    (hsteady : Steady W.server sv) :
    (ks n).up.head? = some body ∧
      ∃ ks', (view W ks).onRead n env = some (view (W.setServer sv) ks') ∧
        Carries (W.setServer sv) ks' := by
  obtain ⟨j, hj⟩ := h.shows n
  obtain ⟨hl, rfl⟩ := h.called hst rfl nofun hj
  have hsane := h.sound.server.wired.sane
  have hnone : ∀ a m, .onCon a m ∉ W.server.io_service.stack := fun a m =>
    no_onCon_tail hsane hst nofun
  have hnone' : ∀ a m, .onCon a m ∉ sv.io_service.stack := fun a m hm =>
    hnone a m ((hsteady.onCon a m).mp hm)
  have hstage : (ks n).stage = .accepted := hj.accepted.mpr ⟨hl, hnone j n⟩
  have hpieces : piecesOf j n sv.handed = piecesOf j n W.server.handed ++ [body] := by
    rw [ht.handed, piecesOf_append, piecesOf_own]
  obtain ⟨up, hup⟩ : ∃ up, (ks n).up = body :: up := by
    have hfront : piecesOf j n sv.handed <+: (W.ends n).output.datagrams := hsound.heard j n
    rw [hpieces, hj.up] at hfront
    obtain ⟨up, hup⟩ := (List.prefix_append_right_inj _).mp hfront
    exact ⟨up, hup.symm⟩
  refine ⟨by rw [hup]; rfl, fun m => System.Connection.deliver m out
    (Function.update ks n { ks n with up := up } m), ?_, hsound, fun m => ?_⟩
  · unfold System.onRead
    rw [if_pos (show ((view W ks).connections n).stage = .accepted from hstage),
      show ((view W ks).connections n).up = body :: up from hup]
    exact view_call ht _
  · show ∃ a, Shows a sv m (W.ends m) _
    by_cases hm : m = n
    · subst hm
      rw [Function.update_self]
      have hl' := (hsteady.live j m).mpr hl
      refine ⟨j, hj.turn hsound.server.known ht rfl ?_ hj.unused ?_ ?_
        (Or.inr (iff_of_true hl hstage))⟩
      · rw [hpieces, hj.up, hup, List.append_assoc]
        rfl
      · exact iff_of_true hstage ⟨hl', hnone' j m⟩
      · refine iff_of_false (fun hgone => ?_) fun hgone => hgone.2 hl'
        rw [hstage] at hgone
        cases hgone
    · rw [Function.update_of_ne hm]
      obtain ⟨a, ha⟩ := h.shows m
      refine ⟨a, ha.beside hsound.server.known ht ?_ (hsteady.live a m) (hnone a m) (hnone' a m)⟩
      simp [piecesOf, Ne.symm hm]

/-- **`process`** -/
theorem Carries.processed {env : Lobby.Env} {sv : Program} {out : List Lobby.Sent}
    (h : Carries W ks) (hsound : Sound (W.setServer sv))
    (hst : W.server.io_service.stack = []) (ht : Turn W.server sv .process env out [])
    (hsteady : Steady W.server sv) :
    ∃ ks', (view W ks).call .process env = some (view (W.setServer sv) ks') ∧
      Carries (W.setServer sv) ks' := by
  have hnone : ∀ a m, .onCon a m ∉ W.server.io_service.stack := fun a m => by
    rw [hst]
    exact List.not_mem_nil
  refine ⟨_, view_call ht ks, hsound, fun m => ?_⟩
  obtain ⟨a, ha⟩ := h.shows m
  exact ⟨a, ha.beside hsound.server.known ht rfl (hsteady.live a m) (hnone a m)
    fun hm => hnone a m ((hsteady.onCon a m).mp hm)⟩

/-! ## Steps -/

/-- **A step of the bytes is nothing to the messages, or one step of them.** -/
theorem Carries.step {e : Event} (h : Carries W ks) (hok : Orderly W e) (hwhole : WholePackets W e)
    (hs : Wire.step W e = some W') :
    (view W' ks = view W ks ∧ Carries W' ks) ∨
      ∃ a ks', (AsksUnmatched W e → Match.AsksUnmatched (view W ks) a) ∧
        Match.step (view W ks) a = some (view W' ks') ∧ Carries W' ks' := by
  have hsound := h.sound.step hok hs
  cases e with
  | press x button now =>
    obtain ⟨ks', hstep, h'⟩ := h.press hs
    exact Or.inr ⟨.press x button now, ks', fun _ => trivial, hstep, h'⟩
  | connected x n ticks =>
    obtain ⟨ks', hstep, h'⟩ := h.connected hs
    exact Or.inr ⟨.connected x n ticks, ks', fun _ => trivial, hstep, h'⟩
  | closed x =>
    simp only [Wire.step, World.closed, Option.ite_none_left_eq_some] at hs
    obtain rfl := Option.some.inj hs.2
    refine Or.inr ⟨.closed x, ks, fun _ => trivial, ?_, ⟨h.sound.server, h.sound.ends⟩, h.shows⟩
    exact if_neg hs.1
  | recvData x r ticks =>
    obtain ⟨ks', hstep, h'⟩ := h.recvData hwhole hs
    exact Or.inr ⟨.recvData x ticks, ks', fun _ => trivial, hstep, h'⟩
  | fixedUpdate x ticks =>
    obtain ⟨ks', hstep, h'⟩ := h.give
      (fun body hb => whole_of_sized ((Match.fixedUpdate_follows _ _).sized body hb)) hs
    exact Or.inr ⟨.fixedUpdate x ticks, ks', fun _ => trivial, hstep, h'⟩
  | update x ended ball now =>
    obtain ⟨ks', hstep, h'⟩ := h.give
      (fun body hb => whole_of_sized ((Match.update_follows _ _ _ _).sized body hb)) hs
    exact Or.inr ⟨.update x ended ball now, ks', fun _ => trivial, hstep, h'⟩
  | sendInput x vx vy now =>
    obtain ⟨ks', hstep, h'⟩ := h.give
      (fun body hb => whole_of_sized ((Match.sendInput_follows _ _ _ _).sized body hb)) hs
    exact Or.inr ⟨.sendInput x vx vy now, ks', fun _ => trivial, hstep, h'⟩
  | take i n bytes => exact Or.inl (h.take hok hs)
  | serve a =>
    cases a with
    | accept sd loc rem bound => exact Or.inl (h.accept hok.1 hs)
    | dequeue r c accepted => exact Or.inl (h.dequeue hok.2 hs)
    | finish =>
      obtain ⟨sv, hsv, rfl⟩ := Option.map_eq_some_iff.mp hs
      cases step_outcome h.sound.server hsv with
      | quiet _ hsilent hsteady => exact Or.inl (h.quiet hsound hsilent hsteady)
    | process env posts =>
      obtain ⟨sv, hsv, rfl⟩ := Option.map_eq_some_iff.mp hs
      cases step_outcome h.sound.server hsv with
      | quiet _ hsilent hsteady => exact Or.inl (h.quiet hsound hsilent hsteady)
      | processed hst ht hsteady =>
        obtain ⟨ks', hstep, h'⟩ := h.processed hsound hst ht hsteady
        exact Or.inr ⟨.process env, ks', fun _ => trivial, hstep, h'⟩
    | callback env posts accepted =>
      obtain ⟨sv, hsv, rfl⟩ := Option.map_eq_some_iff.mp hs
      cases step_outcome h.sound.server hsv with
      | quiet _ hsilent hsteady => exact Or.inl (h.quiet hsound hsilent hsteady)
      | @joined _ _ _ _ i n rest hst ht hlive honCon =>
        obtain ⟨ks', hstep, h'⟩ := h.joined hsound hst ht hlive honCon
        exact Or.inr ⟨.accept n i env, ks', fun _ => trivial, hstep, h'⟩
      | @left _ _ _ _ i n rest hst ht hlive honCon =>
        obtain ⟨ks', hstep, h'⟩ := h.left hsound hst ht hlive honCon
        exact Or.inr ⟨.onDisCon n env, ks', fun _ => trivial, hstep, h'⟩
      | @heard _ _ _ _ i n rest body out hst hbody ht hsteady =>
        obtain ⟨hhead, ks', hstep, h'⟩ := h.heard hsound hst ht hsteady
        refine Or.inr ⟨.onRead n env, ks', fun hasks => ?_, hstep, h'⟩
        unfold AsksUnmatched at hasks
        dsimp only at hasks
        rw [hst] at hasks
        intro b hb
        rw [show (view W ks).connections n = ks n from rfl, hhead] at hb
        obtain rfl := Option.some.inj hb
        exact hasks body hbody

end Steps

/-! ## Runs -/

/-- What the runs of bytes are about that stand for runs of messages. -/
def Carrying (W : World) (e : Event) : Prop := Orderly W e ∧ WholePackets W e

/-- The same, while no player that has an opponent asks. -/
def Matching (W : World) (e : Event) : Prop := Carrying W e ∧ AsksUnmatched W e

instance (W : World) : ∀ e, Decidable (WholePackets W e)
  | .recvData .. => inferInstanceAs (Decidable (∀ _ ∈ _, _))
  | .press .. | .connected .. | .closed _ | .fixedUpdate .. | .update .. | .sendInput ..
  | .take .. | .serve _ => .isTrue trivial

instance (W : World) : ∀ e, Decidable (AsksUnmatched W e)
  | .serve (.callback env posts accepted) => by
    unfold AsksUnmatched
    dsimp only
    split
    · next i n rest _ =>
      have : Decidable (∀ p, W.server.lobby.m_players.find n = some (some p) →
          W.server.lobby.board.other p = none) :=
        Lobby.decidableFound _ fun p => W.server.lobby.board.other p = none
      exact inferInstanceAs (Decidable (∀ body ∈
        (be16Format.takeOne (W.server.io_service.readable i)).1, _ → _))
    · exact .isTrue trivial
  | .serve (.accept ..) | .serve (.dequeue ..) | .serve .finish | .serve (.process ..)
  | .press .. | .connected .. | .closed _ | .fixedUpdate .. | .update .. | .sendInput ..
  | .take .. | .recvData .. => .isTrue trivial

instance (W : World) (e : Event) : Decidable (Matching W e) :=
  inferInstanceAs (Decidable ((_ ∧ _) ∧ _))

theorem refines_new {W : World} (h : Initial W) : ∃ S, Match.Initial S ∧ Refines W S := by
  obtain rfl := h
  exact ⟨System.new, rfl, _, rfl, .new⟩

/-- The bytes simulate the messages. -/
theorem carrying_simulation : Simulation Initial step Carrying Match.Initial Match.step
    anyStep Refines where
  start _ h := refines_new h
  step W S e W' := by
    rintro ⟨ks, rfl, h⟩ hok hs
    rcases h.step hok.1 hok.2 hs with ⟨hview, h'⟩ | ⟨a, ks', -, hstep, h'⟩
    · exact Or.inl ⟨ks, hview.symm, h'⟩
    · exact Or.inr ⟨a, _, trivial, hstep, ks', rfl, h'⟩

theorem matching_simulation : Simulation Initial step Matching Match.Initial Match.step
    Match.AsksUnmatched Refines where
  start _ h := refines_new h
  step W S e W' := by
    rintro ⟨ks, rfl, h⟩ hok hs
    rcases h.step hok.1.1 hok.1.2 hs with ⟨hview, h'⟩ | ⟨a, ks', hasks, hstep, h'⟩
    · exact Or.inl ⟨ks, hview.symm, h'⟩
    · exact Or.inr ⟨a, _, hasks hok.2, hstep, ks', rfl, h'⟩

/-- The world shows the system: with the same lobby, the same clients on the same connections, and
on each connection the datagrams that the lobby has not heard and the messages that the client has
not begun. -/
structure World.Exhibits (W : World) (S : System) : Prop where
  lobby : S.lobby = W.server.lobby
  clients : S.clients = W.clients
  connecting : S.connecting = W.connecting
  session : S.session = W.session
  shows : ∀ n, ∃ i, Shows i W.server n (W.ends n) (S.connections n)

theorem Refines.exhibits {W : World} {S : System} (h : Refines W S) : W.Exhibits S := by
  obtain ⟨ks, rfl, h⟩ := h
  exact ⟨rfl, rfl, rfl, rfl, h.shows⟩

/-- **The server and its clients refine the system of messages.** Every world that the bytes reach
shows a system that the messages reach, and what the bytes do next is nothing to that system, or one
step of it. -/
theorem refines_messages {W : World} (hr : Reach Initial step Carrying W) :
    ∃ S, Reach Match.Initial Match.step anyStep S ∧ W.Exhibits S ∧
      ∀ e W', Carrying W e → step W e = some W' →
        W'.Exhibits S ∨ ∃ a S', Match.step S a = some S' ∧ W'.Exhibits S' := by
  obtain ⟨S, hS, hR⟩ := carrying_simulation.reach hr
  refine ⟨S, hS, hR.exhibits, fun e W' hok hs => ?_⟩
  rcases carrying_simulation.step _ _ _ _ hR hok hs with hR' | ⟨a, S', -, hs', hR'⟩
  · exact Or.inl hR'.exhibits
  · exact Or.inr ⟨a, S', hs', hR'.exhibits⟩

/-- What `System.RolesAgree` says, of the clients and the lobby of the world. -/
def World.RolesAgree (W : World) : Prop := (view W fun _ => .unused).RolesAgree

/-- **Two clients that play agree on their sides**, over bytes: by what they have parsed of what
the service has sent for the lobby. -/
theorem roles_agree_over_bytes {W : World} (hr : Reach Initial step Matching W) :
    W.RolesAgree := by
  refine matching_simulation.transfer (fun _ => Match.roles_agree) ?_ hr
  rintro W S ⟨ks, rfl, -⟩ h
  exact h

/-! ### Two clients play -/

theorem reach_matching_played : Reach Initial step Matching played :=
  Reach.of_exec (.start rfl) (by decide +kernel) (Option.some_get twoPlay_runs).symm

theorem refines_messages_played : ∃ S, Reach Match.Initial Match.step anyStep S ∧
    played.Exhibits S ∧ ∀ e W', Carrying played e → step played e = some W' →
      W'.Exhibits S ∨ ∃ a S', Match.step S a = some S' ∧ W'.Exhibits S' :=
  refines_messages (reach_matching_played.mono fun _ _ h => h.1)

theorem roles_agree_over_bytes_played :
    (played.clients 0).m_state = .ST_GameRunning ∧ (played.clients 1).m_state = .ST_GameRunning ∧
      played.RolesAgree :=
  ⟨by decide +kernel, by decide +kernel, roles_agree_over_bytes reach_matching_played⟩

end GhNet.Wire
