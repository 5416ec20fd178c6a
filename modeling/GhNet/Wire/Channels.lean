import GhNet.Server.Turns
import GhNet.Wire.Machine

/-!
# Messages arrive in order

The bytes of a connection are split and joined on their way, in the buffers of the system, of the
service and of the client. What the lobby is handed are nevertheless the first datagrams that the
client has sent, and what the client's packet is begun on are the first messages that the lobby has
sent to the connection: none is lost in between, doubled or changed.
-/

namespace GhNet.Wire

open GhNet GhNet.Net GhNet.Server
open GhNet.Client (TcpCli Receive)

/-! ## Frames -/

/-- What the lobby sends to a connection are the frames of its messages. -/
theorem mailBytes_eq {sent : List Lobby.Sent} {sv : Program} (hk : Known sv)
    (hsub : ∀ m ∈ sent, m ∈ sv.lobby.sent) (i n : Nat) :
    mailBytes i n sent = ((mailFor i n sent).map Lobby.Sent.body).flatMap be16Frame := by
  rw [mailBytes, List.flatMap_map]
  refine List.flatMap_congr fun m hm => ?_
  obtain ⟨⟨body, hbytes, -⟩, -⟩ := hk.mail m (hsub m (List.mem_of_mem_filter hm))
  rw [Lobby.Sent.body, hbytes]
  rfl

theorem frames_mailBytes {sv : Program} (hk : Known sv) (i n : Nat) :
    be16Format.frames (mailBytes i n sv.lobby.sent)
      = (mailFor i n sv.lobby.sent).map Lobby.Sent.body := by
  rw [mailBytes_eq hk fun _ hm => hm, frames_flatMap fun body hbody => ?_]
  obtain ⟨m, hm, rfl⟩ := List.mem_map.mp hbody
  obtain ⟨⟨body, hbytes, hlen⟩, -⟩ := hk.mail m (List.mem_of_mem_filter hm)
  rw [Lobby.Sent.body, hbytes]
  exact hlen

/-- The messages for a serial. -/
def mailOf (n : Nat) (sent : List Lobby.Sent) : List Lobby.Sent :=
  sent.filter fun m => m.serial = n

/-- A serial has one slot. -/
theorem mailFor_eq {sent : List Lobby.Sent} {sv : Program} {i n : Nat} (hk : Known sv)
    (hsub : ∀ m ∈ sent, m ∈ sv.lobby.sent) (hslot : ∀ j, sv.io_service.Seen j n → j = i) :
    mailFor i n sent = mailOf n sent := by
  refine List.filter_congr fun m hm => ?_
  rw [decide_eq_decide]
  refine ⟨And.right, fun hn => ⟨hslot _ ?_, hn⟩⟩
  exact hn ▸ hk.handles _ (hk.mail m (hsub m hm)).2

/-! ## Connections -/

/-- The session has parsed what was fetched: it has begun the first messages, and has the rest. -/
structure Parsed (cli : TcpCli) (fetched : Bytes) : Prop where
  frames : cli.session.begun ++ be16Format.frames cli.session.RecvBuffer
    = be16Format.frames fetched
  rest : be16Format.rest cli.session.RecvBuffer = be16Format.rest fetched

theorem Parsed.recvData {cli cli' : TcpCli} {fetched : Bytes} {r : Receive}
    (h : Parsed cli fetched) (hr : cli.recvData r = some cli') :
    Parsed cli' (fetched ++ r.buff) := by
  obtain ⟨hbuf, hbegun, -⟩ := TcpCli.recvData_spec hr
  obtain ⟨hframes, hrest⟩ := FrameFormat.takeOne_frames (F := be16Format)
    (cli.session.RecvBuffer ++ r.buff)
  refine ⟨?_, ?_⟩
  · calc cli'.session.begun ++ be16Format.frames cli'.session.RecvBuffer
        = cli.session.begun ++ be16Format.frames (cli.session.RecvBuffer ++ r.buff) := by
          rw [hbuf, hbegun, List.append_assoc, hframes]
      _ = be16Format.frames fetched ++ be16Format.frames (be16Format.rest fetched ++ r.buff) := by
          rw [FrameFormat.frames_append, ← List.append_assoc, h.frames, h.rest]
      _ = be16Format.frames (fetched ++ r.buff) := (FrameFormat.frames_append _ _).symm
  · rw [hbuf, hrest, FrameFormat.rest_append, h.rest, ← FrameFormat.rest_append]

/-- The bytes on a connection: what the server has received, the client has written; what the
server's system has taken over, the lobby has sent; and what the client has fetched, was taken. -/
structure Fits (sv : Program) (n : Nat) (e : End) : Prop where
  framed : e.output.Framed
  received : ∀ i, (piecesOf i n sv.received).flatten <+: e.output.written
  taken : e.taken = [] ∨ ∃ i, sv.io_service.Seen i n ∧
    e.taken <+: Iocp.sentBytes i n sv.io_service.log
  fetched : e.fetched <+: e.taken
  parsed : Parsed e.cli e.fetched
  requested : ∀ i, sv.io_service.Seen i n → e.requested = true

/-- The invariant of the runs. -/
structure Sound (W : World) : Prop where
  server : Fluent W.server
  ends : ∀ n, Fits W.server n (W.ends n)

section Fits

variable {sv sv' : Program} {n : Nat} {e : End}

/-- The server has gone on, and has received nothing. -/
theorem Fits.served (h : Fits sv n e) (hrec : sv'.received = sv.received)
    (hsent : ∀ i, Iocp.sentBytes i n sv.io_service.log <+: Iocp.sentBytes i n sv'.io_service.log)
    (hseen : ∀ i, sv.io_service.Seen i n → sv'.io_service.Seen i n)
    (hnew : ∀ i, sv'.io_service.Seen i n → sv.io_service.Seen i n ∨ e.requested = true) :
    Fits sv' n e := by
  refine ⟨h.framed, hrec ▸ h.received, ?_, h.fetched, h.parsed, fun i hi => ?_⟩
  · rcases h.taken with hnil | ⟨i, hi, htaken⟩
    · exact Or.inl hnil
    · exact Or.inr ⟨i, hseen i hi, htaken.trans (hsent i)⟩
  · exact (hnew i hi).elim (h.requested i) id

/-- A connection that nobody has asked for is new. -/
theorem Fits.opened (h : Fits sv n e) (hk : Known sv) (hunused : e.requested = false) :
    Fits sv n { End.new with requested := true } := by
  have hunseen : ∀ i, ¬sv.io_service.Seen i n := by
    intro i hi
    rw [h.requested i hi] at hunused
    cases hunused
  refine ⟨.new, fun i => ?_, Or.inl rfl, List.prefix_rfl, ⟨rfl, rfl⟩, fun _ _ => rfl⟩
  rw [(hk.unseen (hunseen i)).2.2.1]
  exact List.nil_prefix

/-- The client has written more. -/
theorem Fits.wrote {output : Client.Output} (h : Fits sv n e) (hframed : output.Framed)
    (hmore : e.output.written <+: output.written) : Fits sv n { e with output := output } :=
  ⟨hframed, fun i => (h.received i).trans hmore, h.taken, h.fetched, h.parsed, h.requested⟩

end Fits

/-! ## Runs -/

/-- No connection has been sent a gigabyte. -/
def Short (sv : Program) : Prop :=
  ∀ m ∈ sv.lobby.sent, (mailBytes m.index m.serial sv.lobby.sent).length < 2 ^ 30

instance (sv : Program) : Decidable (Short sv) := inferInstanceAs (Decidable (∀ _ ∈ _, _))

theorem Short.sent {sv : Program} (h : Short sv) (ho : Outbox sv) (i n : Nat) :
    (Iocp.sentBytes i n sv.io_service.log).length < 2 ^ 30 := by
  refine Nat.lt_of_le_of_lt (ho.front i n).length_le ?_
  cases hmail : mailFor i n sv.lobby.sent with
  | nil =>
    rw [mailBytes, hmail]
    decide
  | cons m rest =>
    have hm : m ∈ mailFor i n sv.lobby.sent := hmail ▸ List.mem_cons_self
    obtain ⟨hmem, hown⟩ := List.mem_filter.mp hm
    obtain ⟨rfl, rfl⟩ := of_decide_eq_true hown
    exact h m hmem

/-- What the runs are about: serials do not run out, a new connection gets a slot for which nothing
is outstanding, and no connection is sent a gigabyte. -/
def Orderly (W : World) : Event → Prop
  | .serve a => Fresh W.server a ∧ Short W.server
  | .take .. => Short W.server
  | _ => True

instance (W : World) : ∀ e, Decidable (Orderly W e)
  | .serve _ => inferInstanceAs (Decidable (_ ∧ _))
  | .take .. => inferInstanceAs (Decidable (Short _))
  | .press .. | .connected .. | .closed _ | .recvData .. | .fixedUpdate .. | .update ..
  | .sendInput .. => .isTrue trivial

namespace Sound

variable {W W' : World} {x n : Nat}

theorem new : Sound World.new :=
  ⟨.new, fun _ => ⟨.new, fun _ => List.prefix_rfl, Or.inl rfl, List.prefix_rfl, ⟨rfl, rfl⟩,
    by rintro _ ⟨_, h⟩; cases h⟩⟩

theorem setEnd {e : End} (h : Sound W) (he : Fits W.server n e) : Sound (W.setEnd n e) :=
  ⟨h.server, (Function.forall_update_iff W.ends fun m e => Fits W.server m e).mpr
    ⟨he, fun m _ => h.ends m⟩⟩

/-- A client sends. -/
theorem give {r : Script.Client × List Bytes} (h : Sound W) (hs : W.give x r = some W') :
    Sound W' := by
  unfold World.give at hs
  split at hs
  · next n _ =>
    obtain ⟨output, hsend, rfl⟩ := Option.map_eq_some_iff.mp hs
    obtain ⟨hframed, hmore⟩ := (h.ends n).framed.sends hsend
    have hclient : Sound (W.setClient x r.1) := ⟨h.server, h.ends⟩
    exact hclient.setEnd ((h.ends n).wrote hframed hmore)
  · obtain ⟨_, -, rfl⟩ := Option.map_eq_some_iff.mp hs
    exact ⟨h.server, h.ends⟩

theorem connected {ticks : Nat → UInt32} (h : Sound W) (hs : W.connected x n ticks = some W') :
    Sound W' := by
  unfold World.connected at hs
  split at hs
  · next hnew =>
    obtain rfl := Option.some.inj hs
    have hclient : Sound (((W.setConnecting x (W.connecting x - 1)).setClient x
        ((W.clients x).clientConn ticks)).setSession x (some n)) := ⟨h.server, h.ends⟩
    exact hclient.setEnd ((h.ends n).opened h.server.known hnew.2)
  · cases hs

theorem press {button : Script.Client.Button} {now : UInt32} (h : Sound W)
    (hs : W.press x button now = some W') : Sound W' := by
  unfold World.press at hs
  split at hs
  · cases button with
    | connect | disconnect =>
      obtain rfl := Option.some.inj hs
      exact ⟨h.server, h.ends⟩
    | automatch | cancelMatch | ready => exact h.give hs
  · cases hs

/-- **A receive of a client.** -/
theorem recvData {r : Receive} {ticks : Nat → UInt32} (h : Sound W)
    (hs : W.recvData x r ticks = some W') : Sound W' := by
  unfold World.recvData at hs
  split at hs
  · cases hs
  · next n _ =>
    split at hs
    · next htaken =>
      obtain ⟨cli, hcli, hs⟩ := Option.bind_eq_some_iff.mp hs
      obtain ⟨answer, -, hs⟩ := Option.bind_eq_some_iff.mp hs
      have hn := h.ends n
      have hfits : Fits W.server n
          { W.ends n with fetched := (W.ends n).fetched ++ r.buff, cli := cli } :=
        ⟨hn.framed, hn.received, hn.taken, htaken, hn.parsed.recvData hcli, hn.requested⟩
      exact (h.setEnd hfits).give hs
    · cases hs

/-- **The system takes over a part of an outstanding `WSASend`.** -/
theorem take {i : Nat} {bytes : Bytes} (h : Sound W) (hshort : Short W.server)
    (hs : W.take i n bytes = some W') : Sound W' := by
  unfold World.take at hs
  split at hs
  · next hex =>
    obtain ⟨r, hr, w, hw, hbytes⟩ := hex
    obtain rfl := Option.some.inj hs
    have hn := h.ends n
    have hlen := hshort.sent h.server.outbox i n
    have hseen : W.server.io_service.Seen i n := by
      obtain ⟨hposted, rfl, -, rfl⟩ := Iocp.mem_writesOf.mp hr
      exact h.server.known.service.covered.posted r hposted
    have hsent := (h.server.outbox.flows i n hlen).1.offered r hr w hw
    exact h.setEnd ⟨hn.framed, hn.received, Or.inr ⟨i, hseen, hbytes.trans hsent⟩,
      hn.fetched.trans (List.prefix_append _ _), hn.parsed, hn.requested⟩
  · cases hs

/-- **A socket is accepted.** -/
theorem accept {sd : Nat} {loc rem : Iocp.Addr} {bound : Bool} (h : Sound W)
    (hfresh : Fresh W.server (.accept sd loc rem bound))
    (hs : W.accept sd loc rem bound = some W') : Sound W' := by
  obtain ⟨server, hserver, hs⟩ := Option.bind_eq_some_iff.mp hs
  have hfluent := h.server.step hfresh hserver
  have hrec := step_received (by nofun) hserver
  obtain ⟨s, hio, rfl⟩ := Option.map_eq_some_iff.mp hserver
  have hsent := (Iocp.stepping hio).sentBytes_eq nofun
  obtain ⟨-, -, -, hcases⟩ := accepted h.server.wired.sane hfresh.1 hio
  have hcover := h.server.known.service.covered
  -- who is announced is on the stack
  have hnew : ∀ i m, s.Seen i m → W.server.io_service.Seen i m ∨ s.stack = [.onCon i m] := by
    intro i m hseen
    rcases (Iocp.stepping hio).seen_new hseen with hold | ⟨-, hl⟩
    · exact Or.inl hold
    · rcases hcases with ⟨-, hlive⟩ | ⟨j, k, hann⟩
      · exact Or.inl (hcover.live ((hlive i m).mp hl))
      · rcases (hann.old i m).mp hl with ⟨rfl, rfl⟩ | hl
        · exact Or.inr hann.stack
        · exact Or.inl (hcover.live hl)
  have hgo : ∀ hask : (∀ i m, s.stack = [.onCon i m] → (W.ends m).requested = true),
      Sound (W.setServer { W.server with io_service := s }) := fun hask =>
    ⟨hfluent, fun m => (h.ends m).served hrec (fun i => (hsent i m).symm ▸ List.prefix_rfl)
      (fun i => (Iocp.stepping hio).seen) fun i hi => (hnew i m hi).imp_right (hask i m)⟩
  dsimp only at hs
  split at hs
  · next j k rest hst =>
    split at hs
    · next hreq =>
      obtain rfl := Option.some.inj hs
      refine hgo fun i m hstack => ?_
      rw [hst] at hstack
      cases (List.cons.inj hstack).1
      exact hreq
    · cases hs
  · next hnone =>
    obtain rfl := Option.some.inj hs
    exact hgo fun i m hstack => absurd hstack (hnone i m [])

/-- What a completion adds to what was received. -/
theorem received_dequeue {sv sv' : Program} {r : Iocp.Request} {c : Iocp.Completion}
    {accepted : Bool} (hs : Server.step sv (.dequeue r c accepted) = some sv') :
    (∃ size bytes, r.io_operation = .ClientIoRead ∧ c = .success size bytes ∧
      sv'.received = sv.received ++ [⟨r.index, r.serial, bytes⟩]) ∨
    ((∀ size bytes, r.io_operation = .ClientIoRead → c ≠ .success size bytes) ∧
      sv'.received = sv.received) := by
  obtain ⟨sv₁, hstep, rfl⟩ := Option.map_eq_some_iff.mp hs
  have hrec := io_received hstep
  unfold Program.receive
  split
  · next size bytes hop =>
    refine Or.inl ⟨size, bytes, hop, rfl, ?_⟩
    rw [← hrec]
  · next hno => exact Or.inr ⟨fun size bytes hop heq => hno size bytes hop heq, hrec⟩

/-- **A completion.** -/
theorem dequeue {r : Iocp.Request} {c : Iocp.Completion} {accepted : Bool} (h : Sound W)
    (hshort : Short W.server) (hs : W.dequeue r c accepted = some W') : Sound W' := by
  obtain ⟨server, hserver, hs⟩ := Option.bind_eq_some_iff.mp hs
  have hfluent := h.server.step (a := .dequeue r c accepted) trivial hserver
  have hon := (step_outcome h.server hserver).onwards rfl
  have hsame : ∀ i n, Iocp.sentBytes i n server.io_service.log
      = Iocp.sentBytes i n W.server.io_service.log := by
    cases step_outcome h.server hserver with
    | quiet _ hsilent _ => exact hsilent.sent
  have hposted : r ∈ W.server.io_service.posted := by
    obtain ⟨sv₁, hstep, -⟩ := Option.map_eq_some_iff.mp hserver
    obtain ⟨s, hio, -⟩ := Option.map_eq_some_iff.mp hstep
    cases Iocp.stepping hio with
    | dequeue _ hr _ _ => exact hr
  have hseen := h.server.known.service.covered.posted r hposted
  have hserved : server.received = W.server.received → ∀ m, Fits server m (W.ends m) :=
    fun hrec m => (h.ends m).served hrec (fun i => (hon i m).1) (fun i => (hon i m).2.mpr)
      fun i hi => Or.inl ((hon i m).2.mp hi)
  unfold World.completed at hs
  rcases received_dequeue hserver with ⟨size, bytes, hop, rfl, hrec⟩ | ⟨hno, hrec⟩
  · -- the bytes that a `WSARecv` has brought come next
    rw [hop] at hs
    dsimp only at hs
    split at hs
    · next hnext =>
      obtain rfl := Option.some.inj hs
      refine ⟨hfluent, fun m => ?_⟩
      have hm := h.ends m
      refine ⟨hm.framed, fun i => ?_, ?_, hm.fetched, hm.parsed,
        fun i hi => hm.requested i ((hon i m).2.mp hi)⟩
      · show (piecesOf i m server.received).flatten <+: _
        rw [hrec, piecesOf_append, List.flatten_append]
        by_cases hown : r.index = i ∧ r.serial = m
        · obtain ⟨rfl, rfl⟩ := hown
          rw [piecesOf_own, List.flatten_singleton]
          exact hnext
        · have hnone : piecesOf i m [⟨r.index, r.serial, bytes⟩] = [] := by simp [piecesOf, hown]
          rw [hnone, List.flatten_nil, List.append_nil]
          exact hm.received i
      · rcases hm.taken with hnil | ⟨i, hi, htaken⟩
        · exact Or.inl hnil
        · exact Or.inr ⟨i, (hon i m).2.mpr hi, htaken.trans (hon i m).1⟩
    · cases hs
  · split at hs
    · next hop _ => exact absurd rfl (hno _ _ hop)
    · -- what a `WSASend` has transmitted, the lobby has sent
      dsimp only at hs
      split at hs
      · next htaken =>
        obtain rfl := Option.some.inj hs
        have hlen : (Iocp.sentBytes r.index r.serial server.io_service.log).length < 2 ^ 30 := by
          rw [hsame]
          exact hshort.sent h.server.outbox r.index r.serial
        have hfront := (hfluent.outbox.flows r.index r.serial hlen).1.front
        have hself := hserved hrec r.serial
        have hall : Sound (W.setServer server) := ⟨hfluent, hserved hrec⟩
        exact hall.setEnd ⟨hself.framed, hself.received,
          Or.inr ⟨r.index, (hon r.index r.serial).2.mpr hseen, hfront⟩,
          hself.fetched.trans htaken, hself.parsed, hself.requested⟩
      · cases hs
    · obtain rfl := Option.some.inj hs
      exact ⟨hfluent, hserved hrec⟩

/-- The steps of the server in which nobody comes and nothing is dequeued. -/
theorem serve {a : Input} {sv : Program} (h : Sound W) (hfresh : Fresh W.server a)
    (ha : a.accepts = false) (hdeq : ∀ r c accepted, a ≠ .dequeue r c accepted)
    (hs : Server.step W.server a = some sv) : Sound (W.setServer sv) := by
  have hon := (step_outcome h.server hs).onwards ha
  exact ⟨h.server.step hfresh hs, fun m => (h.ends m).served (step_received hdeq hs)
    (fun i => (hon i m).1) (fun i => (hon i m).2.mpr) fun i hi => Or.inl ((hon i m).2.mp hi)⟩

/-- **Every step keeps the invariant.** -/
theorem step {e : Event} (h : Sound W) (hok : Orderly W e) (hs : Wire.step W e = some W') :
    Sound W' := by
  cases e with
  | press x button now => exact h.press hs
  | connected x n ticks => exact h.connected hs
  | closed x =>
    simp only [Wire.step, World.closed, Option.ite_none_left_eq_some] at hs
    obtain rfl := Option.some.inj hs.2
    exact ⟨h.server, h.ends⟩
  | recvData x r ticks => exact h.recvData hs
  | fixedUpdate | update | sendInput => exact h.give hs
  | take i n bytes => exact h.take hok hs
  | serve a =>
    cases a with
    | accept sd loc rem bound => exact h.accept hok.1 hs
    | dequeue r c accepted => exact h.dequeue hok.2 hs
    | finish | callback | process =>
      obtain ⟨sv, hsv, rfl⟩ := Option.map_eq_some_iff.mp hs
      exact h.serve hok.1 rfl (by nofun) hsv

theorem of_reach (hr : Reach Initial Wire.step Orderly W) : Sound W := by
  refine hr.invariant Sound ?_ fun _ _ _ h hok hs => h.step hok hs
  rintro W rfl
  exact new

end Sound

/-! ## Order of delivery -/

section Delivery

variable {W : World}

/-- The packets that a client has begun are frames of what was taken over. -/
theorem Fits.begun {sv : Program} {n : Nat} {e : End} (h : Fits sv n e) :
    e.cli.session.begun <+: be16Format.frames e.taken := by
  have hframes := FrameFormat.frames_mono (F := be16Format) h.fetched
  rw [← h.parsed.frames] at hframes
  exact (List.prefix_append _ _).trans hframes

/-- What was taken over is the front of the output of the connection's slot. -/
theorem Fits.taken_front {sv : Program} {i n : Nat} {e : End} (h : Fits sv n e)
    (hslot : ∀ j, sv.io_service.Seen j n → j = i) :
    e.taken <+: Iocp.sentBytes i n sv.io_service.log := by
  rcases h.taken with hnil | ⟨j, hj, htaken⟩
  · rw [hnil]
    exact List.nil_prefix
  · exact hslot j hj ▸ htaken

/-- What the lobby was handed from a connection are the first datagrams that were sent on it. -/
theorem Sound.heard (h : Sound W) (i n : Nat) :
    piecesOf i n W.server.handed <+: (W.ends n).output.datagrams := by
  have hframes := FrameFormat.frames_mono (F := be16Format) ((h.ends n).received i)
  rw [(h.ends n).framed.frames] at hframes
  exact (h.server.inbox i n).trans hframes

/-- **The lobby hears what the clients say**: what it was handed from a connection are the first
datagrams that were sent on it, in their order. -/
theorem hears_in_order (hr : Reach Initial step Orderly W) (i n : Nat) :
    piecesOf i n W.server.handed <+: (W.ends n).output.datagrams :=
  (Sound.of_reach hr).heard i n

/-- **The clients hear what the lobby says**: what the packet of a connection was begun on are the
first messages that the lobby has sent to it, in their order. -/
theorem told_in_order (hr : Reach Initial step Orderly W) (n : Nat) :
    (W.ends n).cli.session.begun <+: (mailOf n W.server.lobby.sent).map Lobby.Sent.body := by
  have h := Sound.of_reach hr
  obtain ⟨i, hslot⟩ : ∃ i, ∀ j, W.server.io_service.Seen j n → j = i := by
    by_cases hseen : ∃ i, W.server.io_service.Seen i n
    · obtain ⟨i, hi⟩ := hseen
      exact ⟨i, fun j hj => h.server.known.service.slot hj hi⟩
    · exact ⟨0, fun j hj => absurd ⟨j, hj⟩ hseen⟩
  have hmail := ((h.ends n).taken_front hslot).trans (h.server.outbox.front i n)
  have hframes := (h.ends n).begun.trans (FrameFormat.frames_mono hmail)
  rw [frames_mailBytes h.server.known] at hframes
  rwa [mailFor_eq h.server.known (fun _ hm => hm) hslot] at hframes

end Delivery

/-! ### Two clients play -/

section Example

/-- The request that was posted as the `k`-th of those that are outstanding. -/
def request (k : Nat) (W : World) : Iocp.Request :=
  W.server.io_service.posted.getD k ⟨0, .ClientIoUnknown, 0, 0, none⟩

/-- The events of a run in which each is chosen when the ones before it have happened. -/
def play : World → List (World → Event) → List Event
  | _, [] => []
  | W, e :: es => e W :: match step W (e W) with
    | some W' => play W' es
    | none => []

/-- A step of the server. -/
def runs (a : Input) : World → Event := fun _ => .serve a

/-- The callback that the service has called. -/
def callsBack : Input := .callback Lobby.Env.zero (fun _ => true) true

/-- The request at place `k` of those that the system has comes back. -/
def completes (k size : Nat) (bytes : Bytes) : World → Event := fun W =>
  .serve (.dequeue (request k W) (.success size bytes) true)

/-- Client `x` connects. -/
def joins (x sd : Nat) : List (World → Event) :=
  [fun _ => .press x .connect 0, fun _ => .connected x x fun _ => 0,
    runs (.accept sd ⟨"", 0⟩ ⟨"", 0⟩ true), runs callsBack]

/-- Client `x` receives what the system of the server has taken over. -/
def gets (x : Nat) (bytes : Bytes) : List (World → Event) :=
  [fun _ => .take x x bytes, fun _ => .recvData x ⟨bytes, Client.CmdPacket.new⟩ fun _ => 0]

/-- Both ask for a match, one of them in two parts. -/
def bothAsk : List (World → Event) :=
  [fun _ => .press 0 .automatch 0, fun _ => .press 1 .automatch 0,
    completes 0 3 [0, 2, 0], runs callsBack, runs .finish,
    completes 1 1 [1], runs callsBack, runs .finish,
    completes 0 4 [0, 2, 0, 1], runs callsBack, runs .finish]

/-- Both are ready. -/
def bothReady : List (World → Event) :=
  [fun _ => .press 0 .ready 0, fun _ => .press 1 .ready 0,
    completes 0 4 [0, 2, 0, 4], runs callsBack, runs .finish,
    completes 0 4 [0, 2, 0, 4], runs callsBack, runs .finish]

/-- The service begins to send to both. -/
def bothSent : List (World → Event) :=
  [completes 1 0 [], runs .finish, completes 1 0 [], runs .finish]

/-- The two `WSASend`s are done. -/
def bothDone : List (World → Event) :=
  [completes 2 4 [], runs .finish, completes 2 4 [], runs .finish]

/-- Two clients play, byte by byte. -/
def twoPlay : List Event := play World.new (joins 0 7 ++ joins 1 8 ++ bothAsk ++ bothSent
  ++ gets 0 [0, 2, 0, 3] ++ gets 1 [0, 2, 0, 3] ++ bothDone ++ bothReady ++ bothSent
  ++ gets 0 [0, 4, 0, 5, 1, 1] ++ gets 1 [0, 4, 0, 5, 0, 0])

theorem twoPlay_runs : (exec step World.new twoPlay).isSome = true := by decide +kernel

/-- The world in which both play. -/
def played : World := (exec step World.new twoPlay).get twoPlay_runs

theorem reach_played : Reach Initial step Orderly played :=
  Reach.of_exec (.start rfl) (by decide +kernel) (Option.some_get twoPlay_runs).symm

theorem hears_in_order_played : piecesOf 0 0 played.server.handed = [[0, 1], [0, 4]] ∧
    piecesOf 0 0 played.server.handed <+: (played.ends 0).output.datagrams :=
  ⟨by decide +kernel, hears_in_order reach_played 0 0⟩

theorem told_in_order_played : (played.ends 1).cli.session.begun = [[0, 3], [0, 5, 0, 0]] ∧
    (played.ends 1).cli.session.begun
      <+: (mailOf 1 played.server.lobby.sent).map Lobby.Sent.body :=
  ⟨by decide +kernel, told_in_order reach_played 1⟩

end Example

end GhNet.Wire
