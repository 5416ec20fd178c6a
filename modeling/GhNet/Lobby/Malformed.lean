import GhNet.Lobby.Links

/-!
# Messages that are none

A message is ignored if its number is none that `recv` knows. One that is too short to have a number
is not: `recv` goes on with the number that happens to be in its variable.
-/

namespace GhNet.Lobby

open GhNet GhNet.Net GHS_Lobby

/-- The numbers that `recv` knows. -/
def handled : List Nat :=
  [PROTO_Keep_Alive, PROTO_Keep_Alive_Ack, PROTO_Synch_Pos, PROTO_C_AutoMatch, PROTO_C_UAutoMatch,
    PROTO_C_GameReady, PROTO_C_GameShot]

/-- A body that is too short for a number, or has one that `recv` does not know. -/
def Malformed : Bytes → Prop
  | hi :: lo :: _ => be16Val hi lo ∉ handled
  | _ => True

instance decMalformed : ∀ body, Decidable (Malformed body)
  | hi :: lo :: _ => inferInstanceAs (Decidable (be16Val hi lo ∉ handled))
  | [_] => .isTrue trivial
  | [] => .isTrue trivial

variable {l : GHS_Lobby} {serial : Nat} {p : PlayerPtr} {body : Bytes} {env : Env}

/-- The call comes back, whatever it finds: nothing is sent, and nothing is changed but the time at
which the player was last heard of. What was in `cmd` makes no difference. -/
structure Ignored (l : GHS_Lobby) (serial : Nat) (p : PlayerPtr) (body : Bytes) : Prop where
  step_eq : ∀ env, step l (.onRead serial body, env) = some (l.received p env)
  sent : ∀ env l', step l (.onRead serial body, env) = some l' → l'.sent = l.sent
  cmd : ∀ env cmd,
    step l (.onRead serial body, { env with cmd := cmd }) = step l (.onRead serial body, env)

theorem Ignored.of_step (h : ∀ env, step l (.onRead serial body, env) = some (l.received p env)) :
    Ignored l serial p body where
  step_eq := h
  sent env l' hs := by
    rw [h env] at hs
    obtain rfl := Option.some.inj hs
    rfl
  cmd env cmd := (h _).trans (h env).symm

theorem step_onRead (hfind : l.m_players.find serial = some (some p)) (body : Bytes) (env : Env) :
    step l (.onRead serial body, env) =
      GHS_Player.recv p ((CmdPacket.new (env.memory 0)).beginRead body body.length) env l := by
  rw [step]
  unfold GHS_Lobby.onRead GHS_Lobby.getPlayer
  rw [hfind]

/-- A number that `recv` does not know. -/
theorem recv_unhandled {packet : CmdPacket} (hp : p < l.players.length)
    (hcmd : packet.readUShort.1.getD env.cmd ∉ handled) :
    GHS_Player.recv p packet env l = some (l.received p env) := by
  have hplayer : ∃ player, (l.received p env).players[p]? = some player := by
    refine ⟨_, List.getElem?_eq_getElem ?_⟩
    rw [received, modifyPlayer, List.length_modify]
    exact hp
  obtain ⟨player, hplayer⟩ := hplayer
  have hne : ∀ n ∈ handled, packet.readUShort.1.getD env.cmd ≠ n := fun n hn heq =>
    hcmd (heq ▸ hn)
  unfold GHS_Player.recv
  dsimp only
  rw [show (l.getTickCount env).2.modifyPlayer p
    (GHS_Player.withRecvTime (l.getTickCount env).1) = l.received p env from rfl, hplayer]
  simp only [bind, Option.bind]
  rw [if_neg (hne PROTO_Keep_Alive (by decide)), if_neg (hne PROTO_Keep_Alive_Ack (by decide)),
    if_neg (hne PROTO_Synch_Pos (by decide)), if_neg (hne PROTO_C_AutoMatch (by decide)),
    if_neg (hne PROTO_C_UAutoMatch (by decide)), if_neg (hne PROTO_C_GameReady (by decide)),
    if_neg (hne PROTO_C_GameShot (by decide))]

/-- Whoever asks for a match waits for one or plays. -/
theorem enqueue_ne {b : Board} (h : b.Linked) (p : PlayerPtr) : b.enqueue p ≠ b := by
  intro heq
  rcases Board.enqueue_cases h p with ⟨hqueue, hwait⟩ | ⟨q, hqueue, hplay⟩
  · have hsame : b.queue = [p] := congrArg Board.queue (heq.symm.trans hwait)
    rw [hqueue] at hsame
    cases hsame
  · have hsame : b.queue = [] := congrArg Board.queue (heq.symm.trans hplay)
    rw [hqueue] at hsame
    cases hsame

/-- A short body is a request for a match if that was in `cmd`. -/
theorem step_short (env : Env) (hr : Reachable l) (hfind : l.m_players.find serial = some (some p))
    (hshort : body.length < 2) :
    step l (.onRead serial body, { env with cmd := PROTO_C_AutoMatch }) ≠
      some (l.received p { env with cmd := PROTO_C_AutoMatch }) := by
  intro hs
  have hcmd : opcode body { env with cmd := PROTO_C_AutoMatch } = PROTO_C_AutoMatch := by
    obtain _ | ⟨hi, _ | ⟨lo, body⟩⟩ := body
    · rfl
    · rfl
    · rw [List.length_cons, List.length_cons] at hshort
      omega
  have hboard := step_board hs
  rw [board_received, meaning, hcmd, Board.step,
    show l.board.registry.find serial = some (some p) from hfind] at hboard
  exact enqueue_ne (Reachable.linked hr) p hboard.symm

/-- **What is malformed is ignored if and only if it is not too short.** -/
theorem ignored_iff (hr : Reachable l) (hfind : l.m_players.find serial = some (some p))
    (hbody : Malformed body) : Ignored l serial p body ↔ 2 ≤ body.length := by
  constructor
  · intro hignored
    by_contra hshort
    exact step_short Env.zero hr hfind (Nat.lt_of_not_le hshort) (hignored.step_eq _)
  · intro hlen
    have hp : p < l.players.length := by
      have hlt := (Reachable.linked hr).registry_lt serial p hfind
      rwa [show l.board.seats.length = l.players.length from List.length_map _] at hlt
    refine .of_step fun env => ?_
    rw [step_onRead hfind]
    refine recv_unhandled hp ?_
    rw [readUShort_getD]
    obtain _ | ⟨hi, _ | ⟨lo, body⟩⟩ := body
    · cases hlen
    · rw [List.length_singleton] at hlen
      omega
    · exact hbody

/-- A player that has just come. -/
theorem alone_runs : (runCalls [.onCon 0 0]).isSome = true := by decide +kernel

/-- A lobby with one player, who has sent nothing. -/
def alone : GHS_Lobby := (runCalls [.onCon 0 0]).get alone_runs

theorem reachable_alone : Reachable alone := reach_runCalls (by decide +kernel) alone_runs

theorem ignored_unknown : Ignored alone 0 0 [1, 2, 3] :=
  (ignored_iff reachable_alone (by decide +kernel) (by decide)).mpr (by decide)

/-- **An empty message can be taken for a request for a match.** -/
theorem empty_not_ignored :
    ¬∀ (l : GHS_Lobby) (serial : Nat) (p : PlayerPtr) (body : Bytes), Reachable l →
      l.m_players.find serial = some (some p) → Malformed body → Ignored l serial p body := by
  intro h
  have hignored := h alone 0 0 [] reachable_alone (by decide +kernel) trivial
  exact step_short Env.zero reachable_alone (by decide +kernel) (by decide)
    (hignored.step_eq _)

end GhNet.Lobby
