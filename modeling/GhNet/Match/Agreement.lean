import GhNet.Match.Invariant

/-!
# Two players agree on their sides

Whose messages are relayed to whom, and which sides their clients believe to play, in the runs of
the server with clients that follow the scripts.

`enqueue` takes a player whatever it does. The message that tells a client that it plays can cross
one with which the client takes its request back; if the client then asks again, its player is
matched a second time, and the first opponent is left behind. As long as no player that has an
opponent asks, two players whose clients play agree.
-/

namespace GhNet.Match

open GhNet GhNet.Lobby GhNet.Script

/-- No player that has an opponent asks for a match. -/
def AsksUnmatched (S : System) : Event → Prop
  | .onRead n env => ∀ body ∈ (S.connections n).up.head?,
    commandOf (opcode body env) = .autoMatch →
      ∀ p, S.lobby.m_players.find n = some (some p) → S.lobby.board.other p = none
  | _ => True

instance (S : System) : ∀ e, Decidable (AsksUnmatched S e)
  | .onRead n env =>
    have : Decidable (∀ p, S.lobby.m_players.find n = some (some p) →
      S.lobby.board.other p = none) := decidableFound _ fun p => S.lobby.board.other p = none
    inferInstanceAs (Decidable (∀ body ∈ (S.connections n).up.head?,
      commandOf (opcode body env) = .autoMatch → _))
  | .press _ _ _ | .connected _ _ _ | .closed _ | .recvData _ _ | .fixedUpdate _ _
  | .update _ _ _ _ | .sendInput _ _ _ _ | .accept _ _ _ | .onDisCon _ _ | .process _ =>
    .isTrue trivial

/-- **The invariant holds in every state reached** while no player that has an opponent asks. -/
theorem Sound.of_reach {S : System} (hr : Reach Initial step AsksUnmatched S) : Sound S := by
  refine hr.invariant Sound ?_ ?_
  · rintro S rfl
    exact sound_new
  · intro S e S' h hok hs
    cases e with
    | press x button now => exact h.press hs
    | connected x n ticks => exact h.connected hs
    | closed x => exact h.closed hs
    | recvData x ticks => exact h.recvData hs
    | fixedUpdate x ticks => exact h.give (fun _ _ => (fixedUpdate_follows _ _).acts) hs
    | update x ended ball now => exact h.give (fun _ _ => (update_follows _ _ _ _).acts) hs
    | sendInput x vx vy now => exact h.give (fun _ _ => (sendInput_follows _ _ _ _).acts) hs
    | accept n index env => exact h.accept hs
    | onRead n env => exact h.onRead hok hs
    | onDisCon n env => exact h.onDisCon hs
    | process env => exact h.process hs

/-! ## Agreement -/

/-- The client is on the connection of this player. -/
def System.PlaysAs (S : System) (x : Nat) (q : PlayerPtr) : Prop :=
  ∃ n, S.session x = some n ∧ S.lobby.board.serials[q]? = some n

/-- If client `x` plays and the server relays its messages to a player, then the server relays that
player's to `x`'s; and if the client of that player plays, too, then one of the two is the server
of the game and one is at the bottom. -/
def System.RolesAgree (S : System) : Prop :=
  ∀ x n p, (S.clients x).m_state = .ST_GameRunning → S.session x = some n →
    S.lobby.m_players.find n = some (some p) →
    ∀ cmd q, GHS_Player.Relayed cmd → GHS_Player.RelaysTo S.lobby cmd p q →
      (∀ cmd', GHS_Player.Relayed cmd' → GHS_Player.RelaysTo S.lobby cmd' q p) ∧
        ∀ y, (S.clients y).m_state = .ST_GameRunning → S.PlaysAs y q →
          (S.clients x).m_game.m_bSer ≠ (S.clients y).m_game.m_bSer ∧
            (S.clients x).m_game.m_bottom ≠ (S.clients y).m_game.m_bottom

/-- Messages go to the opponent. -/
theorem other_of_relaysTo {l : GHS_Lobby} {cmd : Nat} {p q : PlayerPtr}
    (h : GHS_Player.RelaysTo l cmd p q) : l.board.other p = some q := by
  obtain ⟨player, hp, hother, -⟩ := h
  exact (GHS_Lobby.board_other hp).trans hother

theorem exists_player_of_other {l : GHS_Lobby} {p q : PlayerPtr} (h : l.board.other p = some q) :
    ∃ player, l.players[p]? = some player ∧ player.m_other = some q := by
  have hlt : p < l.players.length := by
    rw [← List.length_map (f := GHS_Player.seat)]
    exact Board.lt_of_look h
  have hp := List.getElem?_eq_getElem hlt
  exact ⟨l.players[p], hp, (GHS_Lobby.board_other hp).symm.trans h⟩

theorem relaysTo_of_other {l : GHS_Lobby} (hl : l.board.Linked) {p q : PlayerPtr}
    (h : l.board.other p = some q) (cmd : Nat) : GHS_Player.RelaysTo l cmd p q := by
  obtain ⟨player, hp, hother⟩ := exists_player_of_other h
  refine ⟨player, hp, hother, fun _ => ?_⟩
  rw [← GHS_Lobby.board_game hp]
  exact hl.game_of_other p q h

/-- **Role agreement.** In every run in which no player that has an opponent asks for a match,
players that play agree in every state reached. -/
theorem roles_agree {S : System} (hr : Reach Initial step AsksUnmatched S) : S.RolesAgree := by
  have h := Sound.of_reach hr
  intro x n p hx hn hp cmd q _ hto
  have hother := other_of_relaysTo hto
  have hback := (h.matched.paired.opponent p q hother).2.1
  refine ⟨fun cmd' _ => relaysTo_of_other h.matched.linked hback cmd', fun y hy hq => ?_⟩
  obtain ⟨m, hm, hqm⟩ := hq
  obtain ⟨p', s, hp', hs, hser, hbottom⟩ := (h.client x n hn).running hx
  obtain ⟨q', s', hq', hs', hser', hbottom'⟩ := (h.client y m hm).running hy
  -- the serials say whose sides the two believe
  obtain rfl := Board.eq_of_serial h.matched.nodup (h.matched.registered n p hp) hp'
  obtain rfl := Board.eq_of_serial h.matched.nodup hqm hq'
  have hne := h.matched.paired.side_ne hother hs hs'
  rw [hser, hser', hbottom, hbottom']
  exact ⟨hne, hne⟩

/-! ## Runs -/

/-- The client connects, and the server accepts it. -/
def joins (x : Nat) : List Event :=
  [.press x .connect 0, .connected x x fun _ => 0, .accept x x Env.zero]

/-- The client presses a button that sends a message, and the server reads it. -/
def speaks (x : Nat) (button : Client.Button) : List Event :=
  [.press x button 0, .onRead x Env.zero]

/-- The client takes its next message, whatever the clock shows. -/
def hears (x : Nat) : Event := .recvData x fun _ => 0

/-- Two clients play. -/
def twoPlay : List Event :=
  joins 0 ++ joins 1 ++ speaks 0 .automatch ++ speaks 1 .automatch ++ [hears 0, hears 1] ++
    speaks 0 .ready ++ speaks 1 .ready ++ [hears 0, hears 1]

theorem twoPlay_runs : (exec step System.new twoPlay).isSome = true := by decide +kernel

theorem roles_agree_twoPlay : ((exec step System.new twoPlay).get twoPlay_runs).RolesAgree :=
  roles_agree (Reach.of_exec (.start rfl) (by decide +kernel) (Option.some_get twoPlay_runs).symm)

/-- The first client takes its request back while it is matched, and asks again. -/
def crossing : List Event :=
  joins 0 ++ joins 1 ++ joins 2 ++ speaks 0 .automatch ++ speaks 1 .automatch ++
    speaks 0 .cancelMatch ++ speaks 0 .automatch ++ speaks 2 .automatch ++ [hears 0, hears 1] ++
    speaks 0 .ready ++ speaks 1 .ready ++ [hears 1]

theorem crossing_runs : (exec step System.new crossing).isSome = true := by decide +kernel

/-- The system behind that run. -/
def crossed : System := (exec step System.new crossing).get crossing_runs

theorem other_crossed : crossed.lobby.board.other 1 = some 0 ∧
    crossed.lobby.board.other 0 = some 2 := by decide +kernel

/-- **The first opponent is left behind.** It plays, and is relayed to a player whose messages go to
somebody else. -/
theorem opponent_left_behind : ¬∀ S, Reach Initial step anyStep S → S.RolesAgree := by
  intro h
  have hr : Reach Initial step anyStep crossed :=
    Reach.of_exec (.start rfl) (by decide +kernel) (Option.some_get crossing_runs).symm
  obtain ⟨player, hp, hto⟩ := exists_player_of_other other_crossed.1
  obtain ⟨hrelays, -⟩ := h crossed hr 1 1 1 (by decide +kernel) (by decide +kernel)
    (by decide +kernel) PROTO_Synch_Pos 0 (Or.inl rfl) ⟨player, hp, hto, nofun⟩
  have h1 := other_of_relaysTo (hrelays PROTO_Synch_Pos (Or.inl rfl))
  rw [other_crossed.2] at h1
  exact absurd h1 (by decide)

end GhNet.Match
