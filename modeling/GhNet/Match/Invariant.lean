import GhNet.Match.Clients

/-!
# The server in step with its clients

The invariant of the server with clients that follow the scripts: the lobby is matched, what is on
the way asks in turn, what starts a game says the right side, and a client that plays believes what
its player has. Every step keeps it, but for one: a player that has an opponent asks for a match.
-/

namespace GhNet.Match

open GhNet GhNet.Lobby GhNet.Script

/-! ## The lobby -/

/-- What holds of the lobby while no player is matched twice. -/
structure Matched (l : GHS_Lobby) : Prop where
  reach : Reachable l
  paired : l.board.Paired
  sided : l.Sided
  registered : l.board.Registered
  nodup : l.board.serials.Nodup

/-- The message says the side of the player that has this serial. -/
def Says (b : Board) (n : Nat) (body : Bytes) : Prop :=
  ∃ p s, b.serials[p]? = some n ∧ b.side p = some s ∧ body = GHS_Player.startBody s s

/-- The client plays the side of the player that has this serial. -/
def Believes (b : Board) (n : Nat) (c : Client) : Prop :=
  ∃ p s, b.serials[p]? = some n ∧ b.side p = some s ∧ c.m_game.m_bSer = s ∧ c.m_game.m_bottom = s

/-- The sides that players have are kept. -/
def KeepsSides (b b' : Board) : Prop :=
  ∀ p n s, b.serials[p]? = some n → b.side p = some s →
    b'.serials[p]? = some n ∧ b'.side p = some s

theorem Says.keep {b b' : Board} {n : Nat} {body : Bytes} (h : Says b n body)
    (hk : KeepsSides b b') : Says b' n body := by
  obtain ⟨p, s, hn, hs, hbody⟩ := h
  obtain ⟨hn', hs'⟩ := hk p n s hn hs
  exact ⟨p, s, hn', hs', hbody⟩

theorem Believes.keep {b b' : Board} {n : Nat} {c : Client} (h : Believes b n c)
    (hk : KeepsSides b b') : Believes b' n c := by
  obtain ⟨p, s, hn, hs, hc⟩ := h
  obtain ⟨hn', hs'⟩ := hk p n s hn hs
  exact ⟨p, s, hn', hs', hc⟩

theorem matched_new : Matched GHS_Lobby.new where
  reach := .start rfl
  paired := Board.paired_empty
  sided := fun _ _ _ h => nomatch h
  registered := Board.registered_empty
  nodup := List.nodup_nil

theorem serial_of_badge {l : GHS_Lobby} {p : PlayerPtr} {badge : Badge}
    (h : l.badge p = some badge) : l.board.serials[p]? = some badge.serial := by
  obtain ⟨player, hp, rfl⟩ := GHS_Lobby.exists_player h
  show ((l.players.map GHS_Player.seat).map Seat.serial)[p]? = _
  rw [List.map_map, List.getElem?_map, hp]
  rfl

section Matched

variable {l l' : GHS_Lobby} {c : Call} {env : Env}

theorem Matched.linked (h : Matched l) : l.board.Linked := Reachable.linked h.reach

theorem Matched.keepsSides (h : Matched l) (hok : l.board.AsksOnce (meaning (c, env)))
    (hs : Lobby.step l (c, env) = some l') : KeepsSides l.board l'.board := by
  intro p n s hn hside
  rw [step_board hs]
  exact ⟨Board.serial_step _ hn, Board.side_step h.linked h.paired hok hside⟩

/-- **A call keeps the lobby matched**, if no player that waits or has an opponent asks. -/
theorem Matched.step (h : Matched l) (hok : l.board.AsksOnce (meaning (c, env)))
    (hslot : c.Slotted) (hfits : c.Fits) (hnew : ∀ index n, c = .onCon index n → n ∉ l.board.serials)
    (hs : Lobby.step l (c, env) = some l') : Matched l' where
  reach := .next h.reach hslot hs
  paired := by
    rw [step_board hs]
    exact (Board.paired_step_iff h.linked h.paired _).mpr hok
  sided := sided_step h.linked h.paired hok h.reach.equipped hfits h.sided hs
  registered := by
    rw [step_board hs]
    exact Board.registered_step h.linked h.registered _
  nodup := by
    rw [step_board hs]
    rcases Board.serials_step (b := l.board) (meaning (c, env)) with hsame | ⟨i, n, hm, hadd⟩
    · rw [hsame]
      exact h.nodup
    · rw [hadd]
      have hfresh : n ∉ l.board.serials := by
        cases c with
        | onCon index serial =>
          obtain ⟨rfl, rfl⟩ := Move.join.inj hm
          exact hnew _ _ rfl
        | onDisCon => cases hm
        | onRead => cases hm
        | process => cases hm
      refine List.nodup_append.mpr ⟨h.nodup, List.pairwise_singleton _ n, fun k hk k' hk' heq => ?_⟩
      rw [heq, List.mem_singleton.mp hk'] at hk
      exact hfresh hk

/-- What a call sends to start a game says the side of the player that gets it. -/
theorem Matched.tellsSide (h : Matched l) (hok : l.board.AsksOnce (meaning (c, env)))
    (hfits : c.Fits) (hs : Lobby.step l (c, env) = some l') {m : Sent}
    (hm : m ∈ l'.sent.drop l.sent.length) (hstart : IsStart m.body) :
    Says l'.board m.serial m.body := by
  obtain ⟨out, hsent, hout⟩ := (step_deals h.reach.equipped hfits hs).sent
  rw [hsent, List.drop_left] at hm
  obtain ⟨p, badge, s, hbadge, hside, hserial, hbody⟩ :=
    (hout m hm).tellsSide h.linked h.sided hstart
  rw [hserial]
  exact Says.keep ⟨p, s, serial_of_badge hbadge, hside, hbody⟩ (h.keepsSides hok hs)

end Matched

/-! ## Connections and clients -/

/-- What holds of a connection. -/
structure Connection.Sound (b : Board) (n : Nat) (k : Connection) : Prop where
  known : n ∈ b.serials → k.stage = .accepted ∨ k.stage = .gone
  served : k.stage = .accepted → ∃ p, b.registry.find n = some (some p)
  sized : ∀ body ∈ k.up, Sized body
  turn : Turn (b.Waits n) (asks k.up)
  told : ∀ body ∈ k.down, IsStart body → Says b n body

/-- What holds of a client that is on the connection: when it is free to ask it has nothing on the
way that would be out of turn, and when it plays it believes what its player has. -/
structure OnConnection (b : Board) (n : Nat) (k : Connection) (c : Client) : Prop where
  used : k.stage ≠ .unused
  free : c.m_state = .ST_Connected → Turn (b.Waits n) (asks k.up ++ [true])
  running : c.m_state = .ST_GameRunning → Believes b n c

/-- **The invariant.** -/
structure Sound (S : System) : Prop where
  matched : Matched S.lobby
  connection : ∀ n, (S.connections n).Sound S.lobby.board n
  client : ∀ x n, S.session x = some n →
    OnConnection S.lobby.board n (S.connections n) (S.clients x)
  own : ∀ x y n, S.session x = some n → S.session y = some n → x = y

/-- The server has no player for a connection that it has yet to accept. -/
theorem Connection.Sound.fresh {b : Board} {n : Nat} {k : Connection} (h : k.Sound b n)
    (haccepted : k.stage ≠ .accepted) (hgone : k.stage ≠ .gone) : n ∉ b.serials :=
  fun hmem => (h.known hmem).elim haccepted hgone

theorem sound_new : Sound System.new where
  matched := matched_new
  connection := fun _ =>
    { known := fun h => absurd h List.not_mem_nil
      served := fun h => nomatch h
      sized := fun _ h => absurd h List.not_mem_nil
      turn := trivial
      told := fun _ h => absurd h List.not_mem_nil }
  client := fun _ _ h => nomatch h
  own := fun _ _ _ h => nomatch h

/-! ## Calls of the scripts -/

/-- What a client may do on a connection: what the scripts do, or believe what it is told. -/
structure Acts (b : Board) (n : Nat) (c : Client) (r : Client × List Bytes) : Prop where
  sized : ∀ body ∈ r.2, Sized body
  inTurn : (asks r.2 = [] ∧ (r.1.m_state = .ST_Connected → c.m_state = .ST_Connected)) ∨
    (asks r.2 = [true] ∧ c.m_state = .ST_Connected ∧ r.1.m_state ≠ .ST_Connected) ∨
    asks r.2 = [false]
  running : r.1.m_state = .ST_GameRunning →
    (c.m_state = .ST_GameRunning → Believes b n c) → Believes b n r.1

theorem Follows.acts {b : Board} {n : Nat} {c : Client} {r : Client × List Bytes}
    (h : Follows c r) : Acts b n c r where
  sized := h.sized
  inTurn := h.inTurn
  running := by
    intro hrun hc
    obtain ⟨hstate, hser, hbottom⟩ := h.running hrun
    obtain ⟨p, s, hn, hs, h1, h2⟩ := hc hstate
    exact ⟨p, s, hn, hs, hser.trans h1, hbottom.trans h2⟩

/-- The client that is told its side believes it. -/
theorem StartsGame.acts {b : Board} {n : Nat} {c : Client} {r : Client × List Bytes} {body : Bytes}
    (h : StartsGame body c r) (hsaid : IsStart body → Says b n body) : Acts b n c r := by
  obtain ⟨hstart, hnone, hstate, g, hg, hgame⟩ := h
  obtain ⟨p, s, hn, hs, rfl⟩ := hsaid hstart
  rw [readGameStart_startBody] at hg
  obtain rfl := Option.some.inj hg
  refine ⟨fun body hbody => ?_, Or.inl ⟨?_, fun hconn => ?_⟩, fun _ _ => ⟨p, s, hn, hs, ?_, ?_⟩⟩
  · rw [hnone] at hbody
    exact absurd hbody List.not_mem_nil
  · rw [hnone]
    rfl
  · rw [hstate] at hconn
    cases hconn
  · rw [hgame]
    rfl
  · rw [hgame]
    rfl

/-- What is on the way is in turn behind what the client has added. -/
theorem Acts.turn {b : Board} {n : Nat} {k : Connection} {c : Client} {r : Client × List Bytes}
    (h : Acts b n c r) (hk : k.Sound b n) (hc : OnConnection b n k c) :
    Turn (b.Waits n) (asks (k.up ++ r.2)) ∧
      (r.1.m_state = .ST_Connected → Turn (b.Waits n) (asks (k.up ++ r.2) ++ [true])) := by
  have happend : asks (k.up ++ r.2) = asks k.up ++ asks r.2 := List.filterMap_append
  rw [happend]
  rcases h.inTurn with ⟨hnone, hfree⟩ | ⟨hask, hfree, hnot⟩ | hback
  · rw [hnone, List.append_nil]
    exact ⟨hk.turn, fun hstate => hc.free (hfree hstate)⟩
  · rw [hask]
    exact ⟨hc.free hfree, fun hstate => absurd hstate hnot⟩
  · rw [hback]
    exact ⟨hk.turn.concat_false_true.left, fun _ => hk.turn.concat_false_true⟩

section Give

variable {S S' : System} {x n : Nat}

/-- One connection changes. -/
theorem Sound.setConnection (h : Sound S) {k : Connection} (hk : k.Sound S.lobby.board n) :
    ∀ m, ((S.setConnection n k).connections m).Sound S.lobby.board m :=
  (Function.forall_update_iff _ fun m (k : Connection) => k.Sound S.lobby.board m).mpr
    ⟨hk, fun m _ => h.connection m⟩

/-- **A call of the scripts keeps the invariant.** -/
theorem Sound.give (h : Sound S) {r : Client × List Bytes}
    (hacts : ∀ n, S.session x = some n → Acts S.lobby.board n (S.clients x) r)
    (hs : S.give x r = some S') : Sound S' := by
  unfold System.give at hs
  split at hs
  · next n hn =>
    obtain rfl := Option.some.inj hs
    have hturn := (hacts n hn).turn (h.connection n) (h.client x n hn)
    refine ⟨h.matched, h.setConnection ?_, fun y m hy => ?_, h.own⟩
    · have hk := h.connection n
      refine ⟨hk.known, hk.served, fun body hbody => ?_, hturn.1, hk.told⟩
      exact (List.mem_append.mp hbody).elim (hk.sized body) ((hacts n hn).sized body)
    · have hc := h.client y m hy
      show OnConnection _ m (Function.update S.connections n _ m)
        (Function.update S.clients x r.1 y)
      by_cases hyx : y = x
      · subst hyx
        obtain rfl := Option.some.inj (hn.symm.trans hy)
        rw [Function.update_self, Function.update_self]
        exact ⟨hc.used, hturn.2, fun hrun => (hacts n hn).running hrun hc.running⟩
      · have hmn : m ≠ n := fun he => hyx (h.own y x n (he ▸ hy) hn)
        rw [Function.update_of_ne hyx, Function.update_of_ne hmn]
        exact hc
  · next hnone =>
    split at hs
    · obtain rfl := Option.some.inj hs
      refine ⟨h.matched, h.connection, fun y m hy => ?_, h.own⟩
      have hyx : y ≠ x := fun he => by
        rw [he] at hy
        exact absurd (hnone.symm.trans hy) nofun
      show OnConnection _ m _ (Function.update S.clients x r.1 y)
      rw [Function.update_of_ne hyx]
      exact h.client y m hy
    · cases hs

/-- A client that is on no connection may be in any state. -/
theorem Sound.hangUp (h : Sound S) (c : Client) :
    Sound ((S.setSession x none).setClient x c) := by
  have hkept : ∀ y m, Function.update S.session x none y = some m →
      y ≠ x ∧ S.session y = some m := by
    intro y m hy
    by_cases hyx : y = x
    · rw [hyx, Function.update_self] at hy
      cases hy
    · rw [Function.update_of_ne hyx] at hy
      exact ⟨hyx, hy⟩
  refine ⟨h.matched, h.connection, fun y m hy => ?_,
    fun y z m hy hz => h.own y z m (hkept y m hy).2 (hkept z m hz).2⟩
  obtain ⟨hyx, hy⟩ := hkept y m hy
  show OnConnection _ m _ (Function.update S.clients x c y)
  rw [Function.update_of_ne hyx]
  exact h.client y m hy

theorem Sound.closed (h : Sound S) (hs : S.closed x = some S') : Sound S' := by
  unfold System.closed at hs
  split at hs
  · cases hs
  · obtain rfl := Option.some.inj hs
    exact h.hangUp _

theorem Sound.press (h : Sound S) {button : Client.Button} {now : UInt32}
    (hs : S.press x button now = some S') : Sound S' := by
  unfold System.press at hs
  split at hs
  · next hshows =>
    dsimp only at hs
    cases button with
    | connect =>
      obtain rfl := Option.some.inj hs
      exact ⟨h.matched, h.connection, h.client, h.own⟩
    | disconnect =>
      obtain rfl := Option.some.inj hs
      exact h.hangUp _
    | automatch | cancelMatch | ready =>
      exact h.give (fun n _ => (onGUI_follows now hshows ⟨nofun, nofun⟩).acts) hs
  · cases hs

/-- A message has been taken off. -/
theorem Sound.take (h : Sound S) {body : Bytes} {down : List Bytes}
    (hdown : (S.connections n).down = body :: down) :
    Sound (S.setConnection n { S.connections n with down := down }) := by
  refine ⟨h.matched, h.setConnection ?_, fun y m hy => ?_, h.own⟩
  · have hk := h.connection n
    exact ⟨hk.known, hk.served, hk.sized, hk.turn, fun body' hbody' =>
      hk.told body' (hdown ▸ List.mem_cons_of_mem _ hbody')⟩
  · show OnConnection _ m (Function.update S.connections n _ m) _
    have hc := h.client y m hy
    by_cases hm : m = n
    · subst hm
      rw [Function.update_self]
      exact ⟨hc.used, hc.free, hc.running⟩
    · rw [Function.update_of_ne hm]
      exact hc

theorem Sound.recvData (h : Sound S) {ticks : Nat → UInt32}
    (hs : S.recvData x ticks = some S') : Sound S' := by
  unfold System.recvData at hs
  split at hs
  · cases hs
  · next n hn =>
    split at hs
    · cases hs
    · next body down hdown =>
      obtain ⟨r, hr, hs⟩ := Option.bind_eq_some_iff.mp hs
      refine (h.take hdown).give (fun m hm => ?_) hs
      obtain rfl := Option.some.inj (hn.symm.trans hm)
      rcases recvData_cases hr with hfollows | hstarts
      · exact hfollows.acts
      · exact hstarts.acts ((h.connection n).told body (by rw [hdown]; exact List.mem_cons_self ..))

/-- A new connection, on which nothing has been said. -/
theorem Sound.connected (h : Sound S) {ticks : Nat → UInt32}
    (hs : S.connected x n ticks = some S') : Sound S' := by
  unfold System.connected at hs
  split at hs
  · next hnew =>
    obtain rfl := Option.some.inj hs
    have hfresh : n ∉ S.lobby.board.serials :=
      (h.connection n).fresh (by rw [hnew.2]; nofun) (by rw [hnew.2]; nofun)
    have hnot : ¬S.lobby.board.Waits n := fun ⟨p, _, hp⟩ => hfresh (List.mem_of_getElem? hp)
    have hother : ∀ y, S.session y ≠ some n := fun y hy => (h.client y n hy).used hnew.2
    refine ⟨h.matched, h.setConnection ?_, fun y m hy => ?_, fun y z m hy hz => ?_⟩
    · exact ⟨fun hmem => absurd hmem hfresh, nofun, fun _ hb => absurd hb List.not_mem_nil,
        trivial, fun _ hb => absurd hb List.not_mem_nil⟩
    · show OnConnection _ m (Function.update S.connections n _ m) (Function.update S.clients x _ y)
      replace hy : Function.update S.session x (some n) y = some m := hy
      by_cases hyx : y = x
      · subst hyx
        rw [Function.update_self] at hy
        obtain rfl := Option.some.inj hy
        rw [Function.update_self, Function.update_self]
        exact ⟨nofun, fun _ => ⟨fun hw => absurd hw hnot, trivial⟩, nofun⟩
      · rw [Function.update_of_ne hyx] at hy
        have hmn : m ≠ n := fun he => hother y (he ▸ hy)
        rw [Function.update_of_ne hyx, Function.update_of_ne hmn]
        exact h.client y m hy
    · replace hy : Function.update S.session x (some n) y = some m := hy
      replace hz : Function.update S.session x (some n) z = some m := hz
      by_cases hyx : y = x
      · by_cases hzx : z = x
        · rw [hyx, hzx]
        · rw [hyx, Function.update_self] at hy
          rw [Function.update_of_ne hzx] at hz
          exact absurd (hy ▸ hz) (hother z)
      · rw [Function.update_of_ne hyx] at hy
        by_cases hzx : z = x
        · rw [hzx, Function.update_self] at hz
          exact absurd (hz ▸ hy) (hother y)
        · rw [Function.update_of_ne hzx] at hz
          exact h.own y z m hy hz
  · cases hs

end Give

/-! ## Calls of the lobby -/

/-- What may happen to a connection when the board moves: a message is read from it, or its stage
changes. -/
structure Handled (b b' : Board) (n : Nat) (k k' : Connection) : Prop where
  up : ∀ body ∈ k'.up, body ∈ k.up
  down : k'.down = k.down
  turn : ∀ more, Turn (b.Waits n) (asks k.up ++ more) → Turn (b'.Waits n) (asks k'.up ++ more)
  known : n ∈ b'.serials → k'.stage = .accepted ∨ k'.stage = .gone
  served : k'.stage = .accepted → ∃ p, b'.registry.find n = some (some p)
  used : k.stage ≠ .unused → k'.stage ≠ .unused

section Handled

variable {l : GHS_Lobby} {n : Nat} {k : Connection} {m : Move}

/-- Whoever joins adds one serial. -/
theorem known_step (hk : k.Sound l.board n) (hjoin : ∀ i, m ≠ .join i n)
    (h : n ∈ (l.board.step m).serials) : k.stage = .accepted ∨ k.stage = .gone := by
  rcases Board.serials_step (b := l.board) m with hsame | ⟨i, serial, rfl, hadd⟩
  · rw [hsame] at h
    exact hk.known h
  · rw [hadd] at h
    rcases List.mem_append.mp h with hold | hlast
    · exact hk.known hold
    · exact absurd (congrArg (Move.join i) (List.mem_singleton.mp hlast).symm) (hjoin i)

theorem served_step (hl : Matched l) (hk : k.Sound l.board n) (hleave : m ≠ .leave n)
    (h : k.stage = .accepted) : ∃ p, (l.board.step m).registry.find n = some (some p) :=
  (hk.served h).imp fun _ hp => Board.find_step hl.linked hp hleave

/-- Nobody waits who has not asked. -/
theorem turn_step (hl : Matched l) (hask : m ≠ .say n .autoMatch) {rest : List Bool}
    (h : Turn (l.board.Waits n) rest) : Turn ((l.board.step m).Waits n) rest :=
  h.mono fun hw => (Board.waits_step hl.linked hl.registered hw).resolve_left hask

/-- The move is of another connection, or of none. -/
theorem Handled.same (hl : Matched l) (hk : k.Sound l.board n) (hask : m ≠ .say n .autoMatch)
    (hjoin : ∀ i, m ≠ .join i n) (hleave : m ≠ .leave n) :
    Handled l.board (l.board.step m) n k k where
  up := fun _ h => h
  down := rfl
  turn := fun _ => turn_step hl hask
  known := known_step hk hjoin
  served := served_step hl hk hleave
  used := id

/-- **Reading a message keeps the rest in turn.** -/
theorem turn_onRead {env : Env} {p : PlayerPtr} {body : Bytes} {up : List Bytes}
    (hl : Matched l) (hfind : l.board.registry.find n = some (some p)) (hsized : Sized body)
    {more : List Bool} (h : Turn (l.board.Waits n) (asks (body :: up) ++ more)) :
    Turn ((l.board.step (.say n (commandOf (opcode body env)))).Waits n) (asks up ++ more) := by
  unfold asks at h
  rw [List.filterMap_cons, ask, hsized.opcode Env.zero env] at h
  cases hc : commandOf (opcode body env) with
  | autoMatch =>
    rw [hc] at h
    exact Turn.mono h.2 fun _ => rfl
  | unAutoMatch =>
    rw [hc] at h
    refine Turn.mono h.2 fun hw => ?_
    exact absurd hw (Board.not_waits_unAutoMatch hl.linked hl.registered hl.nodup hfind)
  | gameReady =>
    rw [hc] at h
    exact turn_step (m := .say n .gameReady) hl nofun h
  | other =>
    rw [hc] at h
    exact turn_step (m := .say n .other) hl nofun h

/-- Who is in turn to ask does not wait. -/
theorem not_queued_of_turn {p : PlayerPtr} {body : Bytes} {up : List Bytes} (hl : Matched l)
    (hfind : l.board.registry.find n = some (some p)) (hask : ask body = some true)
    (h : Turn (l.board.Waits n) (asks (body :: up))) : p ∉ l.board.queue := by
  intro hp
  unfold asks at h
  rw [List.filterMap_cons, hask] at h
  exact absurd (h.1 ⟨p, hp, hl.registered n p hfind⟩) (by decide)

end Handled

section Serve

variable {S S' : System} {n : Nat} {env : Env}

theorem mem_deliver {sent : List Sent} {k : Connection} {body : Bytes}
    (h : body ∈ (System.Connection.deliver n sent k).down) :
    body ∈ k.down ∨ ∃ m ∈ sent, m.serial = n ∧ m.body = body := by
  unfold System.Connection.deliver at h
  split at h
  · rcases List.mem_append.mp h with hold | hnew
    · exact Or.inl hold
    · obtain ⟨m, hm, hbody⟩ := List.mem_map.mp hnew
      obtain ⟨hm, hserial⟩ := List.mem_filter.mp hm
      exact Or.inr ⟨m, hm, of_decide_eq_true hserial, hbody⟩
  · exact Or.inl h

theorem up_deliver (sent : List Sent) (k : Connection) :
    (System.Connection.deliver n sent k).up = k.up := by
  unfold System.Connection.deliver
  split <;> rfl

theorem stage_deliver (sent : List Sent) (k : Connection) :
    (System.Connection.deliver n sent k).stage = k.stage := by
  unfold System.Connection.deliver
  split <;> rfl

/-- **A call of the lobby keeps the invariant.** -/
theorem Sound.call (h : Sound S) (c : Call) (env : Env) {ks : Nat → Connection}
    (hok : S.lobby.board.AsksOnce (meaning (c, env))) (hslot : c.Slotted) (hfits : c.Fits)
    (hnew : ∀ index n, c = .onCon index n → n ∉ S.lobby.board.serials)
    (hks : ∀ lobby, Lobby.step S.lobby (c, env) = some lobby → ∀ n,
      Handled S.lobby.board lobby.board n (S.connections n) (ks n))
    (hs : ({ S with connections := ks } : System).call c env = some S') : Sound S' := by
  obtain ⟨lobby, hlobby, rfl⟩ := Option.map_eq_some_iff.mp hs
  have hkeep := h.matched.keepsSides hok hlobby
  refine ⟨h.matched.step hok hslot hfits hnew hlobby, fun n => ?_, fun x n hx => ?_, h.own⟩
  · have hk := h.connection n
    have hk' := hks lobby hlobby n
    refine ⟨?_, ?_, ?_, ?_, ?_⟩
    · rw [stage_deliver]
      exact hk'.known
    · rw [stage_deliver]
      exact hk'.served
    · rw [up_deliver]
      exact fun body hbody => hk.sized body (hk'.up body hbody)
    · rw [up_deliver, ← List.append_nil (asks (ks n).up)]
      refine hk'.turn [] ?_
      rw [List.append_nil]
      exact hk.turn
    · intro body hbody hstart
      rcases mem_deliver hbody with hold | ⟨m, hm, rfl, rfl⟩
      · rw [hk'.down] at hold
        exact (hk.told body hold hstart).keep hkeep
      · exact h.matched.tellsSide hok hfits hlobby hm hstart
  · have hc := h.client x n hx
    have hk' := hks lobby hlobby n
    refine ⟨?_, fun hstate => ?_, fun hrun => (hc.running hrun).keep hkeep⟩
    · rw [stage_deliver]
      exact hk'.used hc.used
    · rw [up_deliver]
      exact hk'.turn [true] (hc.free hstate)

theorem find_of_onCon {l l' : GHS_Lobby} {index : Nat}
    (h : Lobby.step l (.onCon index n, env) = some l') : l.board.registry.find n = none := by
  rw [Lobby.step] at h
  unfold GHS_Lobby.addPlayer at h
  split at h
  · cases h
  · next hnone => exact hnone

theorem Sound.accept {index : Nat} (h : Sound S) (hs : S.accept n index env = some S') :
    Sound S' := by
  unfold System.accept at hs
  split at hs
  · next hwhen =>
    obtain ⟨hstage, hslot⟩ := hwhen
    have hfresh : n ∉ S.lobby.board.serials :=
      (h.connection n).fresh (by rw [hstage]; nofun) (by rw [hstage]; nofun)
    refine h.call (.onCon index n) env trivial hslot trivial ?_ (fun lobby hlobby => ?_) hs
    · intro index' n' he
      obtain ⟨rfl, rfl⟩ := Call.onCon.inj he
      exact hfresh
    · rw [step_board hlobby]
      refine (Function.forall_update_iff _ fun m k =>
        Handled _ (S.lobby.board.step (.join index n)) m (S.connections m) k).mpr
          ⟨?_, fun m hm => ?_⟩
      · exact ⟨fun _ hb => hb, rfl, fun _ => turn_step (m := .join index n) h.matched nofun,
          fun _ => Or.inl rfl,
          fun _ => ⟨_, (Board.find_join index (find_of_onCon hlobby)).1⟩, fun _ => nofun⟩
      · exact .same h.matched (h.connection m) nofun
          (fun i he => hm (Move.join.inj he).2.symm) nofun
  · cases hs

theorem Sound.onDisCon (h : Sound S) (hs : S.onDisCon n env = some S') : Sound S' := by
  unfold System.onDisCon at hs
  split at hs
  · next hstage =>
    refine h.call (.onDisCon n) env trivial trivial trivial nofun (fun lobby hlobby => ?_) hs
    rw [step_board hlobby]
    refine (Function.forall_update_iff _ fun m k =>
      Handled _ (S.lobby.board.step (.leave n)) m (S.connections m) k).mpr ⟨?_, fun m hm => ?_⟩
    · exact ⟨fun _ hb => hb, rfl, fun _ => turn_step (m := .leave n) h.matched nofun,
        fun _ => Or.inr rfl, nofun, fun _ => nofun⟩
    · exact .same h.matched (h.connection m) nofun nofun
        (fun he => hm (Move.leave.inj he).symm)
  · cases hs

theorem Sound.process (h : Sound S) (hs : S.call .process env = some S') : Sound S' := by
  refine h.call .process env trivial trivial trivial nofun (fun lobby hlobby m => ?_) hs
  rw [step_board hlobby]
  exact .same h.matched (h.connection m) nofun nofun nofun

/-- **A message keeps the invariant**, if it does not ask for a player that has an opponent. -/
theorem Sound.onRead (h : Sound S)
    (hok : ∀ body ∈ (S.connections n).up.head?, commandOf (opcode body env) = .autoMatch →
      ∀ p, S.lobby.m_players.find n = some (some p) → S.lobby.board.other p = none)
    (hs : S.onRead n env = some S') : Sound S' := by
  unfold System.onRead at hs
  split at hs
  · next hstage =>
    split at hs
    · cases hs
    · next body up hup =>
      have hk := h.connection n
      obtain ⟨p, hfind⟩ := hk.served hstage
      have hsized : Sized body := hk.sized body (by rw [hup]; exact List.mem_cons_self ..)
      have hturn := hk.turn
      rw [hup] at hturn
      have hasks : S.lobby.board.AsksOnce (.say n (commandOf (opcode body env))) := by
        cases hc : commandOf (opcode body env) with
        | autoMatch =>
          intro p' hp'
          obtain rfl := Option.some.inj (Option.some.inj (hfind.symm.trans hp'))
          have hask : ask body = some true := by
            rw [ask, hsized.opcode Env.zero env, hc]
          refine ⟨not_queued_of_turn h.matched hfind hask hturn, ?_⟩
          exact hok body (by rw [hup]; rfl) hc p hfind
        | unAutoMatch => trivial
        | gameReady => trivial
        | other => trivial
      refine h.call (.onRead n body) env hasks trivial hsized.2 nofun (fun lobby hlobby => ?_) hs
      rw [step_board hlobby]
      refine (Function.forall_update_iff _ fun m k =>
        Handled _ (S.lobby.board.step (.say n (commandOf (opcode body env)))) m
          (S.connections m) k).mpr ⟨?_, fun m hm => ?_⟩
      · refine ⟨fun b hb => hup ▸ List.mem_cons_of_mem _ hb, rfl, fun more hmore => ?_,
          known_step (k := S.connections n) hk nofun,
          served_step (k := S.connections n) h.matched hk nofun, id⟩
        rw [hup] at hmore
        exact turn_onRead h.matched hfind hsized hmore
      · exact .same h.matched (h.connection m) (fun he => hm (Move.say.inj he).1.symm) nofun nofun
  · cases hs

end Serve

end GhNet.Match
