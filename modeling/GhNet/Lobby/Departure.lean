import GhNet.Lobby.Links

/-!
# Departure

What is left of a player whose connection has been closed. `removePlayer` erases the entry of the
registry and nothing else, so the player is forgotten only if it was not waiting and never had a
game. As long as no player leaves while it waits, every match is between connected players.
-/

namespace GhNet.Lobby

open GhNet

namespace Board

variable {b : Board} {p q : PlayerPtr} {g : GamePtr} {t : GHS_Game}

/-- **Nothing that the lobby still acts on refers to the player.** -/
structure Forgotten (b : Board) (p : PlayerPtr) : Prop where
  not_queued : p ∉ b.queue
  not_opponent : ∀ q, b.Connected q → b.other q ≠ some p
  not_playing : ∀ g ∈ b.games, ∀ t, b.tables[g]? = some t → ¬Plays t p

/-- **A departure is complete** exactly if the player was not waiting and had no game. -/
theorem forgotten_leave_iff (h : b.Linked) (serial : Nat) (p : PlayerPtr) :
    (b.step (.leave serial)).Forgotten p ↔ p ∉ b.queue ∧ b.game p = none := by
  constructor
  · intro hf
    refine ⟨hf.not_queued, ?_⟩
    cases hg : b.game p with
    | none => rfl
    | some g =>
      obtain ⟨t, q, ht, -, hopp⟩ := h.link p g hg
      exact absurd hopp.plays (hf.not_playing g (h.mem_games_iff.mpr ⟨t, ht⟩) t ht)
  · rintro ⟨hqueue, hgame⟩
    exact ⟨hqueue, fun q _ hq => h.game_of_opponent hq hgame,
      fun g _ t ht hplays => h.game_of_plays g t p ht hplays hgame⟩

/-! ## Who waits -/

/-- Who leaves is not waiting. -/
def LeavesUnqueued (b : Board) : Move → Prop
  | .leave serial => ∀ p, b.registry.find serial = some (some p) → p ∉ b.queue
  | _ => True

instance (b : Board) : ∀ m, Decidable (b.LeavesUnqueued m)
  | .leave _ => decidableFound _ fun p => p ∉ b.queue
  | .join _ _ | .say _ _ | .idle => .isTrue trivial

/-- Who waits is connected. -/
def WaitingConnected (b : Board) : Prop := ∀ p ∈ b.queue, b.Connected p

/-- An entry of the registry stays when another is made. -/
theorem Connected.insert {serial : Nat} {v : Option PlayerPtr} (h : b.Connected p)
    (hnone : b.registry.find serial = none) :
    ∃ k, (b.registry.insert serial v).find k = some (some p) := by
  obtain ⟨k, hk⟩ := h
  refine ⟨k, ?_⟩
  rw [OrdMap.find_insert_ne (fun he => by rw [he, hnone] at hk; cases hk)]
  exact hk

/-- Only who asks for a match comes to wait. -/
theorem queue_act_subset (h : b.Linked) (c : Command) :
    ∀ r ∈ (b.act p c).queue, c = .autoMatch ∧ r = p ∨ r ∈ b.queue := by
  intro r hr
  cases c with
  | autoMatch =>
    rcases enqueue_cases h p with ⟨-, heq⟩ | ⟨q, -, heq⟩
    · rw [act, heq] at hr
      exact Or.inl ⟨rfl, List.mem_singleton.mp hr⟩
    · rw [act, heq, queue_setUp] at hr
      exact absurd hr List.not_mem_nil
  | unAutoMatch => exact Or.inr (List.mem_of_mem_erase hr)
  | gameReady =>
    right
    rcases beReady_cases p b with heq | ⟨_, _, _, -, -, -, -, heq⟩
    all_goals
      rw [act, heq] at hr
      exact hr
  | other => exact Or.inr hr

theorem registry_act (h : b.Linked) (p : PlayerPtr) (c : Command) :
    (b.act p c).registry = b.registry := by
  cases c with
  | autoMatch =>
    rcases enqueue_cases h p with ⟨-, heq⟩ | ⟨q, -, heq⟩
    · rw [act, heq]
    · rw [act, heq, registry_setUp]
  | unAutoMatch => rfl
  | gameReady =>
    rcases beReady_cases p b with heq | ⟨_, _, _, -, -, -, -, heq⟩
    all_goals
      rw [act, heq]
      rfl
  | other => rfl

theorem waitingConnected_step (hl : b.Linked) (h : b.WaitingConnected) {m : Move}
    (hok : b.LeavesUnqueued m) : (b.step m).WaitingConnected := by
  cases m with
  | join index serial =>
    rw [step]
    split
    · exact h
    · next hnone => exact fun p hp => (h p hp).insert hnone
  | leave serial =>
    intro p hp
    obtain ⟨k, hk⟩ := h p hp
    refine ⟨k, ?_⟩
    have hne : k ≠ serial := by
      rintro rfl
      exact hok p hk hp
    exact (OrdMap.find_erase_ne hne).trans hk
  | say serial c =>
    rw [step]
    split
    · next hnone => exact fun p hp => (h p hp).insert hnone
    · exact h
    · next p hp =>
      intro r hr
      unfold Connected
      rw [registry_act hl]
      rcases queue_act_subset hl c r hr with ⟨-, rfl⟩ | hr
      · exact ⟨serial, hp⟩
      · exact h r hr
  | idle => exact h

/-- A new game comes from a player that asks for a match, and is between it and the one that
waits. -/
theorem new_game_cases (hl : b.Linked) {m : Move} (hg : g ∈ (b.step m).games) (hnew : g ∉ b.games)
    (ht : (b.step m).tables[g]? = some t) :
    ∃ serial p q, b.registry.find serial = some (some p) ∧ q ∈ b.queue ∧ t = ⟨q, p⟩ := by
  cases m with
  | join index serial =>
    rw [step] at hg
    split at hg <;> exact absurd hg hnew
  | leave serial => exact absurd hg hnew
  | idle => exact absurd hg hnew
  | say serial c =>
    rw [step] at hg ht
    split at hg
    · exact absurd hg hnew
    · exact absurd hg hnew
    · next p hp =>
      rw [hp] at ht
      cases c with
      | autoMatch =>
        rcases enqueue_cases hl p with ⟨-, heq⟩ | ⟨q, hqueue, heq⟩
        · rw [act, heq] at hg
          exact absurd hg hnew
        · dsimp only [act] at hg ht
          rw [heq, games_setUp] at hg
          rw [heq, tables_setUp] at ht
          rcases List.mem_append.mp hg with hold | hlast
          · exact absurd hold hnew
          · rw [List.mem_singleton.mp hlast, List.getElem?_concat_length] at ht
            refine ⟨serial, p, q, hp, ?_, (Option.some.inj ht).symm⟩
            rw [hqueue]
            exact List.mem_cons_self ..
      | unAutoMatch => exact absurd hg hnew
      | gameReady =>
        rcases beReady_cases p b with heq | ⟨_, _, _, -, -, -, -, heq⟩
        all_goals
          rw [act, heq] at hg
          exact absurd hg hnew
      | other => exact absurd hg hnew

/-- Both players of the games that the move makes are connected. -/
def MatchesConnected (b b' : Board) : Prop :=
  ∀ g ∈ b'.games, g ∉ b.games → ∀ t, b'.tables[g]? = some t →
    b.Connected t.m_player1 ∧ b.Connected t.m_player2

theorem matchesConnected_step (hl : b.Linked) (h : b.WaitingConnected) (m : Move) :
    MatchesConnected b (b.step m) := by
  intro g hg hnew t ht
  obtain ⟨serial, p, q, hp, hq, rfl⟩ := new_game_cases hl hg hnew ht
  exact ⟨h q hq, serial, hp⟩

end Board

/-- **Departure.** After `removePlayer` nothing refers to the player exactly if it was not waiting
and had no game; and in every run in which no player leaves while it waits, a match is between
connected players. -/
theorem departure {l : GHS_Lobby} (hr : Reachable l) :
    (∀ serial p, l.m_players.find serial = some (some p) →
        ((l.removePlayer serial).board.Forgotten p ↔ p ∉ l.m_queue ∧ l.board.game p = none)) ∧
      (Reach Initial step (fun l a => l.board.LeavesUnqueued (meaning a)) l →
        ∀ a l', step l a = some l' → Board.MatchesConnected l.board l'.board) := by
  have hl : l.board.Linked := Reachable.linked hr
  refine ⟨fun serial p _ => ?_, fun hunqueued a l' h => ?_⟩
  · have hstep : step l (.onDisCon serial, Env.zero) = some (l.removePlayer serial) := rfl
    rw [step_board hstep]
    exact Board.forgotten_leave_iff hl serial p
  · have hwaiting : l.board.Linked ∧ l.board.WaitingConnected :=
      board_invariant (fun b => b.Linked ∧ b.WaitingConnected) Board.LeavesUnqueued
        ⟨Board.linked_empty, fun _ h => absurd h List.not_mem_nil⟩
        (fun b m h hok => ⟨Board.linked_step h.1 m, Board.waitingConnected_step h.1 h.2 hok⟩)
        hunqueued
    rw [step_board h]
    exact Board.matchesConnected_step hl hwaiting.2 (meaning a)

/-- Two players play, and a third waits. -/
def playingAndWaiting : List Call :=
  [.onCon 0 0, .onCon 1 1, .onCon 2 2, .onRead 0 [0, 1], .onRead 1 [0, 1], .onRead 2 [0, 1]]

theorem playingAndWaiting_runs : (runCalls playingAndWaiting).isSome = true := by decide +kernel

theorem departure_playingAndWaiting :
    let l := (runCalls playingAndWaiting).get playingAndWaiting_runs
    (∀ serial p, l.m_players.find serial = some (some p) →
        ((l.removePlayer serial).board.Forgotten p ↔ p ∉ l.m_queue ∧ l.board.game p = none)) ∧
      (Reach Initial step (fun l a => l.board.LeavesUnqueued (meaning a)) l →
        ∀ a l', step l a = some l' → Board.MatchesConnected l.board l'.board) :=
  departure (reach_runCalls (by decide +kernel) playingAndWaiting_runs)

/-- A player waits and leaves, and another one comes. -/
def waitingAndLeft : List Call := [.onCon 0 0, .onRead 0 [0, 1], .onDisCon 0, .onCon 0 1]

theorem waiting_runs : (runCalls [.onCon 0 0, .onRead 0 [0, 1]]).isSome = true := by decide +kernel

theorem waitingAndLeft_runs : (runCalls waitingAndLeft).isSome = true := by decide +kernel

theorem matchWithLeft_runs : (step ((runCalls waitingAndLeft).get waitingAndLeft_runs)
    (.onRead 1 [0, 1], Env.zero)).isSome = true := by decide +kernel

/-- **The player that left still waits, and is matched with the next one.** -/
theorem waiting_player_stays :
    (¬∀ l, Reachable l → ∀ serial p, l.m_players.find serial = some (some p) →
        (l.removePlayer serial).board.Forgotten p) ∧
      ¬∀ l, Reachable l → ∀ a l', step l a = some l' →
        Board.MatchesConnected l.board l'.board := by
  constructor
  · intro h
    have hr : Reachable ((runCalls [.onCon 0 0, .onRead 0 [0, 1]]).get waiting_runs) :=
      reach_runCalls (by decide +kernel) waiting_runs
    exact (h _ hr 0 0 (by decide +kernel)).not_queued (by decide +kernel)
  · intro h
    have hr : Reachable ((runCalls waitingAndLeft).get waitingAndLeft_runs) :=
      reach_runCalls (by decide +kernel) waitingAndLeft_runs
    obtain ⟨⟨k, hk⟩, -⟩ := h _ hr _ _ (Option.some_get matchWithLeft_runs).symm 0 (by decide +kernel)
      (by decide +kernel) ⟨0, 1⟩ (by decide +kernel)
    -- nobody is registered with the player that left
    have hentries : ((runCalls waitingAndLeft).get waitingAndLeft_runs).m_players.entries
        = [(1, some 1)] := by decide +kernel
    have hfind : OrdMap.findIn k [(1, some 1)] = some (some 0) := hentries ▸ hk
    rw [OrdMap.findIn] at hfind
    split at hfind
    · cases hfind
    · cases hfind

end GhNet.Lobby
