import GhNet.Lobby.Board

/-!
# The links between players, games and the queue

What each move does to the links, and what holds of the links in every run, whatever the players
say: the pointers lead to players and games that were made, a player has an opponent exactly if it
has a game, and that game is in the list and is one between the two.
-/

namespace GhNet.Lobby.Board

open GhNet

variable {b b' : Board} {p q r : PlayerPtr} {g : GamePtr} {t : GHS_Game}

/-! ## One seat -/

section Look

variable {α : Type} {f : Seat → Option α} {u : Seat → Seat}

theorem look_eq_none_of_le (h : b.seats.length ≤ p) : b.look f p = none := by
  rw [look, List.getElem?_eq_none h]
  rfl

theorem lt_of_look {a : α} (h : b.look f p = some a) : p < b.seats.length := by
  by_contra hlt
  rw [look_eq_none_of_le (Nat.le_of_not_lt hlt)] at h
  cases h

/-- An update of one seat is seen there only. -/
theorem look_modifySeat {v : Option α} (hp : p < b.seats.length) (hf : ∀ s, f (u s) = v)
    (r : PlayerPtr) : (b.modifySeat p u).look f r = if p = r then v else b.look f r := by
  unfold look modifySeat
  dsimp only
  split
  · next hpr =>
    subst hpr
    rw [List.getElem?_modify_eq, List.getElem?_eq_getElem hp]
    exact hf _
  · next hpr => rw [List.getElem?_modify_ne _ _ hpr]

/-- What an update leaves alone looks the same. -/
theorem look_modifySeat_same (hf : ∀ s, f (u s) = f s) (r : PlayerPtr) :
    (b.modifySeat p u).look f r = b.look f r := by
  unfold look modifySeat
  dsimp only
  by_cases hpr : p = r
  · subst hpr
    rw [List.getElem?_modify_eq]
    cases b.seats[p]? with
    | none => rfl
    | some s => exact hf s
  · rw [List.getElem?_modify_ne _ _ hpr]

theorem getElem?_concat_cases (l : List α) (a : α) (i : Nat) :
    (l ++ [a])[i]? = l[i]? ∨ i = l.length ∧ l[i]? = none ∧ (l ++ [a])[i]? = some a := by
  rcases Nat.lt_trichotomy i l.length with hlt | rfl | hgt
  · exact Or.inl (List.getElem?_append_left hlt)
  · exact Or.inr ⟨rfl, List.getElem?_eq_none (Nat.le_refl _), List.getElem?_concat_length⟩
  · left
    rw [List.getElem?_eq_none (by rw [List.length_append, List.length_singleton]; omega),
      List.getElem?_eq_none (Nat.le_of_lt hgt)]

/-- A player that joins shows nothing that was not there, if its seat shows nothing. -/
theorem look_append {s : Seat} (hs : f s = none) (r : PlayerPtr) :
    ({ b with seats := b.seats ++ [s] } : Board).look f r = b.look f r := by
  unfold look
  dsimp only
  rcases getElem?_concat_cases b.seats s r with hsame | ⟨-, hnone, hnew⟩
  · rw [hsame]
  · rw [hnew, hnone]
    exact hs

end Look

@[simp] theorem length_seats_modifySeat (f : Seat → Seat) :
    (b.modifySeat p f).seats.length = b.seats.length := List.length_modify ..

/-! ## A game is set up -/

/-- Both players of a game have seats. -/
def Seated (b : Board) (t : GHS_Game) : Prop :=
  t.m_player1 < b.seats.length ∧ t.m_player2 < b.seats.length

theorem other_setUp (h : b.Seated t) (r : PlayerPtr) :
    (b.setUp t).other r =
      if t.m_player2 = r then some t.m_player1
      else if t.m_player1 = r then some t.m_player2
      else b.other r := by
  have h2 : t.m_player2 < (b.modifySeat t.m_player1
      (Seat.play b.tables.length t.m_player2)).seats.length := by
    rw [length_seats_modifySeat]
    exact h.2
  have houter := look_modifySeat (f := Seat.other) (v := some t.m_player1) h2
    (u := Seat.play b.tables.length t.m_player1) (fun _ => rfl) r
  have hinner := look_modifySeat (f := Seat.other) (v := some t.m_player2) h.1
    (u := Seat.play b.tables.length t.m_player2) (fun _ => rfl) r
  rw [hinner] at houter
  exact houter

theorem game_setUp (h : b.Seated t) (r : PlayerPtr) :
    (b.setUp t).game r = if Plays t r then some b.tables.length else b.game r := by
  have h2 : t.m_player2 < (b.modifySeat t.m_player1
      (Seat.play b.tables.length t.m_player2)).seats.length := by
    rw [length_seats_modifySeat]
    exact h.2
  have houter := look_modifySeat (f := Seat.game) (v := some b.tables.length) h2
    (u := Seat.play b.tables.length t.m_player1) (fun _ => rfl) r
  have hinner := look_modifySeat (f := Seat.game) (v := some b.tables.length) h.1
    (u := Seat.play b.tables.length t.m_player2) (fun _ => rfl) r
  rw [hinner] at houter
  refine Eq.trans houter ?_
  by_cases hp2 : t.m_player2 = r
  · rw [if_pos hp2, if_pos (show Plays t r from Or.inr hp2)]
  · by_cases hp1 : t.m_player1 = r
    · rw [if_neg hp2, if_pos hp1, if_pos (show Plays t r from Or.inl hp1)]
    · rw [if_neg hp2, if_neg hp1, if_neg (fun h : Plays t r => h.elim hp1 hp2)]
      rfl

@[simp] theorem length_seats_setUp : (b.setUp t).seats.length = b.seats.length :=
  (length_seats_modifySeat _).trans (length_seats_modifySeat _)

@[simp] theorem queue_setUp : (b.setUp t).queue = b.queue := rfl

@[simp] theorem registry_setUp : (b.setUp t).registry = b.registry := rfl

@[simp] theorem tables_setUp : (b.setUp t).tables = b.tables ++ [t] := rfl

@[simp] theorem games_setUp : (b.setUp t).games = b.games ++ [b.tables.length] := rfl

/-- The board when `p` has said that it is ready, before a game starts. -/
def readied (p : PlayerPtr) (b : Board) : Board :=
  (b.modifySeat p Seat.beReady).note (.ready p)

@[simp] theorem other_readied (r : PlayerPtr) : (b.readied p).other r = b.other r :=
  look_modifySeat_same (f := Seat.other) (u := Seat.beReady) (fun _ => rfl) r

@[simp] theorem game_readied (r : PlayerPtr) : (b.readied p).game r = b.game r :=
  look_modifySeat_same (f := Seat.game) (u := Seat.beReady) (fun _ => rfl) r

/-- What happens when `p` says that it is ready: nothing more, or its game starts, which is then
the one it has, and its opponent is ready. -/
theorem beReady_cases (p : PlayerPtr) (b : Board) :
    b.beReady p = b.readied p ∨
      ∃ q g t, b.other p = some q ∧ (b.readied p).ready q = true ∧ b.game p = some g ∧
        b.tables[g]? = some t ∧ b.beReady p = (b.readied p).startGame g t := by
  unfold beReady
  dsimp only
  split
  · exact Or.inl rfl
  · next g t hs =>
    refine Or.inr ?_
    obtain ⟨q, hq, hs⟩ := Option.bind_eq_some_iff.mp hs
    split at hs
    · next hready =>
      obtain ⟨g', hg, hs⟩ := Option.bind_eq_some_iff.mp hs
      obtain ⟨t', ht, hs⟩ := Option.map_eq_some_iff.mp hs
      obtain ⟨rfl, rfl⟩ := Prod.mk.inj hs
      exact ⟨q, g', t', (other_readied p).symm.trans hq, hready, (game_readied p).symm.trans hg,
        ht, rfl⟩
    · cases hs

/-! ## What a player keeps -/

section Lasting

variable {β : Type} {f : Seat → β}

/-- What a seat shows from the start and for ever. -/
structure Lasting (f : Seat → β) : Prop where
  play : ∀ g q s, f (Seat.play g q s) = f s
  beReady : ∀ s, f s.beReady = f s

/-- The board shows the same of every seat, and has the same registry. -/
def SameShown (f : Seat → β) (b b' : Board) : Prop :=
  b'.seats.map f = b.seats.map f ∧ b'.registry = b.registry

theorem Lasting.modifySeat {u : Seat → Seat} (hu : ∀ s, f (u s) = f s) :
    SameShown f b (b.modifySeat p u) :=
  ⟨map_modify_same fun s _ => hu s, rfl⟩

theorem Lasting.setUp (hf : Lasting f) : SameShown f b (b.setUp t) := by
  refine ⟨?_, rfl⟩
  have hinner := (Lasting.modifySeat (b := b) (p := t.m_player1)
    (hf.play b.tables.length t.m_player2)).1
  exact Eq.trans (Lasting.modifySeat (b := b.modifySeat t.m_player1 _) (p := t.m_player2)
    (hf.play b.tables.length t.m_player1)).1 hinner

theorem Lasting.act (hf : Lasting f) (p : PlayerPtr) (c : Command) :
    SameShown f b (b.act p c) := by
  cases c with
  | autoMatch =>
    rw [Board.act, enqueue, makeGame]
    split
    · exact hf.setUp
    · exact ⟨rfl, rfl⟩
  | unAutoMatch => exact ⟨rfl, rfl⟩
  | gameReady =>
    have hready : SameShown f b (b.readied p) := Lasting.modifySeat hf.beReady
    rw [Board.act]
    rcases beReady_cases p b with heq | ⟨_, _, _, -, -, -, -, heq⟩
    · rw [heq]
      exact hready
    · rw [heq]
      exact hready
  | other => exact ⟨rfl, rfl⟩

/-- Only who joins adds something. -/
theorem Lasting.step (hf : Lasting f) (m : Move) : (b.step m).seats.map f = b.seats.map f ∨
    ∃ index serial, m = .join index serial ∧
      (b.step m).seats.map f = b.seats.map f ++ [f (Seat.new index serial)] := by
  cases m with
  | join index serial =>
    rw [Board.step]
    split
    · exact Or.inl rfl
    · exact Or.inr ⟨index, serial, rfl, List.map_append⟩
  | leave serial => exact Or.inl rfl
  | say serial c =>
    left
    rw [Board.step]
    split
    · rfl
    · rfl
    · exact (hf.act _ c).1
  | idle => exact Or.inl rfl

end Lasting

/-! ## What holds of the links in every run -/

/-- `p` plays in the game and `q` is the other player. -/
def Opponents (t : GHS_Game) (p q : PlayerPtr) : Prop :=
  (t.m_player1 = p ∧ t.m_player2 = q) ∨ (t.m_player2 = p ∧ t.m_player1 = q)

theorem Opponents.plays (h : Opponents t p q) : Plays t p := h.imp And.left And.left

theorem Opponents.symm (h : Opponents t p q) : Opponents t q p :=
  h.elim (fun h => Or.inr ⟨h.2, h.1⟩) fun h => Or.inl ⟨h.2, h.1⟩

/-- Games and players point to each other as they should. -/
structure Linked (b : Board) : Prop where
  registry_lt : ∀ serial p, b.registry.find serial = some (some p) → p < b.seats.length
  queue_lt : ∀ p ∈ b.queue, p < b.seats.length
  queue_length : b.queue.length ≤ 1
  seated : ∀ (g : GamePtr) (t : GHS_Game), b.tables[g]? = some t → b.Seated t
  games_eq : b.games = List.range b.tables.length
  /-- a player's game is one between it and its opponent -/
  link : ∀ p g, b.game p = some g →
    ∃ (t : GHS_Game) (q : PlayerPtr), b.tables[g]? = some t ∧ b.other p = some q ∧ Opponents t p q
  game_of_other : ∀ p q, b.other p = some q → b.game p ≠ none
  game_of_plays : ∀ (g : GamePtr) (t : GHS_Game) (p : PlayerPtr),
    b.tables[g]? = some t → Plays t p → b.game p ≠ none

namespace Linked

theorem mem_games_iff (h : b.Linked) : g ∈ b.games ↔ ∃ t : GHS_Game, b.tables[g]? = some t := by
  rw [h.games_eq, List.mem_range]
  exact ⟨fun hlt => ⟨_, List.getElem?_eq_getElem hlt⟩,
    fun ⟨_, ht⟩ => (List.getElem?_eq_some_iff.mp ht).1⟩

/-- **A player has a game exactly if it has an opponent.** -/
theorem game_eq_none_iff (h : b.Linked) (p : PlayerPtr) : b.game p = none ↔ b.other p = none := by
  constructor
  · intro hgame
    cases hother : b.other p with
    | none => rfl
    | some q => exact absurd hgame (h.game_of_other p q hother)
  · intro hother
    cases hgame : b.game p with
    | none => rfl
    | some g =>
      obtain ⟨t, q, -, hq, -⟩ := h.link p g hgame
      rw [hother] at hq
      cases hq

/-- Who has an opponent plays with it in a game. -/
theorem opponents_of_other (h : b.Linked) (hq : b.other p = some q) :
    ∃ (g : GamePtr) (t : GHS_Game), b.game p = some g ∧ b.tables[g]? = some t ∧ Opponents t p q := by
  obtain ⟨g, hg⟩ := Option.ne_none_iff_exists'.mp (h.game_of_other p q hq)
  obtain ⟨t, q', ht, hq', hopp⟩ := h.link p g hg
  obtain rfl := Option.some.inj (hq.symm.trans hq')
  exact ⟨g, t, hg, ht, hopp⟩

/-- An opponent has a game itself. -/
theorem game_of_opponent (h : b.Linked) (hq : b.other p = some q) : b.game q ≠ none := by
  obtain ⟨g, t, -, ht, hopp⟩ := h.opponents_of_other hq
  exact h.game_of_plays g t q ht hopp.symm.plays

/-- Nothing else is looked at. -/
theorem congr (h : b.Linked) (hregistry : b'.registry = b.registry)
    (hseats : b'.seats.length = b.seats.length) (hqueue : b'.queue = b.queue)
    (htables : b'.tables = b.tables) (hgames : b'.games = b.games)
    (hother : ∀ p, b'.other p = b.other p) (hgame : ∀ p, b'.game p = b.game p) : b'.Linked := by
  refine ⟨?_, ?_, ?_, ?_, ?_, ?_, ?_, ?_⟩
  · rw [hregistry, hseats]
    exact h.registry_lt
  · rw [hqueue, hseats]
    exact h.queue_lt
  · rw [hqueue]
    exact h.queue_length
  · rw [htables]
    unfold Seated
    rw [hseats]
    exact h.seated
  · rw [hgames, htables]
    exact h.games_eq
  · intro p g
    rw [hgame, hother, htables]
    exact h.link p g
  · intro p q
    rw [hgame, hother]
    exact h.game_of_other p q
  · intro g t p
    rw [htables, hgame]
    exact h.game_of_plays g t p

end Linked

theorem linked_empty : Board.empty.Linked where
  registry_lt := fun _ _ h => nomatch h
  queue_lt := fun _ h => absurd h List.not_mem_nil
  queue_length := Nat.zero_le _
  seated := fun _ _ h => nomatch h
  games_eq := rfl
  link := fun _ _ h => nomatch h
  game_of_other := fun _ _ h => nomatch h
  game_of_plays := fun _ _ _ h => nomatch h

/-- A new game is the last table. -/
theorem tables_append_cases {t' : GHS_Game} (h : (b.tables ++ [t])[g]? = some t') :
    b.tables[g]? = some t' ∨ (g = b.tables.length ∧ t' = t) := by
  rcases getElem?_concat_cases b.tables t g with hsame | ⟨hg, -, hnew⟩
  · exact Or.inl (hsame.symm.trans h)
  · exact Or.inr ⟨hg, Option.some.inj (h.symm.trans hnew)⟩

theorem tables_append_old {t' : GHS_Game} (h : b.tables[g]? = some t') :
    (b.tables ++ [t])[g]? = some t' := by
  rw [List.getElem?_append_left (List.getElem?_eq_some_iff.mp h).1]
  exact h

theorem linked_setUp (h : b.Linked) (ht : b.Seated t) : (b.setUp t).Linked where
  registry_lt := by
    rw [registry_setUp, length_seats_setUp]
    exact h.registry_lt
  queue_lt := by
    rw [queue_setUp, length_seats_setUp]
    exact h.queue_lt
  queue_length := h.queue_length
  seated := by
    intro g t' ht'
    unfold Seated
    rw [length_seats_setUp]
    rcases tables_append_cases ht' with hold | ⟨-, rfl⟩
    · exact h.seated g t' hold
    · exact ht
  games_eq := by
    rw [games_setUp, tables_setUp, h.games_eq, List.length_append, List.length_singleton,
      List.range_succ]
  link := by
    intro p g hg
    rw [game_setUp ht] at hg
    rw [other_setUp ht, tables_setUp]
    split at hg
    · next hplays =>
      obtain rfl := Option.some.inj hg
      rw [List.getElem?_concat_length]
      split
      · next hp2 => exact ⟨t, t.m_player1, rfl, rfl, Or.inr ⟨hp2, rfl⟩⟩
      · next hp2 =>
        have hp1 : t.m_player1 = p := hplays.resolve_right hp2
        rw [if_pos hp1]
        exact ⟨t, t.m_player2, rfl, rfl, Or.inl ⟨hp1, rfl⟩⟩
    · next hplays =>
      obtain ⟨t', q, ht', hq, hopp⟩ := h.link p g hg
      rw [if_neg (fun h => hplays (Or.inr h)), if_neg (fun h => hplays (Or.inl h))]
      exact ⟨t', q, tables_append_old ht', hq, hopp⟩
  game_of_other := by
    intro p q hq
    rw [game_setUp ht]
    split
    · exact Option.some_ne_none _
    · next hplays =>
      rw [other_setUp ht, if_neg (fun h => hplays (Or.inr h)),
        if_neg (fun h => hplays (Or.inl h))] at hq
      exact h.game_of_other p q hq
  game_of_plays := by
    intro g t' p ht' hplays
    rw [game_setUp ht]
    split
    · exact Option.some_ne_none _
    · next hnot =>
      rcases tables_append_cases ht' with hold | ⟨-, rfl⟩
      · exact h.game_of_plays g t' p hold hplays
      · exact absurd hplays hnot

/-- What `enqueue` does: the player waits, or plays with the one that waits. -/
theorem enqueue_cases (h : b.Linked) (p : PlayerPtr) :
    (b.queue = [] ∧ b.enqueue p = { b with queue := [p] }) ∨
      ∃ q, b.queue = [q] ∧ b.enqueue p = setUp ⟨q, p⟩ { b with queue := [] } := by
  have hlen := h.queue_length
  unfold enqueue makeGame
  match hqueue : b.queue with
  | [] => exact Or.inl ⟨rfl, rfl⟩
  | [q] => exact Or.inr ⟨q, rfl, rfl⟩
  | _ :: _ :: _ =>
    rw [hqueue, List.length_cons, List.length_cons] at hlen
    omega

/-- A shorter queue. -/
theorem Linked.withQueue (h : b.Linked) {queue : List PlayerPtr}
    (hlt : ∀ p ∈ queue, p < b.seats.length) (hlen : queue.length ≤ 1) :
    ({ b with queue := queue } : Board).Linked :=
  { h with queue_lt := hlt, queue_length := hlen }

theorem linked_enqueue (h : b.Linked) (hp : p < b.seats.length) : (b.enqueue p).Linked := by
  rcases enqueue_cases h p with ⟨-, heq⟩ | ⟨q, hqueue, heq⟩
  · rw [heq]
    refine h.withQueue (fun r hr => ?_) (Nat.le_refl _)
    rw [List.mem_singleton.mp hr]
    exact hp
  · rw [heq]
    have hq : q < b.seats.length := h.queue_lt q (by rw [hqueue]; exact List.mem_cons_self ..)
    have hempty : ({ b with queue := [] } : Board).Linked :=
      h.withQueue (fun r hr => absurd hr List.not_mem_nil) (Nat.zero_le _)
    exact linked_setUp hempty ⟨hq, hp⟩

theorem linked_beReady (h : b.Linked) (p : PlayerPtr) : (b.beReady p).Linked := by
  have hreadied : (b.readied p).Linked :=
    h.congr rfl (length_seats_modifySeat _) rfl rfl rfl other_readied game_readied
  rcases beReady_cases p b with heq | ⟨q, g, t, -, -, -, -, heq⟩
  · rw [heq]
    exact hreadied
  · rw [heq]
    exact hreadied.congr rfl rfl rfl rfl rfl (fun _ => rfl) (fun _ => rfl)

theorem linked_act (h : b.Linked) (hp : p < b.seats.length) (c : Command) : (b.act p c).Linked := by
  cases c with
  | autoMatch => exact linked_enqueue h hp
  | unAutoMatch =>
    exact h.withQueue (fun r hr => h.queue_lt r (List.mem_of_mem_erase hr))
      (Nat.le_trans List.length_erase_le h.queue_length)
  | gameReady => exact linked_beReady h p
  | other => exact h

/-- **Every move keeps the links.** -/
theorem linked_step (h : b.Linked) (m : Move) : (b.step m).Linked := by
  cases m with
  | join index serial =>
    rw [step]
    split
    · exact h
    · next hnone =>
      have hother : ∀ r, ({ b with seats := b.seats ++ [Seat.new index serial] } : Board).other r
          = b.other r := look_append rfl
      have hgame : ∀ r, ({ b with seats := b.seats ++ [Seat.new index serial] } : Board).game r
          = b.game r := look_append rfl
      have hlen : (b.seats ++ [Seat.new index serial]).length = b.seats.length + 1 :=
        List.length_append
      refine ⟨?_, ?_, h.queue_length, ?_, h.games_eq, ?_, ?_, ?_⟩
      · intro k p hk
        show p < (b.seats ++ [Seat.new index serial]).length
        rw [hlen]
        rcases OrdMap.find_insert_cases hnone hk with ⟨-, hp⟩ | hold
        · rw [Option.some.inj hp]
          exact Nat.lt_succ_self _
        · exact Nat.lt_succ_of_lt (h.registry_lt k p hold)
      · intro p hp
        show p < (b.seats ++ [Seat.new index serial]).length
        rw [hlen]
        exact Nat.lt_succ_of_lt (h.queue_lt p hp)
      · intro g t ht
        obtain ⟨h1, h2⟩ := h.seated g t ht
        show _ < (b.seats ++ [Seat.new index serial]).length ∧
          _ < (b.seats ++ [Seat.new index serial]).length
        rw [hlen]
        exact ⟨Nat.lt_succ_of_lt h1, Nat.lt_succ_of_lt h2⟩
      · intro p g hg
        obtain ⟨t, q, ht, hq, hopp⟩ := h.link p g ((hgame p).symm.trans hg)
        exact ⟨t, q, ht, (hother p).trans hq, hopp⟩
      · intro p q hq hg
        exact h.game_of_other p q ((hother p).symm.trans hq) ((hgame p).symm.trans hg)
      · intro g t p ht hplays hg
        exact h.game_of_plays g t p ht hplays ((hgame p).symm.trans hg)
  | leave serial =>
    refine { h with registry_lt := ?_ }
    intro k p hk
    exact h.registry_lt k p (OrdMap.find_of_find_erase hk).2
  | say serial c =>
    rw [step]
    split
    · next hnone =>
      refine { h with registry_lt := ?_ }
      intro k p hk
      rcases OrdMap.find_insert_cases hnone hk with ⟨-, hp⟩ | hold
      · cases hp
      · exact h.registry_lt k p hold
    · exact h
    · next p hp => exact linked_act h (h.registry_lt serial p hp) c
  | idle => exact h

end GhNet.Lobby.Board

namespace GhNet.Lobby

/-- **The links hold in every lobby reached.** -/
theorem Reachable.linked {ok : GHS_Lobby → Call × Env → Prop} {l : GHS_Lobby}
    (hr : Reach Initial step ok l) : l.board.Linked :=
  board_invariant Board.Linked anyStep Board.linked_empty
    (fun _ m h _ => Board.linked_step h m) hr.any

end GhNet.Lobby
