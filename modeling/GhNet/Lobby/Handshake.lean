import GhNet.Lobby.Links

/-!
# The start handshake

When `sendGameStart` is called on the players of a game: whether both have said that they are ready
after they were told of the game, and whether it happens once.

`m_ready` is never taken back, and a player that is ready may say so again. So this holds as long
as games are set up between two different players that are not ready, and nobody says that it is
ready when it and its opponent already are.
-/

namespace GhNet.Lobby

open GhNet

/-! ## The notes of a run -/

/-- Every start of a game comes after each of its players, told of the game, has said that it is
ready. -/
def AfterReady (tables : List GHS_Game) (notes : List Note) : Prop :=
  ∀ pre g p, pre ++ [.gameStart g p] <+: notes → ∀ t, tables[g]? = some t →
    ∀ x, Board.Plays t x → [.gameInit g x, .ready x].Sublist pre

section Notes

variable {tables : List GHS_Game} {notes : List Note} {g : GamePtr} {p x : PlayerPtr}

theorem mem_of_concat {pre : List Note} {n : Note} (h : pre ++ [n] <+: notes) : n ∈ notes :=
  h.subset (List.mem_append_right _ (List.mem_singleton.mpr rfl))

/-- A note that is no start. -/
theorem AfterReady.note (h : AfterReady tables notes) {n : Note}
    (hn : ∀ g p, n ≠ .gameStart g p) : AfterReady tables (notes ++ [n]) := by
  intro pre g p hpre t ht x hx
  rcases List.prefix_concat_iff.mp hpre with heq | hold
  · exact absurd (List.append_singleton_inj.mp heq).2.symm (hn g p)
  · exact h pre g p hold t ht x hx

/-- A start of a game whose players are ready. -/
theorem AfterReady.start (h : AfterReady tables notes) (p : PlayerPtr)
    (hready : ∀ t, tables[g]? = some t → ∀ x, Board.Plays t x →
      [.gameInit g x, .ready x].Sublist notes) :
    AfterReady tables (notes ++ [.gameStart g p]) := by
  intro pre g' p' hpre t ht x hx
  rcases List.prefix_concat_iff.mp hpre with heq | hold
  · obtain ⟨rfl, hnote⟩ := List.append_singleton_inj.mp heq
    obtain ⟨rfl, -⟩ := Note.gameStart.inj hnote
    exact hready t ht x hx
  · exact h pre g' p' hold t ht x hx

/-- A new table, if the games that were started are older. -/
theorem AfterReady.table (h : AfterReady tables notes) (t : GHS_Game)
    (hold : ∀ g p, .gameStart g p ∈ notes → g < tables.length) :
    AfterReady (tables ++ [t]) notes := by
  intro pre g p hpre t' ht' x hx
  have hlt := hold g p (mem_of_concat hpre)
  rw [List.getElem?_append_left hlt] at ht'
  exact h pre g p hpre t' ht' x hx

end Notes

namespace Board

variable {b : Board} {p q : PlayerPtr} {g : GamePtr} {t : GHS_Game}

/-- **The handshake was kept to.** -/
structure StartedRightly (b : Board) : Prop where
  after_ready : AfterReady b.tables b.notes
  once : ∀ g p, b.notes.count (.gameStart g p) ≤ 1

/-- Games are set up between two different players that are not ready, and who says that it is
ready is not so already together with its opponent. -/
def Orderly (b : Board) : Move → Prop
  | .say serial .autoMatch => ∀ p, b.registry.find serial = some (some p) →
    ∀ q ∈ b.queue, q ≠ p ∧ b.ready q = false ∧ b.ready p = false
  | .say serial .gameReady => ∀ p, b.registry.find serial = some (some p) →
    ∀ q ∈ b.other p, ¬(b.ready p = true ∧ b.ready q = true)
  | _ => True

instance (b : Board) : ∀ m, Decidable (b.Orderly m)
  | .say _ .autoMatch =>
    decidableFound _ fun p => ∀ q ∈ b.queue, q ≠ p ∧ b.ready q = false ∧ b.ready p = false
  | .say _ .gameReady =>
    decidableFound _ fun p => ∀ q ∈ b.other p, ¬(b.ready p = true ∧ b.ready q = true)
  | .say _ .unAutoMatch | .say _ .other => .isTrue trivial
  | .join _ _ | .leave _ | .idle => .isTrue trivial

/-- What carries the handshake: a ready player has been told of all its games before, and the
players of a game that was started are ready. -/
structure Handshaking (b : Board) : Prop where
  told : ∀ (g : GamePtr) (t : GHS_Game), b.tables[g]? = some t → ∀ x, Plays t x →
    .gameInit g x ∈ b.notes
  readied : ∀ (g : GamePtr) (t : GHS_Game), b.tables[g]? = some t → ∀ x, Plays t x →
    b.ready x = true → [.gameInit g x, .ready x].Sublist b.notes
  started : ∀ g p, .gameStart g p ∈ b.notes →
    ∃ t, b.tables[g]? = some t ∧ ∀ x, Plays t x → b.ready x = true
  different : ∀ (g : GamePtr) (t : GHS_Game), b.tables[g]? = some t → t.m_player1 ≠ t.m_player2
  rightly : b.StartedRightly

/-- Only tables, notes and readiness are looked at. -/
theorem Handshaking.congr {b' : Board} (h : b.Handshaking) (htables : b'.tables = b.tables)
    (hnotes : b'.notes = b.notes) (hready : ∀ p, b'.ready p = b.ready p) : b'.Handshaking := by
  refine ⟨?_, ?_, ?_, ?_, ?_, ?_⟩
  · rw [htables, hnotes]
    exact h.told
  · intro g t ht x hx
    rw [hready, hnotes]
    exact h.readied g t (htables ▸ ht) x hx
  · intro g p hp
    obtain ⟨t, ht, hx⟩ := h.started g p (hnotes ▸ hp)
    refine ⟨t, htables ▸ ht, fun x hplays => ?_⟩
    rw [hready]
    exact hx x hplays
  · rw [htables]
    exact h.different
  · rw [htables, hnotes]
    exact h.rightly.after_ready
  · rw [hnotes]
    exact h.rightly.once

end Board

end GhNet.Lobby
