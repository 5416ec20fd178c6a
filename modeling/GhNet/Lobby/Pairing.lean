import GhNet.Lobby.Links

/-!
# Pairing

Whether players are paired: opponents are each other's, in one game, and nobody that plays waits in
the queue. `enqueue` does not look at the player's state, so this holds as long as no player asks
for a match that is waiting or playing, and is lost the first time one does.
-/

namespace GhNet.Lobby

open GhNet

namespace Board

variable {b b' : Board} {p q r : PlayerPtr} {g : GamePtr} {t : GHS_Game}

/-- **The players are paired.** -/
structure Paired (b : Board) : Prop where
  opponent : ∀ p q, b.other p = some q → q ≠ p ∧ b.other q = some p ∧
    ∃ (g : GamePtr) (t : GHS_Game),
      b.game p = some g ∧ b.game q = some g ∧ b.tables[g]? = some t ∧ Opponents t p q
  game_iff : ∀ p, b.game p = none ↔ b.other p = none
  not_queued : ∀ p q, b.other p = some q → p ∉ b.queue

/-- Who asks for a match is not waiting for one and has no opponent. -/
def AsksOnce (b : Board) : Move → Prop
  | .say serial .autoMatch =>
    ∀ p, b.registry.find serial = some (some p) → p ∉ b.queue ∧ b.other p = none
  | _ => True

instance (b : Board) : ∀ m, Decidable (b.AsksOnce m)
  | .say _ .autoMatch => decidableFound _ fun p => p ∉ b.queue ∧ b.other p = none
  | .say _ .unAutoMatch | .say _ .gameReady | .say _ .other => .isTrue trivial
  | .join _ _ | .leave _ | .idle => .isTrue trivial

/-- Only the links and the queue are looked at. -/
theorem Paired.congr (h : b.Paired) (hother : ∀ p, b'.other p = b.other p)
    (hgame : ∀ p, b'.game p = b.game p) (htables : b'.tables = b.tables)
    (hqueue : ∀ p ∈ b'.queue, p ∈ b.queue) : b'.Paired := by
  refine ⟨?_, ?_, ?_⟩
  · intro p q hq
    rw [hother] at hq
    rw [hother, hgame, hgame, htables]
    exact h.opponent p q hq
  · intro p
    rw [hother, hgame]
    exact h.game_iff p
  · intro p q hq hp
    rw [hother] at hq
    exact h.not_queued p q hq (hqueue p hp)

theorem paired_empty : Board.empty.Paired where
  opponent := fun _ _ h => nomatch h
  game_iff := fun _ => Iff.rfl
  not_queued := fun _ _ h => nomatch h

/-- Two different players without opponents are paired by a new game. -/
theorem paired_setUp (hl : b.Linked) (h : b.Paired) (ht : b.Seated t)
    (hne : t.m_player1 ≠ t.m_player2) (h1 : b.other t.m_player1 = none)
    (h2 : b.other t.m_player2 = none) (hqueue : b.queue = []) : (b.setUp t).Paired := by
  have hlast : (b.setUp t).tables[b.tables.length]? = some t := by
    rw [tables_setUp, List.getElem?_concat_length]
  have hnew : ∀ r, Plays t r → (b.setUp t).game r = some b.tables.length := by
    intro r hr
    rw [game_setUp ht, if_pos hr]
  refine ⟨?_, (linked_setUp hl ht).game_eq_none_iff, ?_⟩
  · intro r s hs
    rw [other_setUp ht] at hs
    split at hs
    · next hr =>
      obtain rfl := Option.some.inj hs
      subst hr
      refine ⟨hne, ?_, _, t, hnew _ (Or.inr rfl), hnew _ (Or.inl rfl), hlast, Or.inr ⟨rfl, rfl⟩⟩
      rw [other_setUp ht, if_neg hne.symm, if_pos rfl]
    · split at hs
      · next hr =>
        obtain rfl := Option.some.inj hs
        subst hr
        refine ⟨hne.symm, ?_, _, t, hnew _ (Or.inl rfl), hnew _ (Or.inr rfl), hlast,
          Or.inl ⟨rfl, rfl⟩⟩
        rw [other_setUp ht, if_pos rfl]
      · next hr2 hr1 =>
        -- an older pair is not touched: neither of the two was without an opponent
        obtain ⟨hsr, hback, g, t', hg, hg', ht', hopp⟩ := h.opponent r s hs
        have hs1 : t.m_player1 ≠ s := fun he => by rw [← he, h1] at hback; cases hback
        have hs2 : t.m_player2 ≠ s := fun he => by rw [← he, h2] at hback; cases hback
        refine ⟨hsr, ?_, g, t', ?_, ?_, tables_append_old ht', hopp⟩
        · rw [other_setUp ht, if_neg hs2, if_neg hs1]
          exact hback
        · rw [game_setUp ht, if_neg (fun h => h.elim hr1 hr2)]
          exact hg
        · rw [game_setUp ht, if_neg (fun h => h.elim hs1 hs2)]
          exact hg'
  · intro r s _
    rw [queue_setUp, hqueue]
    exact List.not_mem_nil

/-- A player that is neither waiting nor playing may ask for a match. -/
theorem paired_enqueue (hl : b.Linked) (h : b.Paired) (hp : p < b.seats.length)
    (hnot : p ∉ b.queue) (hother : b.other p = none) : (b.enqueue p).Paired := by
  rcases enqueue_cases hl p with ⟨hqueue, heq⟩ | ⟨q, hqueue, heq⟩
  · rw [heq]
    refine ⟨h.opponent, h.game_iff, ?_⟩
    intro r s hs hr
    rw [List.mem_singleton.mp hr] at hs
    have hs' : b.other p = some s := hs
    rw [hother] at hs'
    cases hs'
  · have hq : q ∈ b.queue := by rw [hqueue]; exact List.mem_cons_self ..
    have hqother : b.other q = none := by
      cases hs : b.other q with
      | none => rfl
      | some s => exact absurd hq (h.not_queued q s hs)
    have hempty : ({ b with queue := [] } : Board).Paired :=
      h.congr (fun _ => rfl) (fun _ => rfl) rfl fun _ hr => absurd hr List.not_mem_nil
    rw [heq]
    refine paired_setUp (hl.withQueue (fun _ hr => absurd hr List.not_mem_nil) (Nat.zero_le _))
      hempty ⟨hl.queue_lt q hq, hp⟩ ?_ hqother hother rfl
    intro he
    exact hnot ((show q = p from he) ▸ hq)

/-- Who asks again is paired with itself, waits while it plays, or leaves its opponent behind. -/
theorem not_queued_of_paired_enqueue (hl : b.Linked) (h : b.Paired) (hp : p < b.seats.length)
    (h' : (b.enqueue p).Paired) : p ∉ b.queue ∧ b.other p = none := by
  rcases enqueue_cases hl p with ⟨hqueue, heq⟩ | ⟨q, hqueue, heq⟩
  · rw [heq] at h'
    refine ⟨by rw [hqueue]; exact List.not_mem_nil, ?_⟩
    cases hs : b.other p with
    | none => rfl
    | some s => exact absurd (List.mem_singleton.mpr rfl) (h'.not_queued p s hs)
  · have hq : q ∈ b.queue := by rw [hqueue]; exact List.mem_cons_self ..
    have hseated : ({ b with queue := [] } : Board).Seated ⟨q, p⟩ := ⟨hl.queue_lt q hq, hp⟩
    rw [heq] at h'
    have hnew : (setUp ⟨q, p⟩ { b with queue := [] }).other p = some q := by
      rw [other_setUp hseated, if_pos rfl]
    have hqp : q ≠ p := (h'.opponent p q hnew).1
    refine ⟨by rw [hqueue]; exact fun hm => hqp (List.mem_singleton.mp hm).symm, ?_⟩
    cases hs : b.other p with
    | none => rfl
    | some s =>
      -- the old opponent still has `p`, and `p` now has `q`
      obtain ⟨hsp, hback, -⟩ := h.opponent p s hs
      have hsq : q ≠ s := fun he => h.not_queued s p hback (he ▸ hq)
      have hold : (setUp ⟨q, p⟩ { b with queue := [] }).other s = some p := by
        rw [other_setUp hseated, if_neg hsp.symm, if_neg hsq]
        exact hback
      have hmutual := (h'.opponent s p hold).2.1
      rw [hnew] at hmutual
      exact absurd (Option.some.inj hmutual) hsq

/-- **A move keeps the players paired exactly if nobody asks for a match that waits or plays.** -/
theorem paired_step_iff (hl : b.Linked) (h : b.Paired) (m : Move) :
    (b.step m).Paired ↔ b.AsksOnce m := by
  cases m with
  | join index serial =>
    refine ⟨fun _ => trivial, fun _ => ?_⟩
    rw [step]
    split
    · exact h
    · exact h.congr (look_append rfl) (look_append rfl) rfl fun _ hr => hr
  | leave serial => exact ⟨fun _ => trivial, fun _ => ⟨h.opponent, h.game_iff, h.not_queued⟩⟩
  | idle => exact ⟨fun _ => trivial, fun _ => h⟩
  | say serial c =>
    have hsame : ∀ c', c = c' → (∀ p, b.registry.find serial = some (some p) →
        (b.act p c').Paired) → (b.step (.say serial c)).Paired := by
      rintro c' rfl hact
      rw [step]
      split
      · exact ⟨h.opponent, h.game_iff, h.not_queued⟩
      · exact h
      · next p hp => exact hact p hp
    cases c with
    | autoMatch =>
      constructor
      · intro h' p hp
        rw [step, hp] at h'
        exact not_queued_of_paired_enqueue hl h (hl.registry_lt serial p hp) h'
      · intro hasks
        refine hsame .autoMatch rfl fun p hp => ?_
        exact paired_enqueue hl h (hl.registry_lt serial p hp) (hasks p hp).1 (hasks p hp).2
    | unAutoMatch =>
      refine ⟨fun _ => trivial, fun _ => hsame .unAutoMatch rfl fun p _ => ?_⟩
      exact h.congr (fun _ => rfl) (fun _ => rfl) rfl fun _ hr => List.mem_of_mem_erase hr
    | gameReady =>
      refine ⟨fun _ => trivial, fun _ => hsame .gameReady rfl fun p _ => ?_⟩
      have hreadied : (b.readied p).Paired :=
        h.congr other_readied game_readied rfl fun _ hr => hr
      show (b.beReady p).Paired
      rcases beReady_cases p b with heq | ⟨q, g, t, -, -, -, -, heq⟩
      · rw [heq]
        exact hreadied
      · rw [heq]
        exact hreadied.congr (fun _ => rfl) (fun _ => rfl) rfl fun _ hr => hr
    | other => exact ⟨fun _ => trivial, fun _ => hsame .other rfl fun _ _ => h⟩

end Board

/-- **Pairing.** In every run in which no player asks for a match that is waiting for one or has an
opponent, the players are paired. -/
theorem paired_of_asksOnce {l : GHS_Lobby}
    (hr : Reach Initial step (fun l a => l.board.AsksOnce (meaning a)) l) : l.board.Paired := by
  have h : l.board.Linked ∧ l.board.Paired :=
    board_invariant (fun b => b.Linked ∧ b.Paired) Board.AsksOnce
      ⟨Board.linked_empty, Board.paired_empty⟩
      (fun b m h hok => ⟨Board.linked_step h.1 m, (Board.paired_step_iff h.1 h.2 m).mpr hok⟩) hr
  exact h.2

theorem paired_of_asksOnce_playing : ((runCalls playing).get playing_runs).board.Paired :=
  paired_of_asksOnce (reach_runCalls (by decide +kernel) playing_runs)

/-- A player asks for a match twice. -/
def askingTwice : List Call := [.onCon 0 0, .onRead 0 [0, 1], .onRead 0 [0, 1]]

theorem askingTwice_runs : (runCalls askingTwice).isSome = true := by decide +kernel

/-- **The player that asks twice plays against itself.** -/
theorem paired_with_itself : ¬∀ l, Reachable l → l.board.Paired := by
  intro h
  have hr : Reachable ((runCalls askingTwice).get askingTwice_runs) :=
    reach_runCalls (by decide +kernel) askingTwice_runs
  have hother : ((runCalls askingTwice).get askingTwice_runs).board.other 0 = some 0 := by
    decide +kernel
  exact ((h _ hr).opponent 0 0 hother).1 rfl

end GhNet.Lobby
