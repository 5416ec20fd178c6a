import GhNet.Lobby.Departure

/-!
# The serials of the players

A player keeps the serial that it came with, and the registry finds it under that serial until it
leaves. So the queue can be read as the serials that wait.
-/

namespace GhNet.Lobby.Board

open GhNet

variable {b : Board} {p q : PlayerPtr} {n : Nat}

/-- The serials of all the seats, in the order in which they were taken. -/
def serials (b : Board) : List Nat := b.seats.map Seat.serial

theorem lasting_serial : Lasting Seat.serial := ⟨fun _ _ _ => rfl, fun _ => rfl⟩

/-- Only who joins adds a serial. -/
theorem serials_step (m : Move) : (b.step m).serials = b.serials ∨
    ∃ index serial, m = .join index serial ∧ (b.step m).serials = b.serials ++ [serial] :=
  lasting_serial.step m

/-- A serial is kept. -/
theorem serial_step (m : Move) (h : b.serials[p]? = some n) : (b.step m).serials[p]? = some n := by
  rcases serials_step (b := b) m with hsame | ⟨_, _, -, hnew⟩
  · rw [hsame, h]
  · rw [hnew, List.getElem?_append_left (List.getElem?_eq_some_iff.mp h).1, h]

/-- Different players, different serials. -/
theorem eq_of_serial (hnodup : b.serials.Nodup) (hp : b.serials[p]? = some n)
    (hq : b.serials[q]? = some n) : p = q :=
  (List.getElem?_inj (List.getElem?_eq_some_iff.mp hp).1 hnodup).mp (hp.trans hq.symm)

/-! ## The registry -/

/-- A player is found under its own serial. -/
def Registered (b : Board) : Prop :=
  ∀ n p, b.registry.find n = some (some p) → b.serials[p]? = some n

theorem registered_empty : Board.empty.Registered := fun _ _ h => nomatch h

theorem registered_step (hl : b.Linked) (h : b.Registered) (m : Move) : (b.step m).Registered := by
  intro n p hn
  cases m with
  | join index serial =>
    rw [step] at hn ⊢
    split at hn
    · exact h n p hn
    · next hnone =>
      have hserials :
          (b.seats ++ [Seat.new index serial]).map Seat.serial = b.serials ++ [serial] :=
        List.map_append
      show ((b.seats ++ [Seat.new index serial]).map Seat.serial)[p]? = some n
      rw [hserials]
      rcases OrdMap.find_insert_cases hnone hn with ⟨rfl, hp⟩ | hold
      · rw [Option.some.inj hp, ← List.length_map (f := Seat.serial)]
        exact List.getElem?_concat_length
      · have hp := h n p hold
        rw [List.getElem?_append_left (List.getElem?_eq_some_iff.mp hp).1]
        exact hp
  | leave serial => exact h n p (OrdMap.find_of_find_erase hn).2
  | say serial c =>
    refine serial_step (.say serial c) (h n p ?_)
    rw [step] at hn
    split at hn
    · next hnone =>
      rcases OrdMap.find_insert_cases hnone hn with ⟨-, hp⟩ | hold
      · cases hp
      · exact hold
    · exact hn
    · rw [registry_act hl] at hn
      exact hn
  | idle => exact h n p hn

/-- Who is found is found as long as it does not leave. -/
theorem find_step (hl : b.Linked) {m : Move} (h : b.registry.find n = some (some p))
    (hm : m ≠ .leave n) : (b.step m).registry.find n = some (some p) := by
  cases m with
  | join index serial =>
    rw [step]
    split
    · exact h
    · next hnone =>
      show (b.registry.insert serial (some b.seats.length)).find n = _
      rw [OrdMap.find_insert_ne fun he => by rw [he, hnone] at h; cases h]
      exact h
  | leave serial =>
    show (b.registry.erase serial).find n = _
    rw [OrdMap.find_erase_ne fun he => hm (congrArg Move.leave he.symm)]
    exact h
  | say serial c =>
    rw [step]
    split
    · next hnone =>
      show (b.registry.insert serial none).find n = _
      rw [OrdMap.find_insert_ne fun he => by rw [he, hnone] at h; cases h]
      exact h
    · exact h
    · rw [registry_act hl]
      exact h
  | idle => exact h

/-- Who joins is found, and is the last player. -/
theorem find_join (index : Nat) (hnone : b.registry.find n = none) :
    (b.step (.join index n)).registry.find n = some (some b.seats.length) ∧
      (b.step (.join index n)).serials = b.serials ++ [n] := by
  rw [step, hnone]
  exact ⟨OrdMap.find_insert_self hnone, List.map_append⟩

/-! ## Who waits -/

/-- The player of the serial is in the queue. -/
def Waits (b : Board) (n : Nat) : Prop := ∃ p ∈ b.queue, b.serials[p]? = some n

/-- Only who asks for a match comes to wait. -/
theorem waits_step (hl : b.Linked) (hr : b.Registered) {m : Move} (h : (b.step m).Waits n) :
    m = .say n .autoMatch ∨ b.Waits n := by
  obtain ⟨p, hp, hn⟩ := h
  -- who was in the queue had its serial
  have hold : p ∈ b.queue → b.Waits n := by
    intro hmem
    have hlt : p < b.serials.length := by
      rw [serials, List.length_map]
      exact hl.queue_lt p hmem
    refine ⟨p, hmem, ?_⟩
    rw [List.getElem?_eq_getElem hlt, ← hn,
      serial_step m (List.getElem?_eq_getElem hlt)]
  cases m with
  | join index serial =>
    right
    refine hold ?_
    rw [step] at hp
    split at hp <;> exact hp
  | leave serial => exact Or.inr (hold hp)
  | say serial c =>
    rw [step] at hp
    split at hp
    · exact Or.inr (hold hp)
    · exact Or.inr (hold hp)
    · next r hfind =>
      rcases queue_act_subset hl c p hp with ⟨rfl, rfl⟩ | hmem
      · left
        have hserial := serial_step (.say serial .autoMatch) (hr serial p hfind)
        rw [Option.some.inj (hn.symm.trans hserial)]
      · exact Or.inr (hold hmem)
  | idle => exact Or.inr (hold hp)

/-- Who takes its request back does not wait. -/
theorem not_waits_unAutoMatch (hl : b.Linked) (hr : b.Registered) (hnodup : b.serials.Nodup)
    (hfind : b.registry.find n = some (some p)) : ¬(b.step (.say n .unAutoMatch)).Waits n := by
  rintro ⟨q, hq, hn⟩
  have hstep : b.step (.say n .unAutoMatch) = b.unqueue p := by
    rw [step, hfind]
    rfl
  rw [hstep] at hq hn
  obtain rfl : q = p := eq_of_serial hnodup hn (hr n p hfind)
  have hqueue : b.queue.Nodup := by
    have hlen := hl.queue_length
    cases hb : b.queue with
    | nil => exact List.nodup_nil
    | cons a rest =>
      rw [hb, List.length_cons] at hlen
      rw [List.length_eq_zero_iff.mp (Nat.le_zero.mp (Nat.le_of_succ_le_succ hlen))]
      exact List.pairwise_singleton _ a
  exact (List.Nodup.mem_erase_iff hqueue).mp hq |>.1 rfl

end GhNet.Lobby.Board
