import Mathlib.Data.List.Induction
import GhNet.Infra.Bytes

/-!
# Length-prefixed framing

A stream of frames: each is a header of fixed length, from which the length of the body can be
read, and the body. `frames s` are the bodies of the complete frames at the front of `s` and
`rest s` is what remains behind them.

The main fact is `frames_append`: parsing a stream in two parts, the second behind what the
first left over, is parsing the whole.
-/

namespace GhNet

/-- How the body length is read from a header. -/
structure FrameFormat (α : Type*) where
  headerLen : Nat
  bodyLen : List α → Nat
  headerLen_pos : 0 < headerLen

namespace FrameFormat

variable {α : Type*} (F : FrameFormat α)

/-- The length of the frame that starts at the front of `s`, header included. -/
def total (s : List α) : Nat := F.headerLen + F.bodyLen (s.take F.headerLen)

/-- A whole frame stands at the front of `s`. -/
def Complete (s : List α) : Prop := F.headerLen ≤ s.length ∧ F.total s ≤ s.length

instance (s : List α) : Decidable (F.Complete s) := inferInstanceAs (Decidable (_ ∧ _))

/-- The body of the frame at the front of `s`. -/
def body (s : List α) : List α := (s.drop F.headerLen).take (F.bodyLen (s.take F.headerLen))

/-- Takes at most `fuel` frames off the front. -/
def parse : Nat → List α → List (List α) × List α
  | 0, s => ([], s)
  | fuel + 1, s =>
    if F.Complete s then
      let r := parse fuel (s.drop (F.total s))
      (F.body s :: r.1, r.2)
    else ([], s)

/-- The bodies of the complete frames of `s`. A frame has at least one element, so `s.length`
rounds are enough. -/
def frames (s : List α) : List (List α) := (F.parse s.length s).1

/-- What the complete frames of `s` leave over. -/
def rest (s : List α) : List α := (F.parse s.length s).2

variable {F} {s t : List α}

theorem total_pos (s : List α) : 0 < F.total s := Nat.add_pos_left F.headerLen_pos _

theorem length_drop_total_lt (h : F.Complete s) : (s.drop (F.total s)).length < s.length := by
  have h1 := F.total_pos s
  have h2 := h.2
  rw [List.length_drop]
  omega

/-- Induction along the frames of a stream. -/
theorem parse_induction {P : List α → Prop} (stop : ∀ s, ¬F.Complete s → P s)
    (frame : ∀ s, F.Complete s → P (s.drop (F.total s)) → P s) (s : List α) : P s := by
  induction hn : s.length using Nat.strongRecOn generalizing s with
  | _ n ih =>
    by_cases hc : F.Complete s
    · exact frame s hc (ih _ (hn ▸ length_drop_total_lt hc) _ rfl)
    · exact stop s hc

/-- More fuel than elements changes nothing. -/
theorem parse_fuel (s : List α) :
    ∀ fuel, s.length ≤ fuel → F.parse fuel s = F.parse s.length s := by
  induction s using parse_induction (F := F) with
  | stop s hc =>
    have hstop : ∀ fuel, F.parse fuel s = ([], s) := by
      intro fuel
      cases fuel with
      | zero => rfl
      | succ fuel => rw [parse, if_neg hc]
    intro fuel _
    rw [hstop, hstop]
  | frame s hc ih =>
    have hlt := length_drop_total_lt hc
    have hframe : ∀ fuel, s.length ≤ fuel → F.parse fuel s
        = (F.body s :: (F.parse (s.drop (F.total s)).length (s.drop (F.total s))).1,
            (F.parse (s.drop (F.total s)).length (s.drop (F.total s))).2) := by
      intro fuel hfuel
      cases fuel with
      | zero => omega
      | succ fuel => rw [parse, if_pos hc, ih fuel (by omega)]
    intro fuel hfuel
    rw [hframe fuel hfuel, hframe s.length (Nat.le_refl _)]

/-! ## One frame at a time -/

theorem not_complete_nil : ¬F.Complete ([] : List α) := by
  intro h
  have h1 := h.1
  have h2 := F.headerLen_pos
  rw [List.length_nil] at h1
  omega

theorem frames_of_not_complete (h : ¬F.Complete s) : F.frames s = [] := by
  unfold frames
  cases hl : s.length with
  | zero => rfl
  | succ n => rw [parse, if_neg h]

theorem rest_of_not_complete (h : ¬F.Complete s) : F.rest s = s := by
  unfold rest
  cases hl : s.length with
  | zero => rfl
  | succ n => rw [parse, if_neg h]

theorem parse_of_complete (h : F.Complete s) : F.parse s.length s
    = (F.body s :: F.frames (s.drop (F.total s)), F.rest (s.drop (F.total s))) := by
  have hlt := length_drop_total_lt h
  have hfuel := parse_fuel (F := F) (s.drop (F.total s)) (s.length - 1) (by omega)
  rw [show s.length = (s.length - 1) + 1 by omega, parse, if_pos h, hfuel]
  rfl

theorem frames_of_complete (h : F.Complete s) :
    F.frames s = F.body s :: F.frames (s.drop (F.total s)) := by
  rw [frames, parse_of_complete h]

theorem rest_of_complete (h : F.Complete s) : F.rest s = F.rest (s.drop (F.total s)) := by
  rw [rest, parse_of_complete h]

theorem frames_eq_nil_iff : F.frames s = [] ↔ ¬F.Complete s := by
  constructor
  · intro h hc
    rw [frames_of_complete hc] at h
    simp at h
  · exact frames_of_not_complete

theorem total_eq_of_complete (h : F.Complete s) : F.total s = F.headerLen + (F.body s).length := by
  have h2 := h.2
  unfold total at h2
  unfold total body
  rw [List.length_take, List.length_drop, Nat.min_eq_left (by omega)]

/-! ## Streams that arrive in parts -/

theorem take_headerLen_append (h : F.headerLen ≤ s.length) (t : List α) :
    (s ++ t).take F.headerLen = s.take F.headerLen := List.take_append_of_le_length h

theorem total_append (h : F.headerLen ≤ s.length) (t : List α) : F.total (s ++ t) = F.total s := by
  unfold total
  rw [take_headerLen_append h]

/-- A frame that is complete stays so when more arrives. -/
theorem Complete.append (h : F.Complete s) (t : List α) : F.Complete (s ++ t) := by
  constructor
  · rw [List.length_append]; exact Nat.le_add_right_of_le h.1
  · rw [total_append h.1, List.length_append]; exact Nat.le_add_right_of_le h.2

theorem body_append (h : F.Complete s) (t : List α) : F.body (s ++ t) = F.body s := by
  have hb : F.bodyLen (s.take F.headerLen) ≤ (s.drop F.headerLen).length := by
    have h2 := h.2
    unfold total at h2
    rw [List.length_drop]
    omega
  unfold body
  rw [take_headerLen_append h.1, List.drop_append_of_le_length h.1,
    List.take_append_of_le_length hb]

/-- **Parsing in parts.** What the first part leaves over is parsed again in front of the
second. -/
theorem frames_append (s t : List α) :
    F.frames (s ++ t) = F.frames s ++ F.frames (F.rest s ++ t) := by
  induction s using parse_induction (F := F) with
  | stop s hc => rw [frames_of_not_complete hc, rest_of_not_complete hc, List.nil_append]
  | frame s hc ih =>
    rw [frames_of_complete (hc.append t), body_append hc, total_append hc.1,
      List.drop_append_of_le_length hc.2, ih, frames_of_complete hc, rest_of_complete hc,
      List.cons_append]

theorem rest_append (s t : List α) : F.rest (s ++ t) = F.rest (F.rest s ++ t) := by
  induction s using parse_induction (F := F) with
  | stop s hc => rw [rest_of_not_complete hc]
  | frame s hc ih =>
    rw [rest_of_complete (hc.append t), total_append hc.1,
      List.drop_append_of_le_length hc.2, ih, rest_of_complete hc]

/-- What has arrived already is parsed the same when more arrives. -/
theorem frames_mono (h : s <+: t) : F.frames s <+: F.frames t := by
  obtain ⟨u, rfl⟩ := h
  rw [frames_append]
  exact List.prefix_append _ _

/-- A frame that is all of `s`, in front of more. -/
theorem frames_exact (h : F.Complete s) (hlen : F.total s = s.length) (t : List α) :
    F.frames (s ++ t) = F.body s :: F.frames t := by
  rw [frames_of_complete (h.append t), body_append h, total_append h.1, hlen, List.drop_left]

/-! ## Taking one frame at a time

A reader that, each time something has arrived, takes at most one frame, and only when more than a
header is there. It keeps up with the stream exactly when `AtMostOne` holds of every arrival.
-/

variable (F)

/-- Takes the frame at the front, if more than a header is there. -/
def takeOne (s : List α) : List (List α) × List α :=
  if F.headerLen < s.length ∧ F.Complete s then ([F.body s], s.drop (F.total s)) else ([], s)

/-- What arrives behind `p` completes at most one frame, and does not end with an empty frame that
it completes. -/
def AtMostOne (p c : List α) : Prop :=
  (F.frames (p ++ c)).length ≤ (F.frames p).length + 1 ∧
    ¬(F.frames (p ++ c) = F.frames p ++ [[]] ∧ F.rest (p ++ c) = [])

instance [DecidableEq α] (p c : List α) : Decidable (F.AtMostOne p c) :=
  inferInstanceAs (Decidable (_ ∧ _))

variable {F}

/-- Nothing is lost. -/
theorem takeOne_frames (s : List α) :
    (F.takeOne s).1 ++ F.frames (F.takeOne s).2 = F.frames s ∧
      F.rest (F.takeOne s).2 = F.rest s := by
  unfold takeOne
  split
  · next h =>
    rw [frames_of_complete h.2, rest_of_complete h.2]
    exact ⟨rfl, rfl⟩
  · exact ⟨rfl, rfl⟩

/-- What stands alone as a header is an empty frame. -/
theorem frames_of_header_only (hc : F.Complete s) (hlen : s.length ≤ F.headerLen) :
    F.frames s = [[]] ∧ F.rest s = [] := by
  have htotal := hc.2
  unfold total at htotal
  have hbody : F.body s = [] := by
    unfold body
    rw [show F.bodyLen (s.take F.headerLen) = 0 by omega, List.take_zero]
  have hdrop : s.drop (F.total s) = [] := by
    rw [List.drop_eq_nil_iff]
    unfold total
    omega
  rw [frames_of_complete hc, rest_of_complete hc, hbody, hdrop,
    frames_of_not_complete not_complete_nil, rest_of_not_complete not_complete_nil]
  exact ⟨rfl, rfl⟩

/-- A stream of one empty frame and nothing else is a header. -/
theorem length_of_frames_nil (hframes : F.frames s = [[]]) (hrest : F.rest s = []) :
    s.length = F.headerLen := by
  have hc : F.Complete s := by
    by_contra h
    rw [frames_of_not_complete h] at hframes
    cases hframes
  rw [frames_of_complete hc] at hframes
  obtain ⟨hbody, htail⟩ := List.cons.inj hframes
  rw [rest_of_complete hc, rest_of_not_complete (frames_eq_nil_iff.mp htail),
    List.drop_eq_nil_iff] at hrest
  have h1 := hc.1
  have h2 := hc.2
  have hlen : (F.body s).length = 0 := by rw [hbody]; rfl
  unfold body at hlen
  unfold total at hrest h2
  rw [List.length_take, List.length_drop] at hlen
  omega

/-- **One frame at a time.** The reader leaves no whole frame behind exactly if what arrived
completed at most one frame and did not end with an empty one. -/
theorem not_complete_takeOne_iff (p c : List α) :
    ¬F.Complete (F.takeOne (F.rest p ++ c)).2 ↔ F.AtMostOne p c := by
  unfold AtMostOne
  rw [frames_append, rest_append, List.length_append, List.append_cancel_left_eq]
  generalize F.rest p ++ c = q
  unfold takeOne
  by_cases hc : F.Complete q
  · by_cases hlen : F.headerLen < q.length
    · rw [if_pos ⟨hlen, hc⟩, ← frames_eq_nil_iff, frames_of_complete hc, List.length_cons]
      dsimp only
      constructor
      · intro hnil
        refine ⟨by rw [hnil]; exact Nat.le_refl _, fun ⟨h1, h2⟩ => ?_⟩
        rw [← frames_of_complete hc] at h1
        have := length_of_frames_nil h1 h2
        omega
      · rintro ⟨hle, -⟩
        exact List.eq_nil_of_length_eq_zero (by omega)
    · rw [if_neg (fun h => hlen h.1)]
      have hone := frames_of_header_only hc (Nat.le_of_not_lt hlen)
      exact ⟨fun h => absurd hc h, fun h => absurd hone h.2⟩
  · rw [if_neg (fun h => hc h.2), frames_of_not_complete hc]
    exact ⟨fun _ => ⟨by simp, by simp⟩, fun _ => hc⟩

variable (F) in
/-- The frames that such a reader has taken from what arrived in the parts `cs`, and what it still
has. -/
def reader (cs : List (List α)) : List (List α) × List α :=
  cs.foldl (fun r c => (r.1 ++ (F.takeOne (r.2 ++ c)).1, (F.takeOne (r.2 ++ c)).2)) ([], [])

theorem reader_concat (cs : List (List α)) (c : List α) :
    F.reader (cs ++ [c]) = ((F.reader cs).1 ++ (F.takeOne ((F.reader cs).2 ++ c)).1,
      (F.takeOne ((F.reader cs).2 ++ c)).2) := by
  rw [reader, List.foldl_append]
  rfl

/-- What was taken, and the frames that are still there, are the frames of the stream. -/
theorem reader_frames (cs : List (List α)) :
    (F.reader cs).1 ++ F.frames (F.reader cs).2 = F.frames cs.flatten ∧
      F.rest (F.reader cs).2 = F.rest cs.flatten := by
  induction cs using List.reverseRecOn with
  | nil => exact ⟨rfl, rfl⟩
  | append_singleton cs c ih =>
    obtain ⟨ih1, ih2⟩ := ih
    obtain ⟨h1, h2⟩ := takeOne_frames (F := F) ((F.reader cs).2 ++ c)
    rw [reader_concat, List.flatten_append, List.flatten_singleton, frames_append, rest_append]
    constructor
    · rw [List.append_assoc, h1, frames_append, ih2, ← List.append_assoc, ih1]
    · rw [h2, rest_append, ih2]

/-- A reader that has left no whole frame has taken them all. -/
theorem reader_of_not_complete {cs : List (List α)} (h : ¬F.Complete (F.reader cs).2) :
    (F.reader cs).1 = F.frames cs.flatten ∧ (F.reader cs).2 = F.rest cs.flatten := by
  obtain ⟨h1, h2⟩ := reader_frames (F := F) cs
  rw [frames_of_not_complete h, List.append_nil] at h1
  rw [rest_of_not_complete h] at h2
  exact ⟨h1, h2⟩

/-- **When a one-at-a-time reader keeps up.** -/
theorem reader_keeps_up_iff (cs : List (List α)) :
    (∀ xs ys, cs = xs ++ ys → ¬F.Complete (F.reader xs).2) ↔
      ∀ xs c ys, cs = xs ++ c :: ys → F.AtMostOne xs.flatten c := by
  -- behind a part that left no whole frame, the next part decides
  have hstep : ∀ xs c, ¬F.Complete (F.reader xs).2 →
      (¬F.Complete (F.reader (xs ++ [c])).2 ↔ F.AtMostOne xs.flatten c) := by
    intro xs c h
    rw [reader_concat, (reader_of_not_complete h).2]
    exact not_complete_takeOne_iff _ _
  constructor
  · intro h xs c ys hcs
    have h1 := h xs (c :: ys) hcs
    have h2 := h (xs ++ [c]) ys (by rw [hcs, List.append_assoc]; rfl)
    exact (hstep xs c h1).mp h2
  · intro h xs
    induction xs using List.reverseRecOn with
    | nil => exact fun _ _ => not_complete_nil
    | append_singleton xs c ih =>
      intro ys hcs
      rw [List.append_assoc] at hcs
      exact (hstep xs c (ih _ hcs)).mpr (h xs c ys hcs)

end FrameFormat

/-! ## Two-byte big-endian lengths -/

/-- Frames with a two-byte length in network order. -/
def be16Format : FrameFormat UInt8 where
  headerLen := 2
  bodyLen
    | [hi, lo] => be16Val hi lo
    | _ => 0
  headerLen_pos := by decide

/-- The frame with this body. -/
def be16Frame (body : Bytes) : Bytes := be16 body.length ++ body

/-- A body has to fit the length. -/
theorem frames_be16Frame {body : Bytes} (h : body.length < 65536) (s : Bytes) :
    be16Format.frames (be16Frame body ++ s) = body :: be16Format.frames s := by
  have hval : be16Format.bodyLen (be16 body.length) = body.length := be16Val_be16 h
  have htake : (be16Frame body).take 2 = be16 body.length := rfl
  have htotal : be16Format.total (be16Frame body) = (be16Frame body).length := by
    show 2 + be16Format.bodyLen ((be16Frame body).take 2) = _
    rw [htake, hval, be16Frame, List.length_append, length_be16]
  have hbody : be16Format.body (be16Frame body) = body := by
    show ((be16Frame body).drop 2).take (be16Format.bodyLen ((be16Frame body).take 2)) = body
    rw [htake, hval]
    exact List.take_length
  have hc : be16Format.Complete (be16Frame body) := ⟨Nat.le_add_left 2 _, Nat.le_of_eq htotal⟩
  rw [FrameFormat.frames_exact hc htotal, hbody]

/-- **Parsing takes apart what framing has put together.** -/
theorem frames_flatMap {bodies : List Bytes} (h : ∀ body ∈ bodies, body.length < 65536) :
    be16Format.frames (bodies.flatMap be16Frame) = bodies := by
  induction bodies with
  | nil => rfl
  | cons body bodies ih =>
    rw [List.flatMap_cons, frames_be16Frame (h body List.mem_cons_self),
      ih fun b hb => h b (List.mem_cons_of_mem _ hb)]

end GhNet
