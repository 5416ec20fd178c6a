import GhNet.Infra.Splitting

/-!
# The `DatagramResolver` of the client

`Resolve` cuts the received text behind each end tag. The first search of a call begins at index 0.
Behind a datagram `tagIndex` is set to 0, so the next search begins at index 1, and a tag that
stands directly behind a datagram is missed in that call.
-/

namespace GhNet.Client

open GhNet

/-- The UTF-16 code units of a `string`. -/
abbrev Text := List UInt16

/-- The constructor throws when the tag is null or empty. -/
structure DatagramResolver where
  endTag : Text
  endTag_ne : endTag ≠ []

namespace DatagramResolver

/-- `IndexOf(value, startIndex)` with an ordinal comparison; `none` is `-1`. `startIndex` is 0, or
it is 1 and the text is not empty. -/
def indexOfFrom (value text : Text) (startIndex : Nat) : Option Nat :=
  (indexOf value (text.drop startIndex)).map (· + startIndex)

variable (r : DatagramResolver)

/-- The loop of `Resolve`. `startIndex` is `tagIndex + 1`. The result is the datagrams and what is
left in `rawDatagram`, or `none` when the rounds run out. -/
def resolveLoop : Nat → Nat → Text → Option (List Text × Text)
  | 0, _, _ => none
  | fuel + 1, startIndex, rawDatagram =>
    match indexOfFrom r.endTag rawDatagram startIndex with
    | none => some ([], rawDatagram)
    | some tagIndex =>
      let newDatagram := rawDatagram.take (tagIndex + r.endTag.length)
      if rawDatagram.length ≤ tagIndex + r.endTag.length then some ([newDatagram], [])
      else
        -- `tagIndex = 0` before the next round
        (resolveLoop fuel 1 (rawDatagram.drop (tagIndex + r.endTag.length))).map fun q =>
          (newDatagram :: q.1, q.2)

/-- `Resolve(ref string rawDatagram)` -/
def resolve (rawDatagram : Text) : Option (List Text × Text) :=
  r.resolveLoop (rawDatagram.length + 1) 0 rawDatagram

/-- `ReceiveData` puts each chunk behind what the call before has left. -/
def feed (left : Text) : List Text → Option (List Text × Text)
  | [] => some ([], left)
  | chunk :: chunks =>
    (r.resolve (left ++ chunk)).bind fun p =>
      (feed p.2 chunks).map fun q => (p.1 ++ q.1, q.2)

/-! ## What the calls should yield -/

/-- Cuts behind each leftmost occurrence of the tag that does not overlap the one before. -/
def cutter : Cutter UInt16 Text := splitter r.endTag r.endTag_ne

/-- The calls yield what the whole text is cut into, nothing is lost, and no tag is left. -/
def Splits (left : Text) (chunks : List Text) : Prop :=
  ∃ out, r.feed left chunks = some out ∧
    out.1 = r.cutter.pieces (left ++ chunks.flatten) ∧
    out.1.flatten ++ out.2 = left ++ chunks.flatten ∧
    ¬r.endTag <:+: out.2

/-- No tag stands directly behind a datagram. -/
def Clean (text : Text) : Prop := r.endTag ∉ (r.cutter.pieces text).tail

/-- The only tag that stands directly behind a datagram is the last one that is cut off, and behind
its first unit there is no further one. -/
def Late (text : Text) : Prop :=
  r.endTag ∉ (r.cutter.pieces text).tail.dropLast ∧
    (r.cutter.pieces text).tail.getLast? = some r.endTag ∧
    ¬r.endTag <:+: (r.endTag ++ r.cutter.rest text).tail

/-- No call meets a tag directly behind a datagram, except as the last one it cuts off. Then the
next call begins with that tag, and there is a next one. -/
def Steady : Text → List Text → Prop
  | left, [] => ¬r.cutter.Whole left
  | left, chunk :: chunks =>
    (r.Clean (left ++ chunk) ∧ Steady (r.cutter.rest (left ++ chunk)) chunks) ∨
    (r.Late (left ++ chunk) ∧ Steady (r.endTag ++ r.cutter.rest (left ++ chunk)) chunks)

variable {r} {text : Text} {startIndex tagIndex fuel : Nat}

theorem indexOfFrom_zero (value text : Text) : indexOfFrom value text 0 = indexOf value text := by
  rw [indexOfFrom, List.drop_zero]
  exact Option.map_id'

/-- Past the first unit the tag is found where it is found at all, unless it stands at the front. -/
theorem indexOfFrom_one {value : Text} (h : ¬value <+: text) :
    indexOfFrom value text 1 = indexOf value text := by
  rw [indexOfFrom, indexOf_tail h, List.drop_one]

theorem le_length_of_indexOfFrom (h : indexOfFrom r.endTag text startIndex = some tagIndex) :
    startIndex ≤ tagIndex ∧ tagIndex + r.endTag.length ≤ text.length := by
  obtain ⟨i, hi, rfl⟩ := Option.map_eq_some_iff.mp h
  have hlen := indexOf_add_length_le hi
  have hpos := List.length_pos_iff.mpr r.endTag_ne
  rw [List.length_drop] at hlen
  omega

/-! ## One round -/

theorem resolveLoop_none (h : indexOfFrom r.endTag text startIndex = none) :
    r.resolveLoop (fuel + 1) startIndex text = some ([], text) := by
  rw [resolveLoop, h]

/-- A search in nothing yields nothing, so the round that empties the text is like the others. -/
theorem resolveLoop_some (h : indexOfFrom r.endTag text startIndex = some tagIndex) :
    r.resolveLoop (fuel + 2) startIndex text
      = (r.resolveLoop (fuel + 1) 1 (text.drop (tagIndex + r.endTag.length))).map fun q =>
          (text.take (tagIndex + r.endTag.length) :: q.1, q.2) := by
  rw [resolveLoop, h]
  dsimp only
  split
  · next hle =>
    have hnone : indexOfFrom r.endTag [] 1 = none := by
      rw [indexOfFrom, List.drop_nil, indexOf, if_neg, Option.map_none]
      exact fun hpre => r.endTag_ne (List.prefix_nil.mp hpre)
    rw [List.drop_eq_nil_of_le hle, resolveLoop_none hnone, Option.map_some]
  · rfl

/-- The rounds do not run out, and what is cut off and what is left are the text. -/
theorem resolveLoop_total (fuel : Nat) : ∀ startIndex (text : Text), text.length < fuel →
    ∃ q, r.resolveLoop fuel startIndex text = some q ∧ q.1.flatten ++ q.2 = text := by
  induction fuel with
  | zero => exact fun _ text h => absurd h (Nat.not_lt_zero text.length)
  | succ fuel ih =>
    intro startIndex text hfuel
    cases hi : indexOfFrom r.endTag text startIndex with
    | none => exact ⟨_, resolveLoop_none hi, rfl⟩
    | some tagIndex =>
      obtain ⟨-, hle⟩ := le_length_of_indexOfFrom hi
      have hpos := List.length_pos_iff.mpr r.endTag_ne
      obtain ⟨fuel, rfl⟩ : ∃ n, fuel = n + 1 := Nat.exists_eq_succ_of_ne_zero (by omega)
      obtain ⟨q, hq, hflat⟩ := ih 1 (text.drop (tagIndex + r.endTag.length)) (by
        rw [List.length_drop]
        omega)
      refine ⟨_, by rw [resolveLoop_some hi, hq, Option.map_some], ?_⟩
      rw [List.flatten_cons, List.append_assoc, hflat, List.take_append_drop]

/-! ## Behind a datagram -/

/-- How the search that begins at index 1 ends. -/
inductive Behind (r : DatagramResolver) (text : Text) : List Text × Text → Prop
  | clean : r.endTag ∉ r.cutter.pieces text →
      Behind r text (r.cutter.pieces text, r.cutter.rest text)
  | late (ps : List Text) : r.cutter.pieces text = ps ++ [r.endTag] → r.endTag ∉ ps →
      ¬r.endTag <:+: (r.endTag ++ r.cutter.rest text).tail →
      Behind r text (ps, r.endTag ++ r.cutter.rest text)
  /-- The datagram `datagram` is cut off where the bare tag should be. -/
  | wrong (ps : List Text) {qs ds : List Text} {datagram left : Text} :
      r.cutter.pieces text = ps ++ r.endTag :: qs → r.endTag ∉ ps → datagram ≠ r.endTag →
      (qs = [] → r.endTag <:+: (r.endTag ++ r.cutter.rest text).tail) →
      Behind r text (ps ++ datagram :: ds, left)

/-- A piece that is no bare tag is cut off rightly. -/
theorem Behind.cons {q : List Text × Text} (hw : r.cutter.Whole text)
    (hne : r.cutter.piece text ≠ r.endTag) (h : Behind r (text.drop (r.cutter.total text)) q) :
    Behind r text (r.cutter.piece text :: q.1, q.2) := by
  have hpieces := Cutter.pieces_of_whole hw
  have hrest := Cutter.rest_of_whole hw
  cases h with
  | clean hclean =>
    rw [← hpieces, ← hrest]
    refine .clean ?_
    rw [hpieces]
    exact List.not_mem_cons_of_ne_of_not_mem hne.symm hclean
  | late ps hps hnot hover =>
    rw [← hrest] at hover ⊢
    refine .late _ ?_ (List.not_mem_cons_of_ne_of_not_mem hne.symm hnot) hover
    rw [hpieces, hps, List.cons_append]
  | wrong ps hps hnot hd hover =>
    rw [← hrest] at hover
    refine .wrong (r.cutter.piece text :: _) ?_
      (List.not_mem_cons_of_ne_of_not_mem hne.symm hnot) hd hover
    rw [hpieces, hps, List.cons_append]

/-- A tag at the front is left there, or something longer is cut off. -/
theorem resolveLoop_prefix (hpre : r.endTag <+: text) (hfuel : text.length ≤ fuel) :
    ∃ q, r.resolveLoop (fuel + 1) 1 text = some q ∧ Behind r text q := by
  have hpieces : r.cutter.pieces text = r.endTag :: r.cutter.pieces (text.drop r.endTag.length) :=
    pieces_of_prefix hpre
  have hrest : r.cutter.rest text = r.cutter.rest (text.drop r.endTag.length) :=
    rest_of_prefix hpre
  have htext : r.endTag ++ text.drop r.endTag.length = text := by
    conv_rhs => rw [← List.take_append_drop r.endTag.length text]
    rw [← List.prefix_iff_eq_take.mp hpre]
  have hpos := List.length_pos_iff.mpr r.endTag_ne
  cases hi : indexOfFrom r.endTag text 1 with
  | none =>
    have hnot : ¬r.endTag <:+: text.tail := by
      rw [← isSome_indexOf, ← List.drop_one, Option.map_eq_none_iff.mp hi]
      exact Bool.false_ne_true
    have hstop : ¬r.cutter.Whole (text.drop r.endTag.length) := by
      intro hw
      refine hnot ((whole_splitter.mp hw).trans (List.IsSuffix.isInfix ?_))
      rw [← List.drop_one]
      exact List.drop_suffix_drop_left text hpos
    rw [Cutter.pieces_of_not_whole hstop] at hpieces
    rw [Cutter.rest_of_not_whole hstop] at hrest
    refine ⟨_, resolveLoop_none hi, ?_⟩
    have hlate := Behind.late (r := r) [] hpieces List.not_mem_nil
    rw [hrest, htext] at hlate
    exact hlate hnot
  | some tagIndex =>
    obtain ⟨hone, hle⟩ := le_length_of_indexOfFrom hi
    obtain ⟨fuel, rfl⟩ : ∃ n, fuel = n + 1 := Nat.exists_eq_succ_of_ne_zero (by omega)
    obtain ⟨q, hq, -⟩ := resolveLoop_total (r := r) (fuel + 1) 1
      (text.drop (tagIndex + r.endTag.length)) (by
        rw [List.length_drop]
        omega)
    refine ⟨_, by rw [resolveLoop_some hi, hq, Option.map_some], ?_⟩
    refine .wrong [] hpieces List.not_mem_nil ?_ ?_
    · intro heq
      have hlen := congrArg List.length heq
      rw [List.length_take] at hlen
      omega
    · intro hqs
      have hstop : ¬r.cutter.Whole (text.drop r.endTag.length) := by
        intro hw
        rw [Cutter.pieces_of_whole hw] at hqs
        cases hqs
      obtain ⟨i, hat, -⟩ := Option.map_eq_some_iff.mp hi
      rw [hrest, Cutter.rest_of_not_whole hstop, htext, ← isSome_indexOf, ← List.drop_one, hat]
      rfl

theorem resolveLoop_behind (text : Text) : ∀ fuel, text.length ≤ fuel →
    ∃ q, r.resolveLoop (fuel + 1) 1 text = some q ∧ Behind r text q := by
  induction text using Cutter.pieces_induction (C := r.cutter) with
  | stop text hw =>
    intro fuel _
    have hnone : indexOfFrom r.endTag text 1 = none := by
      rw [indexOfFrom_one fun hpre => hw (whole_splitter.mpr hpre.isInfix)]
      exact Option.not_isSome_iff_eq_none.mp hw
    refine ⟨_, resolveLoop_none hnone, ?_⟩
    have hclean : _ → Behind r text _ := Behind.clean
    rw [Cutter.pieces_of_not_whole hw, Cutter.rest_of_not_whole hw] at hclean
    exact hclean List.not_mem_nil
  | piece text hw ih =>
    intro fuel hfuel
    by_cases hpre : r.endTag <+: text
    · exact resolveLoop_prefix hpre hfuel
    · obtain ⟨i, hi⟩ := Option.isSome_iff_exists.mp hw
      have hfrom := (indexOfFrom_one hpre).trans hi
      have htotal : r.cutter.total text = i + r.endTag.length := total_splitter hi
      have hpiece : r.cutter.piece text = text.take (i + r.endTag.length) := piece_splitter hi
      obtain ⟨hone, hle⟩ := le_length_of_indexOfFrom hfrom
      have hlt := Cutter.length_drop_total_lt hw
      obtain ⟨fuel, rfl⟩ : ∃ n, fuel = n + 1 := Nat.exists_eq_succ_of_ne_zero (by omega)
      obtain ⟨q, hq, hbehind⟩ := ih fuel (by omega)
      refine ⟨_, by rw [resolveLoop_some hfrom, ← htotal, hq, Option.map_some], ?_⟩
      rw [htotal, ← hpiece]
      refine hbehind.cons hw fun heq => ?_
      have hlen := congrArg List.length heq
      rw [hpiece, List.length_take] at hlen
      omega

/-! ## One call -/

theorem resolve_of_not_whole (hw : ¬r.cutter.Whole text) : r.resolve text = some ([], text) := by
  refine resolveLoop_none ?_
  rw [indexOfFrom_zero]
  exact Option.not_isSome_iff_eq_none.mp hw

/-- The first datagram is the right one. -/
theorem resolve_of_whole (hw : r.cutter.Whole text) :
    ∃ q, r.resolve text = some (r.cutter.piece text :: q.1, q.2) ∧
      Behind r (text.drop (r.cutter.total text)) q := by
  obtain ⟨i, hi⟩ := Option.isSome_iff_exists.mp hw
  have hfrom := (indexOfFrom_zero r.endTag text).trans hi
  have htotal : r.cutter.total text = i + r.endTag.length := total_splitter hi
  have hpiece : r.cutter.piece text = text.take (i + r.endTag.length) := piece_splitter hi
  have hlt := Cutter.length_drop_total_lt hw
  obtain ⟨n, hn⟩ : ∃ n, text.length = n + 1 := Nat.exists_eq_succ_of_ne_zero (by omega)
  obtain ⟨q, hq, hbehind⟩ := resolveLoop_behind (text.drop (r.cutter.total text)) n (by omega)
  refine ⟨q, ?_, hbehind⟩
  rw [resolve, hn, resolveLoop_some hfrom, ← htotal, hq, hpiece, htotal, Option.map_some]

theorem resolve_total (text : Text) :
    ∃ p, r.resolve text = some p ∧ p.1.flatten ++ p.2 = text :=
  resolveLoop_total (text.length + 1) 0 text (Nat.lt_succ_self _)

theorem not_late_of_clean (h : r.Clean text) : ¬r.Late text := fun hlate =>
  h (List.mem_of_getLast? hlate.2.1)

/-- The three ways in which a call ends. -/
theorem resolve_cases (text : Text) :
    (r.Clean text ∧ r.resolve text = some (r.cutter.pieces text, r.cutter.rest text)) ∨
    (¬r.Clean text ∧ r.Late text ∧ ∃ ps, r.cutter.pieces text = ps ++ [r.endTag] ∧
      r.resolve text = some (ps, r.endTag ++ r.cutter.rest text)) ∨
    (¬r.Clean text ∧ ¬r.Late text ∧ ∃ ps qs ds datagram left,
      r.cutter.pieces text = ps ++ r.endTag :: qs ∧ datagram ≠ r.endTag ∧
      r.resolve text = some (ps ++ datagram :: ds, left)) := by
  by_cases hw : r.cutter.Whole text
  · obtain ⟨q, hq, hbehind⟩ := resolve_of_whole hw
    have hpieces := Cutter.pieces_of_whole hw
    have hrest := Cutter.rest_of_whole hw
    have htail := congrArg List.tail hpieces
    rw [List.tail_cons] at htail
    rw [Clean, Late, htail]
    cases hbehind with
    | clean hclean =>
      left
      exact ⟨hclean, by rw [hq, hpieces, hrest]⟩
    | late ps hps hnot hover =>
      right; left
      rw [hpieces, hrest, hps, List.dropLast_concat, List.getLast?_concat]
      exact ⟨fun h => h (by simp), ⟨hnot, rfl, hover⟩, _, (List.cons_append).symm, hq⟩
    | @wrong ps qs ds datagram left hps hnot hd hover =>
      right; right
      rw [hpieces, hrest, hps]
      refine ⟨fun h => h (by simp), ?_, _ :: _, _, _, _, _, rfl, hd, hq⟩
      rintro ⟨hinit, -, hnone⟩
      cases qs with
      | nil => exact hnone (hover rfl)
      | cons c qs =>
        refine hinit ?_
        rw [List.dropLast_append_of_ne_nil (List.cons_ne_nil _ _), List.dropLast_cons_cons]
        exact List.mem_append_right ps List.mem_cons_self
  · left
    rw [Clean, Cutter.pieces_of_not_whole hw, Cutter.rest_of_not_whole hw]
    exact ⟨List.not_mem_nil, resolve_of_not_whole hw⟩

/-! ## All calls -/

/-- Nothing is lost, even where a tag is missed. -/
theorem feed_total (chunks : List Text) :
    ∀ left, ∃ out, r.feed left chunks = some out ∧
      out.1.flatten ++ out.2 = left ++ chunks.flatten := by
  induction chunks with
  | nil => exact fun left => ⟨_, rfl, (List.append_nil left).symm⟩
  | cons chunk chunks ih =>
    intro left
    obtain ⟨p, hp, hcall⟩ := resolve_total (r := r) (left ++ chunk)
    obtain ⟨q, hq, hcalls⟩ := ih p.2
    refine ⟨_, by rw [feed, hp, Option.bind_some, hq, Option.map_some], ?_⟩
    rw [List.flatten_append, List.append_assoc, hcalls, ← List.append_assoc, hcall,
      List.append_assoc, List.flatten_cons]

variable {left left' chunk : Text} {chunks ds : List Text}

/-- The three demands are one: the calls yield the pieces of the whole text, and its rest is left. -/
theorem splits_iff_feed : r.Splits left chunks ↔
    r.feed left chunks = some (r.cutter.pieces (left ++ chunks.flatten),
      r.cutter.rest (left ++ chunks.flatten)) := by
  have hkeep := flatten_pieces (h := r.endTag_ne) (left ++ chunks.flatten)
  constructor
  · rintro ⟨⟨ps, last⟩, hout, hcut, hall, -⟩
    obtain rfl : ps = r.cutter.pieces (left ++ chunks.flatten) := hcut
    obtain rfl : last = r.cutter.rest (left ++ chunks.flatten) :=
      List.append_cancel_left (hall.trans hkeep.symm)
    exact hout
  · intro hout
    exact ⟨_, hout, rfl, hkeep, not_infix_rest _⟩

theorem splits_nil : r.Splits left [] ↔ ¬r.cutter.Whole left := by
  rw [splits_iff_feed, List.flatten_nil, List.append_nil, feed]
  constructor
  · intro hout hw
    have hnone := congrArg Prod.fst (Option.some.inj hout)
    rw [Cutter.pieces_of_whole hw] at hnone
    cases hnone
  · intro hw
    rw [Cutter.pieces_of_not_whole hw, Cutter.rest_of_not_whole hw]

/-- Where the call cuts rightly, the calls behind it decide. -/
theorem splits_cons (h : r.resolve (left ++ chunk) = some (ds, left'))
    (hpieces : ∀ t, r.cutter.pieces (left ++ chunk ++ t) = ds ++ r.cutter.pieces (left' ++ t))
    (hrest : ∀ t, r.cutter.rest (left ++ chunk ++ t) = r.cutter.rest (left' ++ t)) :
    r.Splits left (chunk :: chunks) ↔ r.Splits left' chunks := by
  rw [splits_iff_feed, splits_iff_feed, List.flatten_cons, ← List.append_assoc, hpieces, hrest,
    feed, h, Option.bind_some, Option.map_eq_some_iff]
  constructor
  · rintro ⟨q, hq, heq⟩
    obtain ⟨hcut, hlast⟩ := Prod.mk.inj heq
    rw [hq, ← List.append_cancel_left hcut, ← hlast]
  · exact fun hq => ⟨_, hq, rfl⟩

/-- A datagram that is not the one expected is never put right. -/
theorem not_splits_cons {ps qs : List Text} {datagram : Text}
    (h : r.resolve (left ++ chunk) = some (ps ++ datagram :: ds, left'))
    (hpieces : r.cutter.pieces (left ++ chunk) = ps ++ r.endTag :: qs) (hd : datagram ≠ r.endTag) :
    ¬r.Splits left (chunk :: chunks) := by
  have happ := Cutter.pieces_append (C := r.cutter) stable_splitter (left ++ chunk) chunks.flatten
  rintro ⟨out, hout, hcut, -, -⟩
  rw [feed, h, Option.bind_some] at hout
  obtain ⟨q, -, rfl⟩ := Option.map_eq_some_iff.mp hout
  rw [List.flatten_cons, ← List.append_assoc, happ, hpieces, List.append_assoc,
    List.append_assoc] at hcut
  exact hd (List.cons.inj (List.append_cancel_left hcut)).1

/-- What is not cut off comes with the next call. -/
theorem pieces_tag_append (t u : Text) :
    r.cutter.pieces (r.endTag ++ t ++ u) = r.endTag :: r.cutter.pieces (t ++ u) ∧
      r.cutter.rest (r.endTag ++ t ++ u) = r.cutter.rest (t ++ u) := by
  have hpre : r.endTag <+: r.endTag ++ (t ++ u) := List.prefix_append _ _
  have hpieces := pieces_of_prefix (h := r.endTag_ne) hpre
  have hrest := rest_of_prefix (h := r.endTag_ne) hpre
  rw [List.drop_left] at hpieces hrest
  rw [List.append_assoc]
  exact ⟨hpieces, hrest⟩

theorem splits_iff_steady (chunks : List Text) :
    ∀ left, r.Splits left chunks ↔ r.Steady left chunks := by
  induction chunks with
  | nil => exact fun left => splits_nil
  | cons chunk chunks ih =>
    intro left
    have hpieces := Cutter.pieces_append (C := r.cutter) stable_splitter (left ++ chunk)
    have hrest := Cutter.rest_append (C := r.cutter) stable_splitter (left ++ chunk)
    rw [Steady, ← ih, ← ih]
    rcases resolve_cases (left ++ chunk) with ⟨hclean, hres⟩ | ⟨hunclean, hlate, ps, hps, hres⟩ |
      ⟨hunclean, hnot, ps, qs, ds, datagram, left', hps, hd, hres⟩
    · rw [splits_cons hres hpieces hrest]
      simp only [hclean, not_late_of_clean hclean, true_and, false_and, or_false]
    · have hlater := pieces_tag_append (r := r) (r.cutter.rest (left ++ chunk))
      rw [splits_cons hres
        (fun t => by rw [hpieces, hps, (hlater t).1, List.append_assoc, List.singleton_append])
        (fun t => by rw [hrest, (hlater t).2])]
      simp only [hunclean, hlate, true_and, false_and, false_or]
    · simp only [hunclean, hnot, false_and, or_false, iff_false]
      exact not_splits_cons hres hps hd

/-- **Every list of chunks is cut rightly if and only if no tag is missed for good.** -/
theorem splits_iff (r : DatagramResolver) (chunks : List Text) :
    r.Splits [] chunks ↔ r.Steady [] chunks :=
  splits_iff_steady chunks []

/-- The tag `#`. -/
def hash : DatagramResolver := ⟨[0x23], List.cons_ne_nil _ _⟩

/-- `a##b` holds the datagrams `a#` and `#`, and `b` is left. -/
def doubled : Text := [0x61, 0x23, 0x23, 0x62]

/-- **Of `a##b` only the first datagram comes out, and `#b` is left.** -/
theorem doubled_not_splits : ¬hash.Splits [] [doubled] := by
  rintro ⟨out, hout, hcut, -⟩
  have hfeed : hash.feed [] [doubled] = some ([[0x61, 0x23]], [0x23, 0x62]) := by decide
  obtain rfl := Option.some.inj (hfeed.symm.trans hout)
  have hpieces : hash.cutter.pieces doubled = [[0x61, 0x23], [0x23]] := by decide
  cases hcut.trans hpieces

end DatagramResolver

end GhNet.Client
