import GhNet.Iocp.Input
import GhNet.Server.Machine

/-!
# The messages of a connection

What `NetEvent::onRead` hands to the lobby are the frames of what the connection has received, in
their order: some of them, from the first one on. The rest is readable in the buffer, however the
bytes were split, and wherever the buffer has moved them meanwhile.
-/

namespace GhNet.Server

open GhNet GhNet.Net

variable {sv sv' : Program} {i n : Nat}

/-- The bytes in the pieces of the connection `(i, n)`, piece by piece. -/
def piecesOf (i n : Nat) (ps : List Piece) : List Bytes :=
  (ps.filter fun p => p.index = i ∧ p.serial = n).map Piece.bytes

theorem piecesOf_append (i n : Nat) (ps qs : List Piece) :
    piecesOf i n (ps ++ qs) = piecesOf i n ps ++ piecesOf i n qs := by
  rw [piecesOf, List.filter_append, List.map_append]
  rfl

theorem piecesOf_own (i n : Nat) (bytes : Bytes) : piecesOf i n [⟨i, n, bytes⟩] = [bytes] := by
  simp [piecesOf]

theorem piecesOf_ne {p : Piece} (h : p.index ≠ i) : piecesOf i n [p] = [] := by
  simp [piecesOf, h]

/-! ## What a call leaves alone -/

/-- Nothing has been received or read from the buffer of slot `i`. -/
structure Unread (i : Nat) (sv sv' : Program) : Prop where
  beside : Iocp.Beside i sv.io_service sv'.io_service
  stack : sv'.io_service.stack = sv.io_service.stack
  received : sv'.received = sv.received

theorem Unread.trans {sv₁ : Program} (h1 : Unread i sv sv₁) (h2 : Unread i sv₁ sv') :
    Unread i sv sv' :=
  ⟨h1.beside.trans h2.beside, h2.stack.trans h1.stack, h2.received.trans h1.received⟩

/-- The lobby sends, which is not on the receive side. -/
theorem call_unread {c : Lobby.Call} {env : Lobby.Env} {posts : Nat → Bool}
    (h : sv.call c env posts = some sv') : Unread i sv sv' ∧ sv'.handed = sv.handed := by
  obtain ⟨lobby, -, h⟩ := Option.bind_eq_some_iff.mp h
  obtain ⟨s, hs, h⟩ := Option.bind_eq_some_iff.mp h
  obtain rfl := Option.some.inj h
  obtain ⟨hbeside, hstack⟩ := Program.sends_induction
    (R := fun s s' => Iocp.Beside i s s' ∧ s'.stack = s.stack)
    (fun s => ⟨.refl s, rfl⟩)
    (fun s t u h1 h2 => ⟨h1.1.trans h2.1, h2.2.trans h1.2⟩)
    (fun s t j m buf accepted hs => by
      cases Iocp.stepping hs with
      | send _ hsend => exact ⟨.sending hsend, hsend.stack_eq⟩) hs
  exact ⟨⟨hbeside, hstack, rfl⟩, rfl⟩

/-- A message of another slot. -/
theorem message_unread {j m : Nat} {env : Lobby.Env} {posts : Nat → Bool} {body : Bytes}
    {rest : List Iocp.Frame} (hj : i ≠ j) (hst : sv.io_service.stack = .onRead j m :: rest)
    (h : NetEvent.message j m env posts sv body = some sv') :
    Unread i sv sv' ∧ sv'.handed = sv.handed ++ [⟨j, m, body⟩] := by
  obtain ⟨sv₁, hcall, hio⟩ := Option.bind_eq_some_iff.mp h
  obtain ⟨hcall, hhanded⟩ := call_unread (i := i) hcall
  obtain ⟨s, hs, rfl⟩ := Option.map_eq_some_iff.mp hio
  have hst₁ : sv₁.io_service.stack = .onRead j m :: rest := hcall.stack.trans hst
  have hmove : Iocp.Beside i sv₁.io_service s := .readMove hj hst₁ hs
  have hstack : s.stack = sv₁.io_service.stack := by
    rw [Iocp.step_readMove hst₁ hs]
    unfold Iocp.Service.onPeer
    split <;> rfl
  exact ⟨⟨hcall.beside.trans hmove, hstack.trans hcall.stack, hcall.received⟩, hhanded⟩

/-- Messages of another slot. -/
theorem messages_unread {j m : Nat} {env : Lobby.Env} {posts : Nat → Bool} {bodies : List Bytes}
    {rest : List Iocp.Frame} (hj : i ≠ j) (hst : sv.io_service.stack = .onRead j m :: rest)
    (h : bodies.foldlM (NetEvent.message j m env posts) sv = some sv') :
    Unread i sv sv' ∧ ∃ extra, sv'.handed = sv.handed ++ extra ∧ piecesOf i n extra = [] := by
  induction bodies generalizing sv with
  | nil =>
    obtain rfl := Option.some.inj h
    exact ⟨⟨.refl _, rfl, rfl⟩, [], (List.append_nil _).symm, rfl⟩
  | cons body bodies ih =>
    rw [List.foldlM_cons] at h
    obtain ⟨sv₁, h1, h⟩ := Option.bind_eq_some_iff.mp h
    obtain ⟨hone, hhanded⟩ := message_unread hj hst h1
    obtain ⟨hrest, extra, hextra, hnone⟩ := ih (hone.stack.trans hst) h
    refine ⟨hone.trans hrest, [⟨j, m, body⟩] ++ extra, ?_, ?_⟩
    · rw [hextra, hhanded, List.append_assoc]
    · rw [piecesOf_append, piecesOf_ne hj.symm, hnone]
      rfl

/-! ## Parsing -/

/-- The messages that were handed over and those that are still readable are the frames of what
was received since the connection is there. `R` and `H` are where its history starts. -/
structure Parsing (i n R H : Nat) (sv : Program) : Prop where
  intake : Iocp.Intake i n sv.io_service
  received_le : R ≤ sv.received.length
  handed_le : H ≤ sv.handed.length
  frames : be16Format.frames (piecesOf i n (sv.received.drop R)).flatten
    = piecesOf i n (sv.handed.drop H) ++ be16Format.frames (sv.io_service.readable i)
  rest : be16Format.rest (piecesOf i n (sv.received.drop R)).flatten
    = be16Format.rest (sv.io_service.readable i)

namespace Parsing

variable {R H : Nat}

/-- The buffer keeps its content. -/
theorem keep (h : Parsing i n R H sv) (hi : Iocp.Intake i n sv'.io_service)
    (hread : sv'.io_service.readable i = sv.io_service.readable i)
    (hrec : sv'.received = sv.received) {extra : List Piece}
    (hhanded : sv'.handed = sv.handed ++ extra) (hextra : piecesOf i n extra = []) :
    Parsing i n R H sv' := by
  refine ⟨hi, hrec ▸ h.received_le, ?_, ?_, ?_⟩
  · rw [hhanded, List.length_append]
    exact Nat.le_add_right_of_le h.handed_le
  · rw [hrec, hread, hhanded, List.drop_append_of_le_length h.handed_le, piecesOf_append, hextra,
      List.append_nil]
    exact h.frames
  · rw [hrec, hread]
    exact h.rest

theorem unread (h : Parsing i n R H sv) (hu : Unread i sv sv') {extra : List Piece}
    (hhanded : sv'.handed = sv.handed ++ extra) (hextra : piecesOf i n extra = []) :
    Parsing i n R H sv' :=
  h.keep (h.intake.beside hu.beside) hu.beside.readable hu.received hhanded hextra

/-- What arrives is parsed behind what was left over. -/
theorem received (h : Parsing i n R H sv) {bytes : Bytes} {ps : List Piece}
    (hi : Iocp.Intake i n sv'.io_service)
    (hread : sv'.io_service.readable i = sv.io_service.readable i ++ bytes)
    (hrec : sv'.received = sv.received ++ ps) (hps : (piecesOf i n ps).flatten = bytes)
    (hhanded : sv'.handed = sv.handed) : Parsing i n R H sv' := by
  have hstream : (piecesOf i n (sv'.received.drop R)).flatten
      = (piecesOf i n (sv.received.drop R)).flatten ++ bytes := by
    rw [hrec, List.drop_append_of_le_length h.received_le, piecesOf_append, List.flatten_append,
      hps]
  refine ⟨hi, ?_, hhanded ▸ h.handed_le, ?_, ?_⟩
  · rw [hrec, List.length_append]
    exact Nat.le_add_right_of_le h.received_le
  · rw [hstream, FrameFormat.frames_append, h.frames, h.rest, List.append_assoc,
      ← FrameFormat.frames_append, hread, hhanded]
  · rw [hstream, FrameFormat.rest_append, h.rest, ← FrameFormat.rest_append, hread]

/-- **A message of the connection**: the frame at the front of the buffer is handed over and
consumed. -/
theorem message {env : Lobby.Env} {posts : Nat → Bool} {rest : List Iocp.Frame}
    (h : Parsing i n R H sv) (hst : sv.io_service.stack = .onRead i n :: rest)
    (hc : be16Format.Complete (sv.io_service.readable i))
    (hm : NetEvent.message i n env posts sv (be16Format.body (sv.io_service.readable i))
      = some sv') :
    Parsing i n R H sv' ∧ sv'.io_service.stack = sv.io_service.stack := by
  obtain ⟨sv₁, hcall, hio⟩ := Option.bind_eq_some_iff.mp hm
  obtain ⟨hcall, hhanded⟩ := call_unread (i := i) hcall
  obtain ⟨s, hs, rfl⟩ := Option.map_eq_some_iff.mp hio
  have hst₁ : sv₁.io_service.stack = .onRead i n :: rest := hcall.stack.trans hst
  have hin₁ : Iocp.Intake i n sv₁.io_service := h.intake.beside hcall.beside
  have hread₁ : sv₁.io_service.readable i = sv.io_service.readable i := hcall.beside.readable
  have htotal : MSGHEADERLEN + (be16Format.body (sv.io_service.readable i)).length
      = be16Format.total (sv.io_service.readable i) :=
    (FrameFormat.total_eq_of_complete hc).symm
  rw [htotal] at hs
  obtain ⟨hin, hread⟩ := hin₁.readMove hst₁ (hread₁ ▸ hc.2) hs
  have hstack : s.stack = sv₁.io_service.stack := by
    rw [Iocp.step_readMove hst₁ hs]
    unfold Iocp.Service.onPeer
    split <;> rfl
  have hhanded' : sv₁.handed = sv.handed ++ [⟨i, n, be16Format.body (sv.io_service.readable i)⟩] :=
    hhanded
  have hrec : sv₁.received = sv.received := hcall.received
  refine ⟨⟨hin, hrec ▸ h.received_le, ?_, ?_, ?_⟩, hstack.trans hcall.stack⟩
  · rw [hhanded', List.length_append]
    exact Nat.le_add_right_of_le h.handed_le
  · rw [hrec, hread, hread₁, hhanded', List.drop_append_of_le_length h.handed_le, piecesOf_append,
      piecesOf_own, h.frames, FrameFormat.frames_of_complete hc, List.append_assoc]
    rfl
  · rw [hrec, hread, hread₁, h.rest, FrameFormat.rest_of_complete hc]

/-- **`NetEvent::onRead`** hands over the frame at the front of the buffer, or nothing. -/
theorem onRead {env : Lobby.Env} {posts : Nat → Bool} {rest : List Iocp.Frame} {ret : Int}
    {j m : Nat}
    (h : Parsing i n R H sv) (hst : sv.io_service.stack = .onRead j m :: rest)
    (hr : NetEvent.onRead j m env posts sv = some (ret, sv')) :
    Parsing i n R H sv' ∧ sv'.io_service.stack = sv.io_service.stack ∧ ret = 0 := by
  unfold NetEvent.onRead at hr
  split at hr
  · cases hr
  · next ret' c hc =>
    obtain ⟨sv₁, hmessages, heq⟩ := Option.map_eq_some_iff.mp hr
    obtain ⟨rfl, rfl⟩ := Prod.mk.inj heq
    refine and_assoc.mp ⟨?_, Net.onRead_ret hc⟩
    by_cases hj : i = j
    · subst hj
      obtain rfl : m = n := h.intake.calls m (hst ▸ List.mem_cons_self)
      obtain ⟨c', hc', -, hhanded, -⟩ := Net.onRead_spec
        (c := ⟨(sv.io_service.m_peer_array i).read_buf, []⟩) h.intake.valid
      obtain ⟨-, rfl⟩ := EStateM.Result.ok.inj (hc'.symm.trans hc)
      rw [hhanded, List.nil_append] at hmessages
      unfold FrameFormat.takeOne at hmessages
      split at hmessages
      · next hcomplete =>
        obtain ⟨sv₂, hm, hdone⟩ := Option.bind_eq_some_iff.mp hmessages
        obtain rfl := Option.some.inj hdone
        exact h.message hst hcomplete.2 hm
      · obtain rfl := Option.some.inj hmessages
        exact ⟨h, rfl⟩
    · obtain ⟨hu, extra, hhanded, hnone⟩ := messages_unread hj hst hmessages
      exact ⟨h.unread hu hhanded hnone, hu.stack⟩

/-- A callback. -/
theorem callback {env : Lobby.Env} {posts : Nat → Bool} {accepted : Bool}
    (h : Parsing i n R H sv) (hc : Server.callback env posts accepted sv = some sv') :
    Parsing i n R H sv' := by
  have hreturn : ∀ {sv₁ sv₂ : Program} {f : Iocp.Frame} {rest : List Iocp.Frame} {j m : Nat},
      Parsing i n R H sv₁ → sv₁.io_service.stack = f :: rest →
      (f = .onCon j m ∨ f = .onRead j m) → sv₁.io (.return_ 0 accepted) = some sv₂ →
      Parsing i n R H sv₂ := by
    intro sv₁ sv₂ f rest j m h₁ hst hf hio
    obtain ⟨s, hs, rfl⟩ := Option.map_eq_some_iff.mp hio
    obtain ⟨hin, hread⟩ := h₁.intake.returned hst hf (Int.le_refl 0) hs
    exact h₁.keep hin hread rfl (List.append_nil _).symm rfl
  unfold Server.callback at hc
  split at hc
  · next j m rest hst =>
    obtain ⟨sv₁, hcall, hio⟩ := Option.bind_eq_some_iff.mp hc
    obtain ⟨hu, hhanded⟩ := call_unread (i := i) hcall
    have h₁ := h.unread hu (hhanded.trans (List.append_nil _).symm) rfl
    exact hreturn h₁ (hu.stack.trans hst) (Or.inl rfl) hio
  · next j m rest hst =>
    obtain ⟨sv₁, hcall, hio⟩ := Option.bind_eq_some_iff.mp hc
    obtain ⟨hu, hhanded⟩ := call_unread (i := i) hcall
    have h₁ := h.unread hu (hhanded.trans (List.append_nil _).symm) rfl
    obtain ⟨s, hs, rfl⟩ := Option.map_eq_some_iff.mp hio
    have hst₁ := hu.stack.trans hst
    rw [Iocp.step_onDisCon (Iocp.thrown_of_return hs) hst₁] at hs
    obtain rfl := Option.some.inj hs
    have hb := (Iocp.Beside.popped (i := i) hst₁).trans (.closePeerEnd _ j)
    exact h₁.keep (h₁.intake.beside hb) hb.readable rfl (List.append_nil _).symm rfl
  · next j m rest hst =>
    obtain ⟨⟨ret, sv₁⟩, hread, hio⟩ := Option.bind_eq_some_iff.mp hc
    obtain ⟨h₁, hstack, rfl⟩ := h.onRead hst hread
    exact hreturn h₁ (hstack.trans hst) (Or.inr rfl) hio
  · cases hc

/-- What a completion adds to the history of the connection. -/
theorem receive_spec (sv : Program) {r : Iocp.Request} {c : Iocp.Completion}
    (hown : r.index = i → r.serial = n) :
    ∃ ps, (Program.receive r c sv).received = sv.received ++ ps ∧
      (piecesOf i n ps).flatten = Iocp.brought i r c ∧
      (Program.receive r c sv).handed = sv.handed ∧
      (Program.receive r c sv).io_service = sv.io_service := by
  obtain ⟨_, op, index, serial, _⟩ := r
  cases op with
  | ClientIoRead =>
    cases c with
    | success size bytes =>
      refine ⟨[⟨index, serial, bytes⟩], rfl, ?_, rfl, rfl⟩
      show _ = if index = i then bytes else []
      by_cases hi : index = i
      · have hser : serial = n := hown hi
        rw [if_pos hi, hi, hser, piecesOf_own]
        exact List.append_nil _
      · rw [if_neg hi, piecesOf_ne hi]
        rfl
    | netnameDeleted | otherError => exact ⟨[], (List.append_nil _).symm, rfl, rfl, rfl⟩
  | ClientIoWrite | ClientIoUnknown => exact ⟨[], (List.append_nil _).symm, rfl, rfl, rfl⟩

/-- **One step.** -/
theorem step {a : Input} (h : Parsing i n R H sv) (hl : sv.io_service.Live i n)
    (hs : Server.step sv a = some sv') : Parsing i n R H sv' := by
  cases a with
  | accept sd loc rem bound =>
    obtain ⟨s, hio, rfl⟩ := Option.map_eq_some_iff.mp hs
    cases Iocp.stepping hio with
    | accept _ hc =>
      have hb := Iocp.Beside.registering hl hc
      exact h.keep (h.intake.beside hb) hb.readable rfl (List.append_nil _).symm rfl
  | dequeue r c accepted =>
    obtain ⟨sv₁, hstep, rfl⟩ := Option.map_eq_some_iff.mp hs
    obtain ⟨s, hio, rfl⟩ := Option.map_eq_some_iff.mp hstep
    cases Iocp.stepping hio with
    | dequeue hst hr hfits htick =>
      obtain ⟨hin, hread⟩ := h.intake.ticking hl hr hfits htick
      obtain ⟨ps, hrec, hps, hhanded, hservice⟩ := receive_spec { sv with io_service := s }
        (c := c) (h.intake.own r hr)
      refine h.received ?_ ?_ hrec hps hhanded
      · rw [hservice]
        exact hin
      · rw [hservice]
        exact hread
  | finish =>
    obtain ⟨s, hio, rfl⟩ := Option.map_eq_some_iff.mp hs
    cases Iocp.stepping hio with
    | @finish r rest hst =>
      have hdelete : Iocp.Beside i (sv.io_service.popped rest)
          ((sv.io_service.popped rest).deleteIOCxt r.io_context) := .of_eq rfl rfl (.refl _)
      have hb := (Iocp.Beside.popped (i := i) hst).trans hdelete
      exact h.keep (h.intake.beside hb) hb.readable rfl (List.append_nil _).symm rfl
  | callback env posts accepted => exact h.callback hs
  | process env posts =>
    simp only [Server.step, Option.ite_none_right_eq_some] at hs
    obtain ⟨hu, hhanded⟩ := call_unread (i := i) hs.2
    exact h.unread hu (hhanded.trans (List.append_nil _).symm) rfl

end Parsing

/-! ## Runs -/

/-- The connection `(i, n)` is open. -/
def StaysOpen (i n : Nat) (sv : Program) (_ : Input) : Prop := sv.io_service.Live i n

/-- **The messages of a connection are its frames.** From its registration in a slot for which no
request is outstanding, as long as the connection is open, the bodies that were handed to the lobby
are the first frames of what was received. -/
theorem handed_frames {sv₀ sv₁ : Program} {sd : Nat} {loc rem : Iocp.Addr} {bound : Bool}
    (hs : step sv₀ (.accept sd loc rem bound) = some sv₁)
    (hcon : sv₁.io_service.stack = [.onCon i n])
    (hclean : ∀ r ∈ sv₀.io_service.posted, r.index ≠ i)
    (hr : Reach (· = sv₁) step (StaysOpen i n) sv) :
    piecesOf i n (sv.handed.drop sv₁.handed.length) <+:
      be16Format.frames (piecesOf i n (sv.received.drop sv₁.received.length)).flatten := by
  have hstart : Parsing i n sv₁.received.length sv₁.handed.length sv₁ := by
    obtain ⟨s, hio, rfl⟩ := Option.map_eq_some_iff.mp hs
    have hst : sv₀.io_service.stack = [] := by
      simp only [Iocp.step, Option.ite_none_right_eq_some] at hio
      exact hio.1.2
    cases Iocp.stepping hio with
    | accept _ hreg =>
      obtain ⟨hin, hnil⟩ := Iocp.Intake.registered hreg hst hcon hclean
      refine ⟨hin, Nat.le_refl _, Nat.le_refl _, ?_, ?_⟩
      · rw [List.drop_length, List.drop_length, hnil]
        rfl
      · rw [List.drop_length, hnil]
        rfl
  have h : Parsing i n sv₁.received.length sv₁.handed.length sv :=
    hr.invariant (Parsing i n sv₁.received.length sv₁.handed.length)
      (by rintro _ rfl; exact hstart) fun _ _ _ h hl hs => h.step hl hs
  rw [h.frames]
  exact List.prefix_append _ _

/-! ### A message in two parts -/

instance (i n : Nat) (sv : Program) (a : Input) : Decidable (StaysOpen i n sv a) :=
  inferInstanceAs (Decidable (sv.io_service.Live i n))

theorem firstAccept_runs :
    (step Program.new (.accept 7 ⟨"", 0⟩ ⟨"", 0⟩ true)).isSome = true := by decide +kernel

/-- The first connection is in its `onCon`. -/
def acceptedProgram : Program :=
  (step Program.new (.accept 7 ⟨"", 0⟩ ⟨"", 0⟩ true)).get firstAccept_runs

/-- The request behind the first three bytes, for which the buffer has grown. -/
def secondRequest : Iocp.Request :=
  ⟨1, .ClientIoRead, 0, 0, some ⟨⟨[0, 2, 0] ++ List.replicate 512 0, by decide +kernel⟩, 3, 512⟩⟩

/-- A message arrives in two parts, the second with the beginning of the next message. -/
def twoParts : List Input :=
  [.callback Lobby.Env.zero (fun _ => true) true,
    .dequeue Iocp.firstRequest (.success 3 [0, 2, 0]) true,
    .callback Lobby.Env.zero (fun _ => true) true, .finish,
    .dequeue secondRequest (.success 3 [4, 0, 1]) true,
    .callback Lobby.Env.zero (fun _ => true) true]

theorem twoParts_runs : (exec step acceptedProgram twoParts).isSome = true := by decide +kernel

theorem handed_frames_twoParts :
    let sv := (exec step acceptedProgram twoParts).get twoParts_runs
    sv.handed = [⟨0, 0, [0, 4]⟩] ∧
      piecesOf 0 0 (sv.handed.drop acceptedProgram.handed.length) <+: be16Format.frames
        (piecesOf 0 0 (sv.received.drop acceptedProgram.received.length)).flatten :=
  ⟨by decide +kernel, handed_frames (Option.some_get firstAccept_runs).symm (by decide +kernel)
    (by simp [Program.new, Iocp.Service.new])
    (Reach.of_exec (.start rfl) (by decide +kernel) (Option.some_get twoParts_runs).symm)⟩

end GhNet.Server
