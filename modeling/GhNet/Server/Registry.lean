import Mathlib.Data.List.Induction
import GhNet.Iocp.Isolation
import GhNet.Iocp.Lifecycle
import GhNet.Lobby.Links
import GhNet.Server.Machine

/-!
# The registry of the lobby and the connections of the service

The lobby hears of the connections through callbacks only. It knows a connection from where its
`onCon` has returned to where its `onDisCon` returns, which is where the service closes it: so
outside of callbacks the keys of `m_players` are the serials of the connections, as long as no
serial is given out twice.
-/

namespace GhNet.Server

open GhNet GhNet.Net

/-! ## The service between callbacks -/

section Service

open Iocp Iocp.Service

variable {s s' : Service} {i n : Nat}

/-- The service of the program: only the handler of a completion is below a callback, and a
callback is called for a connection that is open. -/
structure Sane (s : Service) : Prop where
  alive : Alive s
  flat : ∀ f ∈ s.stack.tail, ∃ r, f = .tick r
  calling : ∀ f ∈ s.stack, (∃ r, f = .tick r) ∨ s.Live f.connection.1 f.connection.2

theorem Sane.new : Sane Service.new := ⟨.new, nofun, nofun⟩

/-- Connections and the stack have stayed. -/
theorem Sane.same (h : Sane s) (ha : Alive s') (hst : Standing s s')
    (hstack : s'.stack = s.stack) : Sane s' where
  alive := ha
  flat := hstack ▸ h.flat
  calling f hf := (h.calling f (hstack ▸ hf)).imp_right (hst.live _ _).mpr

/-- Connections have stayed; the stack consists of handlers, and perhaps a callback of an open
connection on top of them. -/
theorem Sane.on (ha : Alive s') (hst : Standing s s') {rest : List Frame}
    (hticks : ∀ f ∈ rest, ∃ r, f = .tick r)
    (hstack : s'.stack = rest ∨ ∃ f, s.Live f.connection.1 f.connection.2 ∧ s'.stack = f :: rest) :
    Sane s' := by
  rcases hstack with hstack | ⟨f, hl, hstack⟩
  · refine ⟨ha, fun f hf => hticks f ?_, fun f hf => Or.inl (hticks f ?_)⟩
    · exact List.mem_of_mem_tail (hstack ▸ hf)
    · exact hstack ▸ hf
  · refine ⟨ha, fun g hg => hticks g ?_, fun g hg => ?_⟩
    · rw [hstack] at hg
      exact hg
    · rw [hstack] at hg
      rcases List.mem_cons.mp hg with rfl | hg
      · exact Or.inr ((hst.live _ _).mpr hl)
      · exact Or.inl (hticks g hg)

/-- The calls of `send` leave connections and the stack alone. -/
theorem exec_sends {posts : Nat → Bool} {sent : List Lobby.Sent} (h : Sane s)
    (hrun : exec Iocp.step s (Program.sends posts sent) = some s') :
    Sane s' ∧ Standing s s' ∧ s'.stack = s.stack := by
  refine Program.sends_induction
    (R := fun s s' => Sane s → Sane s' ∧ Standing s s' ∧ s'.stack = s.stack)
    (fun s h => ⟨h, .refl s, rfl⟩) (fun s t u h1 h2 h => ?_)
    (fun s t i n buf accepted hs h => ?_) hrun h
  · obtain ⟨ht, hst, hstack⟩ := h1 h
    obtain ⟨hu, hst', hstack'⟩ := h2 ht
    exact ⟨hu, hst.trans hst', hstack'.trans hstack⟩
  · cases stepping hs with
    | send _ hsend =>
      have hst := Standing.sending hsend
      have hord : Orderly s (.send i n buf accepted) := trivial
      exact ⟨h.same (h.alive.step hord hs) hst hsend.stack_eq, hst, hsend.stack_eq⟩

/-- Behind the return of `onCon` or `onRead` the callback is gone, and perhaps `onDisCon` is called
for the same connection. -/
theorem returned {ret : Int} {accepted : Bool} {f : Frame} {rest : List Frame} (h : Sane s)
    (hst : s.stack = f :: rest) (hf : f = .onCon i n ∨ f = .onRead i n) (hret : 0 ≤ ret)
    (hs : Iocp.step s (.return_ ret accepted) = some s') :
    Sane s' ∧ Standing s s' ∧ (s'.stack = rest ∨ s'.stack = .onDisCon i n :: rest) := by
  have hl : s.Live i n := by
    rcases h.calling f (hst ▸ List.mem_cons_self) with ⟨r, hr⟩ | hl
    · subst hr
      rcases hf with hf | hf <;> cases hf
    · rcases hf with rfl | rfl <;> exact hl
  have hticks : ∀ g ∈ rest, ∃ r, g = .tick r := by
    have hflat := h.flat
    rw [hst] at hflat
    exact hflat
  have hord : Orderly s (.return_ ret accepted) := by
    rw [Orderly, hst]
    rcases hf with rfl | rfl
    · trivial
    · intro hneg
      omega
  have ha := h.alive.step hord hs
  have hpost : ∀ {rest'}, rest' = rest →
      RecvPosting (s.popped rest') i (s.m_peer_array i).serial s' →
      Sane s' ∧ Standing s s' ∧ (s'.stack = rest ∨ s'.stack = .onDisCon i n :: rest) := by
    rintro rest' rfl hpost
    have hstand : Standing s s' := Standing.stable.recvPosting
      (Standing.stable.popped (.refl s) rest') hpost
    have hstack : s'.stack = rest' ∨ s'.stack = .onDisCon i n :: rest' := by
      rcases hpost.stack_eq with hs | ⟨-, hs⟩
      · exact Or.inl hs
      · exact Or.inr (hl.2 ▸ hs)
    refine ⟨Sane.on ha hstand hticks ?_, hstand, hstack⟩
    rcases hstack with hs | hs
    · exact Or.inl hs
    · exact Or.inr ⟨.onDisCon i n, hl, hs⟩
  cases stepping hs with
  | onCon hst' hp =>
    obtain ⟨rfl, rfl⟩ := List.cons.inj (hst.symm.trans hst')
    rcases hf with hf | hf
    · cases hf
      exact hpost rfl hp
    · cases hf
  | onRead hst' _ hp =>
    obtain ⟨rfl, rfl⟩ := List.cons.inj (hst.symm.trans hst')
    rcases hf with hf | hf
    · cases hf
    · cases hf
      exact hpost rfl hp
  | onReadNegative _ hneg _ => omega
  | onDisCon hst' =>
    obtain ⟨rfl, -⟩ := List.cons.inj (hst.symm.trans hst')
    rcases hf with hf | hf <;> cases hf

/-- A completion is handled, with nothing on the stack. -/
theorem dequeued {r : Request} {c : Completion} {accepted : Bool} (h : Sane s)
    (hs : Iocp.step s (.dequeue r c accepted) = some s') :
    Sane s' ∧ Standing s s' ∧ s.stack = [] ∧ ∀ i n, .onCon i n ∉ s'.stack := by
  have hord : Orderly s (.dequeue r c accepted) := trivial
  have ha := h.alive.step hord hs
  cases stepping hs with
  | dequeue hst _ _ htick =>
    have hstand : Standing s s' := Standing.stable.ticking
      (Standing.stable.took (.refl s) r) htick
    have hticks : ∀ g ∈ [Frame.tick r], ∃ r, g = .tick r := fun g hg =>
      ⟨r, List.mem_singleton.mp hg⟩
    have hempty : (s.took r).stack = [] := hst
    rcases htick.stack_eq with hstack | hstack | ⟨hsock, hstack⟩ <;> rw [hempty] at hstack
    · have hnone : ∀ f ∈ ([] : List Frame), ∃ r, f = .tick r := nofun
      refine ⟨Sane.on ha hstand hnone (Or.inl hstack), hstand, hst, ?_⟩
      rw [hstack]
      exact fun _ _ => List.not_mem_nil
    · refine ⟨Sane.on ha hstand hticks (Or.inl hstack), hstand, hst, ?_⟩
      rw [hstack]
      exact fun _ _ hm => nomatch List.mem_singleton.mp hm
    · have hl : s.Live r.index (s.m_peer_array r.index).serial := ⟨hsock, rfl⟩
      rcases hstack with hstack | hstack
      · refine ⟨Sane.on ha hstand hticks (Or.inr ⟨_, ?_, hstack⟩), hstand, hst, ?_⟩
        · exact hl
        · rw [hstack]
          simp
      · refine ⟨Sane.on ha hstand hticks (Or.inr ⟨_, ?_, hstack⟩), hstand, hst, ?_⟩
        · exact hl
        · rw [hstack]
          simp

theorem finished (h : Sane s) (hs : Iocp.step s .finish = some s') :
    Sane s' ∧ Standing s s' ∧ ∃ r, s.stack = .tick r :: s'.stack := by
  have hord : Orderly s .finish := trivial
  have ha := h.alive.step hord hs
  cases stepping hs with
  | @finish r rest hst =>
    have hstand : Standing s ((s.popped rest).deleteIOCxt r.io_context) := .of_eq rfl rfl
    have hticks : ∀ g ∈ rest, ∃ r, g = .tick r := by
      have hflat := h.flat
      rw [hst] at hflat
      exact hflat
    exact ⟨Sane.on ha hstand hticks (Or.inl rfl), hstand, r, hst⟩

/-- A connection is open until its `onDisCon` returns. -/
theorem disconnected {ret : Int} {accepted : Bool} {rest : List Frame} (h : Sane s)
    (hst : s.stack = .onDisCon i n :: rest)
    (hs : Iocp.step s (.return_ ret accepted) = some s') :
    Sane s' ∧ s.Live i n ∧ (∀ j m, s'.Live j m ↔ j ≠ i ∧ s.Live j m) ∧
      s'.m_serial = s.m_serial ∧ s'.stack = rest := by
  have hord : Orderly s (.return_ ret accepted) := by
    rw [Orderly, hst]
    trivial
  have ha := h.alive.step hord hs
  have hl : s.Live i n := h.alive.closing (hst ▸ List.mem_cons_self)
  have hticks : ∀ g ∈ rest, ∃ r, g = .tick r := by
    have hflat := h.flat
    rw [hst] at hflat
    exact hflat
  cases stepping hs with
  | onCon hst' | onRead hst' | onReadNegative hst' => cases hst.symm.trans hst'
  | onDisCon hst' =>
    obtain ⟨hf, rfl⟩ := List.cons.inj (hst.symm.trans hst')
    cases hf
    have hstack : ((s.popped rest).closePeerEnd i).stack = rest := closePeerEnd_stack _ i
    refine ⟨⟨ha, fun g hg => hticks g ?_, fun g hg => Or.inl (hticks g ?_)⟩, hl,
      closePeerEnd_live (s.popped rest) i, closePeerEnd_m_serial _ i, hstack⟩
    · exact hstack ▸ List.mem_of_mem_tail hg
    · exact hstack ▸ hg

/-- A new connection, with its `onCon` called. -/
structure Announced (s s' : Service) (i n : Nat) : Prop where
  stack : s'.stack = [.onCon i n]
  live : s'.Live i n
  old : ∀ j m, s'.Live j m ↔ (j = i ∧ m = n) ∨ s.Live j m
  fresh : ∀ j, ¬s.Live j n

/-- A socket is registered, with nothing on the stack. -/
theorem accepted {sd : Nat} {loc rem : Addr} {bound : Bool} (h : Sane s)
    (hser : s.m_serial + 1 < 2 ^ 64) (hs : Iocp.step s (.accept sd loc rem bound) = some s') :
    Sane s' ∧ s.stack = [] ∧ s'.m_serial ≤ s.m_serial + 1 ∧
      ((s'.stack = [] ∧ ∀ j m, s'.Live j m ↔ s.Live j m) ∨ ∃ i n, Announced s s' i n) := by
  have hord : Orderly s (.accept sd loc rem bound) := hser
  have ha := h.alive.step hord hs
  have hst : s.stack = [] := by
    simp only [Iocp.step, Option.ite_none_right_eq_some] at hs
    exact hs.1.2
  have hempty : s'.stack = [] → Sane s' := by
    intro hnil
    have hno : ∀ f, f ∉ s'.stack := fun f hf => List.not_mem_nil (hnil ▸ hf)
    exact ⟨ha, fun f hf => absurd (List.mem_of_mem_tail hf) (hno f), fun f hf => absurd hf (hno f)⟩
  cases stepping hs with
  | accept _ hc =>
    cases hc with
    | full e => exact ⟨hempty hst, hst, Nat.le_succ _, Or.inl ⟨hst, fun _ _ => Iff.rfl⟩⟩
    | unbound i hfree e =>
      exact ⟨hempty hst, hst, Nat.mod_le _ _, Or.inl ⟨hst, setPeer_live_unbound hfree⟩⟩
    | callback i hi hfree p' sd' loc' rem' hp =>
      have hold := setPeer_live_callback hfree hp
      have hnew : (s.setPeer i p').Live i s.m_serial := (hold i _).mpr (Or.inl ⟨rfl, rfl⟩)
      refine ⟨⟨ha, ?_, ?_⟩, hst, Nat.mod_le _ _, Or.inr ⟨i, s.m_serial, ?_, hnew, hold, ?_⟩⟩
      · rw [push_stack, List.tail_cons]
        intro f hf
        exact absurd (hst ▸ hf : f ∈ []) List.not_mem_nil
      · intro f hf
        rw [push_stack, record_stack, setPeer_stack, hst, List.mem_singleton] at hf
        subst hf
        exact Or.inr hnew
      · rw [push_stack, record_stack, setPeer_stack, hst]
      · exact fun j hl => Nat.lt_irrefl _ (h.alive.serial_lt hl)

end Service

/-! ## The registry -/

section Registry

open Lobby

variable {s s' : Iocp.Service} {b b' : Board} {i n : Nat}

/-- The slot and the serial of a player. -/
def handle (seat : Seat) : Nat × Nat := (seat.index, seat.serial)

theorem lasting_handle : Board.Lasting handle := ⟨fun _ _ _ => rfl, fun _ => rfl⟩

/-- The registry has the connection, with a player that carries its slot and its serial. -/
def Knows (b : Board) (i n : Nat) : Prop :=
  ∃ p, b.registry.find n = some (some p) ∧ (b.seats.map handle)[p]? = some (i, n)

theorem Knows.same (h : Knows b i n) (hb : Board.SameShown handle b b') : Knows b' i n := by
  obtain ⟨p, hfind, hseat⟩ := h
  exact ⟨p, hb.2.symm ▸ hfind, hb.1.symm ▸ hseat⟩

/-- The connections whose `onCon` has returned are those that the registry has. -/
structure Wired (s : Iocp.Service) (b : Board) : Prop where
  sane : Sane s
  entry : ∀ n e, b.registry.find n = some e →
    ∃ i, s.Live i n ∧ .onCon i n ∉ s.stack ∧ Knows b i n
  known : ∀ i n, s.Live i n → .onCon i n ∉ s.stack → b.registry.find n ≠ none

namespace Wired

theorem new : Wired Iocp.Service.new Board.empty where
  sane := .new
  entry := nofun
  known _ _ h := absurd rfl h.1

theorem knows (h : Wired s b) (hl : s.Live i n) (hm : .onCon i n ∉ s.stack) : Knows b i n := by
  obtain ⟨e, he⟩ := Option.ne_none_iff_exists'.mp (h.known i n hl hm)
  obtain ⟨j, hlj, -, hknows⟩ := h.entry n e he
  rwa [h.sane.alive.serial_inj hl hlj]

/-- No connection comes or goes, and the registry is the same. -/
theorem same (h : Wired s b) (hs : Sane s') (hst : Iocp.Standing s s')
    (hstack : ∀ i n, .onCon i n ∈ s'.stack ↔ .onCon i n ∈ s.stack)
    (hb : Board.SameShown handle b b') : Wired s' b' where
  sane := hs
  entry n e he := by
    obtain ⟨i, hl, hm, hknows⟩ := h.entry n e (hb.2 ▸ he)
    exact ⟨i, (hst.live i n).mpr hl, fun hm' => hm ((hstack i n).mp hm'), hknows.same hb⟩
  known i n hl hm := by
    rw [hb.2]
    exact h.known i n ((hst.live i n).mp hl) fun hm' => hm ((hstack i n).mpr hm')

/-- **A connection of which `onCon` is called is not in the registry.** -/
theorem find_onCon {rest : List Iocp.Frame} (h : Wired s b) (hst : s.stack = .onCon i n :: rest) :
    b.registry.find n = none := by
  have hmem : .onCon i n ∈ s.stack := hst ▸ List.mem_cons_self
  cases hfind : b.registry.find n with
  | none => rfl
  | some e =>
    obtain ⟨j, hl, hm, -⟩ := h.entry n e hfind
    rcases h.sane.calling _ hmem with ⟨r, hr⟩ | hl'
    · cases hr
    · obtain rfl := h.sane.alive.serial_inj hl hl'
      exact absurd hmem hm

/-- A new connection is not in the registry yet. -/
theorem announced (h : Wired s b) (hs : Sane s') (hst : s.stack = [])
    (hnew : Announced s s' i n) : Wired s' b where
  sane := hs
  entry m e he := by
    obtain ⟨j, hl, -, hknows⟩ := h.entry m e he
    refine ⟨j, (hnew.old j m).mpr (Or.inr hl), fun hm => ?_, hknows⟩
    rw [hnew.stack, List.mem_singleton] at hm
    cases hm
    exact hnew.fresh _ hl
  known j m hl hm := by
    rcases (hnew.old j m).mp hl with ⟨rfl, rfl⟩ | hl
    · exact absurd (hnew.stack ▸ List.mem_cons_self) hm
    · refine h.known j m hl ?_
      rw [hst]
      exact List.not_mem_nil

/-- `onCon` puts the connection into the registry. -/
theorem joined {rest : List Iocp.Frame} (h : Wired s b) (hst : s.stack = .onCon i n :: rest)
    (hs : Sane s') (hstand : Iocp.Standing s s')
    (hstack : s'.stack = rest ∨ s'.stack = .onDisCon i n :: rest) :
    Wired s' (b.step (.join i n)) := by
  have hnone := h.find_onCon hst
  have hmem : .onCon i n ∈ s.stack := hst ▸ List.mem_cons_self
  have hlive : s.Live i n := by
    rcases h.sane.calling _ hmem with ⟨r, hr⟩ | hl
    · cases hr
    · exact hl
  -- there is no other `onCon` below
  have hflat := h.sane.flat
  rw [hst, List.tail_cons] at hflat
  have hgone : ∀ j m, .onCon j m ∉ s'.stack := by
    intro j m hm
    have hrest : .onCon j m ∉ rest := fun hm => nomatch hflat _ hm
    rcases hstack with hs' | hs' <;> rw [hs'] at hm
    · exact hrest hm
    · rcases List.mem_cons.mp hm with heq | hm
      · cases heq
      · exact hrest hm
  have hothers : ∀ j m, .onCon j m ∈ s.stack → j = i ∧ m = n := by
    intro j m hm
    rw [hst] at hm
    rcases List.mem_cons.mp hm with heq | hm
    · cases heq
      exact ⟨rfl, rfl⟩
    · exact nomatch hflat _ hm
  have hb : b.step (.join i n) = { b with
      seats := b.seats ++ [Seat.new i n]
      registry := b.registry.insert n (some b.seats.length) } := by
    rw [Board.step, hnone]
  rw [hb]
  have hseats : (b.seats ++ [Seat.new i n]).map handle = b.seats.map handle ++ [(i, n)] :=
    List.map_append
  have hself : Knows { b with
      seats := b.seats ++ [Seat.new i n]
      registry := b.registry.insert n (some b.seats.length) } i n := by
    refine ⟨b.seats.length, OrdMap.find_insert_self hnone, ?_⟩
    rw [hseats, List.getElem?_append_right (by rw [List.length_map]), List.length_map,
      Nat.sub_self]
    rfl
  refine ⟨hs, fun m e he => ?_, fun j m hl hm => ?_⟩
  · rcases OrdMap.find_insert_cases hnone he with ⟨rfl, -⟩ | hold
    · exact ⟨i, (hstand.live _ _).mpr hlive, hgone _ _, hself⟩
    · obtain ⟨j, hl, -, p, hfind, hseat⟩ := h.entry m e hold
      have hne : m ≠ n := by
        rintro rfl
        rw [hnone] at hold
        cases hold
      refine ⟨j, (hstand.live _ _).mpr hl, hgone _ _, p, ?_, ?_⟩
      · rw [OrdMap.find_insert_ne hne]
        exact hfind
      · rw [hseats, List.getElem?_append_left (List.getElem?_eq_some_iff.mp hseat).1]
        exact hseat
  · have hl' := (hstand.live j m).mp hl
    show (b.registry.insert n (some b.seats.length)).find m ≠ none
    by_cases hne : m = n
    · subst hne
      rw [OrdMap.find_insert_self hnone]
      exact Option.some_ne_none _
    · rw [OrdMap.find_insert_ne hne]
      exact h.known j m hl' fun hm => hne (hothers j m hm).2

/-- `onDisCon` takes the connection out of the registry, and then it is closed. -/
theorem left {rest : List Iocp.Frame} (h : Wired s b) (hst : s.stack = .onDisCon i n :: rest)
    (hs : Sane s') (hlive : ∀ j m, s'.Live j m ↔ j ≠ i ∧ s.Live j m) (hstack : s'.stack = rest) :
    Wired s' (b.step (.leave n)) := by
  have hl : s.Live i n := h.sane.alive.closing (hst ▸ List.mem_cons_self)
  have hiff : ∀ j m, .onCon j m ∈ s'.stack ↔ .onCon j m ∈ s.stack := by
    intro j m
    rw [hstack, hst, List.mem_cons]
    exact ⟨Or.inr, fun h => h.resolve_left nofun⟩
  refine ⟨hs, fun m e he => ?_, fun j m hlj hm => ?_⟩
  · obtain ⟨hne, he⟩ := OrdMap.find_of_find_erase he
    obtain ⟨j, hlj, hm, p, hfind, hseat⟩ := h.entry m e he
    refine ⟨j, (hlive j m).mpr ⟨?_, hlj⟩, fun hm' => hm ((hiff j m).mp hm'), p, ?_, hseat⟩
    · rintro rfl
      exact hne (hlj.2.symm.trans hl.2)
    · exact (OrdMap.find_erase_ne hne).trans hfind
  · obtain ⟨hne, hlj⟩ := (hlive j m).mp hlj
    have hser : m ≠ n := by
      rintro rfl
      exact hne (h.sane.alive.serial_inj hlj hl)
    show (b.registry.erase n).find m ≠ none
    rw [OrdMap.find_erase_ne hser]
    exact h.known j m hlj fun hm' => hm ((hiff j m).mpr hm')

end Wired

end Registry

/-! ## Steps of the program -/

section Steps

variable {sv sv' : Program} {i n : Nat}

/-- What the lobby sends leaves the connections alone. -/
theorem call_spec {c : Lobby.Call} {env : Lobby.Env} {posts : Nat → Bool}
    (h : Sane sv.io_service) (hcall : sv.call c env posts = some sv') :
    Sane sv'.io_service ∧ Iocp.Standing sv.io_service sv'.io_service ∧
      sv'.io_service.stack = sv.io_service.stack ∧
      sv'.lobby.board = sv.lobby.board.step (Lobby.meaning (c, env)) := by
  obtain ⟨lobby, hlobby, hcall⟩ := Option.bind_eq_some_iff.mp hcall
  obtain ⟨io_service, hio, hcall⟩ := Option.bind_eq_some_iff.mp hcall
  obtain rfl := Option.some.inj hcall
  obtain ⟨hs, hst, hstack⟩ := exec_sends h hio
  exact ⟨hs, hst, hstack, Lobby.step_board hlobby⟩

theorem io_spec {a : Iocp.Action} (h : sv.io a = some sv') :
    Iocp.step sv.io_service a = some sv'.io_service ∧ sv'.lobby = sv.lobby := by
  obtain ⟨s, hs, rfl⟩ := Option.map_eq_some_iff.mp h
  exact ⟨hs, rfl⟩

/-- Inside of a callback: registry and connections stay as they are. -/
structure Inside (sv sv' : Program) : Prop where
  wired : Wired sv'.io_service sv'.lobby.board
  standing : Iocp.Standing sv.io_service sv'.io_service
  stack : sv'.io_service.stack = sv.io_service.stack

theorem Inside.trans {sv₁ sv₂ : Program} (h1 : Inside sv sv₁) (h2 : Inside sv₁ sv₂) :
    Inside sv sv₂ :=
  ⟨h2.wired, h1.standing.trans h2.standing, h2.stack.trans h1.stack⟩

/-- A call that leaves the registry and the handles of the players alone. -/
theorem Wired.called {c : Lobby.Call} {env : Lobby.Env} {posts : Nat → Bool}
    (h : Wired sv.io_service sv.lobby.board)
    (hb : Lobby.Board.SameShown handle sv.lobby.board
      (sv.lobby.board.step (Lobby.meaning (c, env))))
    (hcall : sv.call c env posts = some sv') : Inside sv sv' := by
  obtain ⟨hs, hst, hstack, hboard⟩ := call_spec h.sane hcall
  refine ⟨?_, hst, hstack⟩
  rw [hboard]
  exact h.same hs hst (fun _ _ => by rw [hstack]) hb

/-- `onRead` consumes what it has handed over. -/
theorem Wired.readMove {k : Nat} (h : Wired sv.io_service sv.lobby.board)
    (hio : sv.io (.readMove k) = some sv') : Inside sv sv' := by
  obtain ⟨hs, hlobby⟩ := io_spec hio
  have hord : Iocp.Orderly sv.io_service (.readMove k) := trivial
  have ha := h.sane.alive.step hord hs
  obtain ⟨hst, hstack⟩ : Iocp.Standing sv.io_service sv'.io_service ∧
      sv'.io_service.stack = sv.io_service.stack := by
    cases Iocp.stepping hs with
    | @readMove _ i _ _ _ k _ heq =>
      have hset : Iocp.Standing sv.io_service (sv.io_service.setPeer i
          ((sv.io_service.m_peer_array i).withReadBuf
            ((sv.io_service.m_peer_array i).read_buf.setRead k))) := .setPeer rfl rfl
      rcases heq with heq | ⟨e, heq⟩ <;> rw [heq]
      · exact ⟨hset, rfl⟩
      · exact ⟨hset.trans (.of_eq rfl rfl), rfl⟩
  refine ⟨?_, hst, hstack⟩
  rw [hlobby]
  exact h.same (h.sane.same ha hst hstack) hst (fun _ _ => by rw [hstack]) ⟨rfl, rfl⟩

/-- **A message of a connection finds the player of the connection.** -/
theorem Wired.find_onRead {rest : List Iocp.Frame} (h : Wired sv.io_service sv.lobby.board)
    (hst : sv.io_service.stack = .onRead i n :: rest) :
    ∃ p, sv.lobby.board.registry.find n = some (some p) := by
  have hmem : .onRead i n ∈ sv.io_service.stack := hst ▸ List.mem_cons_self
  have hl : sv.io_service.Live i n := by
    rcases h.sane.calling _ hmem with ⟨r, hr⟩ | hl
    · cases hr
    · exact hl
  have hflat := h.sane.flat
  rw [hst, List.tail_cons] at hflat
  have hno : .onCon i n ∉ sv.io_service.stack := by
    rw [hst, List.mem_cons]
    rintro (heq | hm)
    · cases heq
    · exact nomatch hflat _ hm
  obtain ⟨p, hfind, -⟩ := h.knows hl hno
  exact ⟨p, hfind⟩

theorem Wired.message {env : Lobby.Env} {posts : Nat → Bool} {body : Bytes}
    {rest : List Iocp.Frame} (h : Wired sv.io_service sv.lobby.board)
    (hst : sv.io_service.stack = .onRead i n :: rest)
    (hm : NetEvent.message i n env posts sv body = some sv') : Inside sv sv' := by
  obtain ⟨sv₁, hcall, hio⟩ := Option.bind_eq_some_iff.mp hm
  obtain ⟨p, hfind⟩ := h.find_onRead hst
  have hsame : Lobby.Board.SameShown handle sv.lobby.board
      (sv.lobby.board.step (Lobby.meaning (.onRead n body, env))) := by
    show Lobby.Board.SameShown handle sv.lobby.board
      (sv.lobby.board.step (.say n (Lobby.commandOf (Lobby.opcode body env))))
    rw [Lobby.Board.step, hfind]
    exact lasting_handle.act p _
  have h₀ : Wired (sv.hand ⟨i, n, body⟩).io_service (sv.hand ⟨i, n, body⟩).lobby.board := h
  have h₁ := h₀.called hsame hcall
  exact Inside.trans ⟨h₁.wired, h₁.standing, h₁.stack⟩ (h₁.wired.readMove hio)

theorem Wired.messages {env : Lobby.Env} {posts : Nat → Bool} {bodies : List Bytes}
    {rest : List Iocp.Frame} (h : Wired sv.io_service sv.lobby.board)
    (hst : sv.io_service.stack = .onRead i n :: rest)
    (hm : bodies.foldlM (NetEvent.message i n env posts) sv = some sv') : Inside sv sv' := by
  induction bodies generalizing sv with
  | nil =>
    obtain rfl := Option.some.inj hm
    exact ⟨h, .refl _, rfl⟩
  | cons body bodies ih =>
    rw [List.foldlM_cons] at hm
    obtain ⟨sv₁, h1, hm⟩ := Option.bind_eq_some_iff.mp hm
    have h₁ := h.message hst h1
    exact h₁.trans (ih h₁.wired (h₁.stack.trans hst) hm)

/-- **A callback keeps registry and connections in step.** -/
theorem Wired.callback {env : Lobby.Env} {posts : Nat → Bool} {accepted : Bool}
    (h : Wired sv.io_service sv.lobby.board)
    (hc : Server.callback env posts accepted sv = some sv') :
    Wired sv'.io_service sv'.lobby.board ∧
      sv'.io_service.m_serial = sv.io_service.m_serial := by
  unfold Server.callback at hc
  split at hc
  · next i n rest hst =>
    obtain ⟨sv₁, hcall, hio⟩ := Option.bind_eq_some_iff.mp hc
    obtain ⟨hs₁, hst₁, hstack₁, hboard₁⟩ := call_spec h.sane hcall
    obtain ⟨hs, hlobby⟩ := io_spec hio
    obtain ⟨hs₂, hst₂, hstack₂⟩ := returned hs₁ (hstack₁.trans hst) (Or.inl rfl) (Int.le_refl 0) hs
    rw [hlobby, hboard₁]
    exact ⟨h.joined hst hs₂ (hst₁.trans hst₂) hstack₂, (hst₁.trans hst₂).m_serial⟩
  · next i n rest hst =>
    obtain ⟨sv₁, hcall, hio⟩ := Option.bind_eq_some_iff.mp hc
    obtain ⟨hs₁, hst₁, hstack₁, hboard₁⟩ := call_spec h.sane hcall
    obtain ⟨hs, hlobby⟩ := io_spec hio
    obtain ⟨hs₂, -, hlive₂, hser₂, hstack₂⟩ := disconnected hs₁ (hstack₁.trans hst) hs
    rw [hlobby, hboard₁]
    refine ⟨h.left hst hs₂ (fun j m => ?_) hstack₂, hser₂.trans hst₁.m_serial⟩
    rw [hlive₂, hst₁.live]
  · next i n rest hst =>
    obtain ⟨⟨ret, sv₁⟩, hread, hio⟩ := Option.bind_eq_some_iff.mp hc
    unfold NetEvent.onRead at hread
    split at hread
    · cases hread
    · next ret' c hret =>
      obtain ⟨sv₂, hmessages, heq⟩ := Option.map_eq_some_iff.mp hread
      obtain ⟨rfl, rfl⟩ := Prod.mk.inj heq
      obtain rfl := Net.onRead_ret hret
      have h₁ := h.messages hst hmessages
      obtain ⟨hs, hlobby⟩ := io_spec hio
      have hst₁ := h₁.stack.trans hst
      obtain ⟨hs₂, hst₂, hstack₂⟩ := returned h₁.wired.sane hst₁ (Or.inr rfl) (Int.le_refl 0) hs
      rw [hlobby]
      refine ⟨h₁.wired.same hs₂ hst₂ (fun j m => ?_) ⟨rfl, rfl⟩,
        (h₁.standing.trans hst₂).m_serial⟩
      rw [hst₁]
      rcases hstack₂ with hs | hs <;> rw [hs] <;> simp
  · cases hc

/-- The step hands a socket to `registerSocket`. -/
def Input.accepts : Input → Bool
  | .accept .. => true
  | _ => false

/-- **One step.** It uses up one serial at most, and only for a new socket. -/
theorem Wired.step {a : Input} (h : Wired sv.io_service sv.lobby.board)
    (hser : a.accepts = true → sv.io_service.m_serial + 1 < 2 ^ 64)
    (hs : Server.step sv a = some sv') :
    Wired sv'.io_service sv'.lobby.board ∧
      sv'.io_service.m_serial ≤ sv.io_service.m_serial + if a.accepts then 1 else 0 := by
  cases a with
  | accept sd loc rem bound =>
    obtain ⟨hs, hlobby⟩ := io_spec hs
    obtain ⟨hs', hst, hle, hcases⟩ := accepted h.sane (hser rfl) hs
    rw [hlobby]
    refine ⟨?_, hle⟩
    rcases hcases with ⟨hstack, hlive⟩ | ⟨i, n, hnew⟩
    · refine ⟨hs', fun n e he => ?_, fun i n hl hm => ?_⟩
      · obtain ⟨i, hl, -, hknows⟩ := h.entry n e he
        exact ⟨i, (hlive i n).mpr hl, hstack ▸ List.not_mem_nil, hknows⟩
      · exact h.known i n ((hlive i n).mp hl) (hst ▸ List.not_mem_nil)
    · exact h.announced hs' hst hnew
  | dequeue r c acc =>
    obtain ⟨sv₁, hio, rfl⟩ := Option.map_eq_some_iff.mp hs
    obtain ⟨hs, hlobby⟩ := io_spec hio
    obtain ⟨hs', hst, hstack, hno⟩ := dequeued h.sane hs
    have hrec : (Program.receive r c sv₁).io_service = sv₁.io_service ∧
        (Program.receive r c sv₁).lobby = sv₁.lobby := by
      unfold Program.receive
      split <;> exact ⟨rfl, rfl⟩
    rw [hrec.1, hrec.2, hlobby]
    refine ⟨h.same hs' hst (fun j m => ?_) ⟨rfl, rfl⟩, Nat.le_of_eq hst.m_serial⟩
    rw [hstack]
    exact iff_of_false (hno j m) List.not_mem_nil
  | finish =>
    obtain ⟨hs, hlobby⟩ := io_spec hs
    obtain ⟨hs', hst, r, hstack⟩ := finished h.sane hs
    rw [hlobby]
    refine ⟨h.same hs' hst (fun j m => ?_) ⟨rfl, rfl⟩, Nat.le_of_eq hst.m_serial⟩
    rw [hstack]
    simp
  | callback env posts acc =>
    obtain ⟨h', hser'⟩ := h.callback hs
    exact ⟨h', Nat.le_of_eq hser'⟩
  | process env posts =>
    simp only [Server.step, Option.ite_none_right_eq_some] at hs
    have hin := h.called ⟨rfl, rfl⟩ hs.2
    exact ⟨hin.wired, Nat.le_of_eq hin.standing.m_serial⟩

end Steps

/-! ## Runs -/

namespace Program

/-- No callback is running. -/
def Idle (sv : Program) : Prop := ∀ f ∈ sv.io_service.stack, ∃ r, f = Iocp.Frame.tick r

/-- The entry is a player that carries the slot and the serial of an open connection. -/
def Belongs (sv : Program) (n : Nat) (e : Option Lobby.PlayerPtr) : Prop :=
  ∃ i p player, sv.io_service.Live i n ∧ e = some p ∧ sv.lobby.players[p]? = some player ∧
    player.m_index = i ∧ player.m_serial = n

/-- The registry agrees with the connections. -/
structure Agrees (sv : Program) : Prop where
  keys : sv.Idle → ∀ n, n ∈ sv.lobby.m_players.entries.map Prod.fst ↔
    ∃ i, sv.io_service.Live i n
  entries : sv.Idle → ∀ n e, (n, e) ∈ sv.lobby.m_players.entries → sv.Belongs n e
  /-- the assertion of `addPlayer` holds -/
  addPlayer : ∀ i n rest env, sv.io_service.stack = .onCon i n :: rest →
    sv.lobby.addPlayer i n env ≠ none
  /-- `getPlayer` finds a player and makes no entry -/
  getPlayer : ∀ i n rest, sv.io_service.stack = .onRead i n :: rest →
    ∃ p, sv.lobby.getPlayer n = (some p, sv.lobby)
  /-- `process` meets no null pointer -/
  process : sv.io_service.stack = [] → ∀ e ∈ sv.lobby.m_players.entries, e.2 ≠ none

end Program

section Runs

variable {sv : Program}

theorem Wired.belongs (h : Wired sv.io_service sv.lobby.board) {n : Nat}
    {e : Option Lobby.PlayerPtr} (he : (n, e) ∈ sv.lobby.m_players.entries) :
    sv.Belongs n e := by
  have hfind : sv.lobby.board.registry.find n = some e := OrdMap.mem_entries_iff.mp he
  obtain ⟨i, hl, -, p, hp, hseat⟩ := h.entry n e hfind
  obtain ⟨seat, hseat, heq⟩ : ∃ seat, sv.lobby.board.seats[p]? = some seat ∧
      handle seat = (i, n) := by
    rw [List.getElem?_map] at hseat
    exact Option.map_eq_some_iff.mp hseat
  obtain ⟨player, hplayer, rfl⟩ : ∃ player, sv.lobby.players[p]? = some player ∧
      player.seat = seat := by
    have hmap : (sv.lobby.players.map Lobby.GHS_Player.seat)[p]? = some seat := hseat
    rw [List.getElem?_map] at hmap
    exact Option.map_eq_some_iff.mp hmap
  obtain ⟨hi, hn⟩ := Prod.mk.inj heq
  exact ⟨i, p, player, hl, Option.some.inj (hfind.symm.trans hp), hplayer, hi, hn⟩

theorem Wired.agrees (h : Wired sv.io_service sv.lobby.board) : sv.Agrees where
  keys hidle n := by
    rw [List.mem_map]
    constructor
    · rintro ⟨⟨m, e⟩, he, rfl⟩
      obtain ⟨i, -, -, hl, -⟩ := h.belongs he
      exact ⟨i, hl⟩
    · rintro ⟨i, hl⟩
      have hno : .onCon i n ∉ sv.io_service.stack := fun hm => nomatch hidle _ hm
      obtain ⟨e, he⟩ := Option.ne_none_iff_exists'.mp (h.known i n hl hno)
      exact ⟨(n, e), OrdMap.mem_entries_iff.mpr he, rfl⟩
  entries _ n e he := h.belongs he
  addPlayer i n rest env hst := by
    have hnone : sv.lobby.m_players.find n = none := h.find_onCon hst
    rw [Lobby.GHS_Lobby.addPlayer, hnone]
    exact Option.some_ne_none _
  getPlayer i n rest hst := by
    obtain ⟨p, hp⟩ := h.find_onRead hst
    have hfind : sv.lobby.m_players.find n = some (some p) := hp
    refine ⟨p, ?_⟩
    rw [Lobby.GHS_Lobby.getPlayer, hfind]
  process _ := by
    rintro ⟨n, e⟩ he
    obtain ⟨-, p, -, -, rfl, -⟩ := h.belongs he
    exact Option.some_ne_none p

theorem wired_of_exec {inputs : List Input} (hrun : exec step Program.new inputs = some sv)
    (hcount : inputs.countP Input.accepts < 2 ^ 64) :
    Wired sv.io_service sv.lobby.board ∧
      sv.io_service.m_serial ≤ inputs.countP Input.accepts := by
  induction inputs using List.reverseRecOn generalizing sv with
  | nil =>
    obtain rfl := Option.some.inj hrun
    exact ⟨.new, Nat.le_refl _⟩
  | append_singleton inputs a ih =>
    rw [List.countP_append, List.countP_singleton] at hcount ⊢
    obtain ⟨t, ht, hs⟩ := exec_concat hrun
    obtain ⟨h, hle⟩ := ih ht (by omega)
    have hser : a.accepts = true → t.io_service.m_serial + 1 < 2 ^ 64 := by
      intro ha
      rw [if_pos ha] at hcount
      omega
    obtain ⟨h', hle'⟩ := h.step hser hs
    exact ⟨h', by omega⟩

/-- **The registry agrees with the connections**, in every run of the server with fewer than
`2^64` accepted sockets. -/
theorem registry_agrees {inputs : List Input} (hrun : exec step Program.new inputs = some sv)
    (hcount : inputs.countP Input.accepts < 2 ^ 64) : sv.Agrees :=
  (wired_of_exec hrun hcount).1.agrees

end Runs

/-- Two sockets are accepted, and the first one asks for a match. -/
def oneWaiting : List Input :=
  [.accept 7 ⟨"", 0⟩ ⟨"", 0⟩ true, .callback Lobby.Env.zero (fun _ => true) true,
    .accept 8 ⟨"", 0⟩ ⟨"", 0⟩ true, .callback Lobby.Env.zero (fun _ => true) true,
    .dequeue Iocp.firstRequest (.success 4 [0, 2, 0, 1]) true,
    .callback Lobby.Env.zero (fun _ => true) true, .finish]

theorem oneWaiting_runs : (exec step Program.new oneWaiting).isSome = true := by decide +kernel

theorem registry_agrees_oneWaiting :
    ∃ sv, exec step Program.new oneWaiting = some sv ∧ sv.lobby.m_queue = [0] ∧ sv.Agrees :=
  ⟨(exec step Program.new oneWaiting).get oneWaiting_runs, (Option.some_get _).symm,
    by decide +kernel, registry_agrees (Option.some_get oneWaiting_runs).symm (by decide)⟩

/-! ## Serials that come back

Without the bound the counter of the serials wraps around. One connection stays, others come and
go behind it, and the one behind the wrap is announced with the serial of the one that has stayed.
-/

section Wrap

variable {sv : Program} {k : Nat}

/-- A connection with serial 0 has stayed in slot 0, and the next one gets serial `k`. -/
structure Staying (k : Nat) (sv : Program) : Prop where
  stack : sv.io_service.stack = []
  thrown : sv.io_service.thrown = none
  m_serial : sv.io_service.m_serial = k
  first : (sv.io_service.m_peer_array 0).socket ≠ none
  second : (sv.io_service.m_peer_array 1).socket = none
  entries : sv.lobby.m_players.entries = [(0, some 0)]

/-- What slot 1 holds when the socket 8 has been registered. -/
def secondPeer (s : Iocp.Service) : Iocp.Peer :=
  { Iocp.Service.resetPeer (s.m_peer_array 1) s.m_serial with socket := some 8 }

/-- The socket 8 is given to slot 1. -/
def registered (s : Iocp.Service) : Iocp.Service :=
  (({ s with m_serial := (s.m_serial + 1) % 2 ^ 64 }.setPeer 1 (secondPeer s)).record
    (.onCon 1 s.m_serial ⟨"", 0⟩)).push (.onCon 1 s.m_serial)

theorem registered_second (s : Iocp.Service) :
    (registered s).m_peer_array 1 = secondPeer s := by
  rw [registered, Iocp.Service.push_peer, Iocp.Service.record_peer, Iocp.Service.setPeer_self]

theorem registered_first (s : Iocp.Service) :
    (registered s).m_peer_array 0 = s.m_peer_array 0 := by
  rw [registered, Iocp.Service.push_peer, Iocp.Service.record_peer,
    Iocp.Service.setPeer_ne Nat.zero_ne_one]

theorem accept_second (h : Staying k sv) :
    step sv (.accept 8 ⟨"", 0⟩ ⟨"", 0⟩ true)
      = some { sv with io_service := registered sv.io_service } := by
  have hfind : Iocp.Service.findFree sv.io_service.m_peer_array Iocp.MAX_PEER_NUM 0 = some 1 := by
    show Iocp.Service.findFree _ (5118 + 1 + 1) 0 = some 1
    rw [Iocp.Service.findFree, if_pos h.first, Iocp.Service.findFree,
      if_neg (not_not.mpr h.second)]
  have hnew : sv.io_service.newPeer = (1, { sv.io_service with
      m_serial := (sv.io_service.m_serial + 1) % 2 ^ 64 }.setPeer 1
        (Iocp.Service.resetPeer (sv.io_service.m_peer_array 1) sv.io_service.m_serial)) := by
    rw [Iocp.Service.newPeer, hfind]
  have hu : sv.io_service.userRuns = true := by
    rw [Iocp.Service.userRuns, h.thrown, h.stack]
  show (Iocp.step sv.io_service _).map _ = _
  rw [Iocp.step, if_pos ⟨hu, h.stack⟩, Iocp.Service.registerSocket, hnew]
  dsimp only
  rw [Iocp.Service.getPeer, if_neg (by decide), if_pos rfl, Iocp.Service.setPeer_self,
    Iocp.Service.setPeer_setPeer]
  rfl

theorem closePeerEnd_thrown (s : Iocp.Service) (i : Nat) :
    (s.closePeerEnd i).thrown = s.thrown := by
  unfold Iocp.Service.closePeerEnd Iocp.Service.deletePeer
  dsimp only
  split <;> rfl

/-- A call in which the lobby sends nothing. -/
theorem call_silent {c : Lobby.Call} {env : Lobby.Env} {posts : Nat → Bool} {l : Lobby.GHS_Lobby}
    (hl : Lobby.step sv.lobby (c, env) = some l) (hsent : l.sent = sv.lobby.sent) :
    sv.call c env posts = some { sv with lobby := l } := by
  have hnone : Program.sends posts (l.sent.drop sv.lobby.sent.length) = [] := by
    rw [hsent, List.drop_length]
    rfl
  show (Lobby.step sv.lobby (c, env)).bind _ = _
  rw [hl, Option.bind_some, hnone]
  rfl

/-- The `WSARecv` of a new connection is refused, and `closePeer` calls `onDisCon`. -/
theorem postRecvRequest_refused {s : Iocp.Service} {i n : Nat} {w : Iocp.WSABUF} {p' : Iocp.Peer}
    (hi : i < Iocp.MAX_PEER_NUM) (hl : s.Live i n)
    (hm : Iocp.Service.offerRead (s.m_peer_array i) = .ok w p') :
    s.postRecvRequest i n false = ((s.newIOCxt.2.setPeer i p').record
      (.onDisCon i n p'.remote_addr)).push (.onDisCon i n) := by
  have hp := Iocp.keeps_offerRead.ok hm
  have hlive : ∀ {p : Iocp.Peer}, p.socket ≠ none → p.serial = n →
      ¬(p.serial ≠ n ∨ p.socket = none) := fun h1 h2 => not_or.mpr ⟨not_not.mpr h2, h1⟩
  rw [Iocp.Service.postRecvRequest, Iocp.Service.getPeer, if_neg (Nat.not_le.mpr hi),
    if_neg (hlive hl.1 hl.2)]
  dsimp only
  rw [Iocp.Service.onPeer_ok (s := s.newIOCxt.2) hm, if_neg Bool.false_ne_true,
    Iocp.Service.closePeer, Iocp.Service.getPeer, if_neg (Nat.not_le.mpr hi),
    Iocp.Service.setPeer_self, if_neg (hlive (hp.socket ▸ hl.1) (hp.serial.trans hl.2))]

/-- `onDisCon` is called for the second connection. -/
structure Leaving (k : Nat) (sv : Program) : Prop where
  stack : sv.io_service.stack = [.onDisCon 1 k]
  thrown : sv.io_service.thrown = none
  m_serial : sv.io_service.m_serial = (k + 1) % 2 ^ 64
  first : (sv.io_service.m_peer_array 0).socket ≠ none
  entries : ∃ p, sv.lobby.m_players.entries = [(0, some 0), (k, some p)]

theorem refuse_second (h : Staying k sv) (hk : 0 < k) :
    ∃ sv', callback Lobby.Env.zero (fun _ => true) false
      { sv with io_service := registered sv.io_service } = some sv' ∧ Leaving k sv' := by
  have hserial := registered_second sv.io_service
  have hstack : (registered sv.io_service).stack = [.onCon 1 k] := by
    show .onCon 1 sv.io_service.m_serial :: sv.io_service.stack = _
    rw [h.stack, h.m_serial]
  -- the lobby takes the player in
  have hfind : sv.lobby.m_players.find k = none := by
    show OrdMap.findIn k sv.lobby.m_players.entries = none
    rw [h.entries, OrdMap.findIn, if_neg (Nat.ne_of_lt hk)]
    rfl
  obtain ⟨l, hl, hsent, hentries⟩ : ∃ l, Lobby.step sv.lobby (.onCon 1 k, Lobby.Env.zero) = some l ∧
      l.sent = sv.lobby.sent ∧ ∃ p, l.m_players.entries = [(0, some 0), (k, some p)] := by
    rw [Lobby.step, Lobby.GHS_Lobby.addPlayer, hfind]
    refine ⟨_, rfl, rfl, sv.lobby.players.length, ?_⟩
    show OrdMap.insertIn k _ sv.lobby.m_players.entries = _
    rw [h.entries, OrdMap.insertIn, if_neg (Nat.not_lt_zero k), if_neg (Nat.ne_of_lt hk)]
    rfl
  -- there is room for a `WSARecv`, but it is refused
  have hvalid : (secondPeer sv.io_service).read_buf.Valid := SockBuf.valid_reset _
  have hroom : (secondPeer sv.io_service).read_buf.m_write_index + 512 < 2 ^ 31 := by
    show 0 + 512 < 2 ^ 31
    decide
  obtain ⟨b, hb, hvb, -⟩ := SockBuf.ensureWritableBytes_spec hvalid hroom
  have hoffer := Iocp.offerRead_ok hb hvb
  rw [← hserial] at hoffer
  have hlive : ((registered sv.io_service).popped []).Live 1 k := by
    rw [Iocp.Service.Live, Iocp.Service.popped_peer, hserial]
    exact ⟨Option.some_ne_none 8, h.m_serial⟩
  have hpost := postRecvRequest_refused (s := (registered sv.io_service).popped [])
    (by decide) hlive hoffer
  generalize ((registered sv.io_service).m_peer_array 1).withReadBuf b = q at hpost
  refine ⟨{ sv with
    lobby := l
    io_service := ((((registered sv.io_service).popped []).newIOCxt.2.setPeer 1 q).record
      (.onDisCon 1 k q.remote_addr)).push (.onDisCon 1 k) }, ?_, rfl, h.thrown, ?_, ?_, hentries⟩
  · unfold callback
    rw [hstack]
    show (Program.call (.onCon 1 k) Lobby.Env.zero _ _).bind _ = _
    have hcall : ∀ posts, ({ sv with io_service := registered sv.io_service } : Program).call
        (.onCon 1 k) Lobby.Env.zero posts
          = some { sv with io_service := registered sv.io_service, lobby := l } :=
      fun _ => call_silent hl hsent
    rw [hcall, Option.bind_some]
    show (Iocp.step (registered sv.io_service) (.return_ 0 false)).map _ = _
    rw [Iocp.step_onCon (s := registered sv.io_service) h.thrown hstack,
      Iocp.Service.registerSocketEnd, hlive.2, hpost]
    rfl
  · show (sv.io_service.m_serial + 1) % 2 ^ 64 = _
    rw [h.m_serial]
  · show ((Iocp.Service.setPeer _ 1 q).m_peer_array 0).socket ≠ none
    rw [Iocp.Service.setPeer_ne Nat.zero_ne_one]
    exact (registered_first sv.io_service).symm ▸ h.first

theorem close_second (h : Leaving k sv) (hk : 0 < k) :
    ∃ sv', callback Lobby.Env.zero (fun _ => true) true sv = some sv' ∧
      Staying ((k + 1) % 2 ^ 64) sv' := by
  obtain ⟨p, hentries⟩ := h.entries
  have hstep : Lobby.step sv.lobby (.onDisCon k, Lobby.Env.zero)
      = some (sv.lobby.removePlayer k) := rfl
  have hfind : sv.lobby.m_players.find k = some (some p) := by
    show OrdMap.findIn k sv.lobby.m_players.entries = _
    rw [hentries, OrdMap.findIn, if_neg (Nat.ne_of_lt hk), OrdMap.findIn, if_pos rfl]
  have hremove : sv.lobby.removePlayer k = { sv.lobby with
      m_players := sv.lobby.m_players.erase k } := by
    rw [Lobby.GHS_Lobby.removePlayer, hfind]
  refine ⟨{ sv with
    lobby := sv.lobby.removePlayer k
    io_service := (sv.io_service.popped []).closePeerEnd 1 }, ?_,
    Iocp.Service.closePeerEnd_stack _ 1, ?_, ?_, ?_, ?_, ?_⟩
  · unfold callback
    rw [h.stack]
    show (Program.call (.onDisCon k) Lobby.Env.zero _ _).bind _ = _
    rw [call_silent hstep (by rw [hremove]), Option.bind_some]
    show (Iocp.step sv.io_service (.return_ 0 true)).map _ = _
    rw [Iocp.step_onDisCon h.thrown h.stack]
    rfl
  · rw [closePeerEnd_thrown]
    exact h.thrown
  · exact (Iocp.Service.closePeerEnd_m_serial _ 1).trans h.m_serial
  · rw [Iocp.Service.closePeerEnd_peer_ne Nat.zero_ne_one]
    exact h.first
  · rw [Iocp.Service.closePeerEnd_peer_self]
    rfl
  · rw [hremove]
    show sv.lobby.m_players.entries.filter (fun e => e.1 ≠ k) = _
    rw [hentries]
    simp [Nat.ne_of_lt hk]

/-- A connection comes and goes. -/
theorem round_second (h : Staying k sv) (hk : 0 < k) :
    ∃ inputs sv', exec step sv inputs = some sv' ∧ Staying ((k + 1) % 2 ^ 64) sv' := by
  obtain ⟨sv₁, h1, hleaving⟩ := refuse_second h hk
  obtain ⟨sv₂, h2, hstaying⟩ := close_second hleaving hk
  refine ⟨[.accept 8 ⟨"", 0⟩ ⟨"", 0⟩ true, .callback Lobby.Env.zero (fun _ => true) false,
    .callback Lobby.Env.zero (fun _ => true) true], sv₂, ?_, hstaying⟩
  have h1' : step { sv with io_service := registered sv.io_service }
      (.callback Lobby.Env.zero (fun _ => true) false) = some sv₁ := h1
  have h2' : step sv₁ (.callback Lobby.Env.zero (fun _ => true) true) = some sv₂ := h2
  rw [exec_cons (accept_second h), exec_cons h1', exec_cons h2', exec]

/-- The first connection of the server, which stays. -/
def oneConnection : List Input :=
  [.accept 7 ⟨"", 0⟩ ⟨"", 0⟩ true, .callback Lobby.Env.zero (fun _ => true) true]

theorem oneConnection_runs : (exec step Program.new oneConnection).isSome = true := by
  decide +kernel

/-- Any serial but the first can be the next. -/
theorem staying_reached (k : Nat) (hk : k + 1 < 2 ^ 64) :
    ∃ inputs sv, exec step Program.new inputs = some sv ∧ Staying (k + 1) sv := by
  induction k with
  | zero =>
    refine ⟨oneConnection, (exec step Program.new oneConnection).get oneConnection_runs,
      (Option.some_get _).symm, ?_, ?_, ?_, ?_, ?_, ?_⟩ <;> decide +kernel
  | succ k ih =>
    obtain ⟨xs, sv, hxs, hstay⟩ := ih (by omega)
    obtain ⟨ys, sv', hys, hstay'⟩ := round_second hstay (Nat.succ_pos k)
    refine ⟨xs ++ ys, sv', ?_, ?_⟩
    · rw [exec_append, hxs]
      exact hys
    · rwa [Nat.mod_eq_of_lt hk] at hstay'

/-- **The registry does not agree with the connections in every run**: behind `2^64` connections
the assertion of `addPlayer` fails. -/
theorem registry_wraps :
    ¬∀ inputs sv, exec step Program.new inputs = some sv → sv.Agrees := by
  intro hall
  obtain ⟨xs, sv, hxs, hstay⟩ := staying_reached (2 ^ 64 - 2) (by omega)
  obtain ⟨ys, sv', hys, hstay'⟩ := round_second hstay (by omega)
  have hzero : (2 ^ 64 - 2 + 1 + 1) % 2 ^ 64 = 0 := by omega
  rw [hzero] at hstay'
  have hrun : exec step Program.new (xs ++ ys ++ [.accept 8 ⟨"", 0⟩ ⟨"", 0⟩ true])
      = some { sv' with io_service := registered sv'.io_service } := by
    rw [exec_append, exec_append, hxs, Option.bind_some, hys, Option.bind_some,
      exec_cons (accept_second hstay'), exec]
  have hstack : (registered sv'.io_service).stack = [.onCon 1 0] := by
    show .onCon 1 sv'.io_service.m_serial :: sv'.io_service.stack = _
    rw [hstay'.stack, hstay'.m_serial]
  refine (hall _ _ hrun).addPlayer 1 0 [] Lobby.Env.zero hstack ?_
  have hfind : sv'.lobby.m_players.find 0 = some (some 0) := by
    show OrdMap.findIn 0 sv'.lobby.m_players.entries = _
    rw [hstay'.entries]
    rfl
  show sv'.lobby.addPlayer 1 0 Lobby.Env.zero = none
  rw [Lobby.GHS_Lobby.addPlayer, hfind]

end Wrap

end GhNet.Server
