import GhNet.Match.Machine

/-!
# What clients say

A client that follows the scripts asks for a match and takes that back by turns: it can ask only
when it is connected and has not asked, or has taken it back. And it knows that it plays, and on
which side, from nothing but the message that starts the game.
-/

namespace GhNet.Match

open GhNet GhNet.Lobby GhNet.Script

/-! ## Asking by turns -/

/-- Whether the message asks for a match, or takes that back. -/
def ask (body : Bytes) : Option Bool :=
  match commandOf (opcode body Env.zero) with
  | .autoMatch => some true
  | .unAutoMatch => some false
  | .gameReady | .other => none

/-- The requests among the messages. -/
def asks (bodies : List Bytes) : List Bool := bodies.filterMap ask

/-- Who waits does not ask before it has taken back, and neither does who has asked. -/
def Turn : Prop → List Bool → Prop
  | _, [] => True
  | waits, asked :: rest => (waits → asked = false) ∧ Turn (asked = true) rest

namespace Turn

variable {waits waits' : Prop} {asked : Bool} {rest more : List Bool}

theorem mono (h : Turn waits rest) (himp : waits' → waits) : Turn waits' rest := by
  cases rest with
  | nil => trivial
  | cons asked rest => exact ⟨fun hw => h.1 (himp hw), h.2⟩

theorem left (h : Turn waits (rest ++ more)) : Turn waits rest := by
  induction rest generalizing waits with
  | nil => trivial
  | cons asked rest ih => exact ⟨h.1, ih h.2⟩

/-- Taking back is always in turn, and so is asking then. -/
theorem concat_false_true (h : Turn waits rest) : Turn waits ((rest ++ [false]) ++ [true]) := by
  induction rest generalizing waits with
  | nil =>
    show (waits → false = false) ∧ (false = true → true = false) ∧ True
    exact ⟨fun _ => rfl, fun h => h.symm, trivial⟩
  | cons asked rest ih => exact ⟨h.1, ih h.2⟩

end Turn

/-! ## Packets -/

/-- The size of a message that a client sends. -/
def Sized (body : Bytes) : Prop := 2 ≤ body.length ∧ body.length ≤ Net.MAX_CMD_PACKET_SIZE

/-- The server reads the number of such a message as it is. -/
theorem Sized.opcode {body : Bytes} (h : Sized body) (env env' : Env) :
    opcode body env = opcode body env' := by
  match body, h with
  | [], h => exact absurd h.1 (by decide)
  | [_], h => exact absurd h.1 (by simp)
  | _ :: _ :: _, _ => rfl

/-- A message that has nothing to do with asking. -/
structure Plain (body : Bytes) : Prop where
  sized : Sized body
  not_asks : ask body = none

/-- The scripts send at most 26 bytes. -/
theorem plain_of_number {lo : UInt8} {data : Bytes}
    (hcmd : commandOf (be16Val 0 lo) = .other ∨ commandOf (be16Val 0 lo) = .gameReady)
    (hlen : data.length ≤ 24) : Plain (0 :: lo :: data) := by
  have hsize : (0 :: lo :: data).length = data.length + 2 := rfl
  refine ⟨⟨by omega, ?_⟩, ?_⟩
  · rw [hsize]
    exact Nat.le_trans (Nat.add_le_add_right hlen 2) (by decide)
  · unfold ask
    rw [show opcode (0 :: lo :: data) Env.zero = be16Val 0 lo from rfl]
    rcases hcmd with hcmd | hcmd
    · rw [hcmd]
    · rw [hcmd]

/-- What a call of the scripts may do: send nothing that asks and not become free to ask, or ask
when it is free to, or take back. It does not make the client play. -/
structure Follows (c : Client) (r : Client × List Bytes) : Prop where
  sized : ∀ body ∈ r.2, Sized body
  inTurn : (asks r.2 = [] ∧ (r.1.m_state = .ST_Connected → c.m_state = .ST_Connected)) ∨
    (asks r.2 = [true] ∧ c.m_state = .ST_Connected ∧ r.1.m_state ≠ .ST_Connected) ∨
    asks r.2 = [false]
  running : r.1.m_state = .ST_GameRunning → c.m_state = .ST_GameRunning ∧
    r.1.m_game.m_bSer = c.m_game.m_bSer ∧ r.1.m_game.m_bottom = c.m_game.m_bottom

section Follows

variable {c c' : Client}

/-- Nothing that matters changes. -/
theorem Follows.same {packets : List Bytes} (hplain : ∀ body ∈ packets, Plain body)
    (hstate : c'.m_state = c.m_state) (hser : c'.m_game.m_bSer = c.m_game.m_bSer)
    (hbottom : c'.m_game.m_bottom = c.m_game.m_bottom) : Follows c (c', packets) where
  sized := fun body h => (hplain body h).sized
  inTurn := by
    refine Or.inl ⟨List.filterMap_eq_nil_iff.mpr fun body h => (hplain body h).not_asks, ?_⟩
    rw [hstate]
    exact id
  running := by
    rw [hstate]
    exact fun h => ⟨h, hser, hbottom⟩

theorem Follows.silent (hstate : c'.m_state = c.m_state)
    (hser : c'.m_game.m_bSer = c.m_game.m_bSer)
    (hbottom : c'.m_game.m_bottom = c.m_game.m_bottom) : Follows c (c', []) :=
  .same (fun _ h => absurd h List.not_mem_nil) hstate hser hbottom

/-- One packet is sent. -/
theorem Follows.plain {packet : Bytes} (hplain : Plain packet) (hstate : c'.m_state = c.m_state)
    (hser : c'.m_game.m_bSer = c.m_game.m_bSer)
    (hbottom : c'.m_game.m_bottom = c.m_game.m_bottom) : Follows c (c', [packet]) :=
  .same (fun _ h => List.mem_singleton.mp h ▸ hplain) hstate hser hbottom

/-! ## The calls -/

theorem plain_timePacket {cmd : UInt16} (time : UInt32)
    (hcmd : cmd = Proto.Keep_Alive ∨ cmd = Proto.Keep_Alive_Ack) :
    Plain (Client.timePacket cmd time) := by
  unfold Client.timePacket Client.WriteData.writeUInt
  rw [Client.WriteData.addNumber_eq]
  have hlen : (leBytes 4 time.toNat).reverse.length ≤ 24 := by
    rw [List.length_reverse, length_leBytes]
    decide
  rcases hcmd with rfl | rfl
  · rw [show Client.command Proto.Keep_Alive = [0, 8] by decide]
    exact plain_of_number (by decide) hlen
  · rw [show Client.command Proto.Keep_Alive_Ack = [0, 9] by decide]
    exact plain_of_number (by decide) hlen

theorem fixedUpdate_follows (c : Client) (ticks : Nat → UInt32) :
    Follows c (c.fixedUpdate ticks) := by
  unfold Client.fixedUpdate
  split
  · exact .plain (plain_timePacket _ (Or.inl rfl)) rfl rfl rfl
  · exact .silent rfl rfl rfl

theorem sendInput_follows (c : Client) (x y : FloatBytes) (now : UInt32) :
    Follows c (c.sendInput x y now) := by
  refine .plain ?_ rfl rfl rfl
  unfold Client.WriteData.writeFloat
  rw [show Client.command Proto.C_GameShot = [0, 6] by decide, List.append_assoc]
  show Plain (0 :: 6 :: (x.val ++ y.val))
  refine plain_of_number (by decide) ?_
  rw [List.length_append, x.property, y.property]
  decide

theorem update_follows (c : Client) (ended : Bool) (ball : Client.Ball) (now : UInt32) :
    Follows c (c.update ended ball now) := by
  have hplain : Plain (Client.synchPos ball) := by
    unfold Client.synchPos Client.WriteData.writeFloat Client.WriteData.writeUInt64
    rw [Client.WriteData.addNumber_eq, show Client.command Proto.Synch_Pos = [0, 10] by decide]
    simp only [List.append_assoc]
    show Plain (0 :: 10 :: ((leBytes 8 ball.time.toNat).reverse ++
      (ball.x.val ++ (ball.z.val ++ (ball.vx.val ++ ball.vz.val)))))
    refine plain_of_number (by decide) ?_
    simp only [List.length_append, List.length_reverse, length_leBytes]
    rw [ball.x.property, ball.z.property, ball.vx.property, ball.vz.property]
  unfold Client.update
  split
  · dsimp only
    split
    · exact .plain hplain rfl rfl rfl
    · exact .silent rfl rfl rfl
  · exact .silent rfl rfl rfl

/-- What the buttons that send something do. -/
theorem onGUI_follows {button : Client.Button} (now : UInt32) (hshows : c.Shows button)
    (hsends : button ≠ .connect ∧ button ≠ .disconnect) : Follows c (c.onGUI button now) := by
  cases button with
  | connect => exact absurd rfl hsends.1
  | disconnect => exact absurd rfl hsends.2
  | automatch =>
    have hasks : asks [Client.command Proto.C_AutoMatch] = [true] := by decide
    refine ⟨fun body h => ?_, Or.inr (Or.inl ⟨hasks, hshows, nofun⟩), nofun⟩
    rw [List.mem_singleton.mp h]
    exact ⟨by decide, by decide⟩
  | cancelMatch =>
    have hasks : asks [Client.command Proto.C_UAutoMatch] = [false] := by decide
    refine ⟨fun body h => ?_, Or.inr (Or.inr hasks), nofun⟩
    rw [List.mem_singleton.mp h]
    exact ⟨by decide, by decide⟩
  | ready =>
    have hasks : asks [Client.command Proto.C_GameReady] = [] := by decide
    refine ⟨fun body h => ?_, Or.inl ⟨hasks, nofun⟩, nofun⟩
    rw [List.mem_singleton.mp h]
    exact ⟨by decide, by decide⟩

/-! ## `RecvData` -/

theorem networkNumber_pair (hi lo : UInt8) :
    Client.CmdPacket.networkNumber [hi, lo] = be16Val hi lo := by
  rw [← Client.hostToNetworkOrder_toUInt16 hi lo [], Client.hostToNetworkOrder_eq]
  rfl

/-- `ReadUShort` on a message of which nothing has been read. -/
theorem readUShort_holding {body : Bytes} {r : Option UInt16 × Client.CmdPacket}
    (h : (Client.CmdPacket.holding body).readUShort = some r) :
    r.1 = none ∨ ∃ hi lo rest, body = hi :: lo :: rest ∧
      r = (some (UInt16.ofNat (be16Val hi lo)), ⟨some body, 2⟩) := by
  obtain rfl := Option.some.inj h
  match body with
  | [] => exact Or.inl rfl
  | [_] => exact Or.inl rfl
  | hi :: lo :: rest =>
    refine Or.inr ⟨hi, lo, rest, rfl, ?_⟩
    rw [← networkNumber_pair]
    rfl

/-- The number is that of the message that starts a game. -/
theorem isStart_of_number {hi lo : UInt8} (rest : Bytes)
    (h : UInt16.ofNat (be16Val hi lo) = Proto.S_GameStart) : IsStart (hi :: lo :: rest) := by
  have hval : be16Val hi lo = 5 := by
    rw [← Nat.mod_eq_of_lt (be16Val_lt hi lo)]
    exact congrArg UInt16.toNat h
  have hhi := hi.toNat_lt
  have hlo := lo.toNat_lt
  unfold be16Val at hval
  have h0 : hi = 0 := UInt8.toNat_inj.mp (show hi.toNat = 0 by omega)
  have h5 : lo = 5 := UInt8.toNat_inj.mp (show lo.toNat = 5 by omega)
  rw [h0, h5]
  rfl

/-- The client plays, on the side that the message says. -/
def StartsGame (body : Bytes) (c : Client) (r : Client × List Bytes) : Prop :=
  IsStart body ∧ r.2 = [] ∧ r.1.m_state = .ST_GameRunning ∧
    ∃ g, Client.readGameStart ⟨some body, 2⟩ c.m_game = some g ∧ r.1.m_game = g.gameStart

/-- **What `RecvData` does with a message.** -/
theorem recvData_cases {body : Bytes} {ticks : Nat → UInt32} {r : Client × List Bytes}
    (h : c.recvData (Client.CmdPacket.holding body) ticks = some r) :
    Follows c r ∨ StartsGame body c r := by
  unfold Client.recvData at h
  dsimp only at h
  obtain ⟨⟨ret, packet⟩, hread, h⟩ := Option.bind_eq_some_iff.mp h
  dsimp only at h
  split at h
  · left
    obtain ⟨⟨time, _⟩, -, h⟩ := Option.bind_eq_some_iff.mp h
    cases time with
    | none =>
      obtain rfl := Option.some.inj h
      exact .silent rfl rfl rfl
    | some time =>
      obtain rfl := Option.some.inj h
      exact .plain (plain_timePacket time (Or.inr rfl)) rfl rfl rfl
  split at h
  · left
    obtain ⟨⟨time, _⟩, -, h⟩ := Option.bind_eq_some_iff.mp h
    cases time with
    | none =>
      obtain rfl := Option.some.inj h
      exact .silent rfl rfl rfl
    | some time =>
      obtain rfl := Option.some.inj h
      exact .silent rfl rfl rfl
  split at h
  · obtain rfl := Option.some.inj h
    exact Or.inl ⟨fun _ hm => absurd hm List.not_mem_nil, Or.inl ⟨rfl, nofun⟩, nofun⟩
  split at h
  · next hcmd =>
    right
    obtain ⟨g, hg, h⟩ := Option.bind_eq_some_iff.mp h
    obtain rfl := Option.some.inj h
    rcases readUShort_holding hread with hnone | ⟨hi, lo, rest, rfl, heq⟩
    · rw [show ret = none from hnone] at hcmd
      exact absurd hcmd (by decide)
    · obtain ⟨rfl, rfl⟩ := Prod.mk.inj heq
      exact ⟨isStart_of_number rest hcmd, rfl, rfl, g, hg, rfl⟩
  · obtain rfl := Option.some.inj h
    exact Or.inl (.silent rfl rfl rfl)

end Follows

/-- The message of the server says which side. -/
theorem readGameStart_startBody (bSer bottom : Bool) (g : Game) :
    Client.readGameStart ⟨some (GHS_Player.startBody bSer bottom), 2⟩ g =
      some { g with m_bSer := bSer, m_bottom := bottom } := by
  cases bSer <;> cases bottom <;> rfl

end GhNet.Match
