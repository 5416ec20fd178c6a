import GhNet.Infra.Pipes
import GhNet.Infra.Simulation
import GhNet.Select.Books

/-!
# The data of the select service

What the buffers of the service do to the data of the connections: `SelectIOService` carries out
the pipes. A step opens a connection, closes one, moves data of one, or does nothing to any of them,
whatever else it does: buffers grow and are compacted, exceptions fly, slots and handles are given to
others.

The history is put beside the service. It is told from the action and the state that it finds.
-/

namespace GhNet.Select

open GhNet Service
open GhNet.Iocp (Addr Peer MAX_PEER_NUM)

variable {s s' t u : Service} {a : Action} {i index n : Nat} {f : Frame} {rest : List Frame}

/-! ## What a step moves -/

/-- A slot as a pipe. -/
def pipeOf (number : Nat) (p : Peer) : Option (Pipe UInt8) :=
  if p.socket = none then none else some ⟨number, p.write_buf.content, p.read_buf.content⟩

/-- What is buffered for the connection of a slot. -/
def Service.pipe (s : Service) (j : Nat) : Option (Pipe UInt8) := pipeOf (s.reg j) (s.m_peer_array j)

/-- The data that the step moves through the buffers of a slot. -/
def moved (s : Service) : Action → Option (Nat × Transfer UInt8)
  | .send index serial buf =>
    if index < MAX_PEER_NUM ∧ (s.m_peer_array index).serial = serial ∧
        (s.m_peer_array index).socket ≠ some 0 then
      match SockBuf.apendBuf buf (s.m_peer_array index).write_buf with
      | .ok _ _ => some (index, .sent buf)
      | .error _ _ => none
    else none
  | .look (some pending) =>
    match s.stack with
    | .loop i :: _ =>
      match s.m_online_peers[i]? with
      | some index =>
        if index < MAX_PEER_NUM ∧ FD_ISSET (s.m_peer_array index).socket s.m_read_set then
          match offerRead (s.m_peer_array index).read_buf with
          | .ok len _ => some (index, .received (pending.take len))
          | .error _ _ => none
        else none
      | none => none
    | _ => none
  | .write (some taken) =>
    match s.stack with
    | .write _ index :: _ =>
      if FD_ISSET (s.m_peer_array index).socket s.m_write_set then
        some (index, .transmitted ((s.m_peer_array index).write_buf.content.take taken))
      else none
    | _ => none
  | .readMove len =>
    match s.stack with
    | .onRead _ index :: _ =>
      some (index, .consumed ((s.m_peer_array index).read_buf.content.take len))
    | _ => none
  | _ => none

/-- What the history gets: the data that the step moves for an open connection. -/
def entry (s : Service) (a : Action) : List (Nat × Transfer UInt8) :=
  match moved s a with
  | some (index, x) => if (s.m_peer_array index).socket = none then [] else [(s.reg index, x)]
  | none => []

/-- The service and what has gone through its buffers. -/
structure History where
  service : Service
  log : List (Nat × Transfer UInt8)

namespace History

/-- A step, and what it transfers. -/
def step (h : History) (a : Action) : Option History :=
  (Select.step h.service a).map fun s' => ⟨s', h.log ++ entry h.service a⟩

/-- Nothing was transferred yet. -/
def Init (h : History) : Prop := Select.Init h.service ∧ h.log = []

/-- Every run has its history. -/
theorem of_reach {ok : Service → Action → Prop} (hr : Reach Select.Init Select.step ok s) :
    ∃ log, Reach Init step (fun h a => ok h.service a) ⟨s, log⟩ := by
  induction hr with
  | start h => exact ⟨[], .start ⟨h, rfl⟩⟩
  | @next s s' a _ hok hs ih =>
    obtain ⟨log, hr⟩ := ih
    refine ⟨log ++ entry s a, .next hr hok ?_⟩
    rw [step, hs]
    rfl

end History

/-! ## The condition -/

/-- Nobody sends more than 2 GiB at once, `onRead` consumes what there is, and `closePeer` is not
called, from its `onDisCon`, for the peer that is being closed. -/
def prudent (s : Service) (a : Action) : Bool :=
  allowed s a &&
    match a with
    | .send _ _ buf => decide (buf.length ≤ 2 ^ 31)
    | .readMove len =>
      match s.stack with
      | .onRead _ index :: _ => decide (len ≤ (s.m_peer_array index).read_buf.content.length)
      | _ => true
    | _ => true

/-! ## Buffers -/

/-- Both buffers of the peer are in order. -/
structure Whole (p : Peer) : Prop where
  write : p.write_buf.Valid
  read : p.read_buf.Valid

/-- The buffers are in order, and no closed socket is marked for writing. -/
structure Sound (s : Service) : Prop where
  peers : ∀ j, Whole (s.m_peer_array j)
  marks : none ∉ s.m_write_set

/-- The connections and their buffers stay as they are. -/
structure Still (s t : Service) : Prop where
  peers : t.m_peer_array = s.m_peer_array
  reg : t.reg = s.reg
  count : t.count = s.count
  marks : none ∉ s.m_write_set → none ∉ t.m_write_set

namespace Still

theorem refl (s : Service) : Still s s := ⟨rfl, rfl, rfl, id⟩

theorem trans (h : Still s t) (h' : Still t u) : Still s u :=
  ⟨h'.peers.trans h.peers, h'.reg.trans h.reg, h'.count.trans h.count, h'.marks ∘ h.marks⟩

theorem throw (s : Service) (e : Error) : Still s (s.throw e) := ⟨rfl, rfl, rfl, id⟩

theorem push (s : Service) (f : Frame) : Still s (s.push f) := ⟨rfl, rfl, rfl, id⟩

theorem popped (s : Service) (rest : List Frame) : Still s (s.popped rest) := ⟨rfl, rfl, rfl, id⟩

theorem record (s : Service) (x : Act) : Still s (s.record x) := ⟨rfl, rfl, rfl, id⟩

theorem pipe (h : Still s t) : t.pipe = s.pipe := by
  funext j
  rw [Service.pipe, Service.pipe, h.peers, h.reg]

theorem sound (h : Still s t) (hs : Sound s) : Sound t := ⟨h.peers ▸ hs.peers, h.marks hs.marks⟩

end Still

theorem getPeer_still (s : Service) (i : Nat) (k : Peer → Service) :
    Still s (s.getPeer i k) ∨ i < MAX_PEER_NUM ∧ s.getPeer i k = k (s.m_peer_array i) := by
  unfold getPeer
  split
  · exact .inl (.throw _ _)
  · next h => exact .inr ⟨Nat.lt_of_not_ge h, rfl⟩

theorem closePeer_still (s : Service) (i n : Nat) (b : Option Which) :
    Still s (s.closePeer i n b) := by
  rcases getPeer_still s i _ with h | ⟨-, h⟩
  · exact h
  · rw [closePeer, h]
    split
    · exact .refl s
    · exact .push _ _

/-! ## What a step does to the pipes -/

/-- One thing happens to the pipes, or nothing. The list is what the history gets. -/
inductive Carried (s : Service) : List (Nat × Transfer UInt8) → Service → Prop
  | same {s' : Service} (hp : s'.pipe = s.pipe) (hc : s'.count = s.count) : Carried s [] s'
  | opened {i : Nat} {s' : Service} (hi : s.pipe i = none)
      (hp : s'.pipe = Function.update s.pipe i (some ⟨s.count, [], []⟩))
      (hc : s'.count = s.count + 1) : Carried s [] s'
  | closed {i : Nat} {s' : Service} (hp : s'.pipe = Function.update s.pipe i none)
      (hc : s'.count = s.count) : Carried s [] s'
  | through {i : Nat} {c c' : Pipe UInt8} {x : Transfer UInt8} {s' : Service}
      (hi : s.pipe i = some c) (hx : c.carry x = some c')
      (hp : s'.pipe = Function.update s.pipe i (some c')) (hc : s'.count = s.count) :
      Carried s [(c.number, x)] s'

theorem Still.carried (h : Still s t) : Carried s [] t := .same h.pipe h.count

theorem Carried.still {l : List (Nat × Transfer UInt8)} (h : Carried s l t) (hs : Still t u) :
    Carried s l u := by
  cases h with
  | same hp hc => exact .same (hs.pipe.trans hp) (hs.count.trans hc)
  | opened hi hp hc => exact .opened hi (hs.pipe.trans hp) (hs.count.trans hc)
  | closed hp hc => exact .closed (hs.pipe.trans hp) (hs.count.trans hc)
  | through hi hx hp hc => exact .through hi hx (hs.pipe.trans hp) (hs.count.trans hc)

theorem Carried.of_still {l : List (Nat × Transfer UInt8)} (hs : Still s t) (h : Carried t l u) :
    Carried s l u := by
  cases h with
  | same hp hc => exact .same (hp.trans hs.pipe) (hc.trans hs.count)
  | opened hi hp hc =>
    rw [hs.pipe] at hi hp
    rw [hs.count] at hp hc
    exact .opened hi hp hc
  | closed hp hc => exact .closed (hs.pipe ▸ hp) (hc.trans hs.count)
  | through hi hx hp hc => exact .through (hs.pipe ▸ hi) hx (hs.pipe ▸ hp) (hc.trans hs.count)

theorem pipe_setPeer (s : Service) (i : Nat) (p : Peer) :
    (s.setPeer i p).pipe = Function.update s.pipe i (pipeOf (s.reg i) p) := by
  funext j
  by_cases hj : j = i
  · subst hj
    rw [Function.update_self, Service.pipe, setPeer_self]
    rfl
  · rw [Function.update_of_ne hj, Service.pipe, Service.pipe]
    exact congrArg (pipeOf (s.reg j)) (if_neg hj)

theorem Sound.setPeer (h : Sound s) (i : Nat) {p : Peer} (hp : Whole p) : Sound (s.setPeer i p) := by
  refine ⟨fun j => ?_, h.marks⟩
  show Whole (if j = i then p else s.m_peer_array j)
  split
  · exact hp
  · exact h.peers j

/-- A slot is rewritten with the same data. -/
theorem Carried.rewritten {p : Peer} (hp : pipeOf (s.reg i) p = s.pipe i) :
    Carried s [] (s.setPeer i p) :=
  .same (by rw [pipe_setPeer, hp, Function.update_eq_self]) rfl

theorem pipe_of_dead (h : (s.m_peer_array i).socket = none) : s.pipe i = none := if_pos h

theorem pipe_of_live (h : (s.m_peer_array i).socket ≠ none) : s.pipe i =
    some ⟨s.reg i, (s.m_peer_array i).write_buf.content, (s.m_peer_array i).read_buf.content⟩ :=
  if_neg h

/-! ## Code on buffers -/

/-- `apendBuf` throws and changes nothing, or the bytes stand behind the content. -/
theorem apendBuf_cases {b : SockBuf} (h : b.Valid) {buf : Bytes} (hl : buf.length ≤ 2 ^ 31) :
    (∃ e, SockBuf.apendBuf buf b = .error e b) ∨
      ∃ b', SockBuf.apendBuf buf b = .ok () b' ∧ b'.Valid ∧ b'.content = b.content ++ buf := by
  rw [SockBuf.apendBuf]
  rcases SockBuf.ensureWritableBytes_cases h hl with ⟨e, he⟩ | ⟨b₁, hb, hv, hc, hroom⟩
  · exact .inl ⟨e, bind_error he⟩
  · obtain ⟨b₂, b', hcopy, hadv, hv', hc', -⟩ := SockBuf.copyIn_advanceWrite hv hroom
    exact .inr ⟨b', by rw [bind_ok hb, bind_ok hcopy, hadv], hv', by rw [hc', hc]⟩

/-- What `recv` is offered, if the buffer does not throw, has room behind the content. -/
theorem offerRead_cases {b : SockBuf} (h : b.Valid) : (∃ e, offerRead b = .error e b) ∨
    ∃ len b', offerRead b = .ok len b' ∧ b'.Valid ∧ b'.content = b.content ∧
      b'.m_write_index + len ≤ b'.m_size := by
  have h512 : 512 ≤ 2 ^ 31 := by decide
  rw [offerRead]
  rcases SockBuf.ensureWritableBytes_cases h h512 with ⟨e, he⟩ | ⟨b', hb, hv, hc, -⟩
  · exact .inl ⟨e, bind_error he⟩
  · have hw := hv.write_le
    exact .inr ⟨_, b', by rw [bind_ok hb, SockBuf.writableBytes_eq hv], hv, hc, by omega⟩

theorem received_eq {b : SockBuf} (h : b.Valid) {bytes : Bytes}
    (hroom : b.m_write_index + bytes.length ≤ b.m_size) :
    ∃ b', received bytes b = .ok () b' ∧ b'.Valid ∧ b'.content = b.content ++ bytes := by
  obtain ⟨-, b', hmove, hv, hc⟩ := SockBuf.writeMove_write h hroom
  exact ⟨b', hmove, hv, hc⟩

/-- Code on the write buffer of a slot, given what it comes to. -/
theorem onWriteBuf_of_ok {α : Type} {m : SockBufM α} {x : α} {b : SockBuf}
    (h : m (s.m_peer_array i).write_buf = .ok x b) (k : α → Service → Service) :
    s.onPeer i (Peer.onWriteBuf m) k
      = k x (s.setPeer i { s.m_peer_array i with write_buf := b }) := by
  rw [onPeer, Peer.onWriteBuf, h]

theorem onReadBuf_of_ok {α : Type} {m : SockBufM α} {x : α} {b : SockBuf}
    (h : m (s.m_peer_array i).read_buf = .ok x b) (k : α → Service → Service) :
    s.onPeer i (Peer.onReadBuf m) k = k x (s.setPeer i ((s.m_peer_array i).withReadBuf b)) := by
  rw [onPeer, Peer.onReadBuf, h]

@[simp] theorem setPeer_same (s : Service) (i : Nat) : s.setPeer i (s.m_peer_array i) = s := by
  have h : (fun j => if j = i then s.m_peer_array i else s.m_peer_array j) = s.m_peer_array := by
    funext j
    split
    · next hj => rw [hj]
    · rfl
  rw [Service.setPeer, h]

/-- Code that throws and leaves the buffer leaves the service, but for the exception. -/
theorem onWriteBuf_of_error {α : Type} {m : SockBufM α} {e : Exception}
    (h : m (s.m_peer_array i).write_buf = .error e (s.m_peer_array i).write_buf)
    (k : α → Service → Service) :
    s.onPeer i (Peer.onWriteBuf m) k = s.throw (.peer e) := by
  rw [onPeer, Peer.onWriteBuf, h]
  exact congrArg (Service.throw · _) (setPeer_same s i)

theorem onReadBuf_of_error {α : Type} {m : SockBufM α} {e : Exception}
    (h : m (s.m_peer_array i).read_buf = .error e (s.m_peer_array i).read_buf)
    (k : α → Service → Service) :
    s.onPeer i (Peer.onReadBuf m) k = s.throw (.peer e) := by
  rw [onPeer, Peer.onReadBuf, h]
  exact congrArg (Service.throw · _) (setPeer_same s i)

/-- Code that only reads the write buffer. -/
theorem onWriteBuf_of_pure {α : Type} {m : SockBufM α} {x : α}
    (h : m (s.m_peer_array i).write_buf = .ok x (s.m_peer_array i).write_buf)
    (k : α → Service → Service) : s.onPeer i (Peer.onWriteBuf m) k = k x s := by
  rw [onWriteBuf_of_ok h]
  exact congrArg (k x) (setPeer_same s i)

/-! ## The steps -/

/-- A step that moves nothing has nothing for the history. -/
theorem entry_of_none (h : moved s a = none) : entry s a = [] := by rw [entry, h]

theorem entry_of_dead {x : Transfer UInt8} (h : moved s a = some (i, x))
    (hd : (s.m_peer_array i).socket = none) : entry s a = [] := by
  rw [entry, h]
  exact if_pos hd

theorem entry_of_live {x : Transfer UInt8} (h : moved s a = some (i, x))
    (hl : (s.m_peer_array i).socket ≠ none) : entry s a = [(s.reg i, x)] := by
  rw [entry, h]
  exact if_neg hl

/-- The buffers of a slot move data as they tell the history, if the slot is open. -/
theorem Carried.written {p : Peer} {x : Transfer UInt8} (hm : moved s a = some (i, x))
    (hsock : p.socket = (s.m_peer_array i).socket)
    (hx : Pipe.carry ⟨s.reg i, (s.m_peer_array i).write_buf.content,
      (s.m_peer_array i).read_buf.content⟩ x
        = some ⟨s.reg i, p.write_buf.content, p.read_buf.content⟩) :
    Carried s (entry s a) (s.setPeer i p) := by
  by_cases hd : (s.m_peer_array i).socket = none
  · rw [entry_of_dead hm hd]
    refine .rewritten ?_
    rw [pipe_of_dead hd]
    exact if_pos (hsock.trans hd)
  · rw [entry_of_live hm hd]
    have hp : pipeOf (s.reg i) p
        = some ⟨s.reg i, p.write_buf.content, p.read_buf.content⟩ := if_neg (hsock ▸ hd)
    exact .through (pipe_of_live hd) hx (by rw [pipe_setPeer, hp]) rfl

theorem send_carried (h : Sound s) {serial : Nat} {buf : Bytes} (hl : buf.length ≤ 2 ^ 31) :
    Sound (s.send index serial buf) ∧
      Carried s (entry s (.send index serial buf)) (s.send index serial buf) := by
  have hnone : ∀ {t}, Still s t → moved s (.send index serial buf) = none →
      Sound t ∧ Carried s (entry s (.send index serial buf)) t := fun ht hm =>
    ⟨ht.sound h, by rw [entry_of_none hm]; exact ht.carried⟩
  rw [Service.send]
  unfold getPeer
  split
  · next hi =>
    refine hnone (.throw _ _) ?_
    rw [moved, if_neg fun hc => absurd hc.1 (Nat.not_lt.mpr hi)]
  · next hi =>
    dsimp only
    split
    · next hg =>
      refine hnone (.refl s) ?_
      rw [moved, if_neg fun hc => hg.elim (fun hne => hne hc.2.1) hc.2.2]
    · next hg =>
      rw [not_or, not_not] at hg
      have hcond : index < MAX_PEER_NUM ∧ (s.m_peer_array index).serial = serial ∧
          (s.m_peer_array index).socket ≠ some 0 := ⟨Nat.lt_of_not_ge hi, hg.1, hg.2⟩
      rcases apendBuf_cases (h.peers index).write hl with ⟨e, he⟩ | ⟨b', hb, hv, hc⟩
      · rw [onWriteBuf_of_error he]
        refine hnone (.throw _ _) ?_
        rw [moved, if_pos hcond, he]
      · rw [onWriteBuf_of_ok hb]
        refine ⟨h.setPeer index ⟨hv, (h.peers index).read⟩, .written (x := .sent buf) ?_ rfl ?_⟩
        · rw [moved, if_pos hcond, hb]
        · rw [Pipe.carry, hc]

theorem readMove_carried (h : Sound s) {len : Nat} (hst : s.stack = .onRead i index :: rest)
    (hl : len ≤ (s.m_peer_array index).read_buf.content.length) :
    Sound (s.onPeer index (Peer.onReadBuf (SockBuf.readMove len)) fun _ s => s) ∧
      Carried s (entry s (.readMove len))
        (s.onPeer index (Peer.onReadBuf (SockBuf.readMove len)) fun _ s => s) := by
  obtain ⟨b', hb, hv, hc, -⟩ := SockBuf.readMove_spec (h.peers index).read hl
  rw [onReadBuf_of_ok hb]
  refine ⟨h.setPeer index ⟨(h.peers index).write, hv⟩,
    .written (x := .consumed ((s.m_peer_array index).read_buf.content.take len)) ?_ rfl ?_⟩
  · simp only [moved, hst]
  · rw [Pipe.carry, dequeue_take, Option.map_some, ← hc]
    rfl

/-- The read event of a round behind `recv`, with room for what it has brought. -/
theorem readEvent_carried (h : Sound s) (i index : Nat) {ret : Int} {bytes : Bytes}
    (hret : ret ≤ 0 ∧ bytes = [] ∨ ret = bytes.length)
    (hroom : (s.m_peer_array index).read_buf.m_write_index + bytes.length ≤
      (s.m_peer_array index).read_buf.m_size) :
    ∃ b, b.Valid ∧ b.content = (s.m_peer_array index).read_buf.content ++ bytes ∧
      Still (s.setPeer index ((s.m_peer_array index).withReadBuf b))
        (s.readEvent i index ret bytes) := by
  have hkept : bytes = [] → ∃ b : SockBuf, b.Valid ∧
      b.content = (s.m_peer_array index).read_buf.content ++ bytes ∧
      Still (s.setPeer index ((s.m_peer_array index).withReadBuf b))
        (s.closePeer index (s.m_peer_array index).serial (some .read)) := by
    rintro rfl
    refine ⟨_, (h.peers index).read, (List.append_nil _).symm, ?_⟩
    have hsame : s.setPeer index ((s.m_peer_array index).withReadBuf
        (s.m_peer_array index).read_buf) = s := setPeer_same s index
    rw [hsame]
    exact closePeer_still _ _ _ _
  have hempty : ret ≤ 0 → bytes = [] := fun hle =>
    hret.elim And.right fun he => List.eq_nil_of_length_eq_zero (by omega)
  unfold readEvent
  split
  · next h0 => exact hkept (hempty (Int.le_of_eq h0))
  · split
    · next hneg => exact hkept (hempty (Int.le_of_lt hneg))
    · obtain ⟨b, hb, hv, hc⟩ := received_eq (h.peers index).read hroom
      rw [onReadBuf_of_ok hb]
      exact ⟨b, hv, hc, .push _ _⟩

theorem recv_fits (pending : Option Bytes) (len : Nat) :
    ((recv pending len).1 ≤ 0 ∧ (recv pending len).2 = [] ∨
      (recv pending len).1 = (recv pending len).2.length) ∧
    (recv pending len).2.length ≤ len := by
  cases pending with
  | none => exact ⟨.inl ⟨show (-1 : Int) ≤ 0 by decide, rfl⟩, Nat.zero_le _⟩
  | some bytes => exact ⟨.inr rfl, List.length_take_le len bytes⟩

/-- The read event from `ensureWritableBytes` on. -/
theorem readEvent_from_offer (h : Sound s) {len : Nat} {b : SockBuf} (pending : Option Bytes)
    (x : Act) (hv : b.Valid) (hc : b.content = (s.m_peer_array index).read_buf.content)
    (hroom : b.m_write_index + len ≤ b.m_size) :
    ∃ b', b'.Valid ∧
      b'.content = (s.m_peer_array index).read_buf.content ++ (recv pending len).2 ∧
      Still (s.setPeer index ((s.m_peer_array index).withReadBuf b'))
        (((s.setPeer index ((s.m_peer_array index).withReadBuf b)).record x).readEvent i index
          (recv pending len).1 (recv pending len).2) := by
  have hself : ((s.setPeer index ((s.m_peer_array index).withReadBuf b)).record x).m_peer_array index
      = (s.m_peer_array index).withReadBuf b := setPeer_self s index _
  have hs : Sound ((s.setPeer index ((s.m_peer_array index).withReadBuf b)).record x) :=
    (Still.record _ x).sound (h.setPeer index ⟨(h.peers index).write, hv⟩)
  obtain ⟨hret, hlen⟩ := recv_fits pending len
  obtain ⟨b', hv', hc', hstill⟩ := readEvent_carried hs i index hret
    (by rw [hself]; exact Nat.le_trans (Nat.add_le_add_left hlen _) hroom)
  rw [hself] at hc' hstill
  have hpeers : ((s.setPeer index ((s.m_peer_array index).withReadBuf b)).setPeer index
      ((s.m_peer_array index).withReadBuf b')).m_peer_array
        = (s.setPeer index ((s.m_peer_array index).withReadBuf b')).m_peer_array := by
    rw [setPeer_setPeer]
  -- the slot is written twice
  have htwice : Still (s.setPeer index ((s.m_peer_array index).withReadBuf b'))
      (((s.setPeer index ((s.m_peer_array index).withReadBuf b)).record x).setPeer index
        (((s.m_peer_array index).withReadBuf b).withReadBuf b')) :=
    ⟨hpeers, rfl, rfl, id⟩
  exact ⟨b', hv', by rw [hc', ← hc]; rfl, htwice.trans hstill⟩

/-- A read event is one of the data that it brings. -/
theorem received_carried {pending : Option Bytes} (len : Nat) {b : SockBuf}
    (hm : ∀ bytes, pending = some bytes →
      moved s (.look pending) = some (index, .received (bytes.take len)))
    (hc : b.content = (s.m_peer_array index).read_buf.content ++ (recv pending len).2) :
    Carried s (entry s (.look pending))
      (s.setPeer index ((s.m_peer_array index).withReadBuf b)) := by
  cases pending with
  | none =>
    have hc : b.content = (s.m_peer_array index).read_buf.content :=
      hc.trans (List.append_nil _)
    rw [entry_of_none rfl]
    refine .rewritten ?_
    rw [Service.pipe, pipeOf, pipeOf, ← hc]
    rfl
  | some bytes =>
    exact .written (hm bytes rfl) rfl
      (congrArg (fun q => some (Pipe.mk (s.reg index) _ q)) (Eq.symm hc))

theorem look_carried (h : Sound s) {pending : Option Bytes} (hst : s.stack = .loop i :: rest) :
    Sound ((s.popped rest).look i pending) ∧
      Carried s (entry s (.look pending)) ((s.popped rest).look i pending) := by
  have hnone : ∀ {t}, Still (s.popped rest) t → moved s (.look pending) = none →
      Sound t ∧ Carried s (entry s (.look pending)) t := fun ht hm =>
    ⟨((Still.popped s rest).trans ht).sound h,
      by rw [entry_of_none hm]; exact ((Still.popped s rest).trans ht).carried⟩
  unfold Service.look
  cases hi : (s.popped rest).m_online_peers[i]? with
  | none =>
    have hi : s.m_online_peers[i]? = none := hi
    refine hnone (.refl _) ?_
    cases pending <;> simp only [moved, hst, hi]
  | some index =>
    have hi : s.m_online_peers[i]? = some index := hi
    dsimp only
    unfold getPeer
    split
    · next hge =>
      refine hnone (.throw _ _) ?_
      have hlt : ¬index < MAX_PEER_NUM := Nat.not_lt.mpr hge
      cases pending <;> simp only [moved, hst, hi, hlt, false_and, if_false]
    · next hge =>
      have hlt : index < MAX_PEER_NUM := Nat.lt_of_not_ge hge
      dsimp only
      split
      · next hm =>
        have hcond : index < MAX_PEER_NUM ∧
            FD_ISSET (s.m_peer_array index).socket s.m_read_set = true := ⟨hlt, hm⟩
        have hp : Sound (s.popped rest) := (Still.popped s rest).sound h
        rcases offerRead_cases (h.peers index).read with ⟨e, he⟩ | ⟨len, b, hb, hv, hc, hroom⟩
        · rw [onReadBuf_of_error (s := s.popped rest) he]
          refine hnone (.throw _ _) ?_
          cases pending with
          | none => rfl
          | some bytes => simp only [moved, hst, hi, if_pos hcond, he]
        · rw [onReadBuf_of_ok (s := s.popped rest) hb]
          obtain ⟨b', hv', hc', hstill⟩ := readEvent_from_offer (i := i) hp pending
            (.recv (s.reg index)) hv hc hroom
          have hset : Still (s.setPeer index ((s.m_peer_array index).withReadBuf b'))
              ((s.popped rest).setPeer index ((s.m_peer_array index).withReadBuf b')) :=
            ⟨rfl, rfl, rfl, id⟩
          have hin : Carried s (entry s (.look pending))
              (s.setPeer index ((s.m_peer_array index).withReadBuf b')) := by
            refine received_carried len (fun bytes hbytes => ?_) hc'
            rw [hbytes]
            simp only [moved, hst, hi, if_pos hcond, hb]
          exact ⟨(hset.trans hstill).sound (h.setPeer index ⟨(h.peers index).write, hv'⟩),
            hin.still (hset.trans hstill)⟩
      · next hm =>
        have hm : FD_ISSET (s.m_peer_array index).socket s.m_read_set = false :=
          Bool.eq_false_iff.mpr hm
        refine hnone (.push _ _) ?_
        cases pending <;> simp [moved, hst, hi, hm]

/-- The write event of a round, from `readableBytes` on. -/
theorem writeEvent_still (h : Sound s) (i index n : Nat) :
    ∃ b, b.Valid ∧ b.content = (s.m_peer_array index).write_buf.content.drop n ∧
      Still (s.setPeer index { s.m_peer_array index with write_buf := b })
        (if (s.m_peer_array index).write_buf.content.length > 0 then
          (s.record (.send (s.reg index))).writeEvent i index
            (s.m_peer_array index).write_buf.content.length (some n)
        else s.push (.loop (i + 1))) := by
  split
  · obtain ⟨b, hb, hv, hc, -⟩ := SockBuf.readMove_spec (h.peers index).write
      (Nat.min_le_right n (s.m_peer_array index).write_buf.content.length)
    refine ⟨b, hv, ?_, ?_⟩
    · rw [hc]
      rcases Nat.le_total n (s.m_peer_array index).write_buf.content.length with hle | hle
      · rw [Nat.min_eq_left hle]
      · rw [Nat.min_eq_right hle, List.drop_length, List.drop_of_length_le hle]
    · rw [writeEvent, onWriteBuf_of_ok (s := s.record _) hb]
      exact ⟨rfl, rfl, rfl, id⟩
  · next hk =>
    have hnil : (s.m_peer_array index).write_buf.content = [] :=
      List.eq_nil_of_length_eq_zero (by omega)
    refine ⟨(s.m_peer_array index).write_buf, (h.peers index).write, by rw [hnil, List.drop_nil], ?_⟩
    have hsame : s.setPeer index { s.m_peer_array index with
        write_buf := (s.m_peer_array index).write_buf } = s := setPeer_same s index
    rw [hsame]
    exact .push _ _

theorem write_carried (h : Sound s) {taken : Option Nat} (hst : s.stack = .write i index :: rest) :
    Sound ((s.popped rest).write i index taken) ∧
      Carried s (entry s (.write taken)) ((s.popped rest).write i index taken) := by
  have hnone : ∀ {t}, Still (s.popped rest) t → moved s (.write taken) = none →
      Sound t ∧ Carried s (entry s (.write taken)) t := fun ht hm =>
    ⟨((Still.popped s rest).trans ht).sound h,
      by rw [entry_of_none hm]; exact ((Still.popped s rest).trans ht).carried⟩
  unfold Service.write
  split
  · next hm =>
    have hm : FD_ISSET (s.m_peer_array index).socket s.m_write_set = true := hm
    rw [onWriteBuf_of_pure (s := s.popped rest) (SockBuf.readableBytes_eq (h.peers index).write)]
    cases taken with
    | none =>
      refine hnone ?_ rfl
      split
      · exact (Still.record _ _).trans (closePeer_still _ _ _ _)
      · exact .push _ _
    | some n =>
      obtain ⟨b, hv, hc, hstill⟩ := writeEvent_still ((Still.popped s rest).sound h) i index n
      have hset : Still (s.setPeer index { s.m_peer_array index with write_buf := b })
          ((s.popped rest).setPeer index { s.m_peer_array index with write_buf := b }) :=
        ⟨rfl, rfl, rfl, id⟩
      refine ⟨(hset.trans hstill).sound (h.setPeer index ⟨hv, (h.peers index).read⟩),
        Carried.still (.written (p := { s.m_peer_array index with write_buf := b })
          (x := .transmitted ((s.m_peer_array index).write_buf.content.take n)) ?_ rfl ?_)
          (hset.trans hstill)⟩
      · simp only [moved, hst, hm, if_true]
      · have hc : b.content = (s.m_peer_array index).write_buf.content.drop n := hc
        rw [Pipe.carry, dequeue_take, Option.map_some, ← hc]
  · next hm =>
    have hm : FD_ISSET (s.m_peer_array index).socket s.m_write_set = false :=
      Bool.eq_false_iff.mpr hm
    refine hnone (.push _ _) ?_
    cases taken <;> simp [moved, hst, hm]

end GhNet.Select
