import Mathlib.Data.List.Range
import GhNet.Iocp.Steps

/-!
# The IO contexts

Every request carries an `IOContext` of the pool, which is given back when its completion has been
handled. A context is lost wherever the code leaves between the two: a request that the system does
not take, a completion that is no success or finds no socket, an exception out of a handler.
-/

namespace GhNet.Iocp

open GhNet Service

/-! ## The pool -/

namespace FreeList

variable {l : FreeList} {p : Nat} {held held' : List Nat}

/-- The addresses that have been handed out and not been given back are these, each once. -/
def Accounts (l : FreeList) (held : List Nat) : Prop :=
  (l.free_list_ ++ held).Perm (List.range l.fresh)

theorem accounts_congr (h : held.Perm held') : l.Accounts held ↔ l.Accounts held' :=
  ⟨fun hl => (h.symm.append_left _).trans hl, fun hl => (h.append_left _).trans hl⟩

theorem accounts_freeElem : (l.freeElem p).Accounts held ↔ l.Accounts (p :: held) :=
  ⟨List.perm_middle.trans, List.perm_middle.symm.trans⟩

theorem accounts_allocElem : l.allocElem.2.Accounts (l.allocElem.1 :: held) ↔ l.Accounts held := by
  obtain ⟨free, fresh⟩ := l
  cases free with
  | cons q rest => exact ⟨List.perm_middle.symm.trans, List.perm_middle.trans⟩
  | nil =>
    show (fresh :: held).Perm (List.range (fresh + 1)) ↔ held.Perm (List.range fresh)
    have hlast : (List.range (fresh + 1)).Perm (fresh :: List.range fresh) := by
      rw [List.range_succ]
      exact List.perm_append_singleton ..
    exact ⟨fun h => (h.trans hlast).cons_inv, fun h => (h.cons fresh).trans hlast.symm⟩

/-- What is not held any more has been given back. -/
theorem Accounts.not_lost (h : l.Accounts (p :: held)) : ¬l.Accounts held := by
  intro h'
  have hlen := h.length_eq
  have hlen' := h'.length_eq
  rw [List.length_append, List.length_cons] at hlen
  rw [List.length_append] at hlen'
  omega

/-- Nothing is handed out twice. -/
theorem Accounts.nodup (h : l.Accounts held) : (l.free_list_ ++ held).Nodup :=
  h.nodup_iff.mpr List.nodup_range

end FreeList

/-! ## Who holds a context -/

/-- The context that a handler of a completion is still to give back. -/
def Frame.context : Frame → Option Nat
  | .tick r => some r.io_context
  | _ => none

namespace Service

variable {s s' : Service} {i n : Nat}

/-- The contexts of the requests that the system has, and of those whose completion is being
handled. -/
def held (s : Service) : List Nat :=
  s.posted.map Request.io_context ++ s.stack.filterMap Frame.context

/-- A context that has been taken from the pool is held, by one request. -/
def Balanced (s : Service) : Prop := s.m_iocxt_pool.Accounts s.held

/-- There are no sockets behind the table. -/
def InRange (s : Service) : Prop := ∀ i, (s.m_peer_array i).socket ≠ none → i < MAX_PEER_NUM

theorem balanced_congr (hpool : s'.m_iocxt_pool = s.m_iocxt_pool) (hheld : s'.held.Perm s.held) :
    s'.Balanced ↔ s.Balanced := by
  rw [Balanced, hpool]
  exact FreeList.accounts_congr hheld

@[simp] theorem balanced_setPeer (p : Peer) : (s.setPeer i p).Balanced ↔ s.Balanced := Iff.rfl
@[simp] theorem balanced_throw (e : Exception) : (s.throw e).Balanced ↔ s.Balanced := Iff.rfl
@[simp] theorem balanced_record (e : Event) : (s.record e).Balanced ↔ s.Balanced := Iff.rfl

theorem balanced_push {f : Frame} (hf : f.context = none) : (s.push f).Balanced ↔ s.Balanced := by
  refine balanced_congr rfl (List.Perm.of_eq ?_)
  rw [held, push_stack, List.filterMap_cons_none hf]
  rfl

/-- A context that is taken for a request that is posted. -/
theorem balanced_post {r : Request} (hr : r.io_context = s.newIOCxt.1) (p : Peer) :
    ((s.newIOCxt.2.setPeer i p).post r).Balanced ↔ s.Balanced := by
  have hheld : ((s.newIOCxt.2.setPeer i p).post r).held.Perm (s.newIOCxt.1 :: s.held) := by
    show ((s.posted ++ [r]).map Request.io_context ++ _).Perm _
    rw [List.map_append, List.map_singleton, hr, List.append_assoc, List.singleton_append]
    exact List.perm_middle
  exact (FreeList.accounts_congr hheld).trans FreeList.accounts_allocElem

/-- A context that is taken and held by nobody. -/
theorem Balanced.not_newIOCxt (h : s.Balanced) : ¬s.newIOCxt.2.Balanced :=
  FreeList.Accounts.not_lost (FreeList.accounts_allocElem.mpr h)

end Service

/-! ## Code that takes a context -/

/-- Nothing is thrown. -/
def succeeds {ε σ α : Type} : EStateM.Result ε σ α → Bool
  | .ok _ _ => true
  | .error _ _ => false

/-- Code behind which a `WSASend` can be filled in. -/
def Offers (m : PeerM Nat) : Prop := ∀ p k p', m p = .ok k p' →
  ∃ len, SockBuf.readableBytes p'.write_buf = .ok len p'.write_buf

theorem Offers.bind {α : Type} {m : PeerM α} {f : α → PeerM Nat} (hf : ∀ a, Offers (f a)) :
    Offers (m >>= f) := by
  intro p k p' h
  cases hm : m p with
  | ok a q =>
    rw [bind_ok hm] at h
    exact hf a q k p' h
  | error e q =>
    rw [bind_error hm] at h
    cases h

theorem readableBytes_state {b b' : SockBuf} {k : Nat} (h : SockBuf.readableBytes b = .ok k b') :
    b' = b := by
  unfold SockBuf.readableBytes at h
  dsimp only at h
  split at h
  · cases h
  · injection h with _ hb
    exact hb.symm

theorem offers_readableBytes : Offers (Peer.onWriteBuf SockBuf.readableBytes) := by
  intro p k p' h
  unfold Peer.onWriteBuf at h
  split at h
  · next len b hb =>
    injection h with _ hp
    obtain rfl := readableBytes_state hb
    exact ⟨len, hp ▸ hb⟩
  · cases h

theorem offers_drainWrite (size : Nat) : Offers (drainWrite size) := by
  refine .bind fun _ => .bind fun _ => .bind fun send_bytes => ?_
  by_cases h : send_bytes > 0
  · simp only [h, if_true]
    exact .bind fun _ => .bind fun _ => .bind fun _ => offers_readableBytes
  · simp only [h, if_false]
    exact offers_readableBytes

namespace Service

variable {s s' : Service} {i n : Nat} {accepted : Bool}

theorem balanced_closing (h : Closing s i n s') : s'.Balanced ↔ s.Balanced := by
  cases h with
  | outOfRange _ e => exact balanced_throw e
  | stale _ => exact Iff.rfl
  | callback _ remote => exact (balanced_push rfl).trans (balanced_record _)

/-- If there is a connection, the `WSARecv` can be filled in and is taken. -/
def ReadsOn (s : Service) (i : Nat) (accepted : Bool) : Prop :=
  (s.m_peer_array i).socket ≠ none →
    accepted = true ∧ succeeds (offerRead (s.m_peer_array i)) = true

theorem balanced_postRecvRequest (h : s.Balanced) (hrange : s.InRange) :
    (s.postRecvRequest i (s.m_peer_array i).serial accepted).Balanced ↔ s.ReadsOn i accepted := by
  rw [postRecvRequest, getPeer]
  by_cases hi : i ≥ MAX_PEER_NUM
  · rw [if_pos hi]
    exact ⟨fun _ hsock => absurd (hrange i hsock) (Nat.not_lt.mpr hi), fun _ => h⟩
  rw [if_neg hi]
  by_cases hsock : (s.m_peer_array i).socket = none
  · rw [if_pos (.inr hsock)]
    exact ⟨fun _ hx => absurd hsock hx, fun _ => h⟩
  rw [if_neg (not_or.mpr ⟨not_not_intro rfl, hsock⟩)]
  dsimp only
  cases hm : offerRead (s.m_peer_array i) with
  | error e p' =>
    rw [onPeer_error (s := s.newIOCxt.2) hm]
    refine ⟨fun hx => absurd hx h.not_newIOCxt, fun hx => ?_⟩
    have hfalse := (hx hsock).2
    rw [hm] at hfalse
    cases hfalse
  | ok w p' =>
    rw [onPeer_ok (s := s.newIOCxt.2) hm]
    cases accepted with
    | true =>
      rw [if_pos rfl, balanced_post rfl]
      exact ⟨fun _ _ => ⟨rfl, by rw [hm]; rfl⟩, fun _ => h⟩
    | false =>
      rw [if_neg Bool.false_ne_true, balanced_closing (closePeer_outcome _ i _)]
      exact ⟨fun hx => absurd hx h.not_newIOCxt, fun hx => absurd (hx hsock).1 Bool.false_ne_true⟩

/-- If the message wakes up the connection, the signal is posted. -/
def SignalsOn (s : Service) (i n : Nat) (buf : Bytes) (accepted : Bool) : Prop :=
  s.Live i n → (s.m_peer_array i).wsa_send = false →
    accepted = true ∨ succeeds (Peer.onBackup (SockBuf.apendBuf buf) (s.m_peer_array i)) = false

theorem balanced_sending {buf : Bytes} (h : s.Balanced) (hrange : s.InRange)
    (hs : Sending s i n buf accepted s') : s'.Balanced ↔ s.SignalsOn i n buf accepted := by
  have hflag : ∀ {a p'}, Peer.onBackup (SockBuf.apendBuf buf) (s.m_peer_array i) = .ok a p' →
      p'.wsa_send = (s.m_peer_array i).wsa_send := fun {_ _} hm => by
    have hfields := (onBackup_fields (SockBuf.apendBuf buf) (s.m_peer_array i)).1
    rwa [hm] at hfields
  cases hs with
  | outOfRange hi _ =>
    exact ⟨fun _ hl => absurd (hrange i hl.1) (Nat.not_lt.mpr hi), fun _ => h⟩
  | stale hstale => exact ⟨fun _ hl => absurd hl hstale, fun _ => h⟩
  | failed hl e p' hm => exact ⟨fun _ _ _ => .inr (by rw [hm]; rfl), fun _ => h⟩
  | queued hl p' hm hw =>
    refine ⟨fun _ _ hidle => ?_, fun _ => h⟩
    rw [hflag hm, hidle] at hw
    cases hw
  | signalled hl hacc p' hm hw =>
    exact ⟨fun _ _ _ => .inl hacc,
      fun _ => (balanced_post (s := s.record (.sent i n buf)) rfl _).mpr h⟩
  | refused hl hacc p' hm hw =>
    refine ⟨fun hx => ?_, fun hx => ?_⟩
    · exact absurd hx (Balanced.not_newIOCxt (s := s.record (.sent i n buf)) h)
    · rcases hx hl (hflag hm ▸ hw) with hx | hx
      · rw [hacc] at hx
        cases hx
      · rw [hm] at hx
        cases hx

theorem balanced_sendPosting (h : s.Balanced) (hi : i < MAX_PEER_NUM) (hl : s.Live i n)
    (hoffer : ∃ len, SockBuf.readableBytes (s.m_peer_array i).write_buf
      = .ok len (s.m_peer_array i).write_buf)
    (hp : SendPosting s i n accepted s') : s'.Balanced ↔ accepted = true := by
  cases hp with
  | outOfRange hout _ => exact absurd hi (Nat.not_lt.mpr hout)
  | stale hstale => exact absurd hl hstale
  | failed _ e p' hp' hm =>
    obtain ⟨len, hlen⟩ := hoffer
    subst hp'
    rw [offerWrite_readable (p := (s.m_peer_array i).withWsaSend true) hlen] at hm
    cases hm
  | accepted _ hacc w p' _ _ => exact ⟨fun _ => hacc, fun _ => (balanced_post rfl _).mpr h⟩
  | refused _ hacc p' _ s' hc =>
    rw [balanced_closing hc]
    refine ⟨fun hx => absurd hx h.not_newIOCxt, fun hx => ?_⟩
    rw [hacc] at hx
    cases hx

/-- What `drainWrite` leaves to send. -/
def leftover {ε σ : Type} : EStateM.Result ε σ Nat → Nat
  | .ok k _ => k
  | .error _ _ => 0

/-- If the write leaves something to send, the next `WSASend` is taken. -/
def WritesOn (s : Service) (i size : Nat) (accepted : Bool) : Prop :=
  accepted = true ∨ leftover (drainWrite size (s.m_peer_array i)) = 0

theorem balanced_writing {size : Nat} (h : s.Balanced) (hi : i < MAX_PEER_NUM)
    (hsock : (s.m_peer_array i).socket ≠ none) (hw : Writing s i size accepted s') :
    s'.Balanced ↔ s.WritesOn i size accepted := by
  cases hw with
  | outOfRange hout _ => exact absurd hi (Nat.not_lt.mpr hout)
  | closed hfree => exact absurd hfree hsock
  | failed _ e p' hm => exact ⟨fun _ => .inr (by rw [hm]; rfl), fun _ => h⟩
  | drained _ p' hm => exact ⟨fun _ => .inr (by rw [hm]; rfl), fun _ => h⟩
  | more _ k hk p' hm s' hp =>
    have hkeep := (keeps_drainWrite size).ok hm
    have hself : (s.setPeer i p').m_peer_array i = p' := setPeer_self s i p'
    have hl : (s.setPeer i p').Live i (s.m_peer_array i).serial := by
      rw [Live, hself]
      exact ⟨hkeep.socket ▸ hsock, hkeep.serial⟩
    have hoffer := offers_drainWrite size _ _ _ hm
    rw [← hself] at hoffer
    rw [balanced_sendPosting ((balanced_setPeer p').mpr h) hi hl hoffer hp, WritesOn, hm]
    refine ⟨.inl, fun hx => hx.resolve_right (Nat.ne_of_gt hk)⟩

theorem balanced_reading {size : Nat} (h : Reading s i size s') : s'.Balanced ↔ s.Balanced := by
  cases h with
  | outOfRange _ e => exact balanced_throw e
  | closed _ => exact Iff.rfl
  | failed _ e p' _ => exact Iff.rfl
  | callback _ p' _ => exact balanced_push rfl

/-! ## A completion -/

theorem balanced_popped {f : Frame} {rest : List Frame} (hst : s.stack = f :: rest)
    (hf : f.context = none) : (s.popped rest).Balanced ↔ s.Balanced := by
  refine balanced_congr rfl (List.Perm.of_eq ?_)
  rw [held, held, hst, List.filterMap_cons_none hf]
  rfl

/-- The context of the innermost handler. -/
theorem held_tick {r : Request} {rest : List Frame} (hst : s.stack = .tick r :: rest) :
    s.held.Perm (r.io_context :: (s.popped rest).held) := by
  rw [held, hst, List.filterMap_cons_some (show Frame.context (.tick r) = some r.io_context from rfl)]
  exact List.perm_middle

/-- The context of a request that the system has. -/
theorem held_took {r : Request} (hr : r ∈ s.posted) :
    s.held.Perm (r.io_context :: (s.took r).held) := by
  have hposted := (List.perm_cons_erase hr).map Request.io_context
  rw [List.map_cons] at hposted
  exact hposted.append_right _

theorem Balanced.not_took {r : Request} (h : s.Balanced) (hr : r ∈ s.posted) :
    ¬(s.took r).Balanced :=
  FreeList.Accounts.not_lost ((FreeList.accounts_congr (held_took hr)).mp h)

/-- The handler of a completion holds the context. -/
theorem balanced_tick {r : Request} (hr : r ∈ s.posted) :
    ((s.took r).push (.tick r)).Balanced ↔ s.Balanced := by
  have hheld := held_tick (s := (s.took r).push (.tick r)) rfl
  exact balanced_congr rfl (hheld.trans (held_took hr).symm)

theorem arrived_pool (s : Service) (r : Request) (size : Nat) (received : Bytes) :
    (s.arrived r size received).m_iocxt_pool = s.m_iocxt_pool := by
  have hdeliver : (s.deliver r received).m_iocxt_pool = s.m_iocxt_pool := by
    unfold deliver
    dsimp only
    split
    · split <;> rfl
    · rfl
  rw [← hdeliver]
  unfold arrived transmit
  split <;> rfl

theorem balanced_arrived (r : Request) (size : Nat) (received : Bytes) :
    (s.arrived r size received).Balanced ↔ s.Balanced := by
  refine balanced_congr (arrived_pool s r size received) (List.Perm.of_eq ?_)
  rw [held, held, arrived_posted, arrived_stack]

theorem balanced_arrived_push (f : Frame) (r : Request) (size : Nat) (received : Bytes) :
    ((s.arrived r size received).push f).Balanced ↔ (s.push f).Balanced := by
  refine balanced_congr (arrived_pool s r size received) (List.Perm.of_eq ?_)
  rw [held, held, push_posted, push_posted, push_stack, push_stack, arrived_posted, arrived_stack]

/-- A write brings no bytes. -/
theorem arrived_write {r : Request} {size : Nat} {received : Bytes}
    (hop : r.io_operation = .ClientIoWrite) (hfits : (Completion.success size received).Fits r)
    (j : Nat) : (s.arrived r size received).m_peer_array j = s.m_peer_array j := by
  have hnone : received = [] := by
    unfold Completion.Fits at hfits
    cases hw : r.wsabuf with
    | none =>
      rw [hw] at hfits
      exact hfits.2
    | some w =>
      rw [hw] at hfits
      have hlen := hfits.2
      rwa [if_neg (by rw [hop]; decide)] at hlen
  rcases arrived_peer s r size received j with h | ⟨-, hne, -⟩
  · exact h
  · exact absurd hnone hne

/-- The completion is a success for a connection that is there, or says that the connection is lost.
If it wants the next `WSASend`, that is taken. -/
def HandlesOn (s : Service) (r : Request) : Completion → Bool → Prop
  | .success size _, accepted => (s.m_peer_array r.index).socket ≠ none ∧
      (r.io_operation = .ClientIoWrite → s.WritesOn r.index size accepted)
  | .netnameDeleted, _ => True
  | .otherError, _ => False

theorem balanced_onEventTick {r : Request} {c : Completion} (h : s.Balanced) (hrange : s.InRange)
    (hr : r ∈ s.posted) (hfits : c.Fits r) :
    ((s.took r).onEventTick r c accepted).Balanced ↔ s.HandlesOn r c accepted := by
  have htick := (balanced_tick hr).mpr h
  cases c with
  | otherError => exact ⟨fun hx => absurd hx (h.not_took hr), False.elim⟩
  | netnameDeleted =>
    have hlost := onEventTick_outcome (s.took r) r .netnameDeleted accepted
    generalize (s.took r).onEventTick r .netnameDeleted accepted = s' at hlost ⊢
    cases hlost with
    | lost _ _ hc => exact ⟨fun _ => trivial, fun _ => (balanced_closing hc).mpr htick⟩
  | success size received =>
    have hlost : ¬((s.took r).arrived r size received).Balanced := fun hx =>
      h.not_took hr ((balanced_arrived r size received).mp hx)
    have hsocket : (((s.took r).arrived r size received).m_peer_array r.index).socket
        = (s.m_peer_array r.index).socket := arrived_socket _ _ _ _ _
    by_cases hsock : (s.m_peer_array r.index).socket = none
    · -- the context of the completion is not given back
      refine ⟨fun hx => absurd hx ?_, fun hx => absurd hsock hx.1⟩
      simp only [onEventTick]
      rw [show ((s.took r).deliver r received).transmit r size
        = (s.took r).arrived r size received from rfl]
      rcases getPeer_cases ((s.took r).arrived r size received) r.index _ with ⟨-, e, hthrow⟩ | hgo
      · exact hthrow ▸ hlost
      · rw [hgo, if_pos (hsocket.trans hsock)]
        exact hlost
    · have hi := hrange r.index hsock
      have harrived : (((s.took r).arrived r size received).push (.tick r)).Balanced :=
        (balanced_arrived_push _ r size received).mpr htick
      have hdone := onEventTick_outcome (s.took r) r (.success size received) accepted
      generalize (s.took r).onEventTick r (.success size received) accepted = s' at hdone ⊢
      have hother : s'.Balanced → r.io_operation ≠ .ClientIoWrite →
          (s'.Balanced ↔ s.HandlesOn r (.success size received) accepted) := fun hx hop =>
        ⟨fun _ => ⟨hsock, fun hw => absurd hw hop⟩, fun _ => hx⟩
      cases hdone with
      | outOfRange hout _ _ _ e => exact absurd hi (Nat.not_lt.mpr hout)
      | free _ _ _ hfree => exact absurd (hsocket.symm.trans hfree) hsock
      | shutdown _ _ hop _ hc =>
        exact hother ((balanced_closing hc).mpr harrived) (by rw [hop]; decide)
      | read _ _ _ hop _ _ hread =>
        exact hother ((balanced_reading hread).mpr harrived) (by rw [hop]; decide)
      | unknown _ _ _ hop e => exact hother harrived (by rw [hop]; decide)
      | write _ _ _ hop _ hw =>
        have hpeer := arrived_write (s := s.took r) hop hfits r.index
        rw [balanced_writing harrived hi (by rw [push_peer, hsocket]; exact hsock) hw, WritesOn,
          push_peer, hpeer]
        exact ⟨fun hx => ⟨hsock, fun _ => hx⟩, fun hx => hx.2 hop⟩

/-! ## Steps and runs -/

/-- No context is lost in the step. -/
def Tidy (s : Service) : Action → Prop
  | .send i n buf accepted => s.SignalsOn i n buf accepted
  | .return_ ret accepted =>
    match s.stack with
    | .onCon i _ :: _ => s.ReadsOn i accepted
    | .onRead i _ :: _ => 0 ≤ ret → s.ReadsOn i accepted
    | _ => True
  | .dequeue r c accepted => s.HandlesOn r c accepted
  | .unwind => ∀ f ∈ s.stack.head?, f.context = none
  | _ => True

theorem balanced_return {ret : Int} (h : s.Balanced) (hrange : s.InRange)
    (hs : Iocp.step s (.return_ ret accepted) = some s') :
    s'.Balanced ↔ s.Tidy (.return_ ret accepted) := by
  simp only [Iocp.step] at hs
  unfold Tidy
  split at hs
  · next i n rest _ hst =>
    obtain rfl := Option.some.inj hs
    have hpop := (balanced_popped hst rfl).mpr h
    rw [hst]
    exact balanced_postRecvRequest hpop hrange
  · next i n rest _ hst =>
    obtain rfl := Option.some.inj hs
    have hpop := (balanced_popped hst rfl).mpr h
    rw [hst, processReadEnd]
    by_cases hret : ret < 0
    · rw [if_pos hret]
      exact ⟨fun _ hx => absurd hret (Int.not_lt.mpr hx),
        fun _ => (balanced_closing (closePeer_outcome _ _ _)).mpr hpop⟩
    · rw [if_neg hret]
      exact (balanced_postRecvRequest hpop hrange).trans
        ⟨fun hx _ => hx, fun hx => hx (Int.not_lt.mp hret)⟩
  · next i n rest _ hst =>
    obtain rfl := Option.some.inj hs
    rw [hst]
    refine ⟨fun _ => trivial, fun _ => ?_⟩
    have hpop := (balanced_popped hst rfl).mpr h
    unfold closePeerEnd deletePeer
    dsimp only
    split
    · exact hpop
    · exact hpop
  · cases hs

theorem balanced_registering (h : Registering s s') : s'.Balanced ↔ s.Balanced := by
  cases h with
  | full e => exact balanced_throw e
  | unbound i _ e => exact Iff.rfl
  | callback i _ _ p' sd _ _ _ => exact balanced_push rfl

/-- **One step.** The accounts stay right exactly if no context is lost. -/
theorem balanced_step {a : Action} (h : s.Balanced) (hrange : s.InRange)
    (hs : Iocp.step s a = some s') : s'.Balanced ↔ s.Tidy a := by
  have hkept : (s'.Balanced ↔ s.Balanced) → (s'.Balanced ↔ True) := fun hx =>
    iff_true_intro (hx.mpr h)
  cases a with
  | return_ ret accepted => exact balanced_return h hrange hs
  | dequeue r c accepted =>
    simp only [Iocp.step, Option.ite_none_right_eq_some, Option.some.injEq] at hs
    obtain ⟨⟨-, -, hr, hfits⟩, rfl⟩ := hs
    exact balanced_onEventTick h hrange hr hfits
  | send i n buf accepted =>
    cases stepping hs with
    | send _ hsend => exact balanced_sending h hrange hsend
  | closePeer i n =>
    cases stepping hs with
    | closePeer _ hclose => exact hkept (balanced_closing hclose)
  | connectPeer sd loc rem bound =>
    cases stepping hs with
    | connectPeer _ hreg => exact hkept (balanced_registering hreg)
  | accept sd loc rem bound =>
    cases stepping hs with
    | accept _ hreg => exact hkept (balanced_registering hreg)
  | readMove len =>
    cases stepping hs with
    | readMove _ k _ heq =>
      rcases heq with rfl | ⟨e, rfl⟩
      · exact hkept Iff.rfl
      · exact hkept Iff.rfl
  | raise =>
    cases stepping hs with
    | raise _ => exact hkept Iff.rfl
  | catch_ =>
    cases stepping hs with
    | catch_ => exact hkept Iff.rfl
  | finish =>
    cases stepping hs with
    | finish hst =>
      exact iff_true_intro (FreeList.accounts_freeElem.mpr
        ((FreeList.accounts_congr (held_tick hst)).mp h))
  | unwind =>
    cases stepping hs with
    | @unwind f rest hst =>
      show _ ↔ ∀ g ∈ s.stack.head?, g.context = none
      rw [hst]
      cases hf : f.context with
      | none =>
        refine iff_of_true ((balanced_popped hst hf).mpr h) fun g hg => ?_
        rw [← Option.some.inj hg, hf]
      | some p =>
        have htick : ∃ r, f = .tick r := by
          cases f with
          | tick r => exact ⟨r, rfl⟩
          | _ => cases hf
        obtain ⟨r, rfl⟩ := htick
        refine iff_of_false ?_ fun hx => ?_
        · exact FreeList.Accounts.not_lost ((FreeList.accounts_congr (held_tick hst)).mp h)
        · rw [hx _ rfl] at hf
          cases hf

theorem inRange_step {a : Action} (h : s.InRange) (hs : Iocp.step s a = some s') : s'.InRange := by
  rcases Standing.stable.step (stepping hs) with hsame | ⟨-, hreg⟩ | ⟨i, n, rest, ret, accepted,
    -, -, rfl⟩
  · exact fun j hj => h j (hsame.socket j ▸ hj)
  · cases hreg with
    | full e => exact h
    | unbound i hfree e =>
      intro j hj
      rw [throw_peer] at hj
      by_cases hji : j = i
      · subst hji
        rw [setPeer_self] at hj
        exact absurd rfl hj
      · rw [setPeer_ne hji] at hj
        exact h j hj
    | callback i hi _ p' sd _ _ _ =>
      intro j hj
      rw [push_peer, record_peer] at hj
      by_cases hji : j = i
      · exact hji ▸ hi
      · rw [setPeer_ne hji] at hj
        exact h j hj
  · intro j hj
    by_cases hji : j = i
    · subst hji
      rw [closePeerEnd_peer_self] at hj
      exact absurd rfl hj
    · rw [closePeerEnd_peer_ne hji] at hj
      exact h j hj

end Service

/-- The condition on the steps of a run. -/
def TidyStep (s : Service) (a : Action) : Prop := s.Tidy a

/-- **Every context is accounted for** in a run that loses none: those that have been taken from the
pool and not been given back are those of the requests in the hands of the system and of the
completions that are being handled, and none of them is there twice. -/
theorem contexts_accounted {s : Service} (h : Reach Init step TidyStep s) :
    s.Balanced ∧ (s.m_iocxt_pool.free_list_ ++ s.held).Nodup ∧
      (s.stack = [] → s.held = s.posted.map Request.io_context) := by
  have hinv : s.Balanced ∧ s.InRange := by
    refine h.invariant (fun s => s.Balanced ∧ s.InRange) ?_ fun s a s' hinv htidy hs =>
      ⟨(balanced_step hinv.1 hinv.2 hs).mpr htidy, inRange_step hinv.2 hs⟩
    rintro s rfl
    exact ⟨List.Perm.refl _, fun i hi => absurd rfl hi⟩
  refine ⟨hinv.1, hinv.1.nodup, fun hst => ?_⟩
  rw [held, hst, List.filterMap_nil, List.append_nil]

/-- A connection is there, and `onCon` is running. -/
theorem arriving_runs : (step Service.new (.accept 7 ⟨"", 0⟩ ⟨"", 0⟩ true)).isSome = true := by
  decide +kernel

/-- The service in the callback for its first connection. -/
def arriving : Service := (step Service.new (.accept 7 ⟨"", 0⟩ ⟨"", 0⟩ true)).get arriving_runs

theorem reach_arriving {ok : Service → Action → Prop}
    (hok : ok Service.new (.accept 7 ⟨"", 0⟩ ⟨"", 0⟩ true)) : Reach Init step ok arriving :=
  .next (.start rfl) hok (Option.some_get _).symm

theorem taken_runs : (step arriving (.return_ 0 true)).isSome = true := by decide +kernel

theorem failed_runs : (step arriving (.return_ 0 false)).isSome = true := by decide +kernel

theorem tidy_taken : TidyStep arriving (.return_ 0 true) := fun _ => ⟨rfl, by decide +kernel⟩

/-- The `WSARecv` is taken. -/
theorem contexts_accounted_taken :
    ((step arriving (.return_ 0 true)).get taken_runs).Balanced :=
  (contexts_accounted
    (.next (reach_arriving trivial) tidy_taken (Option.some_get taken_runs).symm)).1

/-- **A request that the system does not take loses its context.** -/
theorem failed_not_accounted : ¬∀ s, Reach Init step anyStep s → s.Balanced := by
  intro h
  have hbalanced := h _ (.next (reach_arriving trivial) trivial (Option.some_get failed_runs).symm)
  have hlen := hbalanced.length_eq
  revert hlen
  decide +kernel

end GhNet.Iocp
