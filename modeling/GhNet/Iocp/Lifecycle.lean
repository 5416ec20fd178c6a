import GhNet.Iocp.Isolation

/-!
# The life of a connection as its callbacks see it

For each serial the callbacks form a word `onCon onRead* onDisCon?`. `closePeer` calls `onDisCon`
before it marks the slot as closed, so the callback finds its own connection still open. The word
is right as long as the callback does not close that connection again and does not throw, which
is what `Orderly` asks for. The other half of `Orderly` is about `processRead`, which reads the
serial of the slot again behind `onRead`.
-/

namespace GhNet.Iocp

open GhNet Service

variable {s s' : Service} {i n : Nat}

/-! ## Words of callbacks -/

/-- The calls that a connection sees. -/
inductive Callback
  | onCon
  | onRead
  | onDisCon
  deriving DecidableEq, Repr

/-- The callback an event is, if it is one for the serial `n`. -/
def Event.callback (n : Nat) : Event → Option Callback
  | .onCon _ m _ => if m = n then some .onCon else none
  | .onRead _ m => if m = n then some .onRead else none
  | .onDisCon _ m _ => if m = n then some .onDisCon else none
  | .sent .. | .transmitted .. | .closesocket .. => none

/-- The callbacks that were called for the serial `n`, in order. -/
def word (n : Nat) (log : List Event) : List Callback := log.filterMap (Event.callback n)

/-- `onCon onRead*` -/
def OpenWord (w : List Callback) : Prop := ∃ k, w = .onCon :: List.replicate k .onRead

/-- `onCon onRead* onDisCon` -/
def ClosedWord (w : List Callback) : Prop := ∃ v, OpenWord v ∧ w = v ++ [.onDisCon]

/-- `onCon onRead* onDisCon?`, or nothing for a serial that has not been announced. -/
def LifeWord (w : List Callback) : Prop := w = [] ∨ OpenWord w ∨ ClosedWord w

@[simp] theorem word_append (n : Nat) (l m : List Event) :
    word n (l ++ m) = word n l ++ word n m := List.filterMap_append

/-- What a callback for the serial `n` adds to the words. -/
theorem word_concat {n : Nat} {e : Event} {c : Callback} {log : List Event}
    (he : ∀ m, e.callback m = if n = m then some c else none) (m : Nat) :
    word m (log ++ [e]) = word m log ++ if n = m then [c] else [] := by
  rw [word_append, word, word, List.filterMap_cons, he, List.filterMap_nil]
  by_cases hm : n = m
  · rw [if_pos hm, if_pos hm]
  · rw [if_neg hm, if_neg hm]

theorem OpenWord.start : OpenWord [.onCon] := ⟨0, rfl⟩

theorem OpenWord.read {w : List Callback} (h : OpenWord w) : OpenWord (w ++ [.onRead]) := by
  obtain ⟨k, rfl⟩ := h
  exact ⟨k + 1, by rw [List.cons_append, ← List.replicate_succ']⟩

theorem OpenWord.close {w : List Callback} (h : OpenWord w) : ClosedWord (w ++ [.onDisCon]) :=
  ⟨w, h, rfl⟩

/-! ## Code that calls nothing -/

/-- No connection has come or gone and no callback has been called. -/
structure Quiet (s s' : Service) : Prop extends Standing s s' where
  word : ∀ m, word m s'.log = word m s.log

namespace Quiet

theorem of_log (h : Standing s s') (hlog : s'.log = s.log) : Quiet s s' :=
  ⟨h, fun _ => by rw [hlog]⟩

/-- Nothing but the stack, the requests or the exception in flight has changed. -/
theorem of_eq (hp : s'.m_peer_array = s.m_peer_array) (hm : s'.m_serial = s.m_serial)
    (hlog : s'.log = s.log) : Quiet s s' := of_log (.of_eq hp hm) hlog

theorem trans {t : Service} (h1 : Quiet s s') (h2 : Quiet s' t) : Quiet s t :=
  ⟨h1.toStanding.trans h2.toStanding, fun m => (h2.word m).trans (h1.word m)⟩

theorem setPeer {p : Peer} (hs : p.socket = (s.m_peer_array i).socket)
    (hn : p.serial = (s.m_peer_array i).serial) : Quiet s (s.setPeer i p) :=
  of_log (.setPeer hs hn) rfl

theorem throw (s : Service) (e : Exception) : Quiet s (s.throw e) := of_eq rfl rfl rfl

theorem took (s : Service) (r : Request) : Quiet s (s.took r) := of_eq rfl rfl rfl

/-- What is recorded besides callbacks does not count. -/
theorem of_append (h : Standing s s') {e : Event} (he : ∀ m, e.callback m = none)
    (hlog : s'.log = s.log ++ [e]) : Quiet s s' := by
  refine ⟨h, fun m => ?_⟩
  rw [hlog, word_append]
  simp [Iocp.word, he]

theorem arrived (s : Service) (r : Request) (size : Nat) (received : Bytes) :
    Quiet s (s.arrived r size received) := by
  have hs := Standing.arrived s r size received
  rcases arrived_log s r size received with h | ⟨bytes, h⟩
  · exact of_log hs h
  · exact of_append hs (fun _ => rfl) h

theorem sending {buf : Bytes} {accepted : Bool} (h : Sending s i n buf accepted s') :
    Quiet s s' := by
  have hs := Standing.sending h
  cases h with
  | outOfRange _ e => exact throw s e
  | stale _ => exact of_log hs rfl
  | failed | queued | signalled | refused =>
    exact of_append hs (e := .sent i n buf) (fun _ => rfl) rfl

end Quiet

/-! ## The invariant -/

/-- Serials are unique, the callbacks of every serial form a word of a life, and a connection is
open until its `onDisCon` has returned. -/
structure Alive (s : Service) : Prop where
  /-- live connections have old serials -/
  serial_lt : ∀ {i n}, s.Live i n → n < s.m_serial
  index_lt : ∀ {i n}, s.Live i n → i < MAX_PEER_NUM
  serial_inj : ∀ {i j n}, s.Live i n → s.Live j n → i = j
  fresh : ∀ n, s.m_serial ≤ n → word n s.log = []
  life : ∀ n, LifeWord (word n s.log)
  /-- a connection whose `onDisCon` is running is still open -/
  closing : ∀ {i n}, .onDisCon i n ∈ s.stack → s.Live i n
  /-- nothing that was called after it works on the same slot -/
  above : s.stack.Pairwise fun f g => ∀ i n, g = .onDisCon i n → f.connection.1 ≠ i
  opened : ∀ {i n}, s.Live i n → .onDisCon i n ∉ s.stack → OpenWord (word n s.log)

/-- Nothing is being closed in the slot `i`. -/
def Unclosed (s : Service) (i : Nat) : Prop := ∀ j m, .onDisCon j m ∈ s.stack → i ≠ j

namespace Alive

theorem new : Alive Service.new where
  serial_lt h := absurd rfl h.1
  index_lt h := absurd rfl h.1
  serial_inj h := absurd rfl h.1
  fresh _ _ := rfl
  life _ := Or.inl rfl
  closing h := by simp [Service.new] at h
  above := List.Pairwise.nil
  opened h := absurd rfl h.1

theorem quiet (h : Alive s) (hq : Quiet s s') (hst : s'.stack = s.stack) : Alive s' where
  serial_lt hl := hq.m_serial ▸ h.serial_lt ((hq.live _ _).mp hl)
  index_lt hl := h.index_lt ((hq.live _ _).mp hl)
  serial_inj h1 h2 := h.serial_inj ((hq.live _ _).mp h1) ((hq.live _ _).mp h2)
  fresh n hn := by rw [hq.word]; exact h.fresh n (hq.m_serial ▸ hn)
  life n := by rw [hq.word]; exact h.life n
  closing hm := (hq.live _ _).mpr (h.closing (hst ▸ hm))
  above := hst ▸ h.above
  opened hl hm := by rw [hq.word]; exact h.opened ((hq.live _ _).mp hl) (hst ▸ hm)

/-- A frame that is not a running `onDisCon` can go. -/
theorem pop (h : Alive s) {f : Frame} {rest : List Frame} (hst : s.stack = f :: rest)
    (hf : ∀ i n, f ≠ .onDisCon i n) : Alive (s.popped rest) where
  serial_lt := h.serial_lt
  index_lt := h.index_lt
  serial_inj := h.serial_inj
  fresh := h.fresh
  life := h.life
  closing hm := h.closing (hst ▸ List.mem_cons_of_mem _ hm)
  above := (List.pairwise_cons.mp (hst ▸ h.above)).2
  opened {i n} hl hm := h.opened hl (by
    rw [hst, List.mem_cons]
    rintro (heq | hmem)
    · exact hf i n heq.symm
    · exact hm hmem)

/-- Below a frame that works on slot `i`, nothing is being closed in that slot. -/
theorem unclosed (h : Alive s) {f : Frame} {rest : List Frame} (hst : s.stack = f :: rest) :
    Unclosed (s.popped rest) f.connection.1 := by
  have habove := h.above
  rw [hst] at habove
  intro j m hm
  exact (List.pairwise_cons.mp habove).1 _ hm j m rfl

/-- A `tick` is put on the empty stack. -/
theorem pushTick (h : Alive s) (hst : s.stack = []) (r : Request) : Alive (s.push (.tick r)) where
  serial_lt := h.serial_lt
  index_lt := h.index_lt
  serial_inj := h.serial_inj
  fresh := h.fresh
  life := h.life
  closing hm := by simp [hst] at hm
  above := by simp [hst]
  opened hl _ := h.opened hl (by simp [hst])

/-- A callback other than `onCon` is called for an open connection. -/
theorem call (h : Alive s) (hl : s.Live i n) (hu : Unclosed s i) {e : Event} {f : Frame}
    (hcall : e = .onRead i n ∧ f = .onRead i n ∨
      ∃ remote, e = .onDisCon i n remote ∧ f = .onDisCon i n) :
    Alive ((s.record e).push f) := by
  obtain ⟨c, hw, hc⟩ : ∃ c, (∀ m, word m (s.log ++ [e]) = word m s.log ++
      if n = m then [c] else []) ∧ (c = .onRead ∨ c = .onDisCon ∧ f = .onDisCon i n) := by
    rcases hcall with ⟨rfl, -⟩ | ⟨remote, rfl, rfl⟩
    · exact ⟨.onRead, word_concat fun _ => rfl, Or.inl rfl⟩
    · exact ⟨.onDisCon, word_concat fun _ => rfl, Or.inr ⟨rfl, rfl⟩⟩
  have hf : f.connection.1 = i := by
    rcases hcall with ⟨-, rfl⟩ | ⟨remote, -, rfl⟩ <;> rfl
  have hopen : OpenWord (word n s.log) := h.opened hl fun hm => hu i n hm rfl
  have hlt := h.serial_lt hl
  refine ⟨h.serial_lt, h.index_lt, h.serial_inj, ?_, ?_, ?_, ?_, ?_⟩
  · intro m hm
    have hne : n ≠ m := by rintro rfl; exact absurd hm (Nat.not_le.mpr hlt)
    show word m (s.log ++ [e]) = []
    rw [hw, if_neg hne, List.append_nil]
    exact h.fresh m hm
  · intro m
    show LifeWord (word m (s.log ++ [e]))
    rw [hw]
    by_cases hm : n = m
    · subst hm
      rw [if_pos rfl]
      rcases hc with rfl | ⟨rfl, -⟩
      · exact Or.inr (Or.inl hopen.read)
      · exact Or.inr (Or.inr hopen.close)
    · rw [if_neg hm, List.append_nil]
      exact h.life m
  · intro j m hm
    rcases List.mem_cons.mp hm with heq | hm
    · rcases hcall with ⟨-, rfl⟩ | ⟨remote, -, rfl⟩
      · cases heq
      · cases heq
        exact hl
    · exact h.closing hm
  · refine List.pairwise_cons.mpr ⟨?_, h.above⟩
    rintro g hg j m rfl
    rw [hf]
    exact hu j m hg
  · intro j m hlj hm
    rw [push_stack, record_stack, List.mem_cons, not_or] at hm
    show OpenWord (word m (s.log ++ [e]))
    rw [hw]
    by_cases hmn : n = m
    · subst hmn
      obtain rfl := h.serial_inj hl hlj
      rw [if_pos rfl]
      rcases hc with rfl | ⟨-, rfl⟩
      · exact hopen.read
      · exact absurd rfl hm.1
    · rw [if_neg hmn, List.append_nil]
      exact h.opened hlj hm.2

/-- `closePeer` of a connection that is not being closed already. -/
theorem closePeer (h : Alive s) (hu : s.Live i n → Unclosed s i) (hc : Closing s i n s') :
    Alive s' := by
  cases hc with
  | outOfRange _ e => exact h.quiet (.throw s e) rfl
  | stale _ => exact h
  | callback hl remote => exact h.call hl (hu hl) (Or.inr ⟨remote, rfl, rfl⟩)

theorem recvPosting (h : Alive s) (hu : s.Live i n → Unclosed s i) (hc : RecvPosting s i n s') :
    Alive s' := by
  have hset : ∀ p', ReadSide (s.m_peer_array i) p' → Quiet s (s.newIOCxt.2.setPeer i p') :=
    fun p' hp => .of_log ((Standing.newIOCxt s).trans (.setPeer hp.socket hp.serial)) rfl
  cases hc with
  | outOfRange _ e => exact h.quiet (.throw s e) rfl
  | stale _ => exact h
  | failed _ e p' hp => exact h.quiet ((hset p' hp).trans (.throw _ e)) rfl
  | accepted _ w p' hm =>
    exact h.quiet ((hset p' (keeps_offerRead.ok hm)).trans (.of_eq rfl rfl rfl)) rfl
  | refused hl p' hp _ hc =>
    exact (h.quiet (hset p' hp) rfl).closePeer (fun _ => hu hl) hc

theorem sendPosting {accepted : Bool} (h : Alive s) (hu : s.Live i n → Unclosed s i)
    (hc : SendPosting s i n accepted s') : Alive s' := by
  have hset : Quiet s (s.newIOCxt.2.setPeer i ((s.m_peer_array i).withWsaSend true)) :=
    .of_log ((Standing.newIOCxt s).trans (.setPeer rfl rfl)) rfl
  cases hc with
  | outOfRange _ e => exact h.quiet (.throw s e) rfl
  | stale _ => exact h
  | failed _ e p' hp _ => subst hp; exact h.quiet (hset.trans (.throw _ e)) rfl
  | accepted _ _ w p' hp _ => subst hp; exact h.quiet (hset.trans (.of_eq rfl rfl rfl)) rfl
  | refused hl _ p' hp _ hc =>
    subst hp
    exact (h.quiet hset rfl).closePeer (fun _ => hu hl) hc

theorem writing {size : Nat} {accepted : Bool} (h : Alive s) (hu : Unclosed s i)
    (hc : Writing s i size accepted s') : Alive s' := by
  have hset : ∀ p', SendSide (s.m_peer_array i) p' → Quiet s (s.setPeer i p') :=
    fun p' hp => .setPeer hp.socket hp.serial
  have hkeep := keeps_drainWrite size
  cases hc with
  | outOfRange _ e => exact h.quiet (.throw s e) rfl
  | closed _ => exact h
  | failed _ e p' hm => exact h.quiet ((hset p' (hkeep.error hm)).trans (.throw _ e)) rfl
  | drained _ p' hm => exact h.quiet (hset p' (hkeep.ok hm)) rfl
  | more _ k _ p' hm _ hs =>
    exact (h.quiet (hset p' (hkeep.ok hm)) rfl).sendPosting (fun _ => hu) hs

/-- **`processRead`** calls `onRead` for the connection of the slot, which is open. -/
theorem reading {size : Nat} (h : Alive s) (hu : Unclosed s i) (hc : Reading s i size s') :
    Alive s' := by
  have hkeep := keeps_onReadBuf (SockBuf.writeMove size)
  have hset : ∀ p', ReadSide (s.m_peer_array i) p' → Quiet s (s.setPeer i p') :=
    fun p' hp => .setPeer hp.socket hp.serial
  cases hc with
  | outOfRange _ e => exact h.quiet (.throw s e) rfl
  | closed _ => exact h
  | failed _ e p' hm => exact h.quiet ((hset p' (hkeep.error hm)).trans (.throw _ e)) rfl
  | callback hsock p' hm =>
    have hq := hset p' (hkeep.ok hm)
    exact (h.quiet hq rfl).call ((hq.live i _).mpr ⟨hsock, rfl⟩) hu (Or.inl ⟨rfl, rfl⟩)

/-- **`registerSocket`** gives a free slot to a connection with a new serial. -/
theorem registering (h : Alive s) (hser : s.m_serial + 1 < 2 ^ 64) (hc : Registering s s') :
    Alive s' := by
  have hmod : (s.m_serial + 1) % 2 ^ 64 = s.m_serial + 1 := Nat.mod_eq_of_lt hser
  cases hc with
  | full e => exact h.quiet (.throw s e) rfl
  | unbound i hfree e =>
    have hlive := setPeer_live_unbound hfree
    refine ⟨?_, fun hl => h.index_lt ((hlive _ _).mp hl), ?_, ?_, h.life, ?_, h.above, ?_⟩
    · intro j m hl
      have := h.serial_lt ((hlive j m).mp hl)
      show m < (s.m_serial + 1) % 2 ^ 64
      omega
    · exact fun h1 h2 => h.serial_inj ((hlive _ _).mp h1) ((hlive _ _).mp h2)
    · intro m (hm : (s.m_serial + 1) % 2 ^ 64 ≤ m)
      exact h.fresh m (by omega)
    · exact fun hm => (hlive _ _).mpr (h.closing hm)
    · exact fun hl hm => h.opened ((hlive _ _).mp hl) hm
  | callback i hi hfree p' sd loc rem hp =>
    have hlive := setPeer_live_callback hfree hp
    have hold : ∀ {j m}, s.Live j m → j ≠ i := by
      rintro j m hl rfl
      exact hl.1 hfree
    have hlt : ∀ {j m}, s.Live j m → m ≠ s.m_serial := fun hl => Nat.ne_of_lt (h.serial_lt hl)
    have hw : ∀ m, word m (s.log ++ [.onCon i s.m_serial rem])
        = word m s.log ++ if s.m_serial = m then [.onCon] else [] := word_concat fun _ => rfl
    have hstart : word s.m_serial (s.log ++ [.onCon i s.m_serial rem]) = [.onCon] := by
      rw [hw, if_pos rfl, h.fresh _ (Nat.le_refl _), List.nil_append]
    refine ⟨?_, ?_, ?_, ?_, ?_, ?_, ?_, ?_⟩
    · intro j m hl
      show m < (s.m_serial + 1) % 2 ^ 64
      rcases (hlive j m).mp hl with ⟨-, rfl⟩ | hl
      · omega
      · have := h.serial_lt hl
        omega
    · intro j m hl
      rcases (hlive j m).mp hl with ⟨rfl, -⟩ | hl
      · exact hi
      · exact h.index_lt hl
    · intro j k m h1 h2
      rcases (hlive j m).mp h1 with ⟨hj, hm⟩ | hl <;> rcases (hlive k m).mp h2 with ⟨hk, hm'⟩ | hl'
      · rw [hj, hk]
      · exact absurd hm (hlt hl')
      · exact absurd hm' (hlt hl)
      · exact h.serial_inj hl hl'
    · intro m (hm : (s.m_serial + 1) % 2 ^ 64 ≤ m)
      show word m (s.log ++ [.onCon i s.m_serial rem]) = []
      rw [hw, if_neg (by omega), List.append_nil]
      exact h.fresh m (by omega)
    · intro m
      show LifeWord (word m (s.log ++ [.onCon i s.m_serial rem]))
      by_cases hm : s.m_serial = m
      · subst hm
        rw [hstart]
        exact Or.inr (Or.inl .start)
      · rw [hw, if_neg hm, List.append_nil]
        exact h.life m
    · intro j m hm
      rcases List.mem_cons.mp hm with heq | hm
      · cases heq
      · have hl := h.closing hm
        exact (hlive j m).mpr (Or.inr hl)
    · refine List.pairwise_cons.mpr ⟨?_, h.above⟩
      rintro g hg j m rfl
      exact (hold (h.closing hg)).symm
    · intro j m hl hm
      show OpenWord (word m (s.log ++ [.onCon i s.m_serial rem]))
      rcases (hlive j m).mp hl with ⟨-, rfl⟩ | hl
      · rw [hstart]
        exact .start
      · rw [hw, if_neg (hlt hl).symm, List.append_nil]
        exact h.opened hl fun hmem => hm (List.mem_cons_of_mem _ hmem)

/-- **The end of `closePeer`.** -/
theorem closePeerEnd (h : Alive s) {rest : List Frame} (hst : s.stack = .onDisCon i n :: rest) :
    Alive ((s.popped rest).closePeerEnd i) := by
  have hu := h.unclosed hst
  have hlive : ∀ j m, ((s.popped rest).closePeerEnd i).Live j m ↔ j ≠ i ∧ s.Live j m :=
    closePeerEnd_live (s.popped rest) i
  have hw : ∀ m, word m ((s.popped rest).closePeerEnd i).log = word m s.log := by
    intro m
    rcases closePeerEnd_log (s.popped rest) i with ⟨-, hlog⟩ | ⟨-, hlog⟩ <;>
      simp [hlog, word, Event.callback]
  have hst' : ((s.popped rest).closePeerEnd i).stack = rest := by simp
  have hmem : ∀ {f}, f ∈ rest → f ∈ s.stack := fun hf => hst ▸ List.mem_cons_of_mem _ hf
  refine ⟨?_, fun hl => h.index_lt ((hlive _ _).mp hl).2, ?_, ?_, ?_, ?_, ?_, ?_⟩
  · intro j m hl
    rw [closePeerEnd_m_serial]
    exact h.serial_lt ((hlive j m).mp hl).2
  · exact fun h1 h2 => h.serial_inj ((hlive _ _).mp h1).2 ((hlive _ _).mp h2).2
  · intro m hm
    rw [closePeerEnd_m_serial] at hm
    rw [hw]
    exact h.fresh m hm
  · intro m
    rw [hw]
    exact h.life m
  · intro j m hm
    rw [hst'] at hm
    exact (hlive j m).mpr ⟨fun hj => hu j m hm hj.symm, h.closing (hmem hm)⟩
  · rw [hst']
    have habove := h.above
    rw [hst] at habove
    exact (List.pairwise_cons.mp habove).2
  · intro j m hl hm
    obtain ⟨hj, hl⟩ := (hlive j m).mp hl
    rw [hst'] at hm
    rw [hw]
    refine h.opened hl fun hmem => ?_
    rw [hst, List.mem_cons] at hmem
    rcases hmem with heq | hmem
    · cases heq
      exact hj rfl
    · exact hm hmem

/-- A dequeued completion. -/
theorem ticking {r : Request} {c : Completion} {accepted : Bool} (h : Alive s)
    (hst : s.stack = []) (hc : Ticking s r c accepted s') : Alive s' := by
  have hu : ∀ {t : Service}, t.stack = [] → Unclosed (t.push (.tick r)) r.index := by
    intro t ht j m hm
    rw [push_stack, ht, List.mem_singleton] at hm
    cases hm
  have harr : ∀ size received, Alive (s.arrived r size received) :=
    fun size received => h.quiet (.arrived s r size received) (arrived_stack s r size received)
  have harrst : ∀ size received, (s.arrived r size received).stack = [] :=
    fun size received => (arrived_stack s r size received).trans hst
  have htick : ∀ size received, Alive ((s.arrived r size received).push (.tick r)) :=
    fun size received => (harr size received).pushTick (harrst size received) r
  cases hc with
  | lost _ _ hc => exact (h.pushTick hst r).closePeer (fun _ => hu hst) hc
  | other _ e => exact h.quiet (.throw s e) rfl
  | outOfRange _ size received _ e => exact (harr size received).quiet (.throw _ e) rfl
  | free size received _ _ => exact harr size received
  | shutdown received _ _ _ hc =>
    exact (htick 0 received).closePeer (fun _ => hu (harrst 0 received)) hc
  | read size received _ _ _ _ hc =>
    exact (htick size received).reading (hu (harrst size received)) hc
  | write size received _ _ _ hc =>
    exact (htick size received).writing (hu (harrst size received)) hc
  | unknown size received _ _ e => exact (htick size received).quiet (.throw _ e) rfl

end Alive

/-! ## Orderly runs -/

/-- A negative result of the running `onRead` finds its own connection or a free slot. -/
def Service.ReadOwn (s : Service) (ret : Int) : List Frame → Prop
  | .onRead i n :: _ => ret < 0 → s.FreeOr i n
  | _ => True

/-- `onDisCon` is running. -/
def InDisCon : List Frame → Prop
  | .onDisCon _ _ :: _ => True
  | _ => False

/-- A connection is not closed again while its `onDisCon` runs, no exception leaves `onDisCon`,
a negative result of `onRead` finds the slot free or still with its own connection, and serials
do not wrap around. -/
def Orderly (s : Service) : Action → Prop
  | .closePeer i n => .onDisCon i n ∉ s.stack
  | .connectPeer .. | .accept .. => s.m_serial + 1 < 2 ^ 64
  | .return_ ret _ => s.ReadOwn ret s.stack
  | .unwind => ¬InDisCon s.stack
  | _ => True

/-- One step keeps the callbacks of every serial a word of a life. -/
theorem Alive.step {a : Action} (h : Alive s) (hok : Orderly s a)
    (hs : Iocp.step s a = some s') : Alive s' := by
  cases stepping hs with
  | send _ hs => exact h.quiet (.sending hs) hs.stack_eq
  | @closePeer i n _ _ hs =>
    refine h.closePeer (fun hl j m hm hij => ?_) hs
    -- a running `onDisCon` of the slot is the one of the live connection
    subst hij
    have hm' := h.closing hm
    obtain rfl : n = m := hl.2.symm.trans hm'.2
    exact hok hm
  | connectPeer _ hs | accept _ hs => exact h.registering hok hs
  | @readMove _ i n rest hst k _ heq =>
    have hq : Quiet s (s.setPeer i ((s.m_peer_array i).withReadBuf
        ((s.m_peer_array i).read_buf.setRead k))) := .setPeer rfl rfl
    rcases heq with rfl | ⟨e, rfl⟩
    · exact h.quiet hq rfl
    · exact h.quiet (hq.trans (.throw _ e)) rfl
  | onCon hst hs | onRead hst _ hs =>
    exact (h.pop hst (by simp)).recvPosting (fun _ => h.unclosed hst) hs
  | onReadNegative hst _ hs =>
    exact (h.pop hst (by simp)).closePeer (fun _ => h.unclosed hst) hs
  | onDisCon hst => exact h.closePeerEnd hst
  | raise _ => exact h.quiet (.throw s _) rfl
  | dequeue hst _ _ hs => exact (h.quiet (.took s _) rfl).ticking hst hs
  | finish hst =>
    exact (h.pop hst (by simp)).quiet (.of_eq rfl rfl rfl) rfl
  | @unwind f rest hst =>
    refine h.pop hst ?_
    rintro i n rfl
    rw [Orderly, hst] at hok
    exact hok trivial
  | catch_ => exact h.quiet (.of_eq rfl rfl rfl) rfl

theorem alive_of_reach (hr : Reach Init step Orderly s) : Alive s :=
  hr.invariant _ (by rintro _ rfl; exact .new) fun _ _ _ h hok hs => h.step hok hs

/-- The step is the return of a callback, and the callback is the `onDisCon` of `(j, m)`. -/
def DisConReturns (s : Service) (a : Action) (j m : Nat) : Prop :=
  (∃ ret accepted, a = .return_ ret accepted) ∧ s.stack.head? = some (.onDisCon j m)

/-- The step begins to close the connection `(i, n)`, if it is still open, and no other. -/
def ClosesOnly (s s' : Service) (i n : Nat) : Prop :=
  (s.Live i n → ∃ remote, s'.log = s.log ++ [.onDisCon i n remote] ∧
    s'.stack = .onDisCon i n :: s.stack.tail) ∧
  (¬s.Live i n → s'.log = s.log ∧ s'.stack = s.stack.tail)

/-- A connection is closed when its own `onDisCon` returns, and at no other time. -/
theorem Alive.closed_iff {a : Action} (h : Alive s) (hs : Iocp.step s a = some s') {j m : Nat}
    (hl : s.Live j m) : ¬s'.Live j m ↔ DisConReturns s a j m := by
  constructor
  · intro hd
    rcases live_step (stepping hs) hl with hl' | ⟨n, rest, ret, accepted, hst, rfl, -⟩
    · exact absurd hl' hd
    · have hn : s.Live j n := h.closing (hst ▸ List.mem_cons_self)
      obtain rfl : m = n := hl.2.symm.trans hn.2
      exact ⟨⟨ret, accepted, rfl⟩, by rw [hst]; rfl⟩
  · rintro ⟨⟨ret, accepted, rfl⟩, hhead⟩
    cases stepping hs with
    | onCon hst _ | onRead hst _ _ | onReadNegative hst _ _ => simp [hst] at hhead
    | @onDisCon _ _ i n rest hst =>
      rw [hst, List.head?_cons, Option.some.injEq] at hhead
      cases hhead
      exact fun hd => ((closePeerEnd_live _ j j m).mp hd).1 rfl

/-- A negative result of `onRead` closes the connection that was read. -/
theorem Alive.negative {ret : Int} {accepted : Bool} {rest : List Frame} (h : Alive s)
    (hok : Orderly s (.return_ ret accepted)) (hs : Iocp.step s (.return_ ret accepted) = some s')
    (hret : ret < 0) (hst : s.stack = .onRead i n :: rest) : ClosesOnly s s' i n := by
  have hfree : s.FreeOr i n := by
    rw [Orderly, hst] at hok
    exact hok hret
  cases stepping hs with
  | onCon hst' _ | onDisCon hst' => simp [hst] at hst'
  | onRead _ hret' _ => omega
  | @onReadNegative _ _ i' n' rest' _ hst' _ hc =>
    obtain ⟨hf, rfl⟩ := List.cons.inj (hst.symm.trans hst')
    cases hf
    rw [ClosesOnly, hst, List.tail_cons]
    generalize hm : (s.m_peer_array i).serial = m at hc
    cases hc with
    | outOfRange hi e =>
      exact ⟨fun hl => absurd (h.index_lt hl) (Nat.not_lt.mpr hi), fun _ => ⟨rfl, rfl⟩⟩
    | stale hstale =>
      exact ⟨fun hl => absurd ⟨hl.1, hm⟩ hstale, fun _ => ⟨rfl, rfl⟩⟩
    | callback hl remote =>
      -- the slot is not free, so it still holds `n`
      obtain rfl : m = n := by
        rcases hfree with hfree | hser
        · exact absurd hfree hl.1
        · exact hm.symm.trans hser
      exact ⟨fun _ => ⟨remote, rfl, rfl⟩, fun hdead => absurd hl hdead⟩

/-- **The life of a connection.** In an orderly run the callbacks of every serial form a word of
`onCon onRead* onDisCon?`, a connection is closed by the `closePeer` that called its `onDisCon`
and by nothing else, and a negative result of `onRead` closes the connection that was read. -/
theorem connection_lifecycle (hr : Reach Init step Orderly s) :
    (∀ n, LifeWord (word n s.log)) ∧
    ∀ a s', Orderly s a → step s a = some s' →
      (∀ j m, s.Live j m → (¬s'.Live j m ↔ DisConReturns s a j m)) ∧
      ∀ ret accepted i n rest, a = .return_ ret accepted → ret < 0 →
        s.stack = .onRead i n :: rest → ClosesOnly s s' i n := by
  have h := alive_of_reach hr
  refine ⟨h.life, fun a s' hok hs => ⟨fun j m hl => h.closed_iff hs hl, ?_⟩⟩
  rintro ret accepted i n rest rfl hret hst
  exact h.negative hok hs hret hst

instance (s : Service) (ret : Int) : ∀ st : List Frame, Decidable (s.ReadOwn ret st)
  | .onRead i n :: _ => inferInstanceAs (Decidable (ret < 0 → s.FreeOr i n))
  | [] | .onCon .. :: _ | .onDisCon .. :: _ | .tick _ :: _ => .isTrue trivial

instance : ∀ st : List Frame, Decidable (InDisCon st)
  | .onDisCon .. :: _ => .isTrue trivial
  | [] | .onCon .. :: _ | .onRead .. :: _ | .tick _ :: _ => .isFalse id

instance : ∀ (s : Service) (a : Action), Decidable (Orderly s a)
  | s, .closePeer i n => inferInstanceAs (Decidable (.onDisCon i n ∉ s.stack))
  | s, .connectPeer .. | s, .accept .. => inferInstanceAs (Decidable (s.m_serial + 1 < 2 ^ 64))
  | s, .return_ ret _ => inferInstanceAs (Decidable (s.ReadOwn ret s.stack))
  | s, .unwind => inferInstanceAs (Decidable (¬InDisCon s.stack))
  | _, .send .. | _, .readMove .. | _, .raise | _, .dequeue .. | _, .finish | _, .catch_ =>
    .isTrue trivial

/-- The first of two connections is in its `onRead`. -/
def reading : List Action :=
  twoPeers ++ [.dequeue firstRequest (.success 3 [0, 1, 7]) true]

theorem reading_runs : (exec step Service.new reading).isSome = true := by decide +kernel

/-- The service behind that run. -/
def readingState : Service := (exec step Service.new reading).get reading_runs

theorem readingState_returns : (step readingState (.return_ (-1) true)).isSome = true := by
  decide +kernel

/-- `onRead` of the first of two connections returns `-1`. -/
theorem connection_lifecycle_reading :
    LifeWord (word 0 readingState.log) ∧
      ClosesOnly readingState
        ((step readingState (.return_ (-1) true)).get readingState_returns) 0 0 := by
  have h := connection_lifecycle (s := readingState)
    (Reach.of_exec (.start rfl) (by decide +kernel) (Option.some_get reading_runs).symm)
  refine ⟨h.1 0, (h.2 (.return_ (-1) true) _ (by decide +kernel)
    (Option.some_get readingState_returns).symm).2 (-1) true 0 0 [.tick firstRequest] rfl
    (by decide) (by decide +kernel)⟩

/-! ### `onDisCon` that closes its own connection -/

theorem LifeWord.count_onDisCon {w : List Callback} (h : LifeWord w) : w.count .onDisCon ≤ 1 := by
  have hopen : ∀ {w}, OpenWord w → w.count .onDisCon = 0 := by
    rintro _ ⟨k, rfl⟩
    simp [List.count_replicate]
  rcases h with rfl | h | ⟨v, h, rfl⟩
  · simp
  · rw [hopen h]
    omega
  · simp [hopen h]

/-- A connection is closed, and its `onDisCon` calls `closePeer` for it again. -/
def closedTwice : List Action :=
  [.accept 7 ⟨"", 0⟩ ⟨"", 0⟩ true, .return_ 0 true, .closePeer 0 0, .closePeer 0 0]

theorem closedTwice_runs : (exec step Service.new closedTwice).isSome = true := by decide +kernel

/-- **`onDisCon` is called twice for one connection.** -/
theorem connection_closed_twice :
    ¬∀ s, Reach Init step anyStep s → ∀ n, LifeWord (word n s.log) := by
  intro h
  have hw := h ((exec step Service.new closedTwice).get closedTwice_runs)
    (Reach.of_exec (.start rfl) (by decide +kernel) (Option.some_get _).symm) 0
  exact absurd hw.count_onDisCon (by decide +kernel)

end GhNet.Iocp
