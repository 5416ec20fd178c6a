import Mathlib.Data.List.Range
import Mathlib.Logic.Function.Basic
import GhNet.Infra.Run

/-!
# `MsgQueue`

The queue between threads of `libbase`: an array, a mutex and a semaphore. How many elements there
are is known to the semaphore only. `append` raises it before the element is stored, and `remove`
lowers it when it takes the mutex, ahead of reading the element.

A step is one system call or one copy of any thread. While no thread has the mutex, the elements
are the first places of the array, as many as the semaphore says; while one has it, what it has
done so far says how the three are related.
-/

namespace GhNet.Base.MsgQueue

open GhNet

variable {T Thread : Type}

/-! ## The queue and its threads -/

/-- What the calls throw. -/
inductive Exception
  | full
  | appendTimeout
  | removeTimeout
  deriving DecidableEq

/-- The texts. -/
def Exception.what : Exception → String
  | full => "append to queue error, the queue is full"
  | appendTimeout => "append to queue timeout."
  | removeTimeout => "remove from queue timeout"

/-- How far a thread has come in its call. -/
inductive Pc (T : Type)
  | idle
  /-- `append` has the mutex. -/
  | appendLocked (data : T)
  /-- `ReleaseSemaphore` has given the count it had before. -/
  | appendCounted (data : T) (prev_count : Nat)
  /-- `ReleaseSemaphore` has failed. -/
  | appendFull
  /-- The element is stored. -/
  | appendCopied
  /-- `remove` has the mutex and one count of the semaphore. -/
  | removeLocked
  /-- The first element is read. -/
  | removeCopied
  /-- The other elements are moved to the front. -/
  | removeMoved

/-- The thread is in no call. -/
def Pc.isIdle : Pc T → Bool
  | idle => true
  | _ => false

/-- The array stands for memory that goes on behind it: `touched` records the places that the
copies have read or written. `appended`, `removed` and `thrown` record what the calls have done. -/
structure State (T Thread : Type) where
  m_max_size : Nat
  mutex : Option Thread
  semaphore : Nat
  m_queue : Nat → T
  pc : Thread → Pc T
  touched : List Nat
  appended : List T
  removed : List T
  thrown : List (Thread × Exception)

/-- The maximum count that the semaphore is created with, `(long)m_max_size`. One that is not
positive is refused; then there is no semaphore, releasing it fails and so does waiting for it, as
with a maximum of 0. -/
def maximumCount (max_size : Nat) : Nat := (Int32.ofNat max_size).toInt.toNat

theorem maximumCount_le (max_size : Nat) : maximumCount max_size ≤ max_size := by
  have hsize : ((Int32.size : Nat) : Int) = 2 ^ 32 := rfl
  unfold maximumCount
  rw [Int32.toInt_ofNat']
  simp only [Int.bmod, hsize]
  split <;> omega

/-- `memmove(&m_queue[0], &m_queue[1], sizeof(T)*(m_max_size-1))` -/
def moveFront (max_size : Nat) (q : Nat → T) : Nat → T :=
  fun i => if i + 1 < max_size then q (i + 1) else q i

/-- The places that `moveFront` reads and writes. -/
def moved (max_size : Nat) : List Nat :=
  (List.range (max_size - 1)).flatMap fun i => [i + 1, i]

/-- What a thread can do next. -/
inductive Action (T Thread : Type)
  /-- A call of `append` gets the mutex. -/
  | append (t : Thread) (data : T)
  /-- A call of `append` does not get it in time. -/
  | appendTimeout (t : Thread)
  /-- A call of `remove` gets the mutex and the semaphore, both at once. -/
  | remove (t : Thread)
  | removeTimeout (t : Thread)
  /-- The thread that has the mutex goes on. -/
  | go (t : Thread)

variable [DecidableEq Thread]

namespace State

/-- The thread has come so far. -/
def setPc (s : State T Thread) (t : Thread) (p : Pc T) : State T Thread :=
  { s with pc := Function.update s.pc t p }

/-- `ReleaseMutex`, after which the call returns. -/
def releaseMutex (s : State T Thread) (t : Thread) : State T Thread :=
  { s.setPc t .idle with mutex := none }

/-- The call throws. -/
def throw (s : State T Thread) (t : Thread) (e : Exception) : State T Thread :=
  { s with thrown := s.thrown ++ [(t, e)] }

/-- The next step of a thread that has the mutex. -/
def go (s : State T Thread) (t : Thread) : Option (State T Thread) :=
  match s.pc t with
  | .idle => none
  | .appendLocked data =>
    if s.semaphore < maximumCount s.m_max_size then
      some { s.setPc t (.appendCounted data s.semaphore) with semaphore := s.semaphore + 1 }
    else some (s.setPc t .appendFull)
  | .appendFull => some ((s.releaseMutex t).throw t .full)
  | .appendCounted data prev_count =>
    some { s.setPc t .appendCopied with
      m_queue := Function.update s.m_queue prev_count data
      touched := s.touched ++ [prev_count]
      appended := s.appended ++ [data] }
  | .appendCopied => some (s.releaseMutex t)
  | .removeLocked =>
    some { s.setPc t .removeCopied with
      touched := s.touched ++ [0]
      removed := s.removed ++ [s.m_queue 0] }
  | .removeCopied =>
    some { s.setPc t .removeMoved with
      m_queue := moveFront s.m_max_size s.m_queue
      touched := s.touched ++ moved s.m_max_size }
  | .removeMoved => some (s.releaseMutex t)

/-- One step of one thread. -/
def step (s : State T Thread) : Action T Thread → Option (State T Thread)
  | .append t data =>
    if (s.pc t).isIdle ∧ s.mutex = none then
      some { s.setPc t (.appendLocked data) with mutex := some t }
    else none
  | .appendTimeout t => if (s.pc t).isIdle then some (s.throw t .appendTimeout) else none
  | .remove t =>
    if (s.pc t).isIdle ∧ s.mutex = none ∧ 0 < s.semaphore then
      some { s.setPc t .removeLocked with mutex := some t, semaphore := s.semaphore - 1 }
    else none
  | .removeTimeout t => if (s.pc t).isIdle then some (s.throw t .removeTimeout) else none
  | .go t => s.go t

/-! ## What should hold -/

/-- A queue that has just been made. What the array has in it is not known. -/
structure New (max_size : Nat) (s : State T Thread) : Prop where
  size : s.m_max_size = max_size
  mutex : s.mutex = none
  semaphore : s.semaphore = 0
  pc : ∀ t, s.pc t = .idle
  touched : s.touched = []
  appended : s.appended = []
  removed : s.removed = []
  thrown : s.thrown = []

/-- How many elements have been appended and not removed. -/
def count (s : State T Thread) : Nat := s.appended.length - s.removed.length

/-- Nothing is put into the queue, taken out of it or moved in it. -/
structure SameQueue (s s' : State T Thread) : Prop where
  size : s'.m_max_size = s.m_max_size
  semaphore : s'.semaphore = s.semaphore
  m_queue : s'.m_queue = s.m_queue
  touched : s'.touched = s.touched
  appended : s'.appended = s.appended
  removed : s'.removed = s.removed

/-- The step is taken, throws and leaves the queue as it is. -/
def Throws (s : State T Thread) (a : Action T Thread) (t : Thread) (e : Exception) : Prop :=
  ∃ s', s.step a = some s' ∧ s'.thrown = s.thrown ++ [(t, e)] ∧ s'.pc t = .idle ∧ SameQueue s s'

/-- The call of the thread, which has the mutex, returns in three steps, with so much appended and
removed then. -/
def Returns (s : State T Thread) (t : Thread) (appended removed : List T) : Prop :=
  ∃ s', exec State.step s [.go t, .go t, .go t] = some s' ∧ s'.mutex = none ∧ s'.pc t = .idle ∧
    s'.appended = appended ∧ s'.removed = removed ∧ s'.thrown = s.thrown

/-- **A bounded first-in-first-out queue of `max_size` elements.** -/
structure BoundedFifo (max_size : Nat) (s : State T Thread) : Prop where
  fifo : s.removed <+: s.appended
  counted : s.mutex = none → s.count = s.semaphore
  bounded : s.count ≤ max_size ∧ s.semaphore ≤ max_size
  inside : ∀ i ∈ s.touched, i < max_size
  /-- An `append` that finds the queue full goes on to throw. -/
  full : ∀ t data, s.pc t = .appendLocked data → s.count = max_size →
    ∃ s', s.step (.go t) = some s' ∧ SameQueue s s' ∧ s'.pc t = .appendFull
  /-- One that finds room goes on to store its element, and returns. -/
  stores : ∀ t data, s.pc t = .appendLocked data → s.semaphore < maximumCount max_size →
    s.Returns t (s.appended ++ [data]) s.removed
  /-- A `remove` goes on to take the first of the elements, and returns. -/
  takes : ∀ t, s.pc t = .removeLocked →
    ∃ first rest, s.appended = s.removed ++ first :: rest ∧
      s.Returns t s.appended (s.removed ++ [first])
  /-- In the meantime no other thread changes the queue. -/
  exclusive : ∀ t a s', s.pc t ≠ .idle → a ≠ .go t → s.step a = some s' →
    SameQueue s s' ∧ s'.pc t = s.pc t
  throwsFull : ∀ t, s.pc t = .appendFull → s.Throws (.go t) t .full
  throwsTimeout : ∀ t, s.pc t = .idle →
    s.Throws (.appendTimeout t) t .appendTimeout ∧ s.Throws (.removeTimeout t) t .removeTimeout

end State

/-! ## What the array has in it -/

/-- The first `n` places of the array. -/
def contents (q : Nat → T) (n : Nat) : List T := (List.range n).map q

theorem length_contents (q : Nat → T) (n : Nat) : (contents q n).length = n := by
  simp [contents]

theorem contents_update (q : Nat → T) (n : Nat) (data : T) :
    contents (Function.update q n data) (n + 1) = contents q n ++ [data] := by
  have hfront : (List.range n).map (Function.update q n data) = (List.range n).map q := by
    refine List.map_congr_left fun i hi => ?_
    rw [Function.update_of_ne (Nat.ne_of_lt (List.mem_range.mp hi))]
  rw [contents, List.range_succ, List.map_append, hfront, List.map_singleton, Function.update_self]
  rfl

theorem contents_succ (q : Nat → T) (n : Nat) :
    contents q (n + 1) = q 0 :: contents (fun i => q (i + 1)) n := by
  rw [contents, List.range_succ_eq_map, List.map_cons, List.map_map]
  rfl

theorem contents_moveFront (q : Nat → T) {n max_size : Nat} (h : n + 1 ≤ max_size) :
    contents (moveFront max_size q) n = contents (fun i => q (i + 1)) n := by
  refine List.map_congr_left fun i hi => ?_
  have hlt : i < n := List.mem_range.mp hi
  rw [moveFront, if_pos (by omega)]

theorem moved_lt {max_size i : Nat} (h : i ∈ moved max_size) : i < max_size := by
  obtain ⟨j, hj, hi⟩ := List.mem_flatMap.mp h
  have hlt : j < max_size - 1 := List.mem_range.mp hj
  simp only [List.mem_cons, List.not_mem_nil, or_false] at hi
  omega

/-! ## The invariant -/

namespace State

/-- The elements are the first `n` places of the array. -/
def Settled (s : State T Thread) (n : Nat) : Prop :=
  s.appended = s.removed ++ contents s.m_queue n

/-- How the array, the semaphore and what the calls have done are related while a thread that has
come so far has the mutex. -/
def Stage (s : State T Thread) : Pc T → Prop
  | .idle => False
  | .appendLocked _ | .appendFull | .appendCopied | .removeMoved => s.Settled s.semaphore
  | .appendCounted _ prev_count => s.semaphore = prev_count + 1 ∧ s.Settled prev_count
  | .removeLocked => s.semaphore < maximumCount s.m_max_size ∧ s.Settled (s.semaphore + 1)
  | .removeCopied =>
    s.semaphore < maximumCount s.m_max_size ∧
      s.appended = s.removed ++ contents (fun i => s.m_queue (i + 1)) s.semaphore

/-- How the mutex, the semaphore and the array are related. -/
structure Inv (max_size : Nat) (s : State T Thread) : Prop where
  size : s.m_max_size = max_size
  limit : s.semaphore ≤ maximumCount max_size
  inside : ∀ i ∈ s.touched, i < max_size
  holder : ∀ t, s.pc t ≠ .idle ↔ s.mutex = some t
  free : s.mutex = none → s.Settled s.semaphore
  held : ∀ t, s.mutex = some t → s.Stage (s.pc t)

variable {max_size : Nat} {s s' : State T Thread}

omit [DecidableEq Thread] in
/-- A thread in its call has the mutex. -/
theorem Inv.mutex (h : Inv max_size s) {t : Thread} (hp : s.pc t ≠ .idle) : s.mutex = some t :=
  (h.holder t).mp hp

omit [DecidableEq Thread] in
theorem Inv.others (h : Inv max_size s) {t u : Thread} (hp : s.pc t ≠ .idle) (hu : u ≠ t) :
    s.pc u = .idle := by
  by_contra hne
  have hmutex := h.mutex hne
  rw [h.mutex hp] at hmutex
  exact hu (Option.some.inj hmutex).symm

/-- One thread goes on while the others are idle: it has the mutex and its new stage holds, or it
has given the mutex back and the array is settled. -/
theorem Inv.advance {t : Thread} {p : Pc T} (h : Inv max_size s)
    (hothers : ∀ u, u ≠ t → s.pc u = .idle) (hsize : s'.m_max_size = s.m_max_size)
    (hpc : s'.pc = Function.update s.pc t p) (hlimit : s'.semaphore ≤ maximumCount max_size)
    (hinside : ∀ i ∈ s'.touched, i < max_size)
    (hstage : s'.mutex = some t ∧ s'.Stage p ∨
      p = .idle ∧ s'.mutex = none ∧ s'.Settled s'.semaphore) : Inv max_size s' := by
  have hpt : s'.pc t = p := by rw [hpc, Function.update_self]
  have hpu : ∀ u, u ≠ t → s'.pc u = .idle := by
    intro u hu
    rw [hpc, Function.update_of_ne hu]
    exact hothers u hu
  refine ⟨hsize.trans h.size, hlimit, hinside, fun u => ?_, fun hnone => ?_, fun u hsome => ?_⟩
  · by_cases hu : u = t
    · subst hu
      rw [hpt]
      rcases hstage with ⟨hm, hs⟩ | ⟨rfl, hm, -⟩
      · refine iff_of_true ?_ hm
        rintro rfl
        exact hs
      · simp [hm]
    · rw [hpu u hu]
      rcases hstage with ⟨hm, -⟩ | ⟨-, hm, -⟩
      · simp [hm, Ne.symm hu]
      · simp [hm]
  · rcases hstage with ⟨hm, -⟩ | ⟨-, -, hs⟩
    · rw [hm] at hnone
      cases hnone
    · exact hs
  · rcases hstage with ⟨hm, hs⟩ | ⟨-, hm, -⟩
    · rw [hm] at hsome
      obtain rfl := Option.some.inj hsome
      rw [hpt]
      exact hs
    · rw [hm] at hsome
      cases hsome

omit [DecidableEq Thread] in
theorem Inv.throw (h : Inv max_size s) (t : Thread) (e : Exception) :
    Inv max_size (s.throw t e) := by
  refine ⟨h.size, h.limit, h.inside, h.holder, h.free, fun u hu => ?_⟩
  have hstage := h.held u hu
  revert hstage
  show s.Stage (s.pc u) → (s.throw t e).Stage (s.pc u)
  cases s.pc u <;> exact id

/-- The thread that has the mutex goes on. -/
theorem Inv.go {t : Thread} (h : Inv max_size s) (hs : s.go t = some s') : Inv max_size s' := by
  obtain ⟨hsize, hlimit, hinside⟩ := And.intro h.size (And.intro h.limit h.inside)
  have hmax := maximumCount_le max_size
  by_cases hidle : s.pc t = .idle
  · simp [State.go, hidle] at hs
  have hmutex : s.mutex = some t := h.mutex hidle
  have hothers : ∀ u, u ≠ t → s.pc u = .idle := fun u => h.others hidle
  have hstage : s.Stage (s.pc t) := h.held t hmutex
  cases hp : s.pc t with
  | idle => exact absurd hp hidle
  | appendLocked data =>
    rw [hp] at hstage
    simp only [State.go, hp] at hs
    split at hs
    · next hlt =>
      obtain rfl := Option.some.inj hs
      rw [hsize] at hlt
      exact h.advance hothers rfl rfl hlt hinside (.inl ⟨hmutex, rfl, hstage⟩)
    · obtain rfl := Option.some.inj hs
      exact h.advance hothers rfl rfl hlimit hinside (.inl ⟨hmutex, hstage⟩)
  | appendFull =>
    rw [hp] at hstage
    simp only [State.go, hp] at hs
    obtain rfl := Option.some.inj hs
    refine Inv.throw ?_ t .full
    exact h.advance hothers rfl rfl hlimit hinside (.inr ⟨rfl, rfl, hstage⟩)
  | appendCounted data prev_count =>
    rw [hp] at hstage
    obtain ⟨hcount, hsettled⟩ := hstage
    simp only [State.go, hp] at hs
    obtain rfl := Option.some.inj hs
    refine h.advance hothers rfl rfl hlimit (List.forall_mem_append.mpr ⟨hinside, ?_⟩)
      (.inl ⟨hmutex, ?_⟩)
    · exact List.forall_mem_singleton.mpr (by omega)
    · show s.appended ++ [data] = s.removed ++ contents _ s.semaphore
      rw [hcount, contents_update, hsettled, List.append_assoc]
  | appendCopied =>
    rw [hp] at hstage
    simp only [State.go, hp] at hs
    obtain rfl := Option.some.inj hs
    exact h.advance hothers rfl rfl hlimit hinside (.inr ⟨rfl, rfl, hstage⟩)
  | removeLocked =>
    rw [hp] at hstage
    obtain ⟨hlt, hsettled⟩ := hstage
    simp only [State.go, hp] at hs
    obtain rfl := Option.some.inj hs
    rw [hsize] at hlt
    refine h.advance hothers rfl rfl hlimit (List.forall_mem_append.mpr ⟨hinside, ?_⟩)
      (.inl ⟨hmutex, hsize.symm ▸ hlt, ?_⟩)
    · exact List.forall_mem_singleton.mpr (by omega)
    · show s.appended = (s.removed ++ [s.m_queue 0]) ++ contents _ s.semaphore
      rw [hsettled, contents_succ, List.append_assoc]
      rfl
  | removeCopied =>
    rw [hp] at hstage
    obtain ⟨hlt, hmoved⟩ := hstage
    simp only [State.go, hp] at hs
    obtain rfl := Option.some.inj hs
    refine h.advance hothers rfl rfl hlimit (List.forall_mem_append.mpr ⟨hinside, ?_⟩)
      (.inl ⟨hmutex, ?_⟩)
    · exact fun i hi => hsize ▸ moved_lt hi
    · show s.appended = s.removed ++ contents (moveFront s.m_max_size s.m_queue) s.semaphore
      have hroom : s.semaphore + 1 ≤ s.m_max_size := Nat.le_trans hlt (maximumCount_le _)
      rw [contents_moveFront _ hroom, hmoved]
  | removeMoved =>
    rw [hp] at hstage
    simp only [State.go, hp] at hs
    obtain rfl := Option.some.inj hs
    exact h.advance hothers rfl rfl hlimit hinside (.inr ⟨rfl, rfl, hstage⟩)

omit [DecidableEq Thread] in
theorem Inv.idle_of_free (h : Inv max_size s) (hm : s.mutex = none) (t : Thread) :
    s.pc t = .idle := by
  by_contra hne
  rw [h.mutex hne] at hm
  cases hm

/-- **Every step of every thread keeps the invariant.** -/
theorem Inv.step {a : Action T Thread} (h : Inv max_size s) (hs : s.step a = some s') :
    Inv max_size s' := by
  cases a with
  | append t data =>
    rw [State.step] at hs
    split at hs
    · next hfree =>
      obtain rfl := Option.some.inj hs
      have hsettled := h.free hfree.2
      exact h.advance (fun u _ => h.idle_of_free hfree.2 u) rfl rfl h.limit h.inside
        (.inl ⟨rfl, hsettled⟩)
    · cases hs
  | remove t =>
    rw [State.step] at hs
    split at hs
    · next hfree =>
      obtain rfl := Option.some.inj hs
      obtain ⟨-, hmutex, hpos⟩ := hfree
      have hsettled := h.free hmutex
      have hlimit := h.limit
      refine h.advance (fun u _ => h.idle_of_free hmutex u) rfl rfl ?_ h.inside
        (.inl ⟨rfl, ?_, ?_⟩)
      · exact Nat.le_trans (Nat.sub_le _ _) hlimit
      · show s.semaphore - 1 < maximumCount s.m_max_size
        rw [h.size]
        omega
      · show s.appended = s.removed ++ contents s.m_queue (s.semaphore - 1 + 1)
        rw [Nat.sub_add_cancel hpos]
        exact hsettled
    · cases hs
  | appendTimeout t =>
    rw [State.step] at hs
    split at hs
    · obtain rfl := Option.some.inj hs
      exact h.throw t .appendTimeout
    · cases hs
  | removeTimeout t =>
    rw [State.step] at hs
    split at hs
    · obtain rfl := Option.some.inj hs
      exact h.throw t .removeTimeout
    · cases hs
  | go t => exact h.go hs

omit [DecidableEq Thread] in
theorem New.inv (h : New max_size s) : Inv max_size s := by
  have hsettled : s.Settled s.semaphore := by
    rw [Settled, h.appended, h.removed, h.semaphore]
    rfl
  refine ⟨h.size, ?_, ?_, fun t => ?_, fun _ => hsettled, fun t ht => ?_⟩
  · rw [h.semaphore]
    exact Nat.zero_le _
  · rw [h.touched]
    intro i hi
    cases hi
  · simp [h.pc t, h.mutex]
  · rw [h.mutex] at ht
    cases ht

/-! ## What the invariant says -/

omit [DecidableEq Thread] in
/-- The elements are a list no longer than the semaphore's maximum. -/
theorem Inv.elements (h : Inv max_size s) :
    ∃ l, s.appended = s.removed ++ l ∧ l.length ≤ maximumCount max_size := by
  have hlimit := h.limit
  have hsize := h.size
  have settled : ∀ n, n ≤ maximumCount max_size → s.Settled n →
      ∃ l, s.appended = s.removed ++ l ∧ l.length ≤ maximumCount max_size :=
    fun n hn hs => ⟨_, hs, by rw [length_contents]; exact hn⟩
  cases hm : s.mutex with
  | none => exact settled _ hlimit (h.free hm)
  | some t =>
    have hstage := h.held t hm
    cases hp : s.pc t with
    | idle => exact absurd hp ((h.holder t).mpr hm)
    | appendLocked _ | appendFull | appendCopied | removeMoved =>
      rw [hp] at hstage
      exact settled _ hlimit hstage
    | appendCounted data prev_count =>
      rw [hp] at hstage
      obtain ⟨hcount, hs⟩ := hstage
      exact settled _ (by omega) hs
    | removeLocked =>
      rw [hp] at hstage
      obtain ⟨hlt, hs⟩ := hstage
      exact settled _ (hsize ▸ hlt) hs
    | removeCopied =>
      rw [hp] at hstage
      obtain ⟨-, hs⟩ := hstage
      exact ⟨_, hs, by rw [length_contents]; exact hlimit⟩

omit [DecidableEq Thread] in
theorem Settled.count {n : Nat} (h : s.Settled n) : s.count = n := by
  rw [Settled] at h
  rw [State.count, h, List.length_append, length_contents]
  omega

theorem exclusive (h : Inv max_size s) {t : Thread} {a : Action T Thread} (hp : s.pc t ≠ .idle)
    (ha : a ≠ .go t) (hs : s.step a = some s') : SameQueue s s' ∧ s'.pc t = s.pc t := by
  have hmutex := h.mutex hp
  cases a with
  | append u data => simp [State.step, hmutex] at hs
  | remove u => simp [State.step, hmutex] at hs
  | appendTimeout u =>
    rw [State.step] at hs
    split at hs
    · obtain rfl := Option.some.inj hs
      exact ⟨⟨rfl, rfl, rfl, rfl, rfl, rfl⟩, rfl⟩
    · cases hs
  | removeTimeout u =>
    rw [State.step] at hs
    split at hs
    · obtain rfl := Option.some.inj hs
      exact ⟨⟨rfl, rfl, rfl, rfl, rfl, rfl⟩, rfl⟩
    · cases hs
  | go u =>
    have hu : u ≠ t := fun he => ha (he ▸ rfl)
    simp [State.step, State.go, h.others hp hu] at hs

theorem returns_append {t : Thread} {data : T} (hp : s.pc t = .appendLocked data)
    (hroom : s.semaphore < maximumCount s.m_max_size) :
    s.Returns t (s.appended ++ [data]) s.removed := by
  simp [Returns, exec, State.step, State.go, State.setPc, State.releaseMutex, hp, hroom]

theorem returns_remove {t : Thread} (hp : s.pc t = .removeLocked) :
    s.Returns t s.appended (s.removed ++ [s.m_queue 0]) := by
  simp [Returns, exec, State.step, State.go, State.setPc, State.releaseMutex, hp]

theorem Inv.boundedFifo (h : Inv max_size s) : BoundedFifo max_size s := by
  have hmax := maximumCount_le max_size
  obtain ⟨l, hl, hlen⟩ := h.elements
  refine ⟨⟨l, hl.symm⟩, fun hm => (h.free hm).count, ⟨?_, Nat.le_trans h.limit hmax⟩, h.inside,
    fun t data hp hfull => ?_, fun t data hp hroom => ?_, fun t hp => ?_,
    fun t a s' hp ha hs => exclusive h hp ha hs, fun t hp => ?_, fun t hp => ⟨?_, ?_⟩⟩
  · rw [State.count, hl, List.length_append]
    omega
  · -- the count of the elements is the semaphore's, so it is at its maximum
    have hstage := h.held t (h.mutex (by simp [hp]))
    rw [hp] at hstage
    have hcount : s.count = s.semaphore := Settled.count hstage
    have hlimit := h.limit
    have hno : ¬s.semaphore < maximumCount s.m_max_size := by
      rw [h.size]
      omega
    refine ⟨s.setPc t .appendFull, ?_, ⟨rfl, rfl, rfl, rfl, rfl, rfl⟩, ?_⟩
    · simp [State.step, State.go, hp, hno]
    · simp [State.setPc]
  · exact returns_append hp (h.size.symm ▸ hroom)
  · have hstage := h.held t (h.mutex (by simp [hp]))
    rw [hp] at hstage
    obtain ⟨-, hsettled⟩ := hstage
    rw [Settled, contents_succ] at hsettled
    exact ⟨_, _, hsettled, returns_remove hp⟩
  · refine ⟨(s.releaseMutex t).throw t .full, ?_, rfl, ?_, ⟨rfl, rfl, rfl, rfl, rfl, rfl⟩⟩
    · simp [State.step, State.go, hp]
    · simp [State.throw, State.releaseMutex, State.setPc]
  · exact ⟨s.throw t .appendTimeout, by simp [State.step, hp, Pc.isIdle], rfl, hp,
      ⟨rfl, rfl, rfl, rfl, rfl, rfl⟩⟩
  · exact ⟨s.throw t .removeTimeout, by simp [State.step, hp, Pc.isIdle], rfl, hp,
      ⟨rfl, rfl, rfl, rfl, rfl, rfl⟩⟩

/-- **The queue is a bounded first-in-first-out queue in every interleaving of its threads.** -/
theorem boundedFifo_of_reach (hr : Reach (New max_size) State.step anyStep s) :
    BoundedFifo max_size s :=
  (hr.invariant (Inv max_size) (fun _ h => h.inv) fun _ _ _ h _ hs => h.step hs).boundedFifo

/-- A queue of two places between any number of threads. -/
def twoPlaces : State Nat Nat :=
  ⟨2, none, 0, fun _ => 0, fun _ => .idle, [], [], [], []⟩

/-- Two threads fill the queue and a third one finds it full. A fourth one removes the first element
and waits for the mutex in vain, and the third one appends in the place that is free again. -/
def fullAndFree : List (Action Nat Nat) :=
  [.append 0 7, .go 0, .removeTimeout 3, .go 0, .go 0,
    .append 1 8, .go 1, .go 1, .go 1,
    .append 2 9, .go 2, .go 2,
    .remove 3, .go 3, .go 3, .go 3,
    .append 2 9, .go 2, .removeTimeout 3, .go 2, .go 2]

theorem fullAndFree_runs : (exec State.step twoPlaces fullAndFree).isSome = true := by
  decide +kernel

theorem boundedFifo_fullAndFree :
    BoundedFifo 2 ((exec State.step twoPlaces fullAndFree).get fullAndFree_runs) :=
  boundedFifo_of_reach (.of_exec (.start ⟨rfl, rfl, rfl, fun _ => rfl, rfl, rfl, rfl, rfl⟩)
    (by decide +kernel) (Option.some_get fullAndFree_runs).symm)

end State

end GhNet.Base.MsgQueue
