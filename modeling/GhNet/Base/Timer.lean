import Mathlib.Algebra.Ring.Nat
import Mathlib.Logic.Function.Basic
import GhNet.Infra.Run

/-!
# `Timer`

The ten timers of `libbase`. `run` goes through the slots with one reading of the clock and calls
the timers that are due; a callback may register and unregister timers while it does.

Beside the slots the state has what should be registered, by the exact times. `run` falls away from
it in three ways: the interval in microseconds is a 32-bit product, the time since a registration
that is younger than the reading is a huge number, and what a callback returns is applied to the
slot and not to the timer.
-/

namespace GhNet.Base.Timer

open GhNet

/-! ## The slots -/

/-- `func` tells which registration the callback is from; `none` is a null pointer. -/
structure TimerInfo where
  func : Option Nat
  time_stamp : UInt64
  time_interval : UInt32

/-- A timer that is registered: the number of the registration, the interval in seconds, and the
time of the registration or of the last firing in microseconds. -/
structure Registered where
  timer : Nat
  interval : Nat
  since : Nat

/-- What is going on: the program runs, or `run` has come to a slot, or the callback of a timer has
been called from a slot. -/
inductive Phase
  | program
  | visiting (time_stamp : UInt64) (i : Nat)
  | calling (time_stamp : UInt64) (i : Nat) (timer : Nat)
  deriving DecidableEq

/-- A slot that a run has come to, with the timer that is registered under its number, and the
timer that has been called. -/
structure Visit where
  slot : Nat
  time : Nat
  registered : Option Registered
  called : Option Nat

/-- A call of `run`, with the time of the first one and whether it has gone through the slots. -/
structure RunCall where
  first : Nat
  time : Nat
  started : Bool

/-- `timers` are the timers that should be registered, by the numbers that `registerTimer` has
returned. `now` is the last reading of the clock and `count` the number of registrations. `visits`
are those of the run that is under way, and `runs` has those of the runs that have ended. -/
structure State where
  m_timers : Nat → TimerInfo
  last_time_stamp : Option UInt64
  phase : Phase
  timers : Nat → Option Registered
  now : Nat
  count : Nat
  calls : List RunCall
  visits : List Visit
  runs : List (Nat × List Visit)

/-- `ARRAY_LEN(m_timers)` -/
def slots : Nat := 10

namespace State

/-- No timer is registered, and `run` was never called. -/
def new : State :=
  ⟨fun _ => ⟨none, 0, 0⟩, none, .program, fun _ => none, 0, 0, [], [], []⟩

/-! ## The operations -/

/-- The loop of `registerTimer`: the last free slot. -/
def freeSlot (m_timers : Nat → TimerInfo) : Option Nat :=
  (List.range slots).foldl (fun index i => if (m_timers i).func.isNone then some i else index) none

/-- `registerTimer` for a slot that is free, at a reading of the clock. -/
def registerAt (s : State) (index : Nat) (time_interval : UInt32) (reading : UInt64) : State :=
  { s with
    m_timers := Function.update s.m_timers index ⟨some s.count, reading, time_interval⟩
    timers := Function.update s.timers index
      (some ⟨s.count, time_interval.toNat, reading.toNat⟩)
    now := reading.toNat
    count := s.count + 1 }

/-- Empties a slot. -/
def clear (s : State) (i : Nat) : State :=
  { s with m_timers := Function.update s.m_timers i ⟨none, 0, 0⟩ }

/-- Whether `run` calls the timer of the slot. -/
def elapsed (info : TimerInfo) (time_stamp : UInt64) : Bool :=
  (info.time_interval * 1000 * 1000).toUInt64 ≤ time_stamp - info.time_stamp

/-- What `run` does with slot `i`. -/
def visit (s : State) (time_stamp : UInt64) (i : Nat) : State :=
  let info := s.m_timers i
  let visited (called : Option Nat) : List Visit :=
    s.visits ++ [⟨i, time_stamp.toNat, s.timers i, called⟩]
  match info.func with
  | none => { s with phase := .visiting time_stamp (i + 1), visits := visited none }
  | some timer =>
    if info.time_stamp = 0 then
      { s with phase := .visiting time_stamp (i + 1), visits := visited none }
    else if elapsed info time_stamp then
      { s with phase := .calling time_stamp i timer, visits := visited (some timer) }
    else { s with phase := .visiting time_stamp (i + 1), visits := visited none }

/-- What is left of a timer: with `result` it stays registered and has fired at the time. Another
one that has its number by now is not concerned. -/
def left (timer time : Nat) (result : Bool) (r : Registered) : Option Registered :=
  if r.timer = timer then if result then some { r with since := time } else none else some r

/-- What the callback has answered decides whether the timer stays. -/
def settle (s : State) (i timer time : Nat) (result : Bool) : State :=
  { s with timers := Function.update s.timers i ((s.timers i).bind (left timer time result)) }

/-- What `run` does when the callback has returned. -/
def returned (s : State) (time_stamp : UInt64) (i timer : Nat) (result : Bool) : State :=
  let s := s.settle i timer time_stamp.toNat result
  if result then
    { s with
      m_timers := Function.update s.m_timers i { s.m_timers i with time_stamp := time_stamp }
      phase := .visiting time_stamp (i + 1) }
  else { s.clear i with phase := .visiting time_stamp (i + 1) }

/-! ## Runs -/

/-- `registerTimer` and `unRegisterTimer` are called by the program or by a callback; `timer` is the
registration that the caller of the second one means. The readings of the clock come with the
actions; the first call of `run` reads it twice. -/
inductive Action
  | registerTimer (time_interval : UInt32) (reading : UInt64)
  | unRegisterTimer (timer_id timer : Nat)
  | run (first reading : UInt64)
  | visit
  | callbackReturns (result : Bool)

/-- Whether the program or a callback may call. -/
def Phase.free : Phase → Bool
  | .program | .calling .. => true
  | .visiting .. => false

/-- A reading of the clock is positive and not smaller than the one before. -/
def Reading (s : State) (reading : UInt64) : Prop := 0 < reading.toNat ∧ s.now ≤ reading.toNat

instance (s : State) (reading : UInt64) : Decidable (s.Reading reading) :=
  inferInstanceAs (Decidable (_ ∧ _))

/-- `run` returns at once within a second of its first call. -/
def startRun (s : State) (first reading : UInt64) : State :=
  let last_time_stamp := s.last_time_stamp.getD first
  let call (started : Bool) : List RunCall :=
    s.calls ++ [⟨last_time_stamp.toNat, reading.toNat, started⟩]
  let s := { s with last_time_stamp := some last_time_stamp, now := reading.toNat }
  if 1000 * 1000 > reading - last_time_stamp then { s with calls := call false }
  else { s with phase := .visiting reading 0, visits := [], calls := call true }

/-- `run` has gone through the slots. -/
def endRun (s : State) (time_stamp : UInt64) : State :=
  { s with phase := .program, visits := [], runs := s.runs ++ [(time_stamp.toNat, s.visits)] }

/-- `registerTimer` throws for an interval of 0. Without a free slot it would write to a null
pointer, and `unRegisterTimer` behind the array for a number that no timer has. -/
def step (s : State) : Action → Option State
  | .registerTimer time_interval reading =>
    if Phase.free s.phase ∧ s.Reading reading then
      if time_interval = 0 then some s
      else (freeSlot s.m_timers).map fun index => s.registerAt index time_interval reading
    else none
  | .unRegisterTimer timer_id timer =>
    if Phase.free s.phase ∧ timer_id < slots then
      some ((s.settle timer_id timer s.now false).clear timer_id)
    else none
  | .run first reading =>
    if s.phase = .program ∧ s.Reading first ∧ first ≤ reading then some (s.startRun first reading)
    else none
  | .visit =>
    match s.phase with
    | .visiting time_stamp i =>
      if i < slots then some (s.visit time_stamp i) else some (s.endRun time_stamp)
    | _ => none
  | .callbackReturns result =>
    match s.phase with
    | .calling time_stamp i timer => some (s.returned time_stamp i timer result)
    | _ => none

/-! ## What should hold -/

/-- At the time the timer is due. -/
def Due (r : Registered) (time : Nat) : Prop := r.since + r.interval * 10 ^ 6 ≤ time

instance (r : Registered) (time : Nat) : Decidable (Due r time) :=
  inferInstanceAs (Decidable (_ ≤ _))

/-- The timer that a run calls when it comes to what is registered. -/
def expected : Option Registered → Nat → Option Nat
  | none, _ => none
  | some r, time => if Due r time then some r.timer else none

/-- A slot has the timer that is registered under its number. -/
def Holds (info : TimerInfo) : Option Registered → Prop
  | none => info.func = none
  | some r => info.func = some r.timer ∧ info.time_stamp.toNat = r.since ∧
      info.time_interval.toNat = r.interval

/-- **Timers fire on time**: the slots have what is registered; from a second after the first call
of `run` on, each call goes through all slots; and a run calls exactly the timers that are due when
it comes to them. -/
structure OnTime (s : State) : Prop where
  slots : ∀ i < slots, Holds (s.m_timers i) (s.timers i)
  calls : ∀ c ∈ s.calls, c.started = true ↔ c.first + 10 ^ 6 ≤ c.time
  visits : ∀ v ∈ s.visits, v.called = expected v.registered v.time
  runs : ∀ run ∈ s.runs, run.2.map Visit.slot = List.range Timer.slots ∧
    ∀ v ∈ run.2, v.time = run.1 ∧ v.called = expected v.registered v.time

/-- The conditions on a step: an interval fits into 32 bits in microseconds; a run comes only to
timers that were registered no later than its reading; and when a timer is unregistered or its
callback returns, no other timer has taken its slot, except, when the callback is to be kept, one
that was registered at the very reading of the run. -/
def Timely (s : State) : Action → Prop
  | .registerTimer time_interval _ => time_interval.toNat * 10 ^ 6 < 2 ^ 32
  | .unRegisterTimer timer_id timer => ∀ r ∈ s.timers timer_id, r.timer = timer
  | .run _ _ => True
  | .visit =>
    match s.phase with
    | .visiting time_stamp i => ∀ r ∈ s.timers i, r.since ≤ time_stamp.toNat
    | _ => True
  | .callbackReturns result =>
    match s.phase with
    | .calling time_stamp i timer =>
      ∀ r ∈ s.timers i, r.timer = timer ∨ result = true ∧ r.since = time_stamp.toNat
    | _ => True

instance (s : State) (a : Action) : Decidable (s.Timely a) :=
  match a with
  | .registerTimer time_interval _ =>
    inferInstanceAs (Decidable (time_interval.toNat * 10 ^ 6 < 2 ^ 32))
  | .unRegisterTimer timer_id timer =>
    inferInstanceAs (Decidable (∀ r ∈ s.timers timer_id, r.timer = timer))
  | .run _ _ => .isTrue trivial
  | .visit =>
    match h : s.phase with
    | .visiting time_stamp i =>
      decidable_of_iff (∀ r ∈ s.timers i, r.since ≤ time_stamp.toNat) (by simp [Timely, h])
    | .program => .isTrue (by simp [Timely, h])
    | .calling .. => .isTrue (by simp [Timely, h])
  | .callbackReturns result =>
    match h : s.phase with
    | .calling time_stamp i timer =>
      decidable_of_iff
        (∀ r ∈ s.timers i, r.timer = timer ∨ result = true ∧ r.since = time_stamp.toNat)
        (by simp [Timely, h])
    | .program => .isTrue (by simp [Timely, h])
    | .visiting .. => .isTrue (by simp [Timely, h])

/-! ## The invariant -/

/-- A run that has come to slot `i` has visited those in front of it. -/
def Visited (visits : List Visit) (time i : Nat) : Prop :=
  visits.map Visit.slot = List.range i ∧ ∀ v ∈ visits, v.time = time

/-- How far the run has come. -/
def UnderWay (visits : List Visit) : Phase → Prop
  | .program => True
  | .visiting time_stamp i =>
    0 < time_stamp.toNat ∧ i ≤ slots ∧ Visited visits time_stamp.toNat i
  | .calling time_stamp i _ =>
    0 < time_stamp.toNat ∧ i < slots ∧ Visited visits time_stamp.toNat (i + 1)

/-- The timers have been registered at readings of the clock, with intervals that fit. -/
structure Inv (s : State) : Prop where
  onTime : s.OnTime
  timers : ∀ i, ∀ r ∈ s.timers i, 0 < r.since ∧ r.interval * 10 ^ 6 < 2 ^ 32
  last : ∀ l ∈ s.last_time_stamp, l.toNat ≤ s.now
  phase : UnderWay s.visits s.phase

theorem freeSlot_eq_some {m_timers : Nat → TimerInfo} {index : Nat}
    (h : freeSlot m_timers = some index) : index < slots ∧ (m_timers index).func = none := by
  have hfold : ∀ (l : List Nat) (acc : Option Nat),
      l.foldl (fun index i => if (m_timers i).func.isNone then some i else index) acc =
        some index → acc = some index ∨ index ∈ l ∧ (m_timers index).func = none := by
    intro l
    induction l with
    | nil => exact fun acc h => .inl h
    | cons i l ih =>
      intro acc h
      rcases ih _ h with hacc | ⟨hmem, hfree⟩
      · dsimp only at hacc
        split at hacc
        · next hnone =>
          obtain rfl := Option.some.inj hacc
          exact .inr ⟨List.mem_cons_self .., Option.isNone_iff_eq_none.mp hnone⟩
        · exact .inl hacc
      · exact .inr ⟨List.mem_cons_of_mem _ hmem, hfree⟩
  rcases hfold _ _ h with hnone | ⟨hmem, hfree⟩
  · cases hnone
  · exact ⟨List.mem_range.mp hmem, hfree⟩

theorem Inv.registerAt {s : State} (h : s.Inv) {index : Nat} (hindex : index < slots)
    {time_interval : UInt32} {reading : UInt64} (hreading : s.Reading reading)
    (hfits : time_interval.toNat * 10 ^ 6 < 2 ^ 32) :
    (s.registerAt index time_interval reading).Inv := by
  obtain ⟨hpos, hnow⟩ := hreading
  refine ⟨⟨fun i hi => ?_, h.onTime.calls, h.onTime.visits, h.onTime.runs⟩, fun i r hr => ?_,
    fun l hl => Nat.le_trans (h.last l hl) hnow, h.phase⟩
  · by_cases heq : i = index
    · subst heq
      simp [State.registerAt, Holds]
    · simp only [State.registerAt, Function.update_of_ne heq]
      exact h.onTime.slots i hi
  · by_cases heq : i = index
    · subst heq
      simp only [State.registerAt, Function.update_self, Option.mem_some_iff] at hr
      subst hr
      exact ⟨hpos, hfits⟩
    · simp only [State.registerAt, Function.update_of_ne heq] at hr
      exact h.timers i r hr

/-- What a slot holds after its timer has been settled. -/
theorem holds_left {info info' : TimerInfo} {reg : Option Registered} {timer time : Nat}
    {result : Bool} (h : Holds info reg)
    (hmine : ∀ r ∈ reg, r.timer = timer ∨ result = true ∧ r.since = time)
    (hkept : result = true → info'.func = info.func ∧ info'.time_stamp.toNat = time ∧
      info'.time_interval = info.time_interval)
    (hgone : result = false → info'.func = none) :
    Holds info' (reg.bind (left timer time result)) := by
  cases reg with
  | none =>
    cases result with
    | true => exact (hkept rfl).1.trans h
    | false => exact hgone rfl
  | some r =>
    obtain ⟨hfunc, hstamp, hinterval⟩ := h
    cases result with
    | true =>
      obtain ⟨hfunc', hstamp', hinterval'⟩ := hkept rfl
      have hsame : info'.time_interval.toNat = r.interval := by rw [hinterval', hinterval]
      rw [Option.bind_some, left]
      split
      · exact ⟨hfunc'.trans hfunc, hstamp', hsame⟩
      · next hne =>
        rcases hmine r rfl with hmine | ⟨-, hsince⟩
        · exact absurd hmine hne
        · exact ⟨hfunc'.trans hfunc, hstamp'.trans hsince.symm, hsame⟩
    | false =>
      rcases hmine r rfl with hmine | ⟨hfalse, -⟩
      · rw [Option.bind_some, left, if_pos hmine]
        exact hgone rfl
      · cases hfalse

theorem mem_left {timer time : Nat} {result : Bool} {r r' : Registered}
    (h : r' ∈ left timer time result r) :
    r'.interval = r.interval ∧ (r'.since = r.since ∨ r'.since = time ∧ result = true) := by
  rw [left] at h
  split at h
  · cases result with
    | true =>
      obtain rfl : _ = r' := Option.some.inj h
      exact ⟨rfl, .inr ⟨rfl, rfl⟩⟩
    | false => cases h
  · obtain rfl : r = r' := Option.some.inj h
    exact ⟨rfl, .inl rfl⟩

/-- A timer is settled and its slot is written to. -/
theorem Inv.settle {s : State} (h : s.Inv) {i timer time : Nat} {result : Bool} {info : TimerInfo}
    {phase : Phase} (htime : result = true → 0 < time)
    (hmine : ∀ r ∈ s.timers i, r.timer = timer ∨ result = true ∧ r.since = time)
    (hkept : result = true → info.func = (s.m_timers i).func ∧ info.time_stamp.toNat = time ∧
      info.time_interval = (s.m_timers i).time_interval)
    (hgone : result = false → info.func = none) (hphase : UnderWay s.visits phase) :
    Inv { s.settle i timer time result with
      m_timers := Function.update s.m_timers i info, phase := phase } := by
  refine ⟨⟨fun j hj => ?_, h.onTime.calls, h.onTime.visits, h.onTime.runs⟩, fun j r hr => ?_,
    h.last, hphase⟩
  · by_cases heq : j = i
    · subst heq
      simp only [State.settle, Function.update_self]
      exact holds_left (h.onTime.slots j hj) hmine hkept hgone
    · simp only [State.settle, Function.update_of_ne heq]
      exact h.onTime.slots j hj
  · by_cases heq : j = i
    · subst heq
      simp only [State.settle, Function.update_self, Option.mem_def, Option.bind_eq_some_iff] at hr
      obtain ⟨r₀, hr₀, hr⟩ := hr
      obtain ⟨hpos, hfits⟩ := h.timers j r₀ hr₀
      obtain ⟨hinterval, hsince⟩ := mem_left hr
      refine ⟨?_, hinterval ▸ hfits⟩
      rcases hsince with hsince | ⟨hsince, hresult⟩
      · rw [hsince]
        exact hpos
      · rw [hsince]
        exact htime hresult
    · simp only [State.settle, Function.update_of_ne heq] at hr
      exact h.timers j r hr

/-- The product of an interval that fits, and the time since a registration that is not later. -/
theorem elapsed_iff {info : TimerInfo} {time_stamp : UInt64} {r : Registered}
    (hstamp : info.time_stamp.toNat = r.since) (hinterval : info.time_interval.toNat = r.interval)
    (hfits : r.interval * 10 ^ 6 < 2 ^ 32) (hle : r.since ≤ time_stamp.toNat) :
    elapsed info time_stamp = true ↔ Due r time_stamp.toNat := by
  have hprod : (info.time_interval * 1000 * 1000).toUInt64.toNat = r.interval * 10 ^ 6 := by
    rw [UInt32.toNat_toUInt64, UInt32.toNat_mul, UInt32.toNat_mul, hinterval]
    simp only [UInt32.reduceToNat]
    omega
  have hsub : (time_stamp - info.time_stamp).toNat = time_stamp.toNat - r.since := by
    rw [UInt64.toNat_sub_of_le _ _ (by rw [UInt64.le_iff_toNat_le, hstamp]; exact hle), hstamp]
  rw [elapsed, decide_eq_true_eq, UInt64.le_iff_toNat_le, hprod, hsub, Due]
  omega

/-- A visit is recorded, and the run goes on behind it. -/
theorem Inv.recorded {s : State} (h : s.Inv) {time_stamp : UInt64} {i : Nat} (hi : i < slots)
    (hpos : 0 < time_stamp.toNat) (hvisited : Visited s.visits time_stamp.toNat i)
    {r : Option Registered} (hr : s.timers i = r) {called : Option Nat} {phase : Phase}
    (hcalled : called = expected r time_stamp.toNat)
    (hphase : phase = .visiting time_stamp (i + 1) ∨ ∃ timer, phase = .calling time_stamp i timer) :
    Inv { s with
      phase := phase
      visits := s.visits ++ [⟨i, time_stamp.toNat, r, called⟩] } := by
  subst hr
  have hnext : Visited (s.visits ++ [⟨i, time_stamp.toNat, s.timers i, called⟩])
      time_stamp.toNat (i + 1) := by
    refine ⟨by rw [List.map_append, hvisited.1, List.range_succ]; rfl, ?_⟩
    exact List.forall_mem_append.mpr ⟨hvisited.2, List.forall_mem_singleton.mpr rfl⟩
  have hvisits : ∀ v ∈ s.visits ++ [⟨i, time_stamp.toNat, s.timers i, called⟩],
      v.called = expected v.registered v.time :=
    List.forall_mem_append.mpr ⟨h.onTime.visits, List.forall_mem_singleton.mpr hcalled⟩
  refine ⟨⟨h.onTime.slots, h.onTime.calls, hvisits, h.onTime.runs⟩, h.timers, h.last, ?_⟩
  rcases hphase with rfl | ⟨timer, rfl⟩
  · exact ⟨hpos, hi, hnext⟩
  · exact ⟨hpos, hi, hnext⟩

/-- **A run that comes to a timer calls it if and only if it is due.** -/
theorem Inv.visit {s : State} (h : s.Inv) {time_stamp : UInt64} {i : Nat} (hi : i < slots)
    (hpos : 0 < time_stamp.toNat) (hvisited : Visited s.visits time_stamp.toNat i)
    (hle : ∀ r ∈ s.timers i, r.since ≤ time_stamp.toNat) : (s.visit time_stamp i).Inv := by
  have hholds := h.onTime.slots i hi
  rw [State.visit]
  cases hreg : s.timers i with
  | none =>
    rw [hreg] at hholds
    rw [show (s.m_timers i).func = none from hholds]
    exact h.recorded hi hpos hvisited hreg rfl (.inl rfl)
  | some r =>
    rw [hreg] at hholds
    obtain ⟨hfunc, hstamp, hinterval⟩ := hholds
    obtain ⟨hsince, hfits⟩ := h.timers i r hreg
    have hne : (s.m_timers i).time_stamp ≠ 0 := by
      intro hzero
      rw [hzero] at hstamp
      simp at hstamp
      omega
    have hdue := elapsed_iff hstamp hinterval hfits (hle r hreg)
    rw [hfunc]
    dsimp only
    rw [if_neg hne]
    by_cases hel : elapsed (s.m_timers i) time_stamp = true
    · rw [if_pos hel]
      exact h.recorded hi hpos hvisited hreg (if_pos (hdue.mp hel)).symm (.inr ⟨_, rfl⟩)
    · rw [if_neg hel]
      exact h.recorded hi hpos hvisited hreg (if_neg fun hd => hel (hdue.mpr hd)).symm (.inl rfl)

/-! ## Every run -/

/-- A call of `run` goes through the slots if its reading is a second after the first one. -/
theorem Inv.startRun {s : State} (h : s.Inv) {first reading : UInt64} (hfirst : s.Reading first)
    (hle : first ≤ reading) : (s.startRun first reading).Inv := by
  obtain ⟨hpos, hnow⟩ := hfirst
  have hle' := UInt64.le_iff_toNat_le.mp hle
  have hlast : (s.last_time_stamp.getD first).toNat ≤ reading.toNat := by
    cases hl : s.last_time_stamp with
    | none => exact hle'
    | some l => exact Nat.le_trans (h.last l hl) (Nat.le_trans hnow hle')
  have hsub := UInt64.toNat_sub_of_le _ _ (UInt64.le_iff_toNat_le.mpr hlast)
  have hcalls : ∀ started, (started = true ↔ ¬reading - s.last_time_stamp.getD first < 1000 * 1000) →
      ∀ c ∈ s.calls ++ [⟨(s.last_time_stamp.getD first).toNat, reading.toNat, started⟩],
        c.started = true ↔ c.first + 10 ^ 6 ≤ c.time := by
    intro started hstarted
    refine List.forall_mem_append.mpr ⟨h.onTime.calls, List.forall_mem_singleton.mpr ?_⟩
    rw [hstarted, UInt64.lt_iff_toNat_lt, hsub]
    simp only [UInt64.reduceMul, UInt64.reduceToNat]
    omega
  rw [State.startRun]
  dsimp only
  split
  · next hlt =>
    exact ⟨⟨h.onTime.slots, hcalls false (by simpa using hlt), h.onTime.visits, h.onTime.runs⟩,
      h.timers, fun l hl => Option.some.inj hl ▸ hlast, h.phase⟩
  · next hnot =>
    exact ⟨⟨h.onTime.slots, hcalls true (by simpa using hnot), List.forall_mem_nil _,
      h.onTime.runs⟩, h.timers, fun l hl => Option.some.inj hl ▸ hlast,
      Nat.lt_of_lt_of_le hpos hle', Nat.zero_le _, rfl, List.forall_mem_nil _⟩

/-- A run ends when it has visited all slots. -/
theorem Inv.endRun {s : State} (h : s.Inv) {time_stamp : UInt64}
    (hvisited : Visited s.visits time_stamp.toNat slots) : (s.endRun time_stamp).Inv := by
  refine ⟨⟨h.onTime.slots, h.onTime.calls, List.forall_mem_nil _, ?_⟩, h.timers, h.last, trivial⟩
  refine List.forall_mem_append.mpr ⟨h.onTime.runs, List.forall_mem_singleton.mpr ?_⟩
  exact ⟨hvisited.1, fun v hv => ⟨hvisited.2 v hv, h.onTime.visits v hv⟩⟩

theorem Inv.step {s s' : State} {a : Action} (h : s.Inv) (hok : s.Timely a)
    (hs : s.step a = some s') : s'.Inv := by
  cases a with
  | registerTimer time_interval reading =>
    rw [State.step] at hs
    split at hs
    · next hcall =>
      split at hs
      · obtain rfl := Option.some.inj hs
        exact h
      · obtain ⟨index, hindex, rfl⟩ := Option.map_eq_some_iff.mp hs
        exact h.registerAt (freeSlot_eq_some hindex).1 hcall.2 hok
    · cases hs
  | unRegisterTimer timer_id timer =>
    rw [State.step] at hs
    split at hs
    · obtain rfl := Option.some.inj hs
      exact h.settle (fun hf => by cases hf) (fun r hr => .inl (hok r hr)) (fun hf => by cases hf)
        (fun _ => rfl) h.phase
    · cases hs
  | run first reading =>
    rw [State.step] at hs
    split at hs
    · next hcall =>
      obtain rfl := Option.some.inj hs
      exact h.startRun hcall.2.1 hcall.2.2
    · cases hs
  | visit =>
    have hphase := h.phase
    rw [State.step] at hs
    cases hp : s.phase with
    | program => simp [hp] at hs
    | calling time_stamp i timer => simp [hp] at hs
    | visiting time_stamp i =>
      simp only [Timely, hp] at hok hs
      rw [hp] at hphase
      obtain ⟨hpos, hle, hvisited⟩ := hphase
      split at hs
      · next hi =>
        obtain rfl := Option.some.inj hs
        exact h.visit hi hpos hvisited hok
      · next hnot =>
        obtain rfl := Option.some.inj hs
        obtain rfl : i = slots := Nat.le_antisymm hle (Nat.le_of_not_lt hnot)
        exact h.endRun hvisited
  | callbackReturns result =>
    have hphase := h.phase
    rw [State.step] at hs
    cases hp : s.phase with
    | program => simp [hp] at hs
    | visiting time_stamp i => simp [hp] at hs
    | calling time_stamp i timer =>
      simp only [Timely, hp] at hok hs
      rw [hp] at hphase
      obtain rfl := Option.some.inj hs
      rw [State.returned]
      cases result with
      | true =>
        exact h.settle (fun _ => hphase.1) hok (fun _ => ⟨rfl, rfl, rfl⟩) (fun hf => by cases hf)
          hphase
      | false =>
        exact h.settle (fun hf => by cases hf) hok (fun hf => by cases hf) (fun _ => rfl) hphase

theorem inv_new : new.Inv :=
  ⟨⟨fun _ _ => rfl, List.forall_mem_nil _, List.forall_mem_nil _, List.forall_mem_nil _⟩,
    fun _ _ hr => absurd hr (Option.not_mem_none _), fun _ hl => absurd hl (Option.not_mem_none _),
    trivial⟩

/-- A timer object that has just been made. -/
def Init (s : State) : Prop := s = new

/-- **Timers fire on time in every run whose steps meet the conditions.** -/
theorem onTime_of_reach {s : State} (hr : Reach Init step Timely s) : s.OnTime := by
  refine (hr.invariant Inv ?_ fun _ _ _ h hok hs => h.step hok hs).onTime
  rintro s rfl
  exact inv_new

/-- A timer of two seconds, with a run that comes to it two seconds after its registration. -/
def twoSeconds : List Action :=
  [.registerTimer 2 1000000, .run 1000000 3000000, .visit, .visit, .visit, .visit, .visit, .visit,
    .visit, .visit, .visit, .visit, .callbackReturns true, .visit]

theorem twoSeconds_runs : (exec step new twoSeconds).isSome = true := by decide +kernel

theorem onTime_twoSeconds : ((exec step new twoSeconds).get twoSeconds_runs).OnTime :=
  onTime_of_reach (.of_exec (.start rfl) (by decide +kernel) (Option.some_get twoSeconds_runs).symm)

/-! ## The three ways to go wrong -/

/-- A timer of 5000 seconds, with a run that comes to it after less than 706 seconds. -/
def longInterval : List Action :=
  [.registerTimer 5000 1000000, .run 1000000 706032704, .visit, .visit, .visit, .visit, .visit,
    .visit, .visit, .visit, .visit, .visit]

theorem longInterval_runs : (exec step new longInterval).isSome = true := by decide +kernel

/-- **A timer of 5000 seconds is called after 706 seconds.** -/
theorem not_onTime_longInterval : ¬∀ s, Reach Init step anyStep s → s.OnTime := by
  intro h
  have hon := h _ (.of_exec (.start rfl) (by decide +kernel)
    (Option.some_get longInterval_runs).symm)
  have hearly : ∃ v ∈ ((exec step new longInterval).get longInterval_runs).visits,
      v.called ≠ expected v.registered v.time := by
    decide +kernel
  obtain ⟨v, hv, hne⟩ := hearly
  exact hne (hon.visits v hv)

/-- **A run calls a timer that was registered after the run's reading of the clock.** -/
theorem not_onTime_visit_young {s : State} (h : s.Inv) {time_stamp : UInt64} {i : Nat}
    (hi : i < slots) {r : Registered} (hr : s.timers i = some r)
    (hyoung : time_stamp.toNat < r.since) (hnear : r.since - time_stamp.toNat < 2 ^ 63) :
    ¬(s.visit time_stamp i).OnTime := by
  intro hon
  have hholds := h.onTime.slots i hi
  obtain ⟨hsince, hfits⟩ := h.timers i r hr
  rw [hr] at hholds
  obtain ⟨hfunc, hstamp, hinterval⟩ := hholds
  have hne : (s.m_timers i).time_stamp ≠ 0 := by
    intro hzero
    rw [hzero] at hstamp
    simp at hstamp
    omega
  have hel : elapsed (s.m_timers i) time_stamp = true := by
    have hprod : ((s.m_timers i).time_interval * 1000 * 1000).toUInt64.toNat < 2 ^ 32 := by
      rw [UInt32.toNat_toUInt64]
      exact UInt32.toNat_lt _
    have hsub : 2 ^ 63 ≤ (time_stamp - (s.m_timers i).time_stamp).toNat := by
      rw [UInt64.toNat_sub, hstamp]
      have hlt := (s.m_timers i).time_stamp.toNat_lt
      omega
    rw [elapsed, decide_eq_true_eq, UInt64.le_iff_toNat_le]
    omega
  have hv := hon.visits ⟨i, time_stamp.toNat, some r, some r.timer⟩ (by
    simp [State.visit, hfunc, hne, hel, hr])
  have hnot : ¬Due r time_stamp.toNat := by
    rw [Due]
    omega
  have hexpected : expected (some r) time_stamp.toNat = none := if_neg hnot
  rw [hexpected] at hv
  cases hv

/-- **A slot that is emptied for one timer loses the other one that is in it.** -/
theorem not_onTime_cleared {s : State} {i timer time : Nat} (hi : i < slots) {r : Registered}
    (hr : s.timers i = some r) (hother : r.timer ≠ timer) (phase : Phase) :
    ¬OnTime { (s.settle i timer time false).clear i with phase := phase } := by
  intro hon
  have hholds := hon.slots i hi
  simp [State.settle, State.clear, hr, left, hother, Holds] at hholds

/-- **The time of a firing that is written to a slot delays or hastens the other one in it.** -/
theorem not_onTime_restamped {s : State} {time_stamp : UInt64} {i timer : Nat} (hi : i < slots)
    {r : Registered} (hr : s.timers i = some r) (hother : r.timer ≠ timer)
    (hsince : r.since ≠ time_stamp.toNat) : ¬(s.returned time_stamp i timer true).OnTime := by
  intro hon
  have hholds := hon.slots i hi
  simp [State.returned, State.settle, hr, left, hother, Holds] at hholds
  exact hsince hholds.2.1.symm

end State

end GhNet.Base.Timer
