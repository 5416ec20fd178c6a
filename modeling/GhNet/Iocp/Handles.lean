import Mathlib.Data.List.Induction
import Mathlib.Data.List.Nodup
import GhNet.Iocp.Isolation

/-!
# Handles of closed connections

The program names a connection by its slot and its serial. A slot is given out again and again,
and the serial of a closed connection stays in it until then; but no serial is given out twice, as
long as the counter does not wrap around. So a handle that was kept when its connection was closed
never names another one.
-/

namespace GhNet.Iocp

open GhNet Service

variable {s s' : Service} {i n : Nat}

/-! ## What the history says of serials -/

/-- The serial that `onCon` is called with. -/
def Event.announces : Event → Option Nat
  | .onCon _ n _ => some n
  | _ => none

/-- The serials of the connections there have been, in order. -/
def announced (log : List Event) : List Nat := log.filterMap Event.announces

@[simp] theorem announced_append (l m : List Event) :
    announced (l ++ m) = announced l ++ announced m := List.filterMap_append

theorem Event.Inner.announces {e : Event} (h : e.Inner) : e.announces = none := by
  cases e with
  | onCon => exact h.elim
  | _ => rfl

theorem Event.Inner.ne_closesocket {e : Event} (h : e.Inner) (i n : Nat) :
    .closesocket i n ≠ e := by
  rintro rfl
  exact h

/-- No connection has come or gone, and the history does not say so. -/
structure Plain (s s' : Service) : Prop extends Standing s s' where
  announced : announced s'.log = announced s.log
  closed : ∀ i n, .closesocket i n ∈ s'.log ↔ .closesocket i n ∈ s.log

theorem Plain.stable : Stable Plain where
  refl s := ⟨.refl s, rfl, fun _ _ => Iff.rfl⟩
  setPeer h hs hn := ⟨h.toStanding.trans (.setPeer hs hn), h.announced, h.closed⟩
  record {s t e} h he := by
    refine ⟨h.toStanding.trans (.of_eq rfl rfl), ?_, fun i n => ?_⟩
    · rw [record_log, announced_append, ← h.announced]
      simp [Iocp.announced, he.announces]
    · rw [record_log, List.mem_append, List.mem_singleton, ← h.closed]
      exact or_iff_left (he.ne_closesocket i n)
  of_eq h hp hm hlog :=
    ⟨h.toStanding.trans (.of_eq hp hm), hlog ▸ h.announced, fun i n => hlog ▸ h.closed i n⟩

/-! ## The invariant -/

/-- Serials are given out once, and a closed connection is not there any more. -/
structure Handles (s : Service) : Prop where
  serial_lt : ∀ {i n}, s.Live i n → n < s.m_serial
  index_lt : ∀ {i n}, s.Live i n → i < MAX_PEER_NUM
  announced_lt : ∀ n ∈ announced s.log, n < s.m_serial
  nodup : (announced s.log).Nodup
  closed : ∀ {i n}, .closesocket i n ∈ s.log →
    i < MAX_PEER_NUM ∧ n < s.m_serial ∧ ¬s.Live i n

namespace Handles

theorem new : Handles Service.new where
  serial_lt h := absurd rfl h.1
  index_lt h := absurd rfl h.1
  announced_lt := by simp [Service.new, announced]
  nodup := List.nodup_nil
  closed h := by simp [Service.new] at h

theorem plain (h : Handles s) (hp : Plain s s') : Handles s' where
  serial_lt hl := hp.m_serial ▸ h.serial_lt ((hp.live _ _).mp hl)
  index_lt hl := h.index_lt ((hp.live _ _).mp hl)
  announced_lt n hn := hp.m_serial ▸ h.announced_lt n (hp.announced ▸ hn)
  nodup := hp.announced ▸ h.nodup
  closed hm := by
    obtain ⟨hi, hn, hdead⟩ := h.closed ((hp.closed _ _).mp hm)
    exact ⟨hi, hp.m_serial ▸ hn, fun hl => hdead ((hp.live _ _).mp hl)⟩

/-- A registration uses up a serial, and gives it to one slot at most. -/
theorem registering (h : Handles s) (hser : s.m_serial + 1 < 2 ^ 64) (hc : Registering s s') :
    Handles s' := by
  have hmod : (s.m_serial + 1) % 2 ^ 64 = s.m_serial + 1 := Nat.mod_eq_of_lt hser
  cases hc with
  | full e => exact h.plain (Plain.stable.throw (Plain.stable.refl s) e)
  | unbound i hfree e =>
    have hlive : ∀ {j m}, (s.setPeer i (resetPeer (s.m_peer_array i) s.m_serial)).Live j m →
        s.Live j m := (setPeer_live_unbound hfree _ _).mp
    refine ⟨fun hl => ?_, fun hl => h.index_lt (hlive hl), fun m hm => ?_, h.nodup, fun hm => ?_⟩
    · exact Nat.lt_of_lt_of_eq (Nat.lt_succ_of_lt (h.serial_lt (hlive hl))) hmod.symm
    · exact Nat.lt_of_lt_of_eq (Nat.lt_succ_of_lt (h.announced_lt m hm)) hmod.symm
    · obtain ⟨hi, hn, hdead⟩ := h.closed hm
      exact ⟨hi, Nat.lt_of_lt_of_eq (Nat.lt_succ_of_lt hn) hmod.symm, fun hl => hdead (hlive hl)⟩
  | callback i hi hfree p' sd loc rem hp =>
    have hlive : ∀ {j m}, (s.setPeer i p').Live j m → j = i ∧ m = s.m_serial ∨ s.Live j m :=
      (setPeer_live_callback hfree hp _ _).mp
    have hann : announced (s.log ++ [.onCon i s.m_serial rem]) = announced s.log ++ [s.m_serial] :=
      announced_append _ _
    refine ⟨fun hl => ?_, fun hl => ?_, fun m hm => ?_, ?_, fun hm => ?_⟩
    · rcases hlive hl with ⟨-, rfl⟩ | hl
      · exact Nat.lt_of_lt_of_eq (Nat.lt_succ_self _) hmod.symm
      · exact Nat.lt_of_lt_of_eq (Nat.lt_succ_of_lt (h.serial_lt hl)) hmod.symm
    · rcases hlive hl with ⟨rfl, -⟩ | hl
      · exact hi
      · exact h.index_lt hl
    · rw [push_log, record_log, setPeer_log, hann, List.mem_append, List.mem_singleton] at hm
      rcases hm with hm | rfl
      · exact Nat.lt_of_lt_of_eq (Nat.lt_succ_of_lt (h.announced_lt m hm)) hmod.symm
      · exact Nat.lt_of_lt_of_eq (Nat.lt_succ_self _) hmod.symm
    · -- the new serial is greater than all before it
      rw [push_log, record_log, setPeer_log, hann]
      refine List.nodup_append.mpr ⟨h.nodup, List.nodup_singleton _, ?_⟩
      rintro m hm _ hm' rfl
      rw [List.mem_singleton] at hm'
      exact absurd (h.announced_lt m hm) (hm' ▸ Nat.lt_irrefl _)
    · rw [push_log, record_log, setPeer_log, List.mem_append, List.mem_singleton] at hm
      rcases hm with hm | hm
      · obtain ⟨hj, hn, hdead⟩ := h.closed hm
        refine ⟨hj, Nat.lt_of_lt_of_eq (Nat.lt_succ_of_lt hn) hmod.symm, fun hl => ?_⟩
        rcases hlive hl with ⟨-, rfl⟩ | hl
        · exact Nat.lt_irrefl _ hn
        · exact hdead hl
      · cases hm

/-- The end of a `closePeer` closes the connection that the slot holds. -/
theorem closePeerEnd (h : Handles s) (rest : List Frame) (i : Nat) :
    Handles ((s.popped rest).closePeerEnd i) := by
  have hlive := closePeerEnd_live (s.popped rest) i
  have hser : ((s.popped rest).closePeerEnd i).m_serial = s.m_serial := closePeerEnd_m_serial _ i
  have hann : announced ((s.popped rest).closePeerEnd i).log = announced s.log := by
    rcases closePeerEnd_log (s.popped rest) i with ⟨-, hlog⟩ | ⟨-, hlog⟩
    · rw [hlog, popped_log]
    · rw [hlog, announced_append]
      exact List.append_nil _
  refine ⟨fun hl => ?_, fun hl => h.index_lt ((hlive _ _).mp hl).2, fun m hm => ?_, ?_,
    fun {j m} hm => ?_⟩
  · rw [hser]
    exact h.serial_lt ((hlive _ _).mp hl).2
  · rw [hser]
    exact h.announced_lt m (hann ▸ hm)
  · rw [hann]
    exact h.nodup
  · rw [hser]
    have hold : .closesocket j m ∈ s.log → j < MAX_PEER_NUM ∧ m < s.m_serial ∧
        ¬((s.popped rest).closePeerEnd i).Live j m := by
      intro hm
      obtain ⟨hj, hn, hdead⟩ := h.closed hm
      exact ⟨hj, hn, fun hl => hdead ((hlive j m).mp hl).2⟩
    rcases closePeerEnd_log (s.popped rest) i with ⟨-, hlog⟩ | ⟨hsock, hlog⟩
    · rw [hlog] at hm
      exact hold hm
    · rw [hlog, List.mem_append, List.mem_singleton] at hm
      rcases hm with hm | hm
      · exact hold hm
      · -- the connection that is closed now
        injection hm with hj hm
        subst hj hm
        have hl : s.Live j (s.m_peer_array j).serial := ⟨hsock, rfl⟩
        exact ⟨h.index_lt hl, h.serial_lt hl, fun hl => ((hlive _ _).mp hl).1 rfl⟩


end Handles

/-! ## Runs -/

/-- How many sockets were handed to `registerSocket`. -/
def connections (acts : List Action) : Nat := acts.countP Action.registers

theorem connections_concat (acts : List Action) (a : Action) :
    connections (acts ++ [a]) = connections acts + if a.registers then 1 else 0 := by
  rw [connections, connections, List.countP_append, List.countP_singleton]

/-- One step, with one serial more if it registers a socket. -/
theorem Handles.step {a : Action} (h : Handles s) (hs : Iocp.step s a = some s')
    (hser : a.registers = true → s.m_serial + 1 < 2 ^ 64) :
    Handles s' ∧ s'.m_serial ≤ s.m_serial + if a.registers then 1 else 0 := by
  have hreg : ∀ {t}, Registering s t → t.m_serial ≤ s.m_serial + 1 := by
    rintro t (_ | _ | _)
    · exact Nat.le_succ _
    · exact Nat.mod_le _ _
    · exact Nat.mod_le _ _
  rcases Plain.stable.step (stepping hs) with hp | ⟨ha, hc⟩ | ⟨i, n, rest, -, -, -, -, rfl⟩
  · exact ⟨h.plain hp, hp.m_serial ▸ Nat.le_add_right _ _⟩
  · rw [if_pos ha]
    exact ⟨h.registering (hser ha) hc, hreg hc⟩
  · exact ⟨h.closePeerEnd rest i, closePeerEnd_m_serial (s.popped rest) i ▸ Nat.le_add_right _ _⟩

theorem handles_of_exec {acts : List Action} (hrun : exec Iocp.step Service.new acts = some s)
    (hcount : connections acts < 2 ^ 64) : Handles s ∧ s.m_serial ≤ connections acts := by
  induction acts using List.reverseRecOn generalizing s with
  | nil =>
    obtain rfl := Option.some.inj hrun
    exact ⟨.new, Nat.le_refl _⟩
  | append_singleton acts a ih =>
    rw [connections_concat] at hcount ⊢
    obtain ⟨t, ht, hs⟩ := exec_concat hrun
    obtain ⟨h, hle⟩ := ih ht (by omega)
    have hser : a.registers = true → t.m_serial + 1 < 2 ^ 64 := by
      intro ha
      rw [if_pos ha] at hcount
      omega
    obtain ⟨h', hle'⟩ := h.step hs hser
    exact ⟨h', by omega⟩

/-- `send` with a handle that names no connection does nothing. -/
theorem Sending.of_dead {buf : Bytes} {accepted : Bool} (h : Sending s i n buf accepted s')
    (hi : i < MAX_PEER_NUM) (hdead : ¬s.Live i n) : s' = s := by
  cases h with
  | outOfRange hi' _ => exact absurd hi (Nat.not_lt.mpr hi')
  | stale _ => rfl
  | failed hl | queued hl | signalled hl | refused hl => exact absurd hl hdead

theorem Closing.of_dead (h : Closing s i n s') (hi : i < MAX_PEER_NUM) (hdead : ¬s.Live i n) :
    s' = s := by
  cases h with
  | outOfRange hi' _ => exact absurd hi (Nat.not_lt.mpr hi')
  | stale _ => rfl
  | callback hl _ => exact absurd hl hdead

/-- **Stale handles are inert.** In every run with fewer than `2^64` connections all serials are
different, and the handle of a connection that has been closed does nothing any more. -/
theorem stale_handles_inert {acts : List Action} (hrun : exec step Service.new acts = some s)
    (hcount : connections acts < 2 ^ 64) :
    (announced s.log).Nodup ∧
      ∀ i n, .closesocket i n ∈ s.log →
        (∀ buf accepted, s.send i n buf accepted = s) ∧ s.closePeer i n = s := by
  obtain ⟨h, -⟩ := handles_of_exec hrun hcount
  refine ⟨h.nodup, fun i n hclosed => ?_⟩
  obtain ⟨hi, -, hdead⟩ := h.closed hclosed
  exact ⟨fun buf accepted => (send_outcome s i n buf accepted).of_dead hi hdead,
    (closePeer_outcome s i n).of_dead hi hdead⟩

theorem stale_handles_inert_reusedSlot :
    ∃ s, exec step Service.new reusedSlot = some s ∧ s.Live 0 1 ∧ s.closePeer 0 0 = s := by
  obtain ⟨s, hs⟩ := Option.isSome_iff_exists.mp reusedSlot_runs
  have hget : s = (exec step Service.new reusedSlot).get reusedSlot_runs :=
    (Option.get_of_eq_some reusedSlot_runs hs).symm
  have hlive : s.Live 0 1 ∧ .closesocket 0 0 ∈ s.log := by
    rw [hget]
    decide +kernel
  exact ⟨s, hs, hlive.1,
    ((stale_handles_inert hs (by decide)).2 0 0 hlive.2).2⟩

end GhNet.Iocp
