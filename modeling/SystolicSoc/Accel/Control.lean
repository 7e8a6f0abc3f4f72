import SystolicSoc.Accel.Port
import Mathlib.Tactic.SplitIfs

/-!
# Controller invariants

* `AccelRegs.Inv`, `AccelRegs.inv_of_reachable` : the bounds of the controller counters, and the
  distance that the write port keeps between a start and the next write: no write is held complete
  while the array is being cleared (`AccelRegs.Inv.pending_of_executes`).
* `AccelRegs.DoneOk` : the done bit excludes an operation under way.
* `startDone_iff` : **a run keeps the start/done handshake exactly if no start write executes in a
  capture cycle.**  In that cycle the capture wins over the start
  (`AccelRegs.starts_next_of_captures`).
-/

namespace SystolicSoc

namespace AccelRegs

variable {req : Req} {s : AccelRegs}

/-! ### The controller registers after an edge -/

theorem next_startPendingQ : (next req s).startPendingQ =
    if s.startPendingQ ≠ 0#2 then s.startPendingQ - 1#2
    else if s.starts then 2#2 else s.startPendingQ := by rw [next_eq]

theorem next_busyQ : (next req s).busyQ =
    if s.captures then false else if s.starts then true else s.busyQ := by rw [next_eq]

theorem next_feedDelayQ : (next req s).feedDelayQ =
    if s.delays then s.feedDelayQ - 1#2 else if s.starts then 1#2 else s.feedDelayQ := by
  rw [next_eq]

theorem next_computeCycleQ : (next req s).computeCycleQ =
    if s.advances then s.computeCycleQ + 1#5 else if s.starts then 0#5 else s.computeCycleQ := by
  rw [next_eq]

theorem next_done : (next req s).done =
    if s.captures then true else if s.starts then false else s.done := by
  have hset : ∀ (x : BitVec 32) (v : BitVec 1), (Bits.setSlice x 0 v).getLsbD 0 = v.getLsbD 0 :=
    fun x v => Bits.getLsbD_zero_setSlice x v (by omega) (by omega)
  rw [next_eq]
  dsimp only [done]
  split_ifs
  · exact hset _ _
  · exact hset _ _
  · exact hset _ _
  · rfl

theorem next_arrayAQ : (next req s).arrayAQ =
    if s.delays then 0#64 else if s.advances then feedWord s.aStreamQ s
    else if s.starts then 0#64 else s.arrayAQ := by rw [next_eq]

theorem next_arrayBQ : (next req s).arrayBQ =
    if s.delays then 0#64 else if s.advances then feedWord s.bStreamQ s
    else if s.starts then 0#64 else s.arrayBQ := by rw [next_eq]

theorem next_resultQ : (next req s).resultQ =
    if s.captures then s.systolicResult else s.resultQ := by rw [next_eq]

theorem next_uSystolicArray : (next req s).uSystolicArray =
    s.uSystolicArray.next s.clearArray s.arrayAQ s.arrayBQ := by rw [next_eq]

theorem captures_iff : s.captures = true ↔
    s.startPendingQ = 0#2 ∧ s.busyQ = true ∧ s.feedDelayQ = 0#2 ∧ s.computeCycleQ = 20#5 := by
  simp [captures, running, and_assoc]

theorem executes_iff :
    s.executes = true ↔ s.awPendingQ = true ∧ s.wPendingQ = true ∧ s.bValidQ = false := by
  simp [executes, and_assoc]

theorem executes_of_starts (h : s.starts = true) : s.executes = true := by
  simp only [starts, writesCtrl, Bool.and_eq_true] at h
  exact h.1.1

theorem not_starts_of_not_executes (h : s.executes = false) : s.starts = false := by
  simp [starts, writesCtrl, h]

/-- A write that executes is taken off the port, which then owes its response. -/
theorem next_port_of_executes (h : s.executes = true) :
    (next req s).awPendingQ = false ∧ (next req s).wPendingQ = false ∧
      (next req s).bValidQ = true := by
  rw [next_eq]
  simp [h, (executes_iff.1 h).2.2]

/-! ### The invariant -/

/-- Counter bounds, and the distance between a start and the next write. -/
structure Inv (s : AccelRegs) : Prop where
  port : s.writePort.Idle
  quiet : s.startPendingQ ≠ 0#2 → s.awPendingQ = false ∧ s.wPendingQ = false
  owed : s.startPendingQ = 2#2 → s.bValidQ = true
  pending_le : s.startPendingQ.toNat ≤ 2
  delay_le : s.feedDelayQ.toNat ≤ 1
  cycle_le : s.computeCycleQ.toNat ≤ 20

/-- No write executes while a start is pending. -/
theorem Inv.pending_of_executes (h : s.Inv) (he : s.executes = true) : s.startPendingQ = 0#2 := by
  by_contra hp
  have haw := (h.quiet hp).1
  rw [(executes_iff.1 he).1] at haw
  cases haw

theorem inv_reset : Inv reset := by
  constructor <;> simp [reset, writePort, WritePort.Idle]

theorem inv_next (h : s.Inv) (req : Req) : (next req s).Inv where
  port := writePort_idle_next h.port req
  quiet := by
    rw [next_startPendingQ]
    intro hp
    split_ifs at hp with h0 hst
    · -- the countdown goes on, so the response of the start is still owed
      have h2 : s.startPendingQ = 2#2 := by have := h.pending_le; bv_omega
      have hb := h.owed h2
      rw [next_eq]
      simp [respO, hb, h.quiet h0]
    · obtain ⟨haw, hw, -⟩ := next_port_of_executes (executes_of_starts hst)
      exact ⟨haw, hw⟩
    · exact absurd hp h0
  owed := by
    rw [next_startPendingQ]
    intro hp
    split_ifs at hp with h0 hst
    · have := h.pending_le
      bv_omega
    · exact (next_port_of_executes (executes_of_starts hst)).2.2
    · exact absurd (by simp [hp]) h0
  pending_le := by
    rw [next_startPendingQ]
    have := h.pending_le
    split_ifs with h0 hst
    · bv_omega
    · simp
    · exact this
  delay_le := by
    rw [next_feedDelayQ]
    have := h.delay_le
    split_ifs with hd hst
    · have hne : s.feedDelayQ ≠ 0#2 := by
        simp only [delays, Bool.and_eq_true, bne_iff_ne] at hd
        exact hd.2
      bv_omega
    · simp
    · exact this
  cycle_le := by
    rw [next_computeCycleQ]
    have := h.cycle_le
    split_ifs with ha hst
    · have hne : s.computeCycleQ ≠ 20#5 := by
        simp only [advances, Bool.and_eq_true, bne_iff_ne] at ha
        exact ha.2
      bv_omega
    · simp
    · exact this

theorem inv_of_reachable (hs : accel.Reachable s) : s.Inv :=
  hs.invariant inv_reset fun req _ h => inv_next h req

/-! ### Start and done -/

/-- The done bit excludes an operation under way, and a pending start is one. -/
def DoneOk (s : AccelRegs) : Prop :=
  (s.done = true → s.busyQ = false ∧ s.startPendingQ = 0#2) ∧
    (s.startPendingQ ≠ 0#2 → s.busyQ = true)

theorem starts_next (h : s.starts = true) (hc : s.captures = false) :
    (next req s).busyQ = true ∧ (next req s).done = false := by
  simp [next_busyQ, next_done, h, hc]

/-- **The collision**: the capture wins over a start in the same cycle, whose clear then runs
while the controller is idle and the done bit up. -/
theorem starts_next_of_captures (h : s.starts = true) (hc : s.captures = true) :
    (next req s).busyQ = false ∧ (next req s).done = true ∧ (next req s).startPendingQ = 2#2 := by
  simp [next_busyQ, next_done, next_startPendingQ, h, hc, (captures_iff.1 hc).1]

theorem doneOk_next (h : s.DoneOk) (hc : ¬ (s.starts = true ∧ s.captures = true)) :
    (next req s).DoneOk := by
  obtain ⟨hdone, hbusy⟩ := h
  simp only [DoneOk, next_done, next_busyQ, next_startPendingQ]
  by_cases hcap : s.captures = true
  · have hst : s.starts = false := by simpa [hcap] using hc
    simp [hcap, hst, (captures_iff.1 hcap).1]
  · by_cases hst : s.starts = true
    · simp [hcap, hst]
    · simp only [hcap, hst, Bool.false_eq_true, if_false]
      constructor
      · intro hd
        obtain ⟨hidle, h0⟩ := hdone hd
        exact ⟨hidle, by simp [h0]⟩
      · intro hp
        refine hbusy fun h0 => hp ?_
        simp [h0]

end AccelRegs

open AccelRegs

/-- **The start/done handshake holds throughout a run exactly if no start write executes in a
capture cycle.** -/
theorem startDone_iff (ι : ℕ → Req) :
    (∀ n, (accel.run ι n).DoneOk ∧ ((accel.run ι n).starts = true →
        (accel.run ι (n + 1)).busyQ = true ∧ (accel.run ι (n + 1)).done = false)) ↔
      ∀ n, ¬ ((accel.run ι n).starts = true ∧ (accel.run ι n).captures = true) := by
  constructor
  · rintro h n ⟨hst, hcap⟩
    have hbusy := ((h n).2 hst).1
    rw [Clocked.run_succ] at hbusy
    have hidle : (next (ι n) (accel.run ι n)).busyQ = false := (starts_next_of_captures hst hcap).1
    exact absurd (hbusy.symm.trans hidle) (by decide)
  · intro h n
    have hok : (accel.run ι n).DoneOk :=
      Clocked.runFrom_invariant (A := accel) (P := DoneOk) (by simp [DoneOk, accel, reset, done])
        (fun k hk => doneOk_next hk (h k)) n
    refine ⟨hok, fun hst => ?_⟩
    have hcap : (accel.run ι n).captures = false := by simpa [hst] using h n
    exact starts_next hst hcap

/-- A start, and a second one that executes when the first operation captures its result. -/
def collidingStarts : ℕ → Req :=
  Req.script [(0, Req.write 0x10000000 1 0xF), (24, Req.write 0x10000000 1 0xF)]

/-- The second start is lost: the done bit is up and the controller idle while the array is being
cleared. -/
theorem startDone_collision :
    ¬ ∀ (ι : ℕ → Req) (n : ℕ), (accel.run ι n).DoneOk ∧ ((accel.run ι n).starts = true →
        (accel.run ι (n + 1)).busyQ = true ∧ (accel.run ι (n + 1)).done = false) := by
  intro h
  have hstart : (accel.run collidingStarts 25).starts = true := by decide +kernel
  have hbusy := ((h collidingStarts 25).2 hstart).1
  have hidle : (accel.run collidingStarts 26).busyQ = false := by decide +kernel
  rw [hidle] at hbusy
  cases hbusy

end SystolicSoc
