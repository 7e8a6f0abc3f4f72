import SystolicSoc.Accel.Operation

/-!
# The controller terminates

The completion test compares the cycle counter with 20 for equality, and a write that executes
assigns the same counters as the controller does.  The counters nevertheless stay in their bounds
and count an operation down to its capture.

* `AccelRegs.Inv.startPendingQ_next` : nothing cuts the clear short.
* `AccelRegs.Inv.computeCycleQ_next` : the cycle counter steps through every value up to 20.
* `AccelRegs.remaining` : the clocks that an operation still needs before its capture, and
  `AccelRegs.remaining_next`, `AccelRegs.remaining_run` : the countdown.
* `controller_terminates` : **bounds and termination, from every reachable state.**
-/

namespace SystolicSoc

namespace AccelRegs

variable {req : Req} {s : AccelRegs}

/-- The clocks before the capture of the operation under way. -/
def remaining (s : AccelRegs) : ℕ :=
  s.startPendingQ.toNat + s.feedDelayQ.toNat + (20 - s.computeCycleQ.toNat)

/-- **The clear is never cut short**: while it lasts no write executes, and every clock counts it
down. -/
theorem Inv.startPendingQ_next (h : s.Inv) (hp : s.startPendingQ ≠ 0#2) (req : Req) :
    s.executes = false ∧ (next req s).startPendingQ.toNat + 1 = s.startPendingQ.toNat := by
  constructor
  · refine Bool.eq_false_iff.2 fun he => hp ?_
    exact h.pending_of_executes he
  · rw [next_startPendingQ, if_pos hp]
    bv_omega

theorem Inv.computeCycleQ_next (h : s.Inv) (req : Req) : (next req s).computeCycleQ.toNat =
    if s.advances then s.computeCycleQ.toNat + 1
    else if s.starts then 0 else s.computeCycleQ.toNat := by
  have hle := h.cycle_le
  rw [next_computeCycleQ]
  split_ifs with hadv hst
  · have hne : s.computeCycleQ ≠ 20#5 := by
      simp only [advances, Bool.and_eq_true, bne_iff_ne] at hadv
      exact hadv.2
    bv_omega
  · rfl
  · rfl

theorem Inv.captures_iff_remaining (h : s.Inv) (hb : s.busyQ = true) :
    s.captures = true ↔ s.remaining = 0 := by
  have hle := h.cycle_le
  have hp : s.startPendingQ = 0#2 ↔ s.startPendingQ.toNat = 0 := by bv_omega
  have hf : s.feedDelayQ = 0#2 ↔ s.feedDelayQ.toNat = 0 := by bv_omega
  have hc : s.computeCycleQ = 20#5 ↔ s.computeCycleQ.toNat = 20 := by bv_omega
  rw [captures_iff, remaining, hp, hf, hc]
  constructor
  · rintro ⟨hp, -, hf, hc⟩
    omega
  · intro h0
    exact ⟨by omega, hb, by omega, by omega⟩

theorem remaining_next (h : s.Inv) (hb : s.busyQ = true) (hst : s.starts = false)
    (hcap : s.captures = false) (req : Req) :
    (next req s).busyQ = true ∧ (next req s).remaining + 1 = s.remaining := by
  have hle := h.cycle_le
  have hbusy : (next req s).busyQ = true := by simp [next_busyQ, hcap, hst, hb]
  refine ⟨hbusy, ?_⟩
  have hcycle := h.computeCycleQ_next req
  by_cases hp : s.startPendingQ = 0#2
  · have hrun : s.running = true := by simp [running, hp, hb]
    have hp' : (next req s).startPendingQ = 0#2 := by simp [next_startPendingQ, hp, hst]
    by_cases hf : s.feedDelayQ = 0#2
    · -- the feed and the drain
      have hdel : s.delays = false := by simp [delays, hf]
      have hf' : (next req s).feedDelayQ = 0#2 := by simp [next_feedDelayQ, hdel, hst, hf]
      have hc : s.computeCycleQ ≠ 20#5 := by
        intro hc
        exact absurd ((captures_iff.2 ⟨hp, hb, hf, hc⟩).symm.trans hcap) (by decide)
      have hadv : s.advances = true := by simp [advances, hrun, hf, hc]
      rw [if_pos hadv] at hcycle
      rw [remaining, remaining, hp', hp, hf', hf, hcycle]
      bv_omega
    · -- the feed delay
      have hadv : s.advances = false := by simp [advances, hf]
      have hdel : s.delays = true := by simp [delays, hrun, hf]
      have hf' : (next req s).feedDelayQ = s.feedDelayQ - 1#2 := by simp [next_feedDelayQ, hdel]
      rw [if_neg (by simp [hadv]), if_neg (by simp [hst])] at hcycle
      rw [remaining, remaining, hp', hp, hf', hcycle]
      bv_omega
  · -- the clear
    have hrun : s.running = false := by simp [running, hp]
    have hf' : (next req s).feedDelayQ = s.feedDelayQ := by
      simp [next_feedDelayQ, delays, hrun, hst]
    have hpend := (h.startPendingQ_next hp req).2
    rw [if_neg (by simp [advances, hrun]), if_neg (by simp [hst])] at hcycle
    rw [remaining, remaining, hf', hcycle]
    omega

theorem remaining_run (h : s.Inv) (hb : s.busyQ = true) {ι : ℕ → Req} {n : ℕ}
    (hn : n ≤ s.remaining) (hst : ∀ j < n, (accel.runFrom s ι j).starts = false) :
    (accel.runFrom s ι n).Inv ∧ (accel.runFrom s ι n).busyQ = true ∧
      (accel.runFrom s ι n).remaining + n = s.remaining := by
  induction n with
  | zero => exact ⟨h, hb, rfl⟩
  | succ n ih =>
    obtain ⟨hinv, hbusy, hrem⟩ := ih (by omega) fun j hj => hst j (by omega)
    have hcap : (accel.runFrom s ι n).captures = false := by
      refine Bool.eq_false_iff.2 fun hcap => ?_
      have h0 := (hinv.captures_iff_remaining hbusy).1 hcap
      omega
    obtain ⟨hbusy', hrem'⟩ := remaining_next hinv hbusy (hst n (by omega)) hcap (ι n)
    refine ⟨inv_next hinv (ι n), hbusy', ?_⟩
    have hsucc : (accel.runFrom s ι (n + 1)).remaining + 1 = (accel.runFrom s ι n).remaining :=
      hrem'
    omega

end AccelRegs

open AccelRegs

/-- **Controller bounds and termination.**  In every reachable state the counters are in their
bounds, no write executes during the clear, which counts down, and the cycle counter does not wrap.
While an operation is under way, a clock without a start brings the capture nearer or is the
capture, so without starts the operation ends after the clocks that remain. -/
theorem controller_terminates {s : AccelRegs} (hs : accel.Reachable s) :
    (s.computeCycleQ.toNat ≤ 20 ∧ s.feedDelayQ.toNat ≤ 1 ∧ s.startPendingQ.toNat ≤ 2) ∧
    (s.startPendingQ ≠ 0#2 → ∀ req, s.executes = false ∧
      (next req s).startPendingQ.toNat + 1 = s.startPendingQ.toNat) ∧
    (∀ req, (next req s).computeCycleQ.toNat =
      if s.advances then s.computeCycleQ.toNat + 1
      else if s.starts then 0 else s.computeCycleQ.toNat) ∧
    (s.busyQ = true → s.starts = false → ∀ req,
      if s.captures then (next req s).busyQ = false
      else (next req s).busyQ = true ∧ (next req s).remaining < s.remaining) ∧
    (s.busyQ = true → ∀ ι, (∀ j < s.remaining, (accel.runFrom s ι j).starts = false) →
      (∀ j ≤ s.remaining, (accel.runFrom s ι j).busyQ = true) ∧
        (accel.runFrom s ι s.remaining).captures = true ∧
        (accel.runFrom s ι (s.remaining + 1)).busyQ = false) := by
  have hinv := inv_of_reachable hs
  refine ⟨⟨hinv.cycle_le, hinv.delay_le, hinv.pending_le⟩,
    fun hp req => hinv.startPendingQ_next hp req, hinv.computeCycleQ_next, ?_, ?_⟩
  · intro hb hst req
    split_ifs with hcap
    · exact (capture_next req hcap).1
    · obtain ⟨hbusy, hrem⟩ := remaining_next hinv hb hst (by simpa using hcap) req
      exact ⟨hbusy, by omega⟩
  · intro hb ι hst
    have hrun : ∀ n ≤ s.remaining, _ := fun n hn =>
      remaining_run hinv hb hn fun j hj => hst j (by omega)
    obtain ⟨hinv', hbusy, hrem⟩ := hrun s.remaining le_rfl
    have hcap := (hinv'.captures_iff_remaining hbusy).2 (by omega)
    exact ⟨fun j hj => (hrun j hj).2.1, hcap, (capture_next (ι s.remaining) hcap).1⟩

/-- A second start when word `2` is fed. -/
def feedRestart : ℕ → Req :=
  Req.script [(0, Req.write 0x10000000 1 0xF), (6, Req.write 0x10000000 1 0xF)]

/-- After the second start twenty clocks remain: the clear, the feed delay, and the cycles from `3`
on. -/
theorem controller_terminates_feedRestart :
    (accel.runFrom (accel.run feedRestart 8) (fun _ => Req.idle) 20).captures = true := by
  have hrem : (accel.run feedRestart 8).remaining = 20 := by decide +kernel
  have hno : ∀ j < (accel.run feedRestart 8).remaining,
      (accel.runFrom (accel.run feedRestart 8) (fun _ => Req.idle) j).starts = false := by
    decide +kernel
  obtain ⟨-, hcap, -⟩ := (controller_terminates (accel.reachable_run feedRestart 8)).2.2.2.2
    (by decide +kernel) (fun _ => Req.idle) hno
  rwa [hrem] at hcap

end SystolicSoc
