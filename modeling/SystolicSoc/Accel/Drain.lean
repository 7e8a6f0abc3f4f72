import SystolicSoc.Accel.Progress

/-!
# The drain empties the array

A word fed at cycle `c` of an operation passes the feed register and the four stages of the shift
registers.  The cycle counter bounds from below how far the pipeline has drained, also when a start
has taken it back or has let it go on.

* `SystolicArray.EmptyTo` : the first stages of the shift registers hold zeros.
* `AccelRegs.Drained` : what the cycle counter says about the pipeline, in every reachable state.
* `AccelRegs.Settled` : a captured result, which nothing but a start makes the array leave.
* `drain_sufficient` : **a capture meets an empty pipeline, and the result it takes is final.**
-/

namespace SystolicSoc

namespace SystolicArray

variable {s : SystolicArray} {m m' : ℕ}

/-- The first `m` stages of the shift registers hold zeros. -/
def EmptyTo (s : SystolicArray) (m : ℕ) : Prop :=
  ∀ i j : Fin 4, j.val < m → s.shiftRegA j i = 0 ∧ s.shiftRegB i j = 0

theorem EmptyTo.mono (h : s.EmptyTo m) (hm : m' ≤ m) : s.EmptyTo m' :=
  fun i j hj => h i j (by omega)

theorem emptyTo_zero (s : SystolicArray) : s.EmptyTo 0 := fun _ _ hj => absurd hj (by omega)

theorem emptyTo_cleared (m : ℕ) : EmptyTo cleared m := fun _ _ _ => ⟨rfl, rfl⟩

/-- A clock with zeros at the inputs empties one stage more. -/
theorem EmptyTo.next (h : s.EmptyTo m) : (s.next false 0#64 0#64).EmptyTo (m + 1) := by
  intro i j hj
  by_cases hj₀ : j = 0
  · simp [SystolicArray.next, hj₀]
  · have hpred : (j - 1).val + 1 = j.val := by
      have : ∀ j : Fin 4, j ≠ 0 → (j - 1).val + 1 = j.val := by decide
      exact this j hj₀
    obtain ⟨hA, hB⟩ := h i (j - 1) (by omega)
    simp [SystolicArray.next, hj₀, hA, hB]

theorem EmptyTo.next_eq (h : s.EmptyTo 4) : s.next false 0#64 0#64 = s := by
  have hempty : ∀ i j, s.shiftRegA j i = 0 ∧ s.shiftRegB i j = 0 := fun i j => h i j j.isLt
  ext k l
  · by_cases hk : k = 0
    · simp [SystolicArray.next, hk, (hempty l 0).1]
    · simp [SystolicArray.next, hk, (hempty l _).1]
  · by_cases hl : l = 0
    · simp [SystolicArray.next, hl, (hempty k 0).2]
    · simp [SystolicArray.next, hl, (hempty k _).2]
  · have hmac : mac (s.shiftRegA k l) (s.shiftRegB k l) = 0 := by
      rw [(hempty l k).1]
      exact mac_zero_left _
    simp [SystolicArray.next, Pe.next, hmac]

end SystolicArray

namespace AccelRegs

variable {s : AccelRegs}

/-- Nothing is fed from cycle `8` on, so the feed registers are empty from cycle `9` on and the
first stages of the array one clock later each. -/
structure Drained (s : AccelRegs) : Prop where
  feed : 9 ≤ s.computeCycleQ.toNat → s.arrayAQ = 0#64 ∧ s.arrayBQ = 0#64
  stages : s.uSystolicArray.EmptyTo (s.computeCycleQ.toNat - 9)

theorem drained_reset : Drained reset where
  feed := fun _ => ⟨rfl, rfl⟩
  stages := SystolicArray.emptyTo_cleared _

theorem feedWord_of_ge (h : 8 ≤ s.computeCycleQ.toNat) (m : Fin 8 → BitVec 64) :
    feedWord m s = 0#64 := by
  have hge : ¬ s.computeCycleQ < 8#5 := by bv_omega
  rw [feedWord, if_neg hge]
  rfl

theorem drained_next (hinv : s.Inv) (h : s.Drained) (req : Req) : (next req s).Drained := by
  have hcycle := hinv.computeCycleQ_next req
  -- unless it restarts from zero, the counter goes on by one at most
  have hback : (next req s).computeCycleQ.toNat ≤ s.computeCycleQ.toNat + 1 := by
    rw [hcycle]
    split_ifs <;> omega
  constructor
  · intro hc
    rw [hcycle] at hc
    rw [next_arrayAQ, next_arrayBQ]
    by_cases hdel : s.delays = true
    · simp [hdel]
    · by_cases hadv : s.advances = true
      · rw [if_pos hadv] at hc
        simp [hdel, hadv, feedWord_of_ge (show 8 ≤ s.computeCycleQ.toNat by omega)]
      · rw [if_neg hadv] at hc
        by_cases hst : s.starts = true
        · simp [hdel, hadv, hst]
        · rw [if_neg hst] at hc
          simp [hdel, hadv, hst, h.feed hc]
  · rw [next_uSystolicArray]
    cases hclear : s.clearArray with
    | true => exact SystolicArray.emptyTo_cleared _
    | false =>
      by_cases hc : 10 ≤ (next req s).computeCycleQ.toNat
      · obtain ⟨hA, hB⟩ := h.feed (by omega)
        rw [hA, hB]
        exact h.stages.next.mono (by omega)
      · rw [show (next req s).computeCycleQ.toNat - 9 = 0 by omega]
        exact SystolicArray.emptyTo_zero _

theorem drained_of_reachable (hs : accel.Reachable s) : s.Drained := by
  have hboth : s.Inv ∧ s.Drained :=
    hs.invariant (P := fun s => s.Inv ∧ s.Drained) ⟨inv_reset, drained_reset⟩
      fun req _ h => ⟨inv_next h.1 req, drained_next h.1 h.2 req⟩
  exact hboth.2

/-- **A capture meets an empty pipeline.** -/
theorem Drained.of_captures (h : s.Drained) (hcap : s.captures = true) :
    s.arrayAQ = 0#64 ∧ s.arrayBQ = 0#64 ∧ s.uSystolicArray.EmptyTo 4 := by
  obtain ⟨-, -, -, hc⟩ := captures_iff.1 hcap
  have hcycle : s.computeCycleQ.toNat = 20 := by rw [hc]; rfl
  obtain ⟨hA, hB⟩ := h.feed (by omega)
  exact ⟨hA, hB, h.stages.mono (by omega)⟩

/-! ### After the capture -/

/-- The controller is idle, the pipeline is empty, and the array holds the result `r`, which is
captured. -/
structure Settled (r : BitVec 512) (s : AccelRegs) : Prop where
  pending : s.startPendingQ = 0#2
  idle : s.busyQ = false
  feed : s.arrayAQ = 0#64 ∧ s.arrayBQ = 0#64
  empty : s.uSystolicArray.EmptyTo 4
  array : s.systolicResult = r
  captured : s.resultQ = r

theorem array_next_of_empty (hp : s.startPendingQ = 0#2) (hA : s.arrayAQ = 0#64)
    (hB : s.arrayBQ = 0#64) (hempty : s.uSystolicArray.EmptyTo 4) (req : Req) :
    (next req s).uSystolicArray = s.uSystolicArray := by
  have hclear : s.clearArray = false := by simp [clearArray, hp]
  rw [next_uSystolicArray, hclear, hA, hB, hempty.next_eq]

theorem settled_of_captures (h : s.Drained) (hcap : s.captures = true) (hst : s.starts = false)
    (req : Req) : Settled s.systolicResult (next req s) := by
  obtain ⟨hA, hB, hempty⟩ := h.of_captures hcap
  obtain ⟨hp, -, hf, hc⟩ := captures_iff.1 hcap
  have harr := array_next_of_empty hp hA hB hempty req
  have hdel : s.delays = false := by simp [delays, hf]
  have hadv : s.advances = false := by simp [advances, hc]
  refine ⟨by simp [next_startPendingQ, hp, hst], by simp [next_busyQ, hcap], ?_, ?_, ?_, ?_⟩
  · simp [next_arrayAQ, next_arrayBQ, hdel, hadv, hst, hA, hB]
  · rw [harr]
    exact hempty
  · rw [systolicResult, harr]
    rfl
  · exact (capture_next req hcap).2.2

theorem Settled.next {r : BitVec 512} (h : Settled r s) (hst : s.starts = false) (req : Req) :
    Settled r (s.next req) := by
  have hrun : s.running = false := by simp [running, h.idle]
  have hcap : s.captures = false := by simp [captures, hrun]
  have harr := array_next_of_empty h.pending h.feed.1 h.feed.2 h.empty req
  refine ⟨by simp [next_startPendingQ, h.pending, hst], by simp [next_busyQ, hcap, hst, h.idle],
    ?_, ?_, ?_, ?_⟩
  · simp [next_arrayAQ, next_arrayBQ, delays, advances, hrun, hst, h.feed]
  · rw [harr]
    exact h.empty
  · rw [systolicResult, harr]
    exact h.array
  · exact (holds_next req hst hcap).result.trans h.captured

end AccelRegs

open AccelRegs

/-- **The drain is sufficient.**  In every reachable state in which the controller captures, the
feed registers and all shift registers are zero.  Unless a start executes in that cycle, the array
holds the captured result from then on, up to the cycle in which the next start executes. -/
theorem drain_sufficient {s : AccelRegs} (hs : accel.Reachable s) (hcap : s.captures = true) :
    (s.arrayAQ = 0#64 ∧ s.arrayBQ = 0#64 ∧
      ∀ i j, s.uSystolicArray.shiftRegA i j = 0 ∧ s.uSystolicArray.shiftRegB i j = 0) ∧
    (s.starts = false → ∀ ι n, 0 < n →
      (∀ j < n, 0 < j → (accel.runFrom s ι j).starts = false) →
      (accel.runFrom s ι n).systolicResult = (accel.runFrom s ι n).resultQ ∧
        (accel.runFrom s ι n).resultQ = s.systolicResult) := by
  have hdrained := drained_of_reachable hs
  obtain ⟨hA, hB, hempty⟩ := hdrained.of_captures hcap
  refine ⟨⟨hA, hB, fun i j => ⟨(hempty j i i.isLt).1, (hempty i j j.isLt).2⟩⟩, ?_⟩
  intro hst ι n hn hno
  have hsettled : Settled s.systolicResult (accel.runFrom s ι n) := by
    induction n, hn using Nat.le_induction with
    | base => exact settled_of_captures hdrained hcap hst (ι 0)
    | succ n hle ih => exact (ih fun j hj => hno j (by omega)).next (hno n (by omega) hle) (ι n)
  exact ⟨hsettled.array.trans hsettled.captured.symm, hsettled.captured⟩

/-- The capture of a small operation, and the array five clocks later. -/
theorem drain_sufficient_small :
    (accel.runFrom (accel.run smallOperation 31) (fun _ => Req.idle) 5).systolicResult =
      (accel.runFrom (accel.run smallOperation 31) (fun _ => Req.idle) 5).resultQ :=
  ((drain_sufficient (accel.reachable_run smallOperation 31) (by decide +kernel)).2
    (by decide +kernel) (fun _ => Req.idle) 5 (by omega) (by decide +kernel)).1

end SystolicSoc
