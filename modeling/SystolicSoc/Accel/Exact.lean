import SystolicSoc.Accel.Product

/-!
# Exact sums

The sums of the array have 32 bits, and a dot product of 16-bit elements may need 34.  This file
says when an operation on the README schedule is exact.

* `AccelRegs.exactSum` : the products an element has accumulated, summed as natural numbers.
* `AccelRegs.sumAt_eq_exactSum` : in every cycle the element holds that sum modulo `2 ^ 32`.
* `AccelRegs.exactSum_schedule` : in the end it is an entry of the product `B * A`.
* `accumulators_exact` : **no accumulator wraps exactly if all entries of `B * A` are below
  `2 ^ 32`.**
-/

namespace SystolicSoc

open Finset Matrix

namespace AccelRegs

variable {s : AccelRegs} {ι : ℕ → Req} {A B : Matrix (Fin 4) (Fin 4) (BitVec 16)}

/-- Element `(k, l)` of the array, `n` clocks after the feed began. -/
def sumAt (s : AccelRegs) (ι : ℕ → Req) (k l : Fin 4) (n : ℕ) : BitVec 32 :=
  ((accel.runFrom s ι (4 + n)).uSystolicArray.peInst k l).sumQ

/-- The exact sum of the products that the element has accumulated by then. -/
def exactSum (s : AccelRegs) (ι : ℕ → Req) (k l : Fin 4) (n : ℕ) : ℕ :=
  ∑ j ∈ range n, (accel.runFrom s ι (4 + j)).uSystolicArray.exactProduct k l

theorem exactSum_succ (s : AccelRegs) (ι : ℕ → Req) (k l : Fin 4) (n : ℕ) :
    exactSum s ι k l (n + 1) =
      exactSum s ι k l n + (accel.runFrom s ι (4 + n)).uSystolicArray.exactProduct k l :=
  sum_range_succ _ n

theorem exactSum_mono (s : AccelRegs) (ι : ℕ → Req) (k l : Fin 4) {m n : ℕ} (h : m ≤ n) :
    exactSum s ι k l m ≤ exactSum s ι k l n :=
  sum_le_sum_of_subset (range_mono h)

/-! ### One operation -/

section Operation

-- an operation that begins on an idle controller, without a further start before its capture
variable (hinv : s.Inv) (hidle : s.busyQ = false) (hst : s.starts = true)
  (hno : ∀ j < 24, 0 < j → (accel.runFrom s ι j).starts = false)

include hinv hidle hst hno

/-- **The sums are exact modulo `2 ^ 32`**, in every cycle of the operation. -/
theorem sumAt_eq_exactSum (k l : Fin 4) {n : ℕ} (hn : n ≤ 21) :
    (sumAt s ι k l n).toNat = exactSum s ι k l n % 2 ^ 32 := by
  induction n with
  | zero =>
    obtain ⟨-, -, -, -, harr⟩ := operation_run hinv hidle hst (hno 3 (by omega) (by omega))
    rw [sumAt, harr]
    rfl
  | succ n ih =>
    have hfeeds := operation_feeds hinv hidle hst hno (t := n) (by omega)
    have hclear : (accel.runFrom s ι (4 + n)).clearArray = false := by
      simp [clearArray, hfeeds.pending]
    have harr : (accel.runFrom s ι (4 + (n + 1))).uSystolicArray =
        (accel.runFrom s ι (4 + n)).uSystolicArray.next false (accel.runFrom s ι (4 + n)).arrayAQ
          (accel.runFrom s ι (4 + n)).arrayBQ := by
      rw [← hclear]
      exact next_uSystolicArray
    have hsum := ih (by omega)
    rw [sumAt] at hsum
    rw [sumAt, harr, SystolicArray.sumQ_next, hsum, Nat.mod_add_mod, exactSum_succ]

theorem array_fed {n : ℕ} (hn : n < 20) :
    (accel.runFrom s ι (4 + (n + 1))).uSystolicArray =
      SystolicArray.runFed (fun t => wordAt (accel.runFrom s ι (4 + t)).aStreamQ t)
        (fun t => wordAt (accel.runFrom s ι (4 + t)).bStreamQ t) .cleared n := by
  obtain ⟨-, -, -, harm, harr⟩ := operation_run hinv hidle hst (hno 3 (by omega) (by omega))
  have hrun : ∀ j, accel.runFrom (accel.runFrom s ι 4) (fun j => ι (4 + j)) j =
      accel.runFrom s ι (4 + j) := by
    intro j
    exact (Clocked.runFrom_add s ι 4 j).symm
  have hfed := feeds_run harm.feeds (fun j => ι (4 + j)) (n := n + 1) (by simp; omega)
    fun j hj => by
      rw [hrun]
      exact hno _ (by omega) (by omega)
  simp only [← hrun]
  rw [← runFed_intake harm harr]
  exact hfed.2.2.2.2

/-- **The exact sum of an operation on the schedule** is an entry of the product. -/
theorem exactSum_schedule (h : FeedsSchedule s ι A B) (k l : Fin 4) :
    exactSum s ι k l 21 = (natMat B * natMat A) k l := by
  have hfirst : (accel.runFrom s ι 4).uSystolicArray.exactProduct k l = 0 := by
    obtain ⟨-, -, -, -, harr⟩ := operation_run hinv hidle hst (hno 3 (by omega) (by omega))
    rw [harr]
    rfl
  -- the words arrive one clock after the feed began
  rw [exactSum, sum_range_succ', hfirst, add_zero, ← h.streamSum_eq]
  refine Eq.trans (sum_congr rfl fun n hn => ?_) (SystolicArray.sum_exactProduct_runFed
    (fun t ht => wordAt_of_ge ht) (fun t ht => wordAt_of_ge ht) (by omega) k l)
  rw [array_fed hinv hidle hst hno (mem_range.1 hn)]

end Operation

/-- No accumulator wraps: in every cycle of the operation each element holds the exact sum of its
products, and each word of the result is exact. -/
def NoLoss (s : AccelRegs) (ι : ℕ → Req) (A B : Matrix (Fin 4) (Fin 4) (BitVec 16)) : Prop :=
  (∀ n ≤ 21, ∀ k l, (sumAt s ι k l n).toNat = exactSum s ι k l n) ∧
    ∀ k l, ((accel.runFrom s ι 25).resultWord k l).toNat = (natMat B * natMat A) k l

end AccelRegs

open AccelRegs

/-- **The arithmetic of an operation on the README schedule.**  In every cycle each element holds
the exact sum of its products modulo `2 ^ 32`, and nothing is lost exactly if all sixteen dot
products are below `2 ^ 32`. -/
theorem accumulators_exact {s : AccelRegs} (hs : accel.Reachable s) (hidle : s.busyQ = false)
    (hst : s.starts = true) {A B : Matrix (Fin 4) (Fin 4) (BitVec 16)} {ι : ℕ → Req}
    (h : FeedsSchedule s ι A B)
    (hno : ∀ j < 24, 0 < j → (accel.runFrom s ι j).starts = false) :
    (∀ n ≤ 21, ∀ k l, (sumAt s ι k l n).toNat = exactSum s ι k l n % 2 ^ 32) ∧
    (∀ k l, ((accel.runFrom s ι 25).resultWord k l).toNat =
      (natMat B * natMat A) k l % 2 ^ 32) ∧
    (NoLoss s ι A B ↔ ∀ k l, (natMat B * natMat A) k l < 2 ^ 32) := by
  have hinv := inv_of_reachable hs
  have hsum : ∀ n ≤ 21, ∀ k l, (sumAt s ι k l n).toNat = exactSum s ι k l n % 2 ^ 32 :=
    fun n hn k l => sumAt_eq_exactSum hinv hidle hst hno k l hn
  have hword : ∀ k l, ((accel.runFrom s ι 25).resultWord k l).toNat =
      (natMat B * natMat A) k l % 2 ^ 32 := by
    intro k l
    obtain ⟨-, -, hres⟩ := operation_completes hinv hidle hst hno
    rw [hres, h.streamSum_eq]
  refine ⟨hsum, hword, ?_⟩
  constructor
  · rintro ⟨-, hexact⟩ k l
    rw [← hexact]
    exact BitVec.isLt _
  · intro hlt
    refine ⟨fun n hn k l => ?_, fun k l => ?_⟩
    · -- the sums only grow, up to the entry of the product
      have hle := exactSum_mono s ι k l hn
      rw [exactSum_schedule hinv hidle hst hno h] at hle
      rw [hsum n hn, Nat.mod_eq_of_lt (lt_of_le_of_lt hle (hlt k l))]
    · rw [hword, Nat.mod_eq_of_lt (hlt k l)]

theorem accumulators_exact_unit :
    ((accel.runFrom (accel.run unitProduct 7) (fun j => unitProduct (7 + j)) 25).resultWord
      1 1).toNat = (natMat lowerUnit * natMat upperUnit) 1 1 :=
  ((accumulators_exact (accel.reachable_run unitProduct 7) (by decide +kernel)
    (by decide +kernel) ⟨by decide +kernel, by decide +kernel⟩ (by decide +kernel)).2.2.2
      (by decide +kernel)).2 1 1

/-- A matrix with two of the largest elements in its first column. -/
def largeColumn : Matrix (Fin 4) (Fin 4) (BitVec 16) :=
  fun i j => if i.val < 2 ∧ j = 0 then 0xFFFF else 0

/-- A matrix with two of the largest elements in its first row. -/
def largeRow : Matrix (Fin 4) (Fin 4) (BitVec 16) :=
  fun i j => if i = 0 ∧ j.val < 2 then 0xFFFF else 0

/-- The schedule of `largeColumn` and `largeRow`, and a start. -/
def largeProduct : ℕ → Req :=
  Req.script [(0, Req.write 0x10000008 0xFFFF 0xF), (3, Req.write 0x10000010 0xFFFF 0xF),
    (6, Req.write 0x10000048 0xFFFF 0xF), (9, Req.write 0x10000050 0xFFFF 0xF),
    (12, Req.write 0x10000000 1 0xF)]

/-- Two products of the largest elements already wrap. -/
theorem accumulators_wrap :
    ¬ ∀ (A B : Matrix (Fin 4) (Fin 4) (BitVec 16)) (s : AccelRegs), accel.Reachable s →
      s.busyQ = false → s.starts = true → ∀ ι : ℕ → Req, FeedsSchedule s ι A B →
      (∀ j < 24, 0 < j → (accel.runFrom s ι j).starts = false) → NoLoss s ι A B := by
  intro h
  obtain ⟨-, hword⟩ := h largeColumn largeRow (accel.run largeProduct 13)
    (Clocked.reachable_run _ _) (by decide +kernel) (by decide +kernel)
    (fun j => largeProduct (13 + j)) ⟨by decide +kernel, by decide +kernel⟩ (by decide +kernel)
  exact absurd (hword 0 0) (by decide +kernel)

end SystolicSoc
