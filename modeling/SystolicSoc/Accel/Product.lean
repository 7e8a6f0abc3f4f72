import SystolicSoc.Accel.Operation
import SystolicSoc.Mesh.Product
import Mathlib.Data.Matrix.Mul

/-!
# The matrix product

The stream schedule of the README skews two 4 × 4 matrices: lane `l` of `A_STREAM[t]` is
`A (t - l) l` and lane `k` of `B_STREAM[t]` is `B k (t - k)`.

* `AccelRegs.HoldsSchedule`, `AccelRegs.FeedsSchedule` : the streams hold the schedule of two
  matrices, and an operation feeds it.
* `scheduled_result` : **the result window then holds the product `B * A`** modulo `2 ^ 32`, in
  row-major order.
* `product_iff` : it holds `A * B` exactly if the two products agree modulo `2 ^ 32`.
-/

namespace SystolicSoc

open Finset Matrix

/-- A matrix of 16-bit elements as one of natural numbers. -/
def natMat (A : Matrix (Fin 4) (Fin 4) (BitVec 16)) : Matrix (Fin 4) (Fin 4) ℕ := A.map BitVec.toNat

namespace AccelRegs

/-- The streams hold the README schedule of `A` and `B`. -/
structure HoldsSchedule (s : AccelRegs) (A B : Matrix (Fin 4) (Fin 4) (BitVec 16)) : Prop where
  a : ∀ (t : Fin 8) (l : Fin 4), lane (s.aStreamQ t) l = skewed (fun m => A m l) l t
  b : ∀ (t : Fin 8) (k : Fin 4), lane (s.bStreamQ t) k = skewed (fun m => B k m) k t

/-- The words that the operation started in `s` feeds, word `t` in cycle `4 + t`, are the README
schedule of `A` and `B`. -/
structure FeedsSchedule (s : AccelRegs) (ι : ℕ → Req)
    (A B : Matrix (Fin 4) (Fin 4) (BitVec 16)) : Prop where
  a : ∀ (t : Fin 8) (l : Fin 4),
    lane ((accel.runFrom s ι (4 + t)).aStreamQ t) l = skewed (fun m => A m l) l t
  b : ∀ (t : Fin 8) (k : Fin 4),
    lane ((accel.runFrom s ι (4 + t)).bStreamQ t) k = skewed (fun m => B k m) k t

theorem HoldsSchedule.feeds {s : AccelRegs} {A B : Matrix (Fin 4) (Fin 4) (BitVec 16)}
    (h : s.HoldsSchedule A B) (hst : s.starts = true) {ι : ℕ → Req}
    (hno : ∀ j < 24, 0 < j → (accel.runFrom s ι j).executes = false) :
    FeedsSchedule s ι A B := by
  constructor
  · intro t l
    rw [(streams_run hst hno (show 4 + t.val ≤ 24 by omega)).1]
    exact h.a t l
  · intro t k
    rw [(streams_run hst hno (show 4 + t.val ≤ 24 by omega)).2]
    exact h.b t k

theorem FeedsSchedule.streamSum_eq {s : AccelRegs} {ι : ℕ → Req}
    {A B : Matrix (Fin 4) (Fin 4) (BitVec 16)} (h : FeedsSchedule s ι A B) (k l : Fin 4) :
    streamSum 8 (fun t => wordAt (accel.runFrom s ι (4 + t)).aStreamQ t)
      (fun t => wordAt (accel.runFrom s ι (4 + t)).bStreamQ t) k l =
        (natMat B * natMat A) k l := by
  have ha : ∀ t < 8, lane (wordAt (accel.runFrom s ι (4 + t)).aStreamQ t) l =
      skewed (fun m => A m l) l t := by
    intro t ht
    rw [wordAt, dif_pos ht]
    exact h.a ⟨t, ht⟩ l
  have hb : ∀ t < 8, lane (wordAt (accel.runFrom s ι (4 + t)).bStreamQ t) k =
      skewed (fun m => B k m) k t := by
    intro t ht
    rw [wordAt, dif_pos ht]
    exact h.b ⟨t, ht⟩ k
  rw [streamSum, skewSum_congr ha hb, skewSum_skewed (by simp) _ _ (by omega) (by omega), mul_apply]
  exact sum_congr rfl fun m _ => Nat.mul_comm _ _

end AccelRegs

open AccelRegs

/-- **The product computed**: an operation on the schedule of `A` and `B`, with no other write
before its capture, leaves `B * A` in the result window. -/
theorem scheduled_result {s : AccelRegs} (hs : accel.Reachable s) (hidle : s.busyQ = false)
    (hst : s.starts = true) {A B : Matrix (Fin 4) (Fin 4) (BitVec 16)} (h : s.HoldsSchedule A B)
    {ι : ℕ → Req} (hno : ∀ j < 24, 0 < j → (accel.runFrom s ι j).executes = false)
    (k l : Fin 4) :
    ((accel.runFrom s ι 25).resultWord k l).toNat = (natMat B * natMat A) k l % 2 ^ 32 := by
  obtain ⟨-, -, hres⟩ := operation_completes (inv_of_reachable hs) hidle hst fun j hj hj₀ =>
    not_starts_of_not_executes (hno j hj hj₀)
  rw [hres, (h.feeds hst hno).streamSum_eq]

/-- **The result window holds `A * B` exactly if the two products agree modulo `2 ^ 32`.** -/
theorem product_iff {s : AccelRegs} (hs : accel.Reachable s) (hidle : s.busyQ = false)
    (hst : s.starts = true) {A B : Matrix (Fin 4) (Fin 4) (BitVec 16)} (h : s.HoldsSchedule A B)
    {ι : ℕ → Req} (hno : ∀ j < 24, 0 < j → (accel.runFrom s ι j).executes = false) :
    (∀ i j, ((accel.runFrom s ι 25).resultWord i j).toNat =
        (natMat A * natMat B) i j % 2 ^ 32) ↔
      ∀ i j, (natMat A * natMat B) i j % 2 ^ 32 = (natMat B * natMat A) i j % 2 ^ 32 := by
  refine forall₂_congr fun i j => ?_
  rw [scheduled_result hs hidle hst h hno i j]
  exact eq_comm

/-- The matrix with a single one, above the diagonal. -/
def upperUnit : Matrix (Fin 4) (Fin 4) (BitVec 16) := fun i j => if i = 0 ∧ j = 1 then 1 else 0

/-- The matrix with a single one, below the diagonal.  It does not commute with `upperUnit`. -/
def lowerUnit : Matrix (Fin 4) (Fin 4) (BitVec 16) := fun i j => if i = 1 ∧ j = 0 then 1 else 0

/-- The schedule of `upperUnit` and `lowerUnit`, and a start. -/
def unitProduct : ℕ → Req :=
  Req.script [(0, Req.write 0x10000010 0x00010000 0xF), (3, Req.write 0x10000050 0x00010000 0xF),
    (6, Req.write 0x10000000 1 0xF)]

theorem unitProduct_schedule :
    (accel.run unitProduct 7).HoldsSchedule upperUnit lowerUnit :=
  ⟨by decide +kernel, by decide +kernel⟩

theorem product_iff_unit :
    (∀ i j, ((accel.run unitProduct 32).resultWord i j).toNat =
        (natMat upperUnit * natMat lowerUnit) i j % 2 ^ 32) ↔
      ∀ i j, (natMat upperUnit * natMat lowerUnit) i j % 2 ^ 32 =
        (natMat lowerUnit * natMat upperUnit) i j % 2 ^ 32 := by
  rw [Clocked.run_add unitProduct 7 25]
  exact product_iff (Clocked.reachable_run _ _) (by decide +kernel) (by decide +kernel)
    unitProduct_schedule (by decide +kernel)

/-- On these matrices the result window does not hold `A * B`. -/
theorem product_swapped :
    ¬ ∀ (A B : Matrix (Fin 4) (Fin 4) (BitVec 16)) (s : AccelRegs), accel.Reachable s →
      s.busyQ = false → s.starts = true → s.HoldsSchedule A B → ∀ ι : ℕ → Req,
      (∀ j < 24, 0 < j → (accel.runFrom s ι j).executes = false) →
      ∀ i j, ((accel.runFrom s ι 25).resultWord i j).toNat =
        (natMat A * natMat B) i j % 2 ^ 32 := by
  intro h
  have h₀₀ := h upperUnit lowerUnit (accel.run unitProduct 7) (Clocked.reachable_run _ _)
    (by decide +kernel) (by decide +kernel) unitProduct_schedule (fun j => unitProduct (7 + j))
    (by decide +kernel) 0 0
  rw [← Clocked.run_add unitProduct 7 25] at h₀₀
  have hzero : ((accel.run unitProduct 32).resultWord 0 0).toNat = 0 := by decide +kernel
  have hone : (natMat upperUnit * natMat lowerUnit) 0 0 = 1 := by decide +kernel
  rw [hzero, hone] at h₀₀
  cases h₀₀

end SystolicSoc
