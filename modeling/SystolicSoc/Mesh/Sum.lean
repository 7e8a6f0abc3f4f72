import SystolicSoc.Mesh.Basic
import Mathlib.Data.BitVec

/-!
# Sums modulo a power of two

Accumulators of `w` bits hold the exact sum modulo `2 ^ w`.

* `toNat_sum` : the value of a sum of bit vectors.
* `toNat_skewSum` : the value of a skewed sum whose products are exact modulo `2 ^ w`.
-/

namespace SystolicSoc

open Finset

theorem toNat_sum {ι : Type*} {w : ℕ} (s : Finset ι) (f : ι → BitVec w) :
    (∑ i ∈ s, f i).toNat = (∑ i ∈ s, (f i).toNat) % 2 ^ w := by
  classical
  induction s using Finset.induction_on with
  | empty => simp
  | insert i s hi ih => rw [sum_insert hi, sum_insert hi, BitVec.toNat_add, ih, Nat.add_mod_mod]

/-- A skewed sum of bit vectors is the skewed sum of their values modulo `2 ^ w`. -/
theorem toNat_skewSum {α β : Type*} {w : ℕ} {mul : α → β → BitVec w} {mul' : α → β → ℕ}
    (hmul : ∀ a b, (mul a b).toNat = mul' a b % 2 ^ w) (M : ℕ) (x : ℕ → α) (y : ℕ → β)
    (k l : ℕ) : (skewSum mul M x y k l).toNat = skewSum mul' M x y k l % 2 ^ w := by
  rw [skewSum, toNat_sum, skewSum, sum_nat_mod]
  conv_rhs => rw [sum_nat_mod]
  refine congrArg (· % 2 ^ w) (sum_congr rfl fun t _ => ?_)
  split_ifs
  · rw [hmul, Nat.mod_mod]
  · rfl

end SystolicSoc
