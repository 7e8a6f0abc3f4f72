import SystolicSoc.Mesh.Basic
import Mathlib.Algebra.BigOperators.Fin

/-!
# Skewed vectors

A vector fed to lane `d` of a mesh with a delay of `d` clocks.

* `skewed` : the values of the lane.
* `skewSum_skewed` : **a mesh fed two skewed vectors accumulates their inner product**, whatever
  the two delays.
-/

namespace SystolicSoc

open Finset

variable {γ α β R : Type*} {p : ℕ}

/-- The vector `v`, delayed by `d` clocks, and zero outside. -/
def skewed [Zero γ] (v : Fin p → γ) (d t : ℕ) : γ :=
  if h : d ≤ t ∧ t - d < p then v ⟨t - d, h.2⟩ else 0

theorem skewed_add [Zero γ] (v : Fin p → γ) (d : ℕ) (m : Fin p) : skewed v d (d + m) = v m := by
  rw [skewed, dif_pos (by omega)]
  congr 1
  ext
  exact Nat.add_sub_cancel_left d m

variable [Zero α] [Zero β] [AddCommMonoid R] {mul : α → β → R}

/-- **The inner product**: the delays of the two lanes cancel. -/
theorem skewSum_skewed (hzero : ∀ b, mul 0 b = 0) (u : Fin p → α) (v : Fin p → β) {M k l : ℕ}
    (hk : k + p ≤ M) (hl : l + p ≤ M) :
    skewSum mul M (skewed u l) (skewed v k) k l = ∑ m, mul (u m) (v m) := by
  obtain ⟨e, rfl⟩ := Nat.exists_eq_add_of_le hl
  rw [skewSum, add_assoc, sum_range_add, sum_range_add]
  have hbefore : ∑ t ∈ range l, (if l ≤ t + k ∧ t + k - l < l + (p + e) then
      mul (skewed u l t) (skewed v k (t + k - l)) else 0) = 0 :=
    sum_eq_zero fun t ht => by
      have hu : skewed u l t = 0 := dif_neg (by have := mem_range.1 ht; omega)
      rw [hu, hzero, ite_self]
  have hafter : ∑ t ∈ range e, (if l ≤ l + (p + t) + k ∧ l + (p + t) + k - l < l + (p + e) then
      mul (skewed u l (l + (p + t))) (skewed v k (l + (p + t) + k - l)) else 0) = 0 :=
    sum_eq_zero fun t _ => by
      have hu : skewed u l (l + (p + t)) = 0 := dif_neg (by omega)
      rw [hu, hzero, ite_self]
  rw [hbefore, hafter, zero_add, add_zero, sum_range]
  refine sum_congr rfl fun m _ => ?_
  have hm : l + m.val + k - l = k + m := by omega
  rw [if_pos (by omega), hm, skewed_add, skewed_add]

end SystolicSoc
