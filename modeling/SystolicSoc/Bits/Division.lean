import Mathlib.Algebra.Order.Ring.Nat
import Mathlib.Tactic.Linarith
import Mathlib.Tactic.Ring

/-!
# Restoring division

Division of natural numbers below `n`, one bit of the quotient at a time, from the highest: the
shifted divisor is subtracted where it fits.

* `Restoring` : what holds before the bit of weight `m` is found, also for the divisor zero.
* `Restoring.step` : one step halves the weight.
* `Restoring.done` : **at weight one quotient and remainder are those of the division.**
-/

namespace SystolicSoc

namespace Bits

variable {n m a b q r : ℕ}

/-- The quotient `q` and the remainder `r` in the division of `a` by `b`, down to the weight `m`. -/
structure Restoring (n a b m q r : ℕ) : Prop where
  total : q * b + r = a
  fits : 0 < b → r < b * m
  weight : m ∣ n
  cleared : m ∣ q
  below : q < n
  zero : b = 0 → q + m = n

theorem Restoring.start (h : a < n) : Restoring n a b n 0 a where
  total := by rw [Nat.zero_mul, Nat.zero_add]
  fits hb := h.trans_le (Nat.le_mul_of_pos_left _ hb)
  weight := dvd_rfl
  cleared := Nat.dvd_zero _
  below := by omega
  zero _ := Nat.zero_add n

/-- **One step** : the divisor is subtracted where it fits. -/
theorem Restoring.step (h : Restoring n a b (2 * m) q r) :
    Restoring n a b m (if b * m ≤ r then q + m else q) (if b * m ≤ r then r - b * m else r) := by
  obtain ⟨htotal, hfits, ⟨t, ht⟩, ⟨c, hc⟩, hbelow, hzero⟩ := h
  have hweight : m ∣ n := ⟨2 * t, by rw [ht]; ring⟩
  split_ifs with hfit
  · refine ⟨?_, fun hb => ?_, hweight, ⟨2 * c + 1, by rw [hc]; ring⟩, ?_, fun hb => ?_⟩
    · rw [Nat.add_mul, Nat.mul_comm m b]
      omega
    · have hlt := hfits hb
      rw [show b * (2 * m) = b * m + b * m by ring] at hlt
      omega
    · -- the quotient and `n` are multiples of `2 * m`
      have hct : c < t := by
        rw [hc, ht] at hbelow
        exact lt_of_mul_lt_mul_left hbelow (Nat.zero_le _)
      have hle := Nat.mul_le_mul_left (2 * m) (Nat.succ_le_of_lt hct)
      rw [Nat.mul_succ, ← hc, ← ht] at hle
      omega
    · have hq := hzero hb
      omega
  · refine ⟨htotal, fun _ => by omega, hweight, ⟨2 * c, by rw [hc]; ring⟩, hbelow, fun hb => ?_⟩
    rw [hb, Nat.zero_mul] at hfit
    exact absurd (Nat.zero_le r) hfit

/-- **At weight one** the quotient and the remainder are those of the division; the divisor zero
gives the largest quotient. -/
theorem Restoring.done (h : Restoring n a b 1 q r) :
    (0 < b → q = a / b) ∧ (b = 0 → q = n - 1) ∧ r = a % b := by
  obtain ⟨htotal, hfits, -, -, -, hzero⟩ := h
  rw [Nat.mul_one] at hfits
  refine ⟨fun hb => ?_, fun hb => ?_, ?_⟩
  · rw [← htotal, Nat.mul_comm, Nat.mul_add_div hb, Nat.div_eq_of_lt (hfits hb), Nat.add_zero]
  · have hq := hzero hb
    omega
  · rcases Nat.eq_zero_or_pos b with hb | hb
    · rw [← htotal, hb, Nat.mul_zero, Nat.zero_add, Nat.mod_zero]
    · rw [← htotal, Nat.mul_comm, Nat.mul_add_mod, Nat.mod_eq_of_lt (hfits hb)]

end Bits

end SystolicSoc
