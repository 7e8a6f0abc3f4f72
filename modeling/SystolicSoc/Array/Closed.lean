import SystolicSoc.Array.Basic
import SystolicSoc.Mesh.Sum

/-!
# What the array holds after any input

* `SystolicArray.exactProduct` : the product an element adds in the next clock, as a natural number.
* `SystolicArray.sumQ_next` : an element adds it modulo `2 ^ 32`.
* `SystolicArray.sum_exactProduct_runFed` : the exact sum of the products of a drained input.
* `array_closed_form` : **all registers of the array, for every input from the cleared state.**
-/

namespace SystolicSoc

open Finset

theorem toNat_mac (a b : BitVec 16) : (mac a b).toNat = a.toNat * b.toNat % 2 ^ 32 := by
  simp [mac, Nat.mod_eq_of_lt, Nat.lt_trans a.isLt, Nat.lt_trans b.isLt]

namespace SystolicArray

/-- The product of the two lanes that element `(k, l)` holds. -/
def exactProduct (s : SystolicArray) (k l : Fin 4) : ℕ :=
  (s.shiftRegA k l).toNat * (s.shiftRegB k l).toNat

theorem sumQ_next (a b : BitVec 64) (s : SystolicArray) (k l : Fin 4) :
    ((s.next false a b).peInst k l).sumQ.toNat =
      ((s.peInst k l).sumQ.toNat + s.exactProduct k l) % 2 ^ 32 := by
  have hsum : ((s.next false a b).peInst k l).sumQ =
      (s.peInst k l).sumQ + mac (s.shiftRegA k l) (s.shiftRegB k l) := rfl
  rw [hsum, BitVec.toNat_add, toNat_mac, Nat.add_mod_mod, exactProduct]

theorem shiftReg_runFed (x y : ℕ → BitVec 64) (n : ℕ) (k l : Fin 4) :
    (runFed x y cleared n).shiftRegA k l = past (fun t => lane (x t) l) n k ∧
      (runFed x y cleared n).shiftRegB k l = past (fun t => lane (y t) k) n l := by
  have hlanes := Mesh.lanes_run mac (fun t => meshWord (x t) (y t)) n k l
  rw [← toMesh_runFed] at hlanes
  exact hlanes

theorem exactProduct_runFed (x y : ℕ → BitVec 64) (n : ℕ) (k l : Fin 4) :
    (runFed x y cleared n).exactProduct k l =
      (past (fun t => lane (x t) l) n k).toNat * (past (fun t => lane (y t) k) n l).toNat := by
  obtain ⟨hA, hB⟩ := shiftReg_runFed x y n k l
  rw [exactProduct, hA, hB]

theorem sum_exactProduct_runFed {x y : ℕ → BitVec 64} {M n : ℕ} (hx : ∀ t, M ≤ t → x t = 0)
    (hy : ∀ t, M ≤ t → y t = 0) (hn : M + 4 ≤ n) (k l : Fin 4) :
    ∑ s ∈ range n, (runFed x y cleared s).exactProduct k l =
      skewSum (fun a b : BitVec 16 => a.toNat * b.toNat) M (fun t => lane (x t) l)
        (fun t => lane (y t) k) k l := by
  have hxl : ∀ t, M ≤ t → lane (x t) l = 0 := by
    intro t ht
    rw [hx t ht]
    exact lane_zero l
  have hyk : ∀ t, M ≤ t → lane (y t) k = 0 := by
    intro t ht
    rw [hy t ht]
    exact lane_zero k
  rw [← sum_past_eq_skewSum (by simp) (by simp) hxl hyk k l (show M + k.val + 1 ≤ n by omega)]
  exact sum_congr rfl fun s _ => exactProduct_runFed x y s k l

end SystolicArray

open SystolicArray

/-- **Closed form of the array**, for all input sequences `x` and `y`, `n` clocks after the cleared
state.  Word `4 k + l` of the result is the sum over the clocks `s < n` of lane `l` of `x`, `k + 1`
clocks old, times lane `k` of `y`, `l + 1` clocks old, modulo `2 ^ 32`; the shift registers hold
these lanes. -/
theorem array_closed_form (x y : ℕ → BitVec 64) (n : ℕ) (k l : Fin 4) :
    ((runFed x y cleared n).result.extractLsb' (32 * (4 * k.val + l.val)) 32).toNat =
        (∑ s ∈ range n, (past (fun t => lane (x t) l) s k).toNat *
          (past (fun t => lane (y t) k) s l).toNat) % 2 ^ 32 ∧
      (runFed x y cleared n).shiftRegA k l = past (fun t => lane (x t) l) n k ∧
      (runFed x y cleared n).shiftRegB k l = past (fun t => lane (y t) k) n l := by
  refine ⟨?_, shiftReg_runFed x y n k l⟩
  rw [result_word]
  induction n with
  | zero => rfl
  | succ n ih =>
    rw [runFed, sumQ_next, ih, exactProduct_runFed, Nat.mod_add_mod, sum_range_succ]

end SystolicSoc
