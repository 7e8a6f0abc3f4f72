import Mathlib.Data.Nat.Basic

/-!
# Part selects

Reading a part select `x[lo +: w]` is `BitVec.extractLsb'`.  This file adds the part select from
above, `downSelect`, the assignment to a part select, `setSlice`, and vectors packed from equal
lanes, `packLanes`.

* `extractLsb'_setSlice_self`, `extractLsb'_setSlice_of_disjoint` : an assignment is read back
  from its own part and leaves every disjoint part alone.
* `extractLsb'_packLanes` : lane `i` of a packed vector is the `i`-th value packed.
* `eq_of_lanes` : a vector is determined by its lanes.
-/

namespace SystolicSoc

-- (named instances, so that the indices of the lanes elaborate alike in every module)
instance (priority := high) neZero_two : @NeZero ℕ Zero.ofOfNat0 2 := ⟨Nat.succ_ne_zero 1⟩

instance (priority := high) neZero_four : @NeZero ℕ Zero.ofOfNat0 4 := ⟨Nat.succ_ne_zero 3⟩

namespace Bits

variable {n w m : ℕ}

/-- The part select `x[hi -: w]`. -/
def downSelect (x : BitVec n) (hi w : ℕ) : BitVec w := x.extractLsb' (hi + 1 - w) w

/-- The vector `x` after the assignment `x[lo +: w] = v`. -/
def setSlice (x : BitVec n) (lo : ℕ) (v : BitVec w) : BitVec n :=
  (x &&& ~~~((BitVec.allOnes w).setWidth n <<< lo)) ||| (v.setWidth n <<< lo)

/-- The vector whose lane `i` is `f i` for `i < m`, and zero above. -/
def packLanes (n : ℕ) (f : ℕ → BitVec w) : ℕ → BitVec n
  | 0 => 0
  | m + 1 => setSlice (packLanes n f m) (w * m) (f m)

theorem getLsbD_setSlice (x : BitVec n) (lo : ℕ) (v : BitVec w) {i : ℕ} (hi : i < n) :
    (setSlice x lo v).getLsbD i =
      if lo ≤ i ∧ i < lo + w then v.getLsbD (i - lo) else x.getLsbD i := by
  simp only [setSlice, BitVec.getLsbD_or, BitVec.getLsbD_and, BitVec.getLsbD_not,
    BitVec.getLsbD_shiftLeft, BitVec.getLsbD_setWidth, BitVec.getLsbD_allOnes, hi, decide_true,
    Bool.true_and]
  by_cases hlo : i < lo
  · simp [hlo, show ¬ (lo ≤ i ∧ i < lo + w) by omega]
  · by_cases hw : i - lo < w
    · simp [hlo, hw, show i - lo < n by omega, show lo ≤ i ∧ i < lo + w by omega]
    · simp [hlo, hw, show ¬ (lo ≤ i ∧ i < lo + w) by omega, BitVec.getLsbD_of_ge v (i - lo)
        (by omega)]

theorem getLsbD_zero_setSlice (x : BitVec n) (v : BitVec w) (hn : 0 < n) (hw : 0 < w) :
    (setSlice x 0 v).getLsbD 0 = v.getLsbD 0 := by
  rw [getLsbD_setSlice x 0 v hn, if_pos (by omega)]

theorem extractLsb'_setSlice_self (x : BitVec n) (lo : ℕ) (v : BitVec w) (h : lo + w ≤ n) :
    (setSlice x lo v).extractLsb' lo w = v := by
  refine BitVec.eq_of_getLsbD_eq fun i hi => ?_
  rw [BitVec.getLsbD_extractLsb', getLsbD_setSlice x lo v (by omega)]
  simp [hi]

theorem extractLsb'_setSlice_of_disjoint (x : BitVec n) {lo lo' w' : ℕ} (v : BitVec w)
    (hn : lo' + w' ≤ n) (h : lo' + w' ≤ lo ∨ lo + w ≤ lo') :
    (setSlice x lo v).extractLsb' lo' w' = x.extractLsb' lo' w' := by
  refine BitVec.eq_of_getLsbD_eq fun i hi => ?_
  rw [BitVec.getLsbD_extractLsb', BitVec.getLsbD_extractLsb',
    getLsbD_setSlice x lo v (by omega), if_neg (by omega)]

theorem extractLsb'_packLanes (f : ℕ → BitVec w) {i : ℕ} (hi : i < m) (hn : w * m ≤ n) :
    (packLanes n f m).extractLsb' (w * i) w = f i := by
  induction m with
  | zero => omega
  | succ m ih =>
    rw [Nat.mul_succ] at hn
    rcases Nat.lt_succ_iff_lt_or_eq.1 hi with hlt | rfl
    · have hle : w * i + w ≤ w * m := by rw [← Nat.mul_succ]; exact Nat.mul_le_mul_left w hlt
      rw [packLanes, extractLsb'_setSlice_of_disjoint _ _ (by omega) (Or.inl hle)]
      exact ih hlt (by omega)
    · exact extractLsb'_setSlice_self _ _ _ hn

theorem eq_of_lanes {x y : BitVec n} (hn : n ≤ w * m)
    (h : ∀ i < m, x.extractLsb' (w * i) w = y.extractLsb' (w * i) w) : x = y := by
  refine BitVec.eq_of_getLsbD_eq fun j hj => ?_
  have hw : 0 < w := Nat.pos_of_ne_zero fun h0 => by simp [h0] at hn; omega
  have hdiv : j / w < m := (Nat.div_lt_iff_lt_mul hw).2 (by rw [Nat.mul_comm]; omega)
  have hbit := congrArg (BitVec.getLsbD · (j % w)) (h (j / w) hdiv)
  simpa [BitVec.getLsbD_extractLsb', Nat.mod_lt j hw, Nat.div_add_mod] using hbit

end Bits

end SystolicSoc
