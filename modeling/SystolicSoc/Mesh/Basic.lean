import SystolicSoc.Clocked.Basic
import Mathlib.Algebra.BigOperators.Group.Finset.Basic
import Mathlib.Tactic.SplitIfs

/-!
# Systolic meshes

An `r × c` mesh of multiply-accumulate cells over arbitrary lane types `α`, `β` and an additive
commutative monoid `R`.  Every clock the lanes of the first operand move one row down, the lanes
of the second one column to the right, and every cell adds the product of the two lanes it holds.

* `past x n d` : the value of the sequence `x` that is `d + 1` clocks old in cycle `n`, and zero
  before the start.
* `Mesh.lanes_run`, `Mesh.acc_run` : **the closed form**: in cycle `n` cell `(k, l)` holds the
  lanes `past x n k l` and `past y n l k` and the sum of the products of the lanes it has held.
* `skewSum` : the sum over `t` of the products of lane `l` of word `t` and lane `k` of word
  `t + k - l`; `sum_past_eq_skewSum` : a mesh fed `M` words and drained accumulates it.
-/

namespace SystolicSoc

open Finset

variable {γ : Type*} [Zero γ]

/-- The value of `x` that is `d + 1` clocks old in cycle `n`, and zero before the start. -/
def past (x : ℕ → γ) (n d : ℕ) : γ := if d < n then x (n - 1 - d) else 0

@[simp] theorem past_zero (x : ℕ → γ) (d : ℕ) : past x 0 d = 0 := rfl

theorem past_succ_zero (x : ℕ → γ) (n : ℕ) : past x (n + 1) 0 = x n := by simp [past]

theorem past_succ (x : ℕ → γ) (n : ℕ) {d : ℕ} (hd : d ≠ 0) :
    past x (n + 1) d = past x n (d - 1) := by
  simp only [past, show d - 1 < n ↔ d < n + 1 by omega,
    show n + 1 - 1 - d = n - 1 - (d - 1) by omega]

theorem past_eq_zero {x : ℕ → γ} {M n d : ℕ} (hx : ∀ t, M ≤ t → x t = 0) (h : M + d < n) :
    past x n d = 0 := by
  rw [past, if_pos (by omega)]
  exact hx _ (by omega)

/-- The registers of a mesh: the two lanes every cell holds, and its accumulator. -/
@[ext] structure Mesh (r c : ℕ) (α β R : Type*) where
  a : Fin r → Fin c → α
  b : Fin r → Fin c → β
  acc : Fin r → Fin c → R

namespace Mesh

variable {r c : ℕ} {α β R : Type*} [Zero α] [Zero β] [AddCommMonoid R] (mul : α → β → R)

/-- The registers after a clock edge that samples the words `w.1` and `w.2`. -/
def next (w : (Fin c → α) × (Fin r → β)) (g : Mesh r c α β R) : Mesh r c α β R where
  a k l := if h : k.val = 0 then w.1 l else g.a ⟨k.val - 1, by omega⟩ l
  b k l := if h : l.val = 0 then w.2 k else g.b k ⟨l.val - 1, by omega⟩
  acc k l := g.acc k l + mul (g.a k l) (g.b k l)

/-- The mesh, cleared by reset. -/
def machine : Clocked ((Fin c → α) × (Fin r → β)) (Mesh r c α β R) where
  reset := ⟨fun _ _ => 0, fun _ _ => 0, fun _ _ => 0⟩
  edge := next mul

variable (w : ℕ → (Fin c → α) × (Fin r → β))

/-- **Closed form of the lanes**: row `k` holds the first operand delayed by `k`, column `l` the
second operand delayed by `l`. -/
theorem lanes_run (n : ℕ) (k : Fin r) (l : Fin c) :
    ((machine mul).run w n).a k l = past (fun t => (w t).1 l) n k ∧
      ((machine mul).run w n).b k l = past (fun t => (w t).2 k) n l := by
  induction n generalizing k l with
  | zero => exact ⟨rfl, rfl⟩
  | succ n ih =>
    rw [Clocked.run_succ]
    constructor
    · change (if h : k.val = 0 then (w n).1 l else _) = _
      split_ifs with hk
      · rw [hk, past_succ_zero]
      · rw [(ih _ l).1, past_succ _ n hk]
    · change (if h : l.val = 0 then (w n).2 k else _) = _
      split_ifs with hl
      · rw [hl, past_succ_zero]
      · rw [(ih k _).2, past_succ _ n hl]

/-- **Closed form of the accumulators**. -/
theorem acc_run (n : ℕ) (k : Fin r) (l : Fin c) :
    ((machine mul).run w n).acc k l =
      ∑ s ∈ range n, mul (past (fun t => (w t).1 l) s k) (past (fun t => (w t).2 k) s l) := by
  induction n with
  | zero => rfl
  | succ n ih =>
    obtain ⟨ha, hb⟩ := lanes_run mul w n k l
    rw [sum_range_succ, ← ih, ← ha, ← hb]
    rfl

end Mesh

/-! ### Fed words and drained sums -/

variable {α β R : Type*} [Zero α] [Zero β] [AddCommMonoid R] {mul : α → β → R}

/-- The sum over the words `t < M` of the product of `x t` and `y (t + k - l)`, where the second
index is below `M` too. -/
def skewSum (mul : α → β → R) (M : ℕ) (x : ℕ → α) (y : ℕ → β) (k l : ℕ) : R :=
  ∑ t ∈ range M, if l ≤ t + k ∧ t + k - l < M then mul (x t) (y (t + k - l)) else 0

omit [Zero α] [Zero β] in
theorem skewSum_congr {M : ℕ} {x x' : ℕ → α} {y y' : ℕ → β} (hx : ∀ t < M, x t = x' t)
    (hy : ∀ t < M, y t = y' t) (k l : ℕ) : skewSum mul M x y k l = skewSum mul M x' y' k l := by
  refine sum_congr rfl fun t ht => ?_
  split_ifs with h
  · rw [hx t (mem_range.1 ht), hy _ h.2]
  · rfl

/-- **Feed and drain**: if the words end after the first `M`, a mesh that has run for at least
`M + k + 1` clocks has accumulated their skewed sum in cell `(k, l)`. -/
theorem sum_past_eq_skewSum (hzero : ∀ b, mul 0 b = 0) (hzero' : ∀ a, mul a 0 = 0) {M N : ℕ}
    {x : ℕ → α} {y : ℕ → β} (hx : ∀ t, M ≤ t → x t = 0) (hy : ∀ t, M ≤ t → y t = 0) (k l : ℕ)
    (hN : M + k + 1 ≤ N) :
    ∑ s ∈ range N, mul (past x s k) (past y s l) = skewSum mul M x y k l := by
  -- the first `k + 1` terms are before the first word arrives, the last ones after the last word
  obtain ⟨e, rfl⟩ := Nat.exists_eq_add_of_le hN
  rw [show M + k + 1 + e = (k + 1) + (M + e) by omega, sum_range_add _ (k + 1),
    sum_range_add _ M]
  have hfirst : ∑ s ∈ range (k + 1), mul (past x s k) (past y s l) = 0 :=
    sum_eq_zero fun s hs => by
      rw [past, if_neg (by have := mem_range.1 hs; omega), hzero]
  have hlast : ∑ s ∈ range e, mul (past x (k + 1 + (M + s)) k) (past y (k + 1 + (M + s)) l) = 0 :=
    sum_eq_zero fun s _ => by rw [past_eq_zero hx (by omega), hzero]
  rw [hfirst, hlast, zero_add, add_zero]
  refine sum_congr rfl fun t _ => ?_
  have hxt : past x (k + 1 + t) k = x t := by
    rw [past, if_pos (by omega)]; congr 1; omega
  rw [hxt]
  by_cases hl : l ≤ t + k
  · have hyt : past y (k + 1 + t) l = y (t + k - l) := by
      rw [past, if_pos (by omega)]; congr 1; omega
    rw [hyt]
    by_cases hM : t + k - l < M
    · rw [if_pos ⟨hl, hM⟩]
    · rw [if_neg fun h => hM h.2, hy _ (by omega), hzero']
  · rw [past, if_neg (by omega), if_neg fun h => hl h.1, hzero']

end SystolicSoc
