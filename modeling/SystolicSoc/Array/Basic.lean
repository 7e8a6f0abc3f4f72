import SystolicSoc.Bits.Slice
import SystolicSoc.Mesh.Basic
import Mathlib.Data.BitVec

/-!
# The systolic array of the accelerator

The modules `pe` and `systolic_array` of `accel_regs.sv`: sixteen multiply-accumulate elements on
16-bit lanes with 32-bit sums, behind two sets of 4 × 4 shift registers.

* `SystolicArray.next` : one clock edge, with the synchronous `clear`.
* `SystolicArray.toMesh_next` : without `clear` the array steps as the 4 × 4 mesh of
  `SystolicSoc.Mesh.Basic` does.
* `SystolicArray.sumQ_runFed` : from the cleared state the sum of element `(k, l)` has the closed
  form of the mesh.
-/

namespace SystolicSoc

/-- Lane `i` of a stream word, bits `[16 i + 15 : 16 i]`. -/
def lane (x : BitVec 64) (i : Fin 4) : BitVec 16 := x.extractLsb' (16 * i.val) 16

@[simp] theorem lane_zero (i : Fin 4) : lane 0#64 i = 0#16 := by simp [lane]

/-- The product as `pe` computes it: both factors are extended to the 32 bits of the sum. -/
def mac (a b : BitVec 16) : BitVec 32 := a.setWidth 32 * b.setWidth 32

theorem mac_zero_left (b : BitVec 16) : mac 0 b = 0 := by simp [mac]

theorem mac_zero_right (a : BitVec 16) : mac a 0 = 0 := by simp [mac]

/-- A processing element. -/
@[ext] structure Pe where
  sumQ : BitVec 32
deriving DecidableEq, Repr

namespace Pe

/-- The output of the element. -/
def out (p : Pe) : BitVec 32 := p.sumQ

/-- One clock edge. -/
def next (clear : Bool) (a b : BitVec 16) (p : Pe) : Pe where
  sumQ := if clear then 0 else p.sumQ + mac a b

end Pe

/-- The registers of the array. -/
@[ext] structure SystolicArray where
  shiftRegA : Fin 4 → Fin 4 → BitVec 16
  shiftRegB : Fin 4 → Fin 4 → BitVec 16
  /-- The element `row[k].col[l].pe_inst`. -/
  peInst : Fin 4 → Fin 4 → Pe

namespace SystolicArray

/-- The array after reset or a clear. -/
def cleared : SystolicArray := ⟨fun _ _ => 0, fun _ _ => 0, fun _ _ => ⟨0⟩⟩

/-- One clock edge with the stream words `a` and `b`. -/
def next (clear : Bool) (a b : BitVec 64) (s : SystolicArray) : SystolicArray where
  shiftRegA j i :=
    if clear then 0 else if j = 0 then lane a i else s.shiftRegA (j - 1) i
  shiftRegB i j :=
    if clear then 0 else if j = 0 then lane b i else s.shiftRegB i (j - 1)
  peInst k l := (s.peInst k l).next clear (s.shiftRegA k l) (s.shiftRegB k l)

/-- The output port: element `(k, l)` drives bits `[32 (4 k + l) + 31 : 32 (4 k + l)]`. -/
def result (s : SystolicArray) : BitVec 512 :=
  Bits.packLanes 512 (fun n => (s.peInst (Fin.ofNat 4 (n / 4)) (Fin.ofNat 4 n)).out) 16

theorem result_word (s : SystolicArray) (k l : Fin 4) :
    s.result.extractLsb' (32 * (4 * k.val + l.val)) 32 = (s.peInst k l).sumQ := by
  rw [result, Bits.extractLsb'_packLanes _ (by omega) (by omega)]
  have hk : Fin.ofNat 4 ((4 * k.val + l.val) / 4) = k := by ext; simp; omega
  have hl : Fin.ofNat 4 (4 * k.val + l.val) = l := by ext; simp
  rw [hk, hl]
  rfl

@[simp] theorem next_clear (a b : BitVec 64) (s : SystolicArray) : s.next true a b = cleared := rfl

/-! ### The array is a mesh -/

/-- The registers as those of a mesh. -/
def toMesh (s : SystolicArray) : Mesh 4 4 (BitVec 16) (BitVec 16) (BitVec 32) where
  a := s.shiftRegA
  b := s.shiftRegB
  acc k l := (s.peInst k l).sumQ

/-- The stream words as the words of a mesh. -/
def meshWord (a b : BitVec 64) : (Fin 4 → BitVec 16) × (Fin 4 → BitVec 16) := (lane a, lane b)

theorem toMesh_next (a b : BitVec 64) (s : SystolicArray) :
    (s.next false a b).toMesh = Mesh.next mac (meshWord a b) s.toMesh := by
  have hpred : ∀ j : Fin 4, j ≠ 0 → j - 1 = ⟨j.val - 1, by omega⟩ := by decide
  ext k l
  · by_cases hk : k = 0
    · simp [toMesh, next, Mesh.next, meshWord, hk]
    · simp [toMesh, next, Mesh.next, hk, hpred k hk]
  · by_cases hl : l = 0
    · simp [toMesh, next, Mesh.next, meshWord, hl]
    · simp [toMesh, next, Mesh.next, hl, hpred l hl]
  · simp [toMesh, next, Mesh.next, Pe.next]

/-- The array fed the words `x t` and `y t` for `n` clocks without `clear`. -/
def runFed (x y : ℕ → BitVec 64) (s : SystolicArray) : ℕ → SystolicArray
  | 0 => s
  | n + 1 => (runFed x y s n).next false (x n) (y n)

theorem runFed_succ_head (x y : ℕ → BitVec 64) (s : SystolicArray) (n : ℕ) :
    runFed x y s (n + 1) =
      runFed (fun t => x (t + 1)) (fun t => y (t + 1)) (s.next false (x 0) (y 0)) n := by
  induction n with
  | zero => rfl
  | succ n ih => rw [runFed, ih]; rfl

theorem runFed_congr {x x' y y' : ℕ → BitVec 64} {s : SystolicArray} {n : ℕ}
    (hx : ∀ t < n, x t = x' t) (hy : ∀ t < n, y t = y' t) :
    runFed x y s n = runFed x' y' s n := by
  induction n with
  | zero => rfl
  | succ n ih =>
    rw [runFed, runFed, ih (fun t ht => hx t (by omega)) (fun t ht => hy t (by omega)),
      hx n (by omega), hy n (by omega)]

theorem next_cleared_zero : cleared.next false 0#64 0#64 = cleared := by
  ext k l <;> simp [cleared, next, Pe.next, mac]

theorem toMesh_runFed (x y : ℕ → BitVec 64) (n : ℕ) :
    (runFed x y cleared n).toMesh = (Mesh.machine mac).run (fun t => meshWord (x t) (y t)) n := by
  induction n with
  | zero => rfl
  | succ n ih => rw [runFed, toMesh_next, ih]; rfl

/-- **Closed form**: `n` clocks after the clear, element `(k, l)` has summed the products of lane
`l` of the first stream, `k + 1` clocks old, and lane `k` of the second, `l + 1` clocks old. -/
theorem sumQ_runFed (x y : ℕ → BitVec 64) (n : ℕ) (k l : Fin 4) :
    ((runFed x y cleared n).peInst k l).sumQ =
      ∑ s ∈ Finset.range n,
        mac (past (fun t => lane (x t) l) s k) (past (fun t => lane (y t) k) s l) := by
  have hacc := congrArg (fun g => g.acc k l) (toMesh_runFed x y n)
  exact hacc.trans (Mesh.acc_run mac _ n k l)

/-- **Feed and drain**: if the streams end after `M` words, then from clock `M + 4` on word
`4 k + l` of the output is their skewed sum. -/
theorem result_runFed {x y : ℕ → BitVec 64} {M n : ℕ} (hx : ∀ t, M ≤ t → x t = 0)
    (hy : ∀ t, M ≤ t → y t = 0) (hn : M + 4 ≤ n) (k l : Fin 4) :
    (runFed x y cleared n).result.extractLsb' (32 * (4 * k.val + l.val)) 32 =
      skewSum mac M (fun t => lane (x t) l) (fun t => lane (y t) k) k l := by
  rw [result_word, sumQ_runFed]
  exact sum_past_eq_skewSum mac_zero_left mac_zero_right
    (fun t ht => by rw [hx t ht]; exact lane_zero l)
    (fun t ht => by rw [hy t ht]; exact lane_zero k) k l (by omega)

end SystolicArray

end SystolicSoc
