import SystolicSoc.Accel.Registers
import SystolicSoc.Accel.Restart
import SystolicSoc.Driver.Main

/-!
# The operation the driver asks for

The tables say what the stream halves have to hold and what the results have to be.  This file
follows the accelerator through the stores of the driver and the operation it starts, for every
edge that executes no other write.

* `tableSum` : the sums of the tables, with `tableLane` for the lanes of a row.
* `Stored a b m s` : the first `m` stores have reached the stream halves.
* `Started a b s` : the operation on the tables was started, and no write has executed since.
* `Started.result` : **a done bit seen after the start vouches for the sums of the tables.**
-/

namespace SystolicSoc

open AccelRegs

/-! ### The tables -/

/-- Lane `n` of row `t` of a table: lanes 0 and 1 are the low and the high half of its first word,
lanes 2 and 3 those of its second. -/
def tableLane (m : Table) (n : Fin 4) (t : ℕ) : BitVec 16 :=
  if h : t < 8 then (m ⟨t, h⟩ ⟨n.val / 2, by omega⟩).extractLsb' (16 * (n.val % 2)) 16 else 0

/-- The exact sum over the rows `t < 8` of lane `l` of row `t` of `a` times lane `k` of row
`t + k - l` of `b`. -/
def tableSum (a b : Table) (k l : Fin 4) : ℕ :=
  skewSum (fun x y => x.toNat * y.toNat) 8 (tableLane a l) (tableLane b k) k l

/-- The position of a register in the stores of the driver. -/
def WriteReg.rank : WriteReg → ℕ
  | .ctrl => 32
  | .aHalf i upper => 4 * i.val + upper.toNat
  | .bHalf i upper => 4 * i.val + 2 + upper.toNat

/-- What the driver stores in a register. -/
def WriteReg.tableWord (a b : Table) : WriteReg → BitVec 32
  | .ctrl => 1
  | .aHalf i upper => a i (if upper then 1 else 0)
  | .bHalf i upper => b i (if upper then 1 else 0)

theorem WriteReg.rank_injective : ∀ r r' : WriteReg, r.rank = r'.rank → r = r' := by
  decide +kernel

theorem lane_eq_half (x : BitVec 64) (n : Fin 4) : lane x n =
    (x.extractLsb' (32 * (n.val / 2)) 32).extractLsb' (16 * (n.val % 2)) 16 := by
  refine BitVec.eq_of_getLsbD_eq fun i hi => ?_
  have hidx : 32 * (n.val / 2) + (16 * (n.val % 2) + i) = 16 * n.val + i := by omega
  have hlt : 16 * (n.val % 2) + i < 32 := by omega
  simp only [lane, BitVec.getLsbD_extractLsb', hidx, hlt, decide_true, Bool.true_and]

/-! ### The stores -/

/-- The first `m` stores of the driver have reached the stream halves. -/
def Stored (a b : Table) (m : ℕ) (s : AccelRegs) : Prop :=
  ∀ r : WriteReg, r.rank < m → r.get s = r.tableWord a b

variable {a b : Table} {s : AccelRegs} {m : ℕ}

theorem Stored.next (h : Stored a b m s) (req : Req) (he : s.executes = false) :
    Stored a b m (s.next req) := by
  intro r hr
  rw [r.get_next, if_neg (by simp [he])]
  exact h r hr

theorem Stored.execute (h : Stored a b m s) (req : Req) (he : s.executes = true) {r : WriteReg}
    (hctrl : r ≠ .ctrl) (hr : r.rank = m) (haddr : low8 s.awAddrQ = r.offset)
    (hdata : s.wDataQ = r.tableWord a b) : Stored a b (m + 1) (s.next req) := by
  intro r' hr'
  rw [r'.get_next]
  by_cases heq : r' = r
  · subst heq
    rw [if_pos ⟨he, haddr⟩, r'.strbUsed_of_ne_ctrl hctrl, strobedWrite_full, hdata]
  · have hne : ¬ (s.executes = true ∧ low8 s.awAddrQ = r'.offset) := by
      rintro ⟨-, hoff⟩
      exact heq (WriteReg.offset_injective _ _ (hoff.symm.trans haddr))
    rw [if_neg hne]
    refine h r' ?_
    have hrank : r'.rank ≠ r.rank := by
      intro hrank
      exact heq (WriteReg.rank_injective _ _ hrank)
    omega

theorem lane_wordAt {stream : Fin 8 → BitVec 64} {m : Table}
    (h : ∀ i (upper : Bool), (stream i).extractLsb' (32 * upper.toNat) 32 =
      m i (if upper then 1 else 0)) (n : Fin 4) {t : ℕ} (ht : t < 8) :
    lane (wordAt stream t) n = tableLane m n t := by
  rw [wordAt, dif_pos ht, tableLane, dif_pos ht, lane_eq_half]
  obtain ⟨upper, hupper⟩ : ∃ upper : Bool, upper.toNat = n.val / 2 := by
    rcases (by omega : n.val / 2 = 0 ∨ n.val / 2 = 1) with h0 | h1
    · exact ⟨false, h0.symm⟩
    · exact ⟨true, h1.symm⟩
  have hj : (if upper then 1 else 0 : Fin 2) = ⟨n.val / 2, by omega⟩ := by
    refine Fin.ext (Eq.trans ?_ hupper)
    cases upper <;> rfl
  have hhalf := h ⟨t, ht⟩ upper
  rw [hupper, hj] at hhalf
  rw [hhalf]

/-- Once all stores have reached the accelerator, an operation delivers the sums of the tables. -/
theorem Stored.freshSum_eq (h : Stored a b 32 s) (k l : Fin 4) :
    s.freshSum k l = tableSum a b k l % 2 ^ 32 := by
  have hA : ∀ i (upper : Bool), (s.aStreamQ i).extractLsb' (32 * upper.toNat) 32 =
      a i (if upper then 1 else 0) := by
    intro i upper
    have hu := upper.toNat_lt
    exact h (.aHalf i upper) (by simp only [WriteReg.rank]; omega)
  have hB : ∀ i (upper : Bool), (s.bStreamQ i).extractLsb' (32 * upper.toNat) 32 =
      b i (if upper then 1 else 0) := by
    intro i upper
    have hu := upper.toNat_lt
    exact h (.bHalf i upper) (by simp only [WriteReg.rank]; omega)
  rw [freshSum, streamSum, tableSum]
  exact congrArg (· % 2 ^ 32) (skewSum_congr (fun t ht => lane_wordAt hA l ht)
    (fun t ht => lane_wordAt hB k ht) k l)

/-! ### The operation -/

/-- The operation on the tables was started, and no write has executed since. -/
def Started (a b : Table) (s : AccelRegs) : Prop :=
  ∃ (s₁ : AccelRegs) (κ : ℕ → Req) (j : ℕ), s₁.Inv ∧ s₁.busyQ = false ∧ s₁.starts = true ∧
    Stored a b 32 s₁ ∧ 0 < j ∧ Quiet s₁ κ j ∧ s = accel.runFrom s₁ κ j

theorem started_of_starts (hinv : s.Inv) (hidle : s.busyQ = false) (hst : s.starts = true)
    (h : Stored a b 32 s) (req : Req) : Started a b (s.next req) :=
  ⟨s, fun _ => req, 1, hinv, hidle, hst, h, by omega, fun j hj hj₀ => by omega, rfl⟩

theorem Started.next (h : Started a b s) (req : Req) (he : s.executes = false) :
    Started a b (s.next req) := by
  obtain ⟨s₁, κ, j, hinv, hidle, hst, hstored, hj, hq, rfl⟩ := h
  -- the run is continued with the request
  have hκ : ∀ i ≤ j, accel.runFrom s₁ (Function.update κ j req) i = accel.runFrom s₁ κ i :=
    fun i hi => Clocked.runFrom_congr fun i' hi' => Function.update_of_ne (by omega) _ _
  refine ⟨s₁, Function.update κ j req, j + 1, hinv, hidle, hst, hstored, by omega, ?_, ?_⟩
  · intro i hi hi₀
    rw [hκ i (by omega)]
    rcases Nat.lt_or_ge i j with hlt | hge
    · exact hq i hlt hi₀
    · rwa [show i = j by omega]
  · rw [Clocked.runFrom_succ, hκ j le_rfl, Function.update_self]
    rfl

/-- **The done bit vouches for the sums of the tables.** -/
theorem Started.result (h : Started a b s) (hd : s.done = true) : s.busyQ = false ∧
    ∀ k l, (s.resultWord k l).toNat = tableSum a b k l % 2 ^ 32 := by
  obtain ⟨s₁, κ, j, hinv, hidle, hst, hstored, hj, hq, rfl⟩ := h
  obtain ⟨hbusy, hres⟩ := (delivers_idle hinv hidle hst).of_done hj hq hd
  exact ⟨hbusy, fun k l => (hres k l).trans (hstored.freshSum_eq k l)⟩

theorem Started.done_next (h : Started a b s) (hd : s.done = true) (req : Req)
    (he : s.executes = false) :
    (s.next req).done = true ∧ (s.next req).resultQ = s.resultQ := by
  obtain ⟨-, hdone, hres⟩ := settled_next req (h.result hd).1 he
  exact ⟨hdone.trans hd, hres⟩

end SystolicSoc
