import SystolicSoc.Bits.Slice
import Mathlib.Tactic.Linarith
import Mathlib.Tactic.Ring

/-!
# Carry-save addition in chunks

A carry-save adder adds three words without propagating carries through the whole word: carries run
through chunks of `c` bits, and those that leave a chunk are kept in a word of their own.

* `saveChunk`, `carrySave` : the adder, chunk by chunk.
* `Aligned` : the carry word has bits at the borders of chunks only.
* `carrySave_add` : **the two words add up to the three.**
* `carrySave_settled` : low bits of the carry word that are clear stay clear, and one more does.
-/

namespace SystolicSoc

namespace Bits

variable {n w c : ℕ}

/-! ### Part selects as numbers -/

theorem toNat_eq_parts (x : BitVec n) {lo : ℕ} (h : lo + w ≤ n) :
    x.toNat = (x.extractLsb' 0 lo).toNat + 2 ^ lo * (x.extractLsb' lo w).toNat +
      2 ^ (lo + w) * (x.extractLsb' (lo + w) (n - (lo + w))).toNat := by
  have hlt : x.toNat / 2 ^ (lo + w) < 2 ^ (n - (lo + w)) := by
    rw [Nat.div_lt_iff_lt_mul (Nat.two_pow_pos _), ← pow_add, Nat.sub_add_cancel h]
    exact x.isLt
  rw [BitVec.extractLsb'_toNat, BitVec.extractLsb'_toNat, BitVec.extractLsb'_toNat,
    Nat.shiftRight_zero, Nat.shiftRight_eq_div_pow, Nat.shiftRight_eq_div_pow,
    Nat.mod_eq_of_lt hlt, pow_add, ← Nat.div_div_eq_div_mul, add_assoc, mul_assoc, ← mul_add,
    Nat.mod_add_div, Nat.mod_add_div]

/-- An assignment to a part select changes the number by the part. -/
theorem toNat_setSlice (x : BitVec n) (lo : ℕ) (v : BitVec w) (h : lo + w ≤ n) :
    (setSlice x lo v).toNat + 2 ^ lo * (x.extractLsb' lo w).toNat = x.toNat + 2 ^ lo * v.toNat := by
  rw [toNat_eq_parts (setSlice x lo v) h, toNat_eq_parts x h, extractLsb'_setSlice_self x lo v h,
    extractLsb'_setSlice_of_disjoint x v (by omega : 0 + lo ≤ n) (Or.inl (by omega)),
    extractLsb'_setSlice_of_disjoint x v (by omega : lo + w + (n - (lo + w)) ≤ n)
      (Or.inr le_rfl)]
  ring

/-! ### The adder -/

/-- One chunk, at bit `j`: its sum goes to the sum word, the carry out to the carries. -/
def saveChunk (c : ℕ) (carry t : BitVec n) (acc : BitVec n × BitVec n) (j : ℕ) :
    BitVec n × BitVec n :=
  let sum : BitVec (c + 1) := (acc.1.extractLsb' j c).setWidth (c + 1) +
    (carry.extractLsb' j c).setWidth (c + 1) + (t.extractLsb' j c).setWidth (c + 1)
  (setSlice acc.1 j (sum.setWidth c), setSlice acc.2 (j + c - 1) (sum.extractLsb' c 1))

/-- The first `m` chunks. -/
def saveChunks (c : ℕ) (sum carry t : BitVec n) (m : ℕ) : BitVec n × BitVec n :=
  ((List.range m).map (c * ·)).foldl (saveChunk c carry t) (sum, 0)

/-- The sum and the carries of three words; a carry counts in the next chunk. -/
def carrySave (c : ℕ) (sum carry t : BitVec n) : BitVec n × BitVec n :=
  let acc := saveChunks c sum carry t (n / c)
  (acc.1, acc.2 <<< 1)

/-- The bits of the word are the lowest of their chunks. -/
def Aligned (c : ℕ) (x : BitVec n) : Prop := ∀ i, x.getLsbD i = true → i % c = 0

/-- The low `k` bits of the word are clear. -/
def Settled (k : ℕ) (x : BitVec n) : Prop := ∀ i < k, x.getLsbD i = false

variable {sum carry t : BitVec n} {m k : ℕ}

theorem saveChunks_succ (sum carry t : BitVec n) (m : ℕ) : saveChunks c sum carry t (m + 1) =
    saveChunk c carry t (saveChunks c sum carry t m) (c * m) := by
  simp [saveChunks, List.range_succ]

theorem Aligned.chunk_le (h : Aligned c carry) (hc : 0 < c) (m : ℕ) :
    (carry.extractLsb' (c * m) c).toNat ≤ 1 := by
  have hone : carry.extractLsb' (c * m) c &&& 1#c = carry.extractLsb' (c * m) c := by
    refine BitVec.eq_of_getLsbD_eq fun i hi => ?_
    rw [BitVec.getLsbD_and, BitVec.getLsbD_one, BitVec.getLsbD_extractLsb']
    cases hbit : carry.getLsbD (c * m + i) with
    | false => simp
    | true =>
      have hmod := h _ hbit
      rw [Nat.mul_add_mod, Nat.mod_eq_of_lt hi] at hmod
      simp [hmod, hc]
  rw [← hone, BitVec.toNat_and]
  exact Nat.and_le_right.trans (by rw [BitVec.toNat_ofNat]; exact Nat.mod_le 1 _)

theorem Settled.chunk_eq {x : BitVec n} (h : Settled k x) {j : ℕ} (hj : j + c ≤ k) :
    x.extractLsb' j c = 0 := by
  refine BitVec.eq_of_getLsbD_eq fun i hi => ?_
  rw [BitVec.getLsbD_extractLsb', h (j + i) (by omega)]
  simp

/-- What the chunks below `m` have contributed. -/
structure ChunkInv (c : ℕ) (sum carry t : BitVec n) (k m : ℕ) (acc : BitVec n × BitVec n) :
    Prop where
  total : acc.1.toNat + 2 * acc.2.toNat + 2 ^ (c * m) * (carry.toNat / 2 ^ (c * m)) +
    2 ^ (c * m) * (t.toNat / 2 ^ (c * m)) = sum.toNat + carry.toNat + t.toNat
  below : acc.2.toNat < 2 ^ (c * m)
  bits : ∀ i, acc.2.getLsbD i = true → i % c = c - 1 ∧ k ≤ i

/-- A chunk is assigned its sum, which fits in `c + 1` bits. -/
theorem saveChunk_eq (hc : 0 < c) (hcarry : Aligned c carry) (acc : BitVec n × BitVec n) (m : ℕ) :
    ∃ (s : BitVec c) (o : BitVec 1),
      saveChunk c carry t acc (c * m) =
        (setSlice acc.1 (c * m) s, setSlice acc.2 (c * m + c - 1) o) ∧
      s.toNat + 2 ^ c * o.toNat = (acc.1.extractLsb' (c * m) c).toNat +
        (carry.extractLsb' (c * m) c).toNat + (t.extractLsb' (c * m) c).toNat := by
  refine ⟨_, _, rfl, ?_⟩
  have hC := hcarry.chunk_le hc m
  generalize acc.1.extractLsb' (c * m) c = A
  generalize carry.extractLsb' (c * m) c = C at hC ⊢
  generalize t.extractLsb' (c * m) c = T
  have hA := A.isLt
  have hT := T.isLt
  have hpow : 2 ^ (c + 1) = 2 * 2 ^ c := by rw [pow_succ, mul_comm]
  have hwide : ∀ x : BitVec c, (x.setWidth (c + 1)).toNat = x.toNat := fun x => by
    rw [BitVec.toNat_setWidth, Nat.mod_eq_of_lt (by have := x.isLt; omega)]
  have hsum : (A.setWidth (c + 1) + C.setWidth (c + 1) + T.setWidth (c + 1)).toNat =
      A.toNat + C.toNat + T.toNat := by
    rw [BitVec.toNat_add, BitVec.toNat_add, hwide, hwide, hwide, Nat.mod_add_mod,
      Nat.mod_eq_of_lt (by omega)]
  have hdiv : (A.toNat + C.toNat + T.toNat) / 2 ^ c < 2 := by
    rw [Nat.div_lt_iff_lt_mul (Nat.two_pow_pos _)]
    omega
  rw [BitVec.toNat_setWidth, BitVec.extractLsb'_toNat, hsum, Nat.shiftRight_eq_div_pow, pow_one,
    Nat.mod_eq_of_lt hdiv, Nat.mod_add_div]

theorem chunk_split (x : BitVec n) (m : ℕ) : 2 ^ (c * m) * (x.toNat / 2 ^ (c * m)) =
    2 ^ (c * m) * (x.extractLsb' (c * m) c).toNat +
      2 ^ (c * (m + 1)) * (x.toNat / 2 ^ (c * (m + 1))) := by
  rw [BitVec.extractLsb'_toNat, Nat.shiftRight_eq_div_pow, Nat.mul_succ, pow_add,
    ← Nat.div_div_eq_div_mul, mul_assoc, ← mul_add, Nat.mod_add_div]

theorem ChunkInv.step (hc : 0 < c) {acc : BitVec n × BitVec n}
    (h : ChunkInv c sum carry t k m acc) (hm : c * (m + 1) ≤ n) (hcarry : Aligned c carry)
    (hk : Settled k carry) (hk' : Settled k t) :
    ChunkInv c sum carry t k (m + 1) (saveChunk c carry t acc (c * m)) := by
  obtain ⟨s, o, heq, hso⟩ := saveChunk_eq (t := t) hc hcarry acc m
  have hj : c * m + c ≤ n := by rw [← Nat.mul_succ]; exact hm
  have hs := s.isLt
  have ho := o.isLt
  have htotal := h.total
  have hbelow := h.below
  -- the bit of the carry out is still clear
  have hclear : acc.2.extractLsb' (c * m + c - 1) 1 = 0 := by
    apply BitVec.eq_of_toNat_eq
    rw [BitVec.extractLsb'_toNat, Nat.shiftRight_eq_div_pow, Nat.div_eq_of_lt]
    · rfl
    · exact hbelow.trans_le (Nat.pow_le_pow_right (by omega) (by omega))
  have hfst := toNat_setSlice acc.1 (c * m) s hj
  have hsnd := toNat_setSlice acc.2 (c * m + c - 1) o (by omega)
  have hpow : 2 * 2 ^ (c * m + c - 1) = 2 ^ (c * (m + 1)) := by
    rw [← pow_succ', Nat.mul_succ]
    congr 1
    omega
  have hpow' : 2 ^ (c * m) * 2 ^ c = 2 ^ (c * (m + 1)) := by rw [← pow_add, Nat.mul_succ]
  rw [hclear] at hsnd
  rw [chunk_split carry, chunk_split t] at htotal
  rw [heq]
  have hsnd' : 2 * (setSlice acc.2 (c * m + c - 1) o).toNat =
      2 * acc.2.toNat + 2 ^ (c * (m + 1)) * o.toNat := by
    rw [← hpow]
    simp only [BitVec.toNat_zero, BitVec.ofNat_eq_ofNat, mul_zero, add_zero] at hsnd
    rw [hsnd]
    ring
  refine ⟨?_, ?_, fun i hi => ?_⟩
  · have hscale : 2 ^ (c * m) * s.toNat + 2 ^ (c * (m + 1)) * o.toNat =
        2 ^ (c * m) * (acc.1.extractLsb' (c * m) c).toNat +
          2 ^ (c * m) * (carry.extractLsb' (c * m) c).toNat +
          2 ^ (c * m) * (t.extractLsb' (c * m) c).toNat := by
      rw [← mul_add, ← mul_add, ← hso, ← hpow']
      ring
    dsimp only
    linarith
  · have hle : 2 ^ (c * m) ≤ 2 ^ (c * m + c - 1) := Nat.pow_le_pow_right (by omega) (by omega)
    have ho' : 2 ^ (c * (m + 1)) * o.toNat ≤ 2 ^ (c * (m + 1)) :=
      (Nat.mul_le_mul_left _ (by omega : o.toNat ≤ 1)).trans_eq (mul_one _)
    dsimp only
    linarith
  · have hin : i < n := by
      by_contra hge
      rw [BitVec.getLsbD_of_ge _ _ (by omega)] at hi
      cases hi
    rw [getLsbD_setSlice acc.2 _ o hin] at hi
    split_ifs at hi with hat
    · obtain rfl : i = c * m + (c - 1) := by omega
      refine ⟨by rw [Nat.mul_add_mod, Nat.mod_eq_of_lt (by omega)], ?_⟩
      by_contra hlt
      -- nothing is added to a chunk below `k`, so nothing leaves it
      rw [hk.chunk_eq (by omega), hk'.chunk_eq (by omega)] at hso
      have hA := (acc.1.extractLsb' (c * m) c).isLt
      have hzero : o = 0 := by
        apply BitVec.eq_of_toNat_eq
        by_contra hne
        have hone : o.toNat = 1 := by
          have : o.toNat ≠ 0 := hne
          omega
        rw [hone] at hso
        simp only [BitVec.ofNat_eq_ofNat, BitVec.toNat_zero] at hso
        omega
      rw [hzero] at hi
      simp at hi
    · exact h.bits i hi

theorem saveChunks_inv (sum t : BitVec n) (hc : 0 < c) (hm : c * m ≤ n) (hcarry : Aligned c carry)
    (hk : Settled k carry) (hk' : Settled k t) :
    ChunkInv c sum carry t k m (saveChunks c sum carry t m) := by
  induction m with
  | zero => exact ⟨by simp [saveChunks], by simp [saveChunks], by simp [saveChunks]⟩
  | succ m ih =>
    rw [saveChunks_succ]
    refine (ih ?_).step hc hm hcarry hk hk'
    rw [Nat.mul_succ] at hm
    omega

/-! ### What the adder computes -/

section Adder

variable (hc : 0 < c) (hcarry : Aligned c carry)

include hc hcarry

theorem carrySave_aligned : Aligned c (carrySave c sum carry t).2 := by
  intro i hi
  have hinv := saveChunks_inv sum t hc (Nat.mul_div_le n c) hcarry (k := 0)
    (fun _ h => absurd h (Nat.not_lt_zero _)) fun _ h => absurd h (Nat.not_lt_zero _)
  have hbit := hi
  rw [carrySave, BitVec.getLsbD_shiftLeft] at hbit
  simp only [Bool.and_eq_true, decide_eq_true_eq, Bool.not_eq_true', decide_eq_false_iff_not]
    at hbit
  obtain ⟨⟨-, hpos⟩, hbit⟩ := hbit
  have hmod := (hinv.bits _ hbit).1
  have hdiv := Nat.div_add_mod (i - 1) c
  have hi' : i = c * ((i - 1) / c + 1) := by rw [Nat.mul_succ]; omega
  rw [hi', Nat.mul_mod_right]

/-- **The sum word and the carries add up to the three words.** -/
theorem carrySave_add (hn : c ∣ n) :
    (carrySave c sum carry t).1 + (carrySave c sum carry t).2 = sum + carry + t := by
  have hinv := saveChunks_inv sum t hc (Nat.mul_div_le n c) hcarry (k := 0)
    (fun _ h => absurd h (Nat.not_lt_zero _)) fun _ h => absurd h (Nat.not_lt_zero _)
  have htotal := hinv.total
  rw [Nat.mul_div_cancel' hn, Nat.div_eq_of_lt carry.isLt, Nat.div_eq_of_lt t.isLt, mul_zero,
    add_zero, add_zero] at htotal
  apply BitVec.eq_of_toNat_eq
  rw [carrySave, BitVec.toNat_add, BitVec.toNat_shiftLeft, BitVec.toNat_add, BitVec.toNat_add,
    Nat.add_mod_mod, Nat.mod_add_mod, ← htotal, Nat.shiftLeft_eq, pow_one, mul_comm _ 2]

/-- **Settled bits**: where the carries and the addend are clear below bit `k`, no carry arrives
up to bit `k`. -/
theorem carrySave_settled (hk : Settled k carry) (hk' : Settled k t) :
    Settled (k + 1) (carrySave c sum carry t).2 := by
  intro i hi
  have hinv := saveChunks_inv sum t hc (Nat.mul_div_le n c) hcarry hk hk'
  rw [carrySave, BitVec.getLsbD_shiftLeft]
  cases hbit : (saveChunks c sum carry t (n / c)).2.getLsbD (i - 1) with
  | false => simp
  | true =>
    have hle := (hinv.bits _ hbit).2
    have hzero : i = 0 := by omega
    simp [hzero]

end Adder

end Bits

end SystolicSoc
