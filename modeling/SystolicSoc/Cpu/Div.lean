import SystolicSoc.Bits.Division
import SystolicSoc.Clocked.Basic
import SystolicSoc.Cpu.Pcpi
import SystolicSoc.Riscv.Muldiv
import Mathlib.Data.BitVec

/-!
# The divider of the processor

The co-processor `picorv32_pcpi_div` of `picorv32.v`: restoring division of the magnitudes, one bit
of the quotient a clock.  The reset is taken to last until its delay line is clear; `undef` is what
the data output holds while there is no answer.

* `PcpiDiv`, `PcpiDiv.next` : the registers, one clock edge.
* `PcpiDiv.Divides` : the division of the magnitudes under way.
* `PcpiDiv.AtCycle` : **the divider in cycle `k` of an instruction**, up to its result.
* `divider_correct` : **every division is answered**, with the quotient or the remainder, in 36
  cycles, and so is a division by zero.
-/

namespace SystolicSoc

open Riscv

/-- The registers of the divider. -/
structure PcpiDiv where
  instrDiv : Bool
  instrDivu : Bool
  instrRem : Bool
  instrRemu : Bool
  pcpiWait : Bool
  pcpiWaitQ : Bool
  dividend : BitVec 32
  divisor : BitVec 63
  quotient : BitVec 32
  quotientMsk : BitVec 32
  running : Bool
  outsign : Bool
  pcpiWr : Bool
  pcpiRd : BitVec 32
  pcpiReady : Bool
deriving DecidableEq, Repr

namespace PcpiDiv

/-- The registers after reset, of those at power-up. -/
def reset (up : PcpiDiv) : PcpiDiv :=
  { up with
    instrDiv := false
    instrDivu := false
    instrRem := false
    instrRemu := false
    pcpiWait := false
    pcpiWaitQ := false
    running := false
    pcpiWr := false
    pcpiReady := false }

variable (undef : BitVec 32) (req : PcpiReq) (s : PcpiDiv)

/-- An instruction of the divider is requested. -/
def instrAnyDivRem : Bool := s.instrDiv || s.instrDivu || s.instrRem || s.instrRemu

/-- The first cycle of `pcpi_wait`. -/
def start : Bool := s.pcpiWait && !s.pcpiWaitQ

/-- The registers of the delay line. -/
def shift : PcpiDiv :=
  let hit := req.hits && !s.pcpiReady
  { s with
    instrDiv := hit && req.funct3 == 0b100#3
    instrDivu := hit && req.funct3 == 0b101#3
    instrRem := hit && req.funct3 == 0b110#3
    instrRemu := hit && req.funct3 == 0b111#3
    pcpiWait := s.instrAnyDivRem
    pcpiWaitQ := s.pcpiWait }

/-- One clock edge. -/
def next : PcpiDiv :=
  let n := { s.shift req with pcpiReady := false, pcpiWr := false, pcpiRd := undef }
  let signed := s.instrDiv || s.instrRem
  if s.start then
    { n with
      running := true
      dividend := if signed && req.rs1.getLsbD 31 then -req.rs1 else req.rs1
      divisor := (if signed && req.rs2.getLsbD 31 then -req.rs2.setWidth 63
        else req.rs2.setWidth 63) <<< 31
      outsign := (s.instrDiv && (req.rs1.getLsbD 31 != req.rs2.getLsbD 31) && req.rs2 != 0) ||
        (s.instrRem && req.rs1.getLsbD 31)
      quotient := 0
      quotientMsk := 1#32 <<< 31 }
  else if s.quotientMsk == 0 && s.running then
    { n with
      running := false
      pcpiReady := true
      pcpiWr := true
      pcpiRd :=
        if s.instrDiv || s.instrDivu then (if s.outsign then -s.quotient else s.quotient)
        else (if s.outsign then -s.dividend else s.dividend) }
  else
    let fits := s.divisor ≤ s.dividend.setWidth 63
    { n with
      dividend := if fits then s.dividend - s.divisor.setWidth 32 else s.dividend
      quotient := if fits then s.quotient ||| s.quotientMsk else s.quotient
      divisor := s.divisor >>> 1
      quotientMsk := s.quotientMsk >>> 1 }

end PcpiDiv

/-! ### The magnitudes -/

/-- The magnitude of an operand. -/
def magnitude (signed : Bool) (x : BitVec 32) : BitVec 32 :=
  if signed && x.getLsbD 31 then -x else x

theorem getLsbD_31 (x : BitVec 32) : x.getLsbD 31 = decide (2 ^ 31 ≤ x.toNat) := by
  have := x.isLt
  rw [BitVec.getLsbD, Nat.testBit_eq_decide_div_mod_eq, decide_eq_decide]
  omega

theorem operand_eq (signed : Bool) (x : BitVec 32) : operand signed x =
    if signed && x.getLsbD 31 then -((magnitude signed x).toNat : ℤ)
    else ((magnitude signed x).toNat : ℤ) := by
  cases signed with
  | false => rfl
  | true =>
    have := x.isLt
    rw [operand, magnitude, Bool.true_and, getLsbD_31, if_pos rfl, BitVec.toInt_eq_toNat_cond]
    by_cases hneg : 2 ^ 31 ≤ x.toNat
    · rw [decide_eq_true hneg, if_pos rfl, if_pos rfl, if_neg (by omega), BitVec.toNat_neg]
      omega
    · rw [decide_eq_false hneg, if_neg Bool.false_ne_true, if_neg Bool.false_ne_true,
        if_pos (by omega)]

theorem magnitude_eq_zero (signed : Bool) (x : BitVec 32) :
    (magnitude signed x).toNat = 0 ↔ x = 0 := by
  have := x.isLt
  rw [← BitVec.toNat_inj, magnitude, show (0 : BitVec 32).toNat = 0 from rfl]
  split_ifs
  · rw [BitVec.toNat_neg]
    omega
  · rfl

theorem tdiv_signs (sa sb : Bool) (a b : ℕ) :
    (if sa then -(a : ℤ) else a).tdiv (if sb then -(b : ℤ) else b) =
      if sa != sb then -((a / b : ℕ) : ℤ) else ((a / b : ℕ) : ℤ) := by
  cases sa <;> cases sb <;> simp [Int.neg_tdiv, Int.tdiv_neg]

theorem tmod_signs (sa sb : Bool) (a b : ℕ) :
    (if sa then -(a : ℤ) else a).tmod (if sb then -(b : ℤ) else b) =
      if sa then -((a % b : ℕ) : ℤ) else ((a % b : ℕ) : ℤ) := by
  have hmod : (a : ℤ).tmod b = ((a % b : ℕ) : ℤ) := (Int.ofNat_tmod a b).symm
  cases sa <;> cases sb <;> simp [Int.neg_tmod, Int.tmod_neg, hmod]

theorem ofInt_signs (sign : Bool) (x : BitVec 32) :
    BitVec.ofInt 32 (if sign then -(x.toNat : ℤ) else x.toNat) = if sign then -x else x := by
  cases sign <;> simp [BitVec.ofInt_neg]

/-- The sign of the result. -/
def resultSign (op : DivOp) (a b : BitVec 32) : Bool :=
  match op with
  | .div => (a.getLsbD 31 != b.getLsbD 31) && b != 0
  | .rem => a.getLsbD 31
  | .divu | .remu => false

/-- **The result of a division**, from the quotient and the remainder of the magnitudes. -/
theorem eval_eq_of_magnitudes (op : DivOp) (a b q r : BitVec 32)
    (hq : 0 < (magnitude op.signed b).toNat →
      q.toNat = (magnitude op.signed a).toNat / (magnitude op.signed b).toNat)
    (hq0 : (magnitude op.signed b).toNat = 0 → q.toNat = 2 ^ 32 - 1)
    (hr : r.toNat = (magnitude op.signed a).toNat % (magnitude op.signed b).toNat) :
    op.eval a b = if op.quotient then (if resultSign op a b then -q else q)
      else (if resultSign op a b then -r else r) := by
  have hzero : operand op.signed b = 0 ↔ b = 0 := by
    rw [operand_eq, ← magnitude_eq_zero op.signed]
    split_ifs <;> omega
  rw [DivOp.eval]
  simp only [hzero]
  rw [operand_eq op.signed a, operand_eq op.signed b, tdiv_signs, tmod_signs, ← hr]
  cases hquot : op.quotient with
  | true =>
    rw [if_pos rfl, if_pos rfl]
    by_cases hb : b = 0
    · -- a division by zero
      have hall : q = -1 := by
        apply BitVec.eq_of_toNat_eq
        rw [hq0 ((magnitude_eq_zero _ _).2 hb)]
        rfl
      have hsign : resultSign op a b = false := by
        cases op <;> simp_all [resultSign, DivOp.quotient]
      rw [if_pos hb, hsign, hall]
      rfl
    · have hsign : resultSign op a b =
          ((op.signed && a.getLsbD 31) != (op.signed && b.getLsbD 31)) := by
        cases op <;> simp_all [resultSign, DivOp.quotient, DivOp.signed]
      rw [if_neg hb, ← hq (Nat.pos_of_ne_zero fun h => hb ((magnitude_eq_zero _ _).1 h)),
        ofInt_signs,
        hsign]
  | false =>
    have hsign : resultSign op a b = (op.signed && a.getLsbD 31) := by
      cases op <;> simp_all [resultSign, DivOp.quotient, DivOp.signed]
    rw [if_neg Bool.false_ne_true, if_neg Bool.false_ne_true, ofInt_signs, hsign]

/-! ### The course of a division -/

/-- The division that is requested. -/
def PcpiReq.divOp (req : PcpiReq) : Option DivOp := if req.hits then divOpOf req.funct3 else none

namespace PcpiDiv

variable {undef : BitVec 32} {s : PcpiDiv} {req : PcpiReq} {op : DivOp} {a b : BitVec 32} {k : ℕ}

/-- The instruction registers hold `o`. -/
structure Instr (o : Option DivOp) (s : PcpiDiv) : Prop where
  div : s.instrDiv = decide (o = some .div)
  divu : s.instrDivu = decide (o = some .divu)
  rem : s.instrRem = decide (o = some .rem)
  remu : s.instrRemu = decide (o = some .remu)

theorem divOpOf_eq : ∀ f : BitVec 3,
    (f == 0b100#3) = decide (divOpOf f = some .div) ∧
    (f == 0b101#3) = decide (divOpOf f = some .divu) ∧
    (f == 0b110#3) = decide (divOpOf f = some .rem) ∧
    (f == 0b111#3) = decide (divOpOf f = some .remu) := by decide

theorem next_shift (undef : BitVec 32) (req : PcpiReq) (s : PcpiDiv) :
    (s.next undef req).instrDiv = (s.shift req).instrDiv ∧
    (s.next undef req).instrDivu = (s.shift req).instrDivu ∧
    (s.next undef req).instrRem = (s.shift req).instrRem ∧
    (s.next undef req).instrRemu = (s.shift req).instrRemu ∧
    (s.next undef req).pcpiWait = s.instrAnyDivRem ∧
    (s.next undef req).pcpiWaitQ = s.pcpiWait := by
  unfold next
  split_ifs <;> exact ⟨rfl, rfl, rfl, rfl, rfl, rfl⟩

theorem instr_next (undef : BitVec 32) (req : PcpiReq) (s : PcpiDiv) :
    (s.next undef req).Instr (if s.pcpiReady then none else req.divOp) := by
  obtain ⟨h₁, h₂, h₃, h₄⟩ := divOpOf_eq req.funct3
  obtain ⟨hs₁, hs₂, hs₃, hs₄, -, -⟩ := next_shift undef req s
  rcases Bool.eq_false_or_eq_true req.hits with hhits | hhits <;>
    rcases Bool.eq_false_or_eq_true s.pcpiReady with hready | hready <;>
    constructor <;> simp [hs₁, hs₂, hs₃, hs₄, shift, PcpiReq.divOp, hhits, hready, h₁, h₂, h₃, h₄]

theorem Instr.any {o : Option DivOp} (h : s.Instr o) : s.instrAnyDivRem = o.isSome := by
  obtain ⟨h₁, h₂, h₃, h₄⟩ := h
  rw [instrAnyDivRem, h₁, h₂, h₃, h₄]
  cases o with
  | none => rfl
  | some op => cases op <;> rfl

theorem Instr.signed (h : s.Instr (some op)) : (s.instrDiv || s.instrRem) = op.signed := by
  rw [h.div, h.rem]
  cases op <;> rfl

theorem Instr.quotient (h : s.Instr (some op)) : (s.instrDiv || s.instrDivu) = op.quotient := by
  rw [h.div, h.divu]
  cases op <;> rfl

/-- The division of the magnitudes, with `j` bits of the quotient found. -/
structure Divides (op : DivOp) (a b : BitVec 32) (j : ℕ) (s : PcpiDiv) : Prop where
  restoring : Bits.Restoring (2 ^ 32) (magnitude op.signed a).toNat (magnitude op.signed b).toNat
    (2 ^ (32 - j)) s.quotient.toNat s.dividend.toNat
  divisor : s.divisor.toNat = (magnitude op.signed b).toNat * 2 ^ 31 / 2 ^ j
  quotientMsk : s.quotientMsk.toNat = 2 ^ 31 / 2 ^ j
  outsign : s.outsign = resultSign op a b

theorem divides_start (h : s.Instr (some op)) (hstart : s.start = true) (ha : req.rs1 = a)
    (hb : req.rs2 = b) : (s.next undef req).Divides op a b 0 := by
  have hsigned := h.signed
  rw [next, if_pos hstart]
  constructor
  · dsimp only
    rw [hsigned, ha]
    exact Bits.Restoring.start (magnitude op.signed a).isLt
  · dsimp only
    have := b.isLt
    rw [hsigned, hb, BitVec.toNat_shiftLeft, Nat.shiftLeft_eq, magnitude, pow_zero, Nat.div_one]
    split_ifs
    · rw [BitVec.toNat_neg, BitVec.toNat_neg, BitVec.toNat_setWidth]
      omega
    · rw [BitVec.toNat_setWidth]
      omega
  · simp
  · dsimp only
    rw [h.div, h.rem, ha, hb]
    cases op <;> simp [resultSign]

/-- The mask is clear when all bits of the quotient are found. -/
theorem Divides.quotientMsk_eq_zero {j : ℕ} (h : s.Divides op a b j) (hj : j ≤ 32) :
    (s.quotientMsk == 0) = decide (j = 32) := by
  rw [Bool.eq_iff_iff, beq_iff_eq, decide_eq_true_eq, ← BitVec.toNat_inj, h.quotientMsk,
    show (0 : BitVec 32).toNat = 0 from rfl, Nat.div_eq_zero_iff_lt (Nat.two_pow_pos j),
    Nat.pow_lt_pow_iff_right (by decide)]
  omega

/-- **One bit of the quotient.** -/
theorem Divides.next {j : ℕ} (h : s.Divides op a b j) (hj : j < 32) (hstart : s.start = false) :
    (s.next undef req).Divides op a b (j + 1) := by
  have hmsk := h.quotientMsk_eq_zero hj.le
  rw [decide_eq_false hj.ne] at hmsk
  obtain ⟨hrestoring, hdivisor, hquotientMsk, houtsign⟩ := h
  have hdiv : 2 ^ 31 / 2 ^ j = 2 ^ (32 - (j + 1)) := by
    rw [Nat.pow_div (by omega) (by decide)]
    congr 1
    omega
  have hpow : 2 ^ (32 - j) = 2 * 2 ^ (32 - (j + 1)) := by
    rw [← pow_succ']
    congr 1
    omega
  have hshift : (magnitude op.signed b).toNat * 2 ^ 31 / 2 ^ j =
      (magnitude op.signed b).toNat * 2 ^ (32 - (j + 1)) := by
    rw [Nat.mul_div_assoc _ (Nat.pow_dvd_pow 2 (by omega)), hdiv]
  have hfits : s.divisor ≤ s.dividend.setWidth 63 ↔
      (magnitude op.signed b).toNat * 2 ^ (32 - (j + 1)) ≤ s.dividend.toNat := by
    have := s.dividend.isLt
    rw [BitVec.le_def, BitVec.toNat_setWidth, Nat.mod_eq_of_lt (by omega), hdivisor, hshift]
  rw [hpow] at hrestoring
  have hstep := hrestoring.step
  have hidle : ¬ (s.quotientMsk == 0 && s.running) = true := by
    rw [hmsk, Bool.false_and]
    exact Bool.false_ne_true
  rw [PcpiDiv.next, if_neg (by rw [hstart]; exact Bool.false_ne_true), if_neg hidle]
  refine ⟨?_, ?_, ?_, houtsign⟩
  · dsimp only
    by_cases hfit : (magnitude op.signed b).toNat * 2 ^ (32 - (j + 1)) ≤ s.dividend.toNat
    · have hor : (s.quotient ||| s.quotientMsk).toNat =
          s.quotient.toNat + 2 ^ (32 - (j + 1)) := by
        obtain ⟨c, hc⟩ := hrestoring.cleared
        rw [BitVec.toNat_or, hquotientMsk, hdiv, hc, ← hpow, Nat.two_pow_add_eq_or_of_lt]
        exact Nat.pow_lt_pow_right (by decide) (by omega)
      have hsub : (s.dividend - s.divisor.setWidth 32).toNat =
          s.dividend.toNat - (magnitude op.signed b).toNat * 2 ^ (32 - (j + 1)) := by
        have := s.dividend.isLt
        have hlow : (s.divisor.setWidth 32).toNat =
            (magnitude op.signed b).toNat * 2 ^ (32 - (j + 1)) := by
          rw [BitVec.toNat_setWidth, hdivisor, hshift, Nat.mod_eq_of_lt (by omega)]
        rw [BitVec.toNat_sub_of_le (BitVec.le_def.2 (hlow.trans_le hfit)), hlow]
      rw [if_pos hfit, if_pos hfit] at hstep
      rw [if_pos (hfits.2 hfit), if_pos (hfits.2 hfit), hor, hsub]
      exact hstep
    · rw [if_neg hfit, if_neg hfit] at hstep
      rw [if_neg (fun h => hfit (hfits.1 h)), if_neg fun h => hfit (hfits.1 h)]
      exact hstep
  · dsimp only
    rw [BitVec.toNat_ushiftRight, hdivisor, Nat.shiftRight_eq_div_pow, Nat.div_div_eq_div_mul,
      ← pow_add]
  · dsimp only
    rw [BitVec.toNat_ushiftRight, hquotientMsk, Nat.shiftRight_eq_div_pow, Nat.div_div_eq_div_mul,
      ← pow_add]

/-- **The divider in cycle `k` of an instruction**, `0` being the first in which it is
requested. -/
structure AtCycle (op : DivOp) (a b : BitVec 32) (k : ℕ) (s : PcpiDiv) : Prop where
  instr : s.Instr (if k = 0 then none else some op)
  wait : s.pcpiWait = decide (2 ≤ k)
  waitQ : s.pcpiWaitQ = decide (3 ≤ k)
  running : s.running = decide (3 ≤ k ∧ k ≤ 35)
  data : 3 ≤ k → k ≤ 35 → s.Divides op a b (k - 3)
  ready : s.pcpiReady = decide (k = 36)
  result : k = 36 → s.pcpiWr = true ∧ s.pcpiRd = op.eval a b

theorem AtCycle.start (h : s.AtCycle op a b k) : s.start = decide (k = 2) := by
  rw [PcpiDiv.start, h.wait, h.waitQ, Bool.eq_iff_iff]
  simp
  omega

theorem Divides.result (h : s.Divides op a b 32) (undef : BitVec 32) (req : PcpiReq)
    (hinstr : s.Instr (some op))
    (hrunning : s.running = true) (hstart : s.start = false) :
    (s.next undef req).running = false ∧ (s.next undef req).pcpiReady = true ∧
      (s.next undef req).pcpiWr = true ∧ (s.next undef req).pcpiRd = op.eval a b := by
  have hmsk := h.quotientMsk_eq_zero le_rfl
  obtain ⟨hq, hq0, hr⟩ := h.restoring.done
  rw [PcpiDiv.next, if_neg (by rw [hstart]; exact Bool.false_ne_true),
    if_pos (by rw [hmsk, hrunning]; rfl)]
  refine ⟨rfl, rfl, rfl, ?_⟩
  dsimp only
  rw [hinstr.quotient, h.outsign, eval_eq_of_magnitudes op a b s.quotient s.dividend hq hq0 hr]

theorem next_waiting (undef : BitVec 32) (req : PcpiReq)
    (h : s.start = true ∨ (s.quotientMsk == 0 && s.running) = false) :
    (s.next undef req).pcpiReady = false ∧
      (s.next undef req).running = (s.start || s.running) := by
  unfold next
  cases hstart : s.start with
  | true => exact ⟨rfl, rfl⟩
  | false =>
    rw [hstart] at h
    rw [h.resolve_left Bool.false_ne_true]
    exact ⟨rfl, rfl⟩

theorem AtCycle.divides_next (h : s.AtCycle op a b k) (hk : k < 35) (ha : req.rs1 = a)
    (hb : req.rs2 = b) (hk' : 2 ≤ k) : (s.next undef req).Divides op a b (k + 1 - 3) := by
  by_cases hk2 : k = 2
  · have hinstr := h.instr
    rw [if_neg (by omega)] at hinstr
    rw [hk2]
    exact divides_start hinstr (by rw [h.start, decide_eq_true hk2]) ha hb
  · rw [show k + 1 - 3 = k - 3 + 1 by omega]
    exact (h.data (by omega) (by omega)).next (by omega) (by rw [h.start, decide_eq_false hk2])

/-- There is no answer before cycle `35`. -/
theorem AtCycle.waiting (h : s.AtCycle op a b k) (hk : k < 35) :
    s.start = true ∨ (s.quotientMsk == 0 && s.running) = false := by
  rw [h.start, h.running, decide_eq_true_eq]
  rcases Nat.lt_or_ge k 3 with hlt | hge
  · refine .inr ?_
    rw [decide_eq_false (by omega), Bool.and_false]
  · refine .inr ?_
    rw [(h.data hge (by omega)).quotientMsk_eq_zero (by omega), decide_eq_false (by omega),
      Bool.false_and]

/-- **One cycle of an instruction.** -/
theorem AtCycle.next (h : s.AtCycle op a b k) (hk : k ≤ 35) (hop : req.divOp = some op)
    (ha : req.rs1 = a) (hb : req.rs2 = b) : (s.next undef req).AtCycle op a b (k + 1) := by
  have hready : s.pcpiReady = false := by rw [h.ready, decide_eq_false (by omega)]
  obtain ⟨-, -, -, -, hwait, hwaitQ⟩ := next_shift undef req s
  have hinstr' : (s.next undef req).Instr (if k + 1 = 0 then none else some op) := by
    have hi := instr_next undef req s
    rwa [hready, if_neg Bool.false_ne_true, hop] at hi
  have hwait' : (s.next undef req).pcpiWait = decide (2 ≤ k + 1) := by
    rw [hwait, h.instr.any]
    split_ifs with h0
    · rw [h0]
      rfl
    · rw [eq_comm, Option.isSome_some, decide_eq_true_eq]
      omega
  have hwaitQ' : (s.next undef req).pcpiWaitQ = decide (3 ≤ k + 1) := by
    rw [hwaitQ, h.wait, decide_eq_decide]
    omega
  rcases Nat.lt_or_eq_of_le hk with hlt | rfl
  · obtain ⟨hready', hrunning'⟩ := next_waiting undef req (h.waiting hlt)
    refine ⟨hinstr', hwait', hwaitQ', ?_, fun _ _ => h.divides_next hlt ha hb (by omega), ?_,
      fun h36 => absurd h36 (by omega)⟩
    · rw [hrunning', h.start, h.running, Bool.eq_iff_iff]
      simp
      omega
    · rw [hready', decide_eq_false (by omega)]
  · have hinstr := h.instr
    have hdata := h.data (by decide) (by decide)
    obtain ⟨hrunning', hready', hwr, hrd⟩ := hdata.result undef req hinstr h.running
      h.start
    exact ⟨hinstr', hwait', hwaitQ', hrunning', fun _ h36 => absurd h36 (by decide), hready',
      fun _ => ⟨hwr, hrd⟩⟩

/-- What is left `j` cycles after the cycle that follows an answer. -/
structure Cooling (j : ℕ) (s : PcpiDiv) : Prop where
  instr : s.Instr none
  wait : s.pcpiWait = decide (j < 1)
  waitQ : s.pcpiWaitQ = decide (j < 2)
  running : s.running = false
  ready : s.pcpiReady = false

theorem AtCycle.answered (h : s.AtCycle op a b 36) : (s.next undef req).Cooling 0 := by
  have hready : s.pcpiReady = true := h.ready
  have hrunning : s.running = false := h.running
  have hstart : s.start = false := h.start
  obtain ⟨-, -, -, -, hwait, hwaitQ⟩ := next_shift undef req s
  obtain ⟨hready', hrunning'⟩ := next_waiting undef req (s := s)
    (.inr (by rw [hrunning, Bool.and_false]))
  refine ⟨?_, ?_, ?_, ?_, hready'⟩
  · have hi := instr_next undef req s
    rwa [hready, if_pos rfl] at hi
  · rw [hwait, h.instr.any]
    rfl
  · rw [hwaitQ, h.wait]
    rfl
  · rw [hrunning', hstart, hrunning]
    rfl

theorem Cooling.next {j : ℕ} (h : s.Cooling j) (undef : BitVec 32) (hop : req.divOp = none) :
    (s.next undef req).Cooling (j + 1) := by
  obtain ⟨-, -, -, -, hwait, hwaitQ⟩ := next_shift undef req s
  obtain ⟨hready', hrunning'⟩ := next_waiting undef req (s := s)
    (.inr (by rw [h.running, Bool.and_false]))
  have hstart : s.start = false := by
    rw [start, h.wait, h.waitQ, Bool.eq_false_iff]
    simp
    omega
  refine ⟨?_, ?_, ?_, ?_, hready'⟩
  · have hi := instr_next undef req s
    rwa [hop, ite_self] at hi
  · rw [hwait, h.instr.any]
    simp
  · rw [hwaitQ, h.wait, decide_eq_decide]
    omega
  · rw [hrunning', hstart, h.running]
    rfl

theorem cooling_iff_rest {j : ℕ} (hj : 2 ≤ j) :
    s.Cooling j ↔ ∀ op a b, s.AtCycle op a b 0 := by
  have h1 : decide (j < 1) = false := decide_eq_false (by omega)
  have h2 : decide (j < 2) = false := decide_eq_false (by omega)
  constructor
  · rintro ⟨hinstr, hwait, hwaitQ, hrunning, hready⟩ op a b
    exact ⟨hinstr, hwait.trans h1, hwaitQ.trans h2, hrunning, fun h => absurd h (by decide), hready,
      fun h => absurd h (by decide)⟩
  · intro h
    obtain ⟨hinstr, hwait, hwaitQ, hrunning, -, hready, -⟩ := h .div 0 0
    exact ⟨hinstr, hwait.trans h1.symm, hwaitQ.trans h2.symm, hrunning, hready⟩

theorem reset_cooling (up : PcpiDiv) : (reset up).Cooling 3 :=
  ⟨⟨rfl, rfl, rfl, rfl⟩, rfl, rfl, rfl, rfl⟩

end PcpiDiv

/-- **The divider is a co-processor** for the divisions. -/
def divider (undef : PcpiReq → PcpiDiv → BitVec 32) : PcpiUnit DivOp PcpiDiv where
  next req s := s.next (undef req s) req
  resp s := ⟨s.pcpiWr, s.pcpiRd, s.pcpiWait, s.pcpiReady⟩
  opOf := PcpiReq.divOp
  eval := DivOp.eval
  latency _ := 36
  AtCycle := PcpiDiv.AtCycle
  Cooling := PcpiDiv.Cooling
  valid_of_opOf req h := by
    refine req.valid_of_hits ?_
    by_contra hhits
    rw [PcpiReq.divOp, if_neg hhits] at h
    cases h
  rest _ := PcpiDiv.cooling_iff_rest (by decide)
  next_atCycle h hk hop := h.next (by omega) hop rfl rfl
  next_answered h _ := h.answered
  next_cooling {req j s} h hop := by
    rcases Nat.lt_or_ge j 3 with hj | hj
    · rw [Nat.min_eq_left hj]
      exact h.next _ hop
    · have hrest := (PcpiDiv.cooling_iff_rest (by omega)).1 (h.next (undef req s) hop)
      rw [Nat.min_eq_right (by omega)]
      exact (PcpiDiv.cooling_iff_rest (by decide)).2 hrest
  ready_atCycle h _ := h.ready
  ready_cooling h := h.ready
  wait_atCycle h _ := h.wait
  answer h := h.result rfl

/-- The divider as a clocked machine. -/
def pcpiDiv (undef : PcpiReq → PcpiDiv → BitVec 32) (up : PcpiDiv) : Clocked PcpiReq PcpiDiv :=
  ⟨.reset up, fun req s => s.next (undef req s) req⟩

/-- **The divider is correct**, for all operands, the divisor zero and the overflow included, and
whatever its registers hold at power-up.  In every run with a client of the co-processor interface,
a division is answered in time, and every answer is the quotient or the remainder.  Meanwhile
`pcpi_wait` keeps the processor from giving up. -/
theorem divider_correct (undef : PcpiReq → PcpiDiv → BitVec 32) (up : PcpiDiv) (ι : ℕ → PcpiReq)
    (hclient : (divider undef).Client ι ((pcpiDiv undef up).run ι)) (n : ℕ) :
    let σ := (pcpiDiv undef up).run ι
    ((σ n).pcpiReady = true → ∃ op, (ι n).divOp = some op ∧ (σ n).pcpiWr = true ∧
      (σ n).pcpiRd = op.eval (ι n).rs1 (ι n).rs2) ∧
    (∀ op, (ι n).divOp = some op → ∃ m ≤ 36, ι (n + m) = ι n ∧
      (σ (n + m)).pcpiReady = true ∧ (∀ j < m, (σ (n + j)).pcpiReady = false) ∧
      ∀ j ≤ m, 2 ≤ j → (σ (n + j)).pcpiWait = true) :=
  (divider undef).answers (σ := (pcpiDiv undef up).run ι) (fun _ => rfl)
    (PcpiDiv.reset_cooling up) hclient n

/-- `div` of `-7` by zero. -/
def divReq : PcpiReq := ⟨true, 0x02004033#32, 0xFFFFFFF9#32, 0#32⟩

/-- The registers of a divider at power-up. -/
def divBlank : PcpiDiv :=
  ⟨false, false, false, false, false, false, 0, 0, 0, 0, false, false, false, 0, false⟩

theorem divider_correct_divReq : ∃ m ≤ 36,
    ((pcpiDiv (fun _ _ => 0) divBlank).run (PcpiUnit.once divReq 36) m).pcpiReady = true := by
  have hready : ∀ n : Fin 37, ((pcpiDiv (fun _ _ => 0) divBlank).run (PcpiUnit.once divReq 36)
      n.val).pcpiReady = decide (n.val = 36) := by decide +kernel
  have hclient := PcpiUnit.client_once divReq (U := divider fun _ _ => 0) (m := 36)
    (σ := (pcpiDiv (fun _ _ => 0) divBlank).run (PcpiUnit.once divReq 36))
    fun n hn => hready ⟨n, by omega⟩
  obtain ⟨m, hm, -, hr, -⟩ := (divider_correct _ _ _ hclient 0).2 .div (by decide)
  rw [Nat.zero_add] at hr
  exact ⟨m, hm, hr⟩

end SystolicSoc
