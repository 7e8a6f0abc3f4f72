import SystolicSoc.Bits.CarrySave
import SystolicSoc.Clocked.Basic
import SystolicSoc.Cpu.Pcpi
import SystolicSoc.Riscv.Muldiv
import Mathlib.Data.BitVec

/-!
# The multiplier of the processor

The co-processor `picorv32_pcpi_mul` of `picorv32.v`, with its default parameters: one bit of the
first operand a clock, and carry-save addition in chunks of four bits.  The reset is taken to last
until its delay line is clear.

* `PcpiReq`, `PcpiMul`, `PcpiMul.next` : the interface, the registers, one clock edge.
* `MulData.Accumulates` : what `k` clocks have accumulated; at the end no carry is left in the word
  that is returned.
* `PcpiMul.AtCycle` : **the multiplier in cycle `k` of an instruction**, up to its result.
* `multiplier_correct` : **every multiplication is answered**, with the product, after a number of
  cycles that depends on the instruction only.
-/

namespace SystolicSoc

open Riscv

/-- `CARRY_CHAIN`. -/
def carryChain : ℕ := 4

/-- The carry-save accumulator. -/
structure MulData where
  rs1 : BitVec 64
  rs2 : BitVec 64
  rd : BitVec 64
  rdx : BitVec 64
deriving DecidableEq, Repr

/-- One step of the accumulator. -/
def MulData.next (d : MulData) : MulData :=
  let thisRs2 := if d.rs1.getLsbD 0 then d.rs2 else 0
  let acc := Bits.carrySave carryChain d.rd d.rdx thisRs2
  ⟨d.rs1 >>> 1, d.rs2 <<< 1, acc.1, acc.2⟩

/-- The registers of the multiplier. -/
structure PcpiMul where
  instrMul : Bool
  instrMulh : Bool
  instrMulhsu : Bool
  instrMulhu : Bool
  pcpiWait : Bool
  pcpiWaitQ : Bool
  data : MulData
  mulCounter : BitVec 7
  mulWaiting : Bool
  mulFinish : Bool
  pcpiWr : Bool
  pcpiRd : BitVec 32
  pcpiReady : Bool
deriving DecidableEq, Repr

namespace PcpiMul

/-- The registers after reset: `data`, `mulCounter` and `pcpiRd` are not reset. -/
def reset (data : MulData) (mulCounter : BitVec 7) (pcpiRd : BitVec 32) : PcpiMul where
  instrMul := false
  instrMulh := false
  instrMulhsu := false
  instrMulhu := false
  pcpiWait := false
  pcpiWaitQ := false
  data := data
  mulCounter := mulCounter
  mulWaiting := true
  mulFinish := false
  pcpiWr := false
  pcpiRd := pcpiRd
  pcpiReady := false

variable (req : PcpiReq) (s : PcpiMul)

/-- An instruction of the multiplier is requested. -/
def instrAnyMul : Bool := s.instrMul || s.instrMulh || s.instrMulhsu || s.instrMulhu

/-- Its result is the high word. -/
def instrAnyMulh : Bool := s.instrMulh || s.instrMulhsu || s.instrMulhu

/-- Its first operand is signed. -/
def instrRs1Signed : Bool := s.instrMulh || s.instrMulhsu

/-- Its second operand is signed. -/
def instrRs2Signed : Bool := s.instrMulh

/-- The first cycle of `pcpi_wait`. -/
def mulStart : Bool := s.pcpiWait && !s.pcpiWaitQ

/-- The operands, while the multiplier waits. -/
def load : MulData where
  rs1 := if s.instrRs1Signed then req.rs1.signExtend 64 else req.rs1.setWidth 64
  rs2 := if s.instrRs2Signed then req.rs2.signExtend 64 else req.rs2.setWidth 64
  rd := 0
  rdx := 0

/-- One clock edge. -/
def next : PcpiMul where
  instrMul := req.hits && req.funct3 == 0b000#3
  instrMulh := req.hits && req.funct3 == 0b001#3
  instrMulhsu := req.hits && req.funct3 == 0b010#3
  instrMulhu := req.hits && req.funct3 == 0b011#3
  pcpiWait := s.instrAnyMul
  pcpiWaitQ := s.pcpiWait
  data := if s.mulWaiting then s.load req else s.data.next
  mulCounter :=
    if s.mulWaiting then (if s.instrAnyMulh then 63 - 1 else 31 - 1) else s.mulCounter - 1
  mulWaiting := if s.mulWaiting then !s.mulStart else s.mulCounter.getLsbD 6
  mulFinish := if s.mulWaiting then false else s.mulCounter.getLsbD 6
  pcpiWr := s.mulFinish
  pcpiRd :=
    if s.mulFinish then (if s.instrAnyMulh then s.data.rd >>> 32 else s.data.rd).setWidth 32
    else s.pcpiRd
  pcpiReady := s.mulFinish

end PcpiMul

/-! ### The accumulator -/

/-- What the accumulator holds after `k` steps of the product of `a` and `b`. -/
structure MulData.Accumulates (a b : BitVec 64) (k : ℕ) (d : MulData) : Prop where
  rs1 : d.rs1 = a >>> k
  rs2 : d.rs2 = b <<< k
  value : d.rd + d.rdx + d.rs1 * d.rs2 = a * b
  aligned : Bits.Aligned carryChain d.rdx
  settled : Bits.Settled k d.rdx

theorem shiftRight_one_mul (x y : BitVec 64) :
    (x >>> 1) * (y <<< 1) + (if x.getLsbD 0 then y else 0) = x * y := by
  have hx : x = x >>> 1 + x >>> 1 + (if x.getLsbD 0 then 1 else 0) := by
    have hbit : x.getLsbD 0 = decide (x.toNat % 2 = 1) := by
      rw [BitVec.getLsbD, Nat.testBit_zero]
    rw [hbit]
    split_ifs with h <;> simp only [decide_eq_true_eq] at h <;> bv_omega
  have hy : y <<< 1 = y + y := by bv_omega
  conv_rhs => rw [hx]
  rw [hy]
  split_ifs <;> ring

/-- **One step** of the accumulator. -/
theorem MulData.Accumulates.next {a b : BitVec 64} {k : ℕ} {d : MulData}
    (h : d.Accumulates a b k) : d.next.Accumulates a b (k + 1) := by
  have hchain : 0 < carryChain := by decide
  have haddend : Bits.Settled k (if d.rs1.getLsbD 0 then d.rs2 else 0) := by
    intro i hi
    split_ifs
    · rw [h.rs2, BitVec.getLsbD_shiftLeft, decide_eq_true hi]
      simp
    · simp
  refine ⟨?_, ?_, ?_, Bits.carrySave_aligned hchain h.aligned,
    Bits.carrySave_settled hchain h.aligned h.settled haddend⟩
  · change d.rs1 >>> 1 = _
    rw [h.rs1, BitVec.shiftRight_add]
  · change d.rs2 <<< 1 = _
    rw [h.rs2, BitVec.shiftLeft_add]
  · change (Bits.carrySave _ d.rd d.rdx _).1 + (Bits.carrySave _ d.rd d.rdx _).2 +
      (d.rs1 >>> 1) * (d.rs2 <<< 1) = _
    rw [Bits.carrySave_add hchain h.aligned (by decide), ← h.value,
      ← shiftRight_one_mul d.rs1 d.rs2]
    ring

/-- The operand of `op` on 64 bits. -/
def wide (signed : Bool) (x : BitVec 32) : BitVec 64 :=
  if signed then x.signExtend 64 else x.setWidth 64

theorem wide_eq (signed : Bool) (x : BitVec 32) :
    wide signed x = BitVec.ofInt 64 (operand signed x) := by
  cases signed with
  | false =>
    apply BitVec.eq_of_toNat_eq
    have := x.isLt
    simp [wide, operand]
  | true => rfl

/-- The clocks of an operation. -/
def steps (op : MulOp) : ℕ := if op.high then 64 else 32

theorem setWidth_ofInt (p : ℤ) : (BitVec.ofInt 64 p).setWidth 32 = BitVec.ofInt 32 p := by
  apply BitVec.eq_of_toNat_eq
  rw [BitVec.toNat_setWidth, BitVec.toNat_ofInt, BitVec.toNat_ofInt]
  omega

theorem setWidth_ofInt_shiftRight (p : ℤ) :
    (BitVec.ofInt 64 p >>> 32).setWidth 32 = BitVec.ofInt 32 (p / 2 ^ 32) := by
  apply BitVec.eq_of_toNat_eq
  rw [BitVec.toNat_setWidth, BitVec.toNat_ushiftRight, Nat.shiftRight_eq_div_pow,
    BitVec.toNat_ofInt, BitVec.toNat_ofInt]
  omega

/-- Nothing of the first operand is left after the steps of the operation. -/
theorem wide_shiftRight_steps (op : MulOp) (a : BitVec 32) :
    wide op.rs1Signed a >>> steps op = 0 := by
  have hwide : a.setWidth 64 >>> 32 = 0 := by
    apply BitVec.eq_of_toNat_eq
    have := a.isLt
    rw [BitVec.toNat_ushiftRight, BitVec.toNat_setWidth, Nat.shiftRight_eq_div_pow]
    simp only [BitVec.ofNat_eq_ofNat, BitVec.toNat_zero]
    omega
  cases op with
  | mul => exact hwide
  | mulh | mulhsu | mulhu => exact BitVec.ushiftRight_eq_zero (by decide)

theorem Settled.setWidth {x : BitVec 64} {k : ℕ} (h : Bits.Settled k x) (m : ℕ) (hm : m ≤ k) :
    x.setWidth m = 0 := by
  refine BitVec.eq_of_getLsbD_eq fun i hi => ?_
  rw [BitVec.getLsbD_setWidth, h i (by omega)]
  simp

/-- **The result word** when the steps of the operation are done. -/
theorem MulData.Accumulates.result {op : MulOp} {a b : BitVec 32} {d : MulData}
    (h : d.Accumulates (wide op.rs1Signed a) (wide op.rs2Signed b) (steps op)) :
    (if op.high then d.rd >>> 32 else d.rd).setWidth 32 = op.eval a b := by
  have hvalue : d.rd + d.rdx = BitVec.ofInt 64
      (operand op.rs1Signed a * operand op.rs2Signed b) := by
    have hsum := h.value
    rw [h.rs1, wide_shiftRight_steps, zero_mul, add_zero, wide_eq, wide_eq, ← BitVec.ofInt_mul]
      at hsum
    exact hsum
  have hsettled := h.settled
  rw [MulOp.eval]
  rw [steps] at hsettled
  cases hhigh : op.high with
  | true =>
    rw [hhigh, if_pos rfl] at hsettled
    have hrdx : d.rdx = 0 := by
      rw [← BitVec.setWidth_eq d.rdx]
      exact Settled.setWidth hsettled 64 le_rfl
    rw [hrdx, add_zero] at hvalue
    rw [hvalue]
    exact setWidth_ofInt_shiftRight _
  | false =>
    rw [hhigh, if_neg Bool.false_ne_true] at hsettled
    have hlow := congrArg (BitVec.setWidth 32) hvalue
    rw [BitVec.setWidth_add _ _ (by decide), Settled.setWidth hsettled 32 le_rfl, setWidth_ofInt]
      at hlow
    exact (add_zero _).symm.trans hlow

/-! ### The course of a multiplication -/

/-- The multiplication that is requested. -/
def PcpiReq.mulOp (req : PcpiReq) : Option MulOp := if req.hits then mulOpOf req.funct3 else none

namespace PcpiMul

variable {s : PcpiMul} {req : PcpiReq} {op : MulOp} {a b : BitVec 32} {k : ℕ}

/-- The instruction registers hold `o`. -/
structure Instr (o : Option MulOp) (s : PcpiMul) : Prop where
  mul : s.instrMul = decide (o = some .mul)
  mulh : s.instrMulh = decide (o = some .mulh)
  mulhsu : s.instrMulhsu = decide (o = some .mulhsu)
  mulhu : s.instrMulhu = decide (o = some .mulhu)

theorem mulOpOf_eq : ∀ f : BitVec 3,
    (f == 0b000#3) = decide (mulOpOf f = some .mul) ∧
    (f == 0b001#3) = decide (mulOpOf f = some .mulh) ∧
    (f == 0b010#3) = decide (mulOpOf f = some .mulhsu) ∧
    (f == 0b011#3) = decide (mulOpOf f = some .mulhu) := by decide

theorem instr_next (req : PcpiReq) (s : PcpiMul) : (s.next req).Instr req.mulOp := by
  obtain ⟨h₁, h₂, h₃, h₄⟩ := mulOpOf_eq req.funct3
  rcases Bool.eq_false_or_eq_true req.hits with hhits | hhits
  · constructor <;> simp only [next, PcpiReq.mulOp, hhits, Bool.true_and, if_true, h₁, h₂, h₃, h₄]
  · constructor <;> simp [next, PcpiReq.mulOp, hhits]

theorem Instr.any {o : Option MulOp} (h : s.Instr o) : s.instrAnyMul = o.isSome := by
  obtain ⟨h₁, h₂, h₃, h₄⟩ := h
  rw [instrAnyMul, h₁, h₂, h₃, h₄]
  cases o with
  | none => rfl
  | some op => cases op <;> rfl

theorem Instr.anyMulh (h : s.Instr (some op)) : s.instrAnyMulh = op.high := by
  obtain ⟨-, h₂, h₃, h₄⟩ := h
  rw [instrAnyMulh, h₂, h₃, h₄]
  cases op <;> rfl

theorem Instr.load (h : s.Instr (some op)) (req : PcpiReq) : s.load req =
    ⟨wide op.rs1Signed req.rs1, wide op.rs2Signed req.rs2, 0, 0⟩ := by
  obtain ⟨-, h₂, h₃, -⟩ := h
  rw [PcpiMul.load, instrRs1Signed, instrRs2Signed, h₂, h₃]
  cases op <;> rfl

/-- **The multiplier in cycle `k` of an instruction**, `0` being the first in which it is
requested. -/
structure AtCycle (op : MulOp) (a b : BitVec 32) (k : ℕ) (s : PcpiMul) : Prop where
  instr : s.Instr (if k = 0 then none else some op)
  wait : s.pcpiWait = decide (2 ≤ k)
  waitQ : s.pcpiWaitQ = decide (3 ≤ k)
  waiting : s.mulWaiting = decide (k < 3 ∨ 3 + steps op ≤ k)
  counter : 3 ≤ k → k < 3 + steps op → s.mulCounter = BitVec.ofNat 7 (129 + steps op - k)
  data : 3 ≤ k → k ≤ 3 + steps op →
    s.data.Accumulates (wide op.rs1Signed a) (wide op.rs2Signed b) (k - 3)
  finish : s.mulFinish = decide (k = 3 + steps op)
  ready : s.pcpiReady = decide (k = 4 + steps op)
  result : k = 4 + steps op → s.pcpiWr = true ∧ s.pcpiRd = op.eval a b

/-- The multiplier has no instruction. -/
def Rest (s : PcpiMul) : Prop := ∀ op a b, s.AtCycle op a b 0

/-- The counter is negative in the last step. -/
theorem counter_sign (op : MulOp) (h : 3 ≤ k) (hk : k < 3 + steps op) :
    (BitVec.ofNat 7 (129 + steps op - k)).getLsbD 6 = decide (k = 2 + steps op) := by
  have hdec : ∀ i : Fin 64, (BitVec.ofNat 7 (127 + i.val)).getLsbD 6 = decide (i.val = 0) := by
    decide +kernel
  have hle : steps op ≤ 64 := by rw [steps]; split_ifs <;> omega
  have hi := hdec ⟨2 + steps op - k, by omega⟩
  rw [show 127 + (2 + steps op - k) = 129 + steps op - k by omega] at hi
  rw [hi, decide_eq_decide]
  dsimp only
  omega

/-- **One cycle of an instruction.** -/
theorem AtCycle.next (h : s.AtCycle op a b k) (hk : k ≤ 3 + steps op)
    (hop : req.mulOp = some op) (ha : req.rs1 = a) (hb : req.rs2 = b) :
    (s.next req).AtCycle op a b (k + 1) := by
  have hsteps : 0 < steps op := by rw [steps]; split_ifs <;> omega
  have hinstr : 0 < k → s.Instr (some op) := fun hpos => by
    have hi := h.instr
    rwa [if_neg (by omega)] at hi
  have hwaiting := h.waiting
  constructor
  · rw [if_neg (by omega), ← hop]
    exact instr_next req s
  · change s.instrAnyMul = _
    rw [h.instr.any]
    split_ifs with h0
    · simp [h0]
    · simp; omega
  · change s.pcpiWait = _
    rw [h.wait, decide_eq_decide]
    omega
  · change (if s.mulWaiting then !s.mulStart else s.mulCounter.getLsbD 6) = _
    by_cases hrun : k < 3 ∨ 3 + steps op ≤ k
    · rw [hwaiting, if_pos (decide_eq_true hrun), mulStart, h.wait, h.waitQ]
      by_cases hk2 : k = 2
      · simp [hk2, hsteps.ne']
      · rw [Bool.eq_iff_iff]
        simp
        omega
    · rw [hwaiting, if_neg (by simpa using hrun), h.counter (by omega) (by omega),
        counter_sign op (by omega) (by omega), decide_eq_decide]
      omega
  · intro hk3 hk'
    change (if s.mulWaiting then _ else s.mulCounter - 1) = _
    by_cases hk2 : k = 2
    · rw [hwaiting, if_pos (by simp [hk2]), (hinstr (by omega)).anyMulh, hk2, steps]
      cases op <;> rfl
    · rw [hwaiting, if_neg (by simp; omega), h.counter (by omega) (by omega)]
      apply BitVec.eq_of_toNat_eq
      have hle : steps op ≤ 64 := by rw [steps]; split_ifs <;> omega
      rw [BitVec.toNat_sub, BitVec.toNat_ofNat, BitVec.toNat_ofNat]
      simp
      omega
  · intro hk3 hk'
    change (if s.mulWaiting then s.load req else s.data.next).Accumulates _ _ _
    by_cases hk2 : k = 2
    · rw [hwaiting, if_pos (by simp [hk2]), (hinstr (by omega)).load, ha, hb, hk2]
      exact ⟨by simp, by simp, by simp, fun i hi => by simp at hi, fun i hi => absurd hi (by omega)⟩
    · rw [hwaiting, if_neg (by simp; omega), show k + 1 - 3 = k - 3 + 1 by omega]
      exact (h.data (by omega) (by omega)).next
  · change (if s.mulWaiting then false else s.mulCounter.getLsbD 6) = _
    by_cases hrun : k < 3 ∨ 3 + steps op ≤ k
    · rw [hwaiting, if_pos (decide_eq_true hrun)]
      simp; omega
    · rw [hwaiting, if_neg (by simpa using hrun), h.counter (by omega) (by omega),
        counter_sign op (by omega) (by omega), decide_eq_decide]
      omega
  · change s.mulFinish = _
    rw [h.finish, decide_eq_decide]
    omega
  · intro hk'
    have hfin : k = 3 + steps op := by omega
    have hdata := h.data (by omega) (by omega)
    rw [hfin, Nat.add_sub_cancel_left] at hdata
    have hdone : s.mulFinish = true := by rw [h.finish, decide_eq_true hfin]
    refine ⟨hdone, ?_⟩
    change (if s.mulFinish then BitVec.setWidth 32 (if s.instrAnyMulh then _ else _) else _) = _
    rw [hdone, if_pos rfl, (hinstr (by omega)).anyMulh]
    exact hdata.result

/-- What is left `j` cycles after the cycle that follows an answer. -/
structure Cooling (j : ℕ) (s : PcpiMul) : Prop where
  instr : ∃ o, s.Instr o ∧ o.isSome = decide (j = 0)
  wait : s.pcpiWait = decide (j < 2)
  waitQ : s.pcpiWaitQ = decide (j < 3)
  waiting : s.mulWaiting = true
  finish : s.mulFinish = false
  ready : s.pcpiReady = false

theorem AtCycle.answered (h : s.AtCycle op a b (4 + steps op)) (hop : req.mulOp = some op) :
    (s.next req).Cooling 0 := by
  have hinstr := h.instr
  rw [if_neg (by omega)] at hinstr
  have hwaiting : s.mulWaiting = true := by
    rw [h.waiting, decide_eq_true_eq]
    omega
  have hwait : s.pcpiWait = true := by
    rw [h.wait, decide_eq_true_eq]
    omega
  have hwaitQ : s.pcpiWaitQ = true := by
    rw [h.waitQ, decide_eq_true_eq]
    omega
  refine ⟨⟨some op, ?_, rfl⟩, ?_, ?_, ?_, ?_, ?_⟩
  · rw [← hop]
    exact instr_next req s
  · exact hinstr.any
  · exact hwait
  · change (if s.mulWaiting then !s.mulStart else _) = _
    rw [hwaiting, if_pos rfl, mulStart, hwait, hwaitQ]
    rfl
  · change (if s.mulWaiting then false else _) = _
    rw [hwaiting, if_pos rfl]
  · change s.mulFinish = false
    rw [h.finish]
    simp

theorem Cooling.next {j : ℕ} (h : s.Cooling j) (hop : req.mulOp = none) :
    (s.next req).Cooling (j + 1) := by
  obtain ⟨o, hinstr, ho⟩ := h.instr
  refine ⟨⟨none, ?_, by simp⟩, ?_, ?_, ?_, ?_, h.finish⟩
  · rw [← hop]
    exact instr_next req s
  · refine (hinstr.any.trans ho).trans ?_
    rw [decide_eq_decide]
    omega
  · refine h.wait.trans ?_
    rw [decide_eq_decide]
    omega
  · change (if s.mulWaiting then !s.mulStart else _) = _
    rw [h.waiting, if_pos rfl, mulStart, h.wait, h.waitQ]
    simp
    omega
  · change (if s.mulWaiting then false else _) = _
    rw [h.waiting, if_pos rfl]

theorem rest_iff : s.Rest ↔ s.Instr none ∧ s.pcpiWait = false ∧ s.pcpiWaitQ = false ∧
    s.mulWaiting = true ∧ s.mulFinish = false ∧ s.pcpiReady = false := by
  have hne : ∀ op m, 0 ≠ m + 1 + steps op := by omega
  constructor
  · intro h
    obtain ⟨hinstr, hwait, hwaitQ, hwaiting, -, -, hfinish, hready, -⟩ := h .mul 0 0
    refine ⟨hinstr, hwait, hwaitQ, hwaiting, ?_, ?_⟩
    · rw [hfinish, decide_eq_false (hne .mul 2)]
    · rw [hready, decide_eq_false (hne .mul 3)]
  · rintro ⟨hinstr, hwait, hwaitQ, hwaiting, hfinish, hready⟩ op a b
    refine ⟨hinstr, hwait, hwaitQ, by rw [hwaiting]; simp, by simp, by simp, ?_, ?_, ?_⟩
    · rw [hfinish, decide_eq_false (hne op 2)]
    · rw [hready, decide_eq_false (hne op 3)]
    · exact fun h0 => absurd h0 (hne op 3)

theorem cooling_iff_rest {j : ℕ} (hj : 3 ≤ j) : s.Cooling j ↔ s.Rest := by
  have h0 : decide (j = 0) = false := decide_eq_false (by omega)
  have h2 : decide (j < 2) = false := decide_eq_false (by omega)
  have h3 : decide (j < 3) = false := decide_eq_false (by omega)
  rw [rest_iff]
  constructor
  · rintro ⟨⟨o, hinstr, ho⟩, hwait, hwaitQ, hwaiting, hfinish, hready⟩
    rw [h0, Option.isSome_eq_false_iff, Option.isNone_iff_eq_none] at ho
    rw [ho] at hinstr
    exact ⟨hinstr, hwait.trans h2, hwaitQ.trans h3, hwaiting, hfinish, hready⟩
  · rintro ⟨hinstr, hwait, hwaitQ, hwaiting, hfinish, hready⟩
    exact ⟨⟨none, hinstr, h0.symm⟩, hwait.trans h2.symm, hwaitQ.trans h3.symm, hwaiting, hfinish,
      hready⟩

theorem Rest.next (h : s.Rest) (hop : req.mulOp = none) : (s.next req).Rest :=
  (cooling_iff_rest (by decide)).1 (((cooling_iff_rest le_rfl).2 h).next hop)

theorem reset_rest (data : MulData) (mulCounter : BitVec 7) (pcpiRd : BitVec 32) :
    (reset data mulCounter pcpiRd).Rest :=
  rest_iff.2 ⟨⟨rfl, rfl, rfl, rfl⟩, rfl, rfl, rfl, rfl, rfl⟩

end PcpiMul

/-- The cycles from the request of a multiplication to its answer: three until the operands are
loaded, the steps, and one to hand over the result. -/
def mulLatency (op : MulOp) : ℕ := 4 + steps op

theorem PcpiReq.valid_of_mulOp (req : PcpiReq) (h : req.mulOp.isSome = true) :
    req.valid = true := by
  refine req.valid_of_hits ?_
  by_contra hhits
  rw [PcpiReq.mulOp, if_neg hhits] at h
  cases h

theorem PcpiMul.cooling_next {req : PcpiReq} {j : ℕ} {s : PcpiMul} (h : s.Cooling j)
    (hop : req.mulOp = none) : (s.next req).Cooling (min (j + 1) 3) := by
  rcases Nat.lt_or_ge j 3 with hj | hj
  · rw [Nat.min_eq_left hj]
    exact h.next hop
  · rw [Nat.min_eq_right (by omega), PcpiMul.cooling_iff_rest le_rfl]
    exact ((PcpiMul.cooling_iff_rest hj).1 h).next hop

theorem PcpiMul.atCycle_next {req : PcpiReq} {op : MulOp} {k : ℕ} {s : PcpiMul}
    (h : s.AtCycle op req.rs1 req.rs2 k) (hk : k < mulLatency op) (hop : req.mulOp = some op) :
    (s.next req).AtCycle op req.rs1 req.rs2 (k + 1) :=
  h.next (by rw [mulLatency] at hk; omega) hop rfl rfl

/-- **The multiplier is a co-processor** for the multiplications. -/
def multiplier : PcpiUnit MulOp PcpiMul where
  next := PcpiMul.next
  resp s := ⟨s.pcpiWr, s.pcpiRd, s.pcpiWait, s.pcpiReady⟩
  opOf := PcpiReq.mulOp
  eval := MulOp.eval
  latency := mulLatency
  AtCycle := PcpiMul.AtCycle
  Cooling := PcpiMul.Cooling
  valid_of_opOf := PcpiReq.valid_of_mulOp
  rest _ := PcpiMul.cooling_iff_rest (Nat.le_refl 3)
  next_atCycle := PcpiMul.atCycle_next
  next_answered h hop := h.answered hop
  next_cooling := PcpiMul.cooling_next
  ready_atCycle h _ := h.ready
  ready_cooling h := h.ready
  wait_atCycle h _ := h.wait
  answer h := h.result rfl

/-- The multiplier as a clocked machine. -/
def pcpiMul (data : MulData) (mulCounter : BitVec 7) (pcpiRd : BitVec 32) :
    Clocked PcpiReq PcpiMul :=
  ⟨.reset data mulCounter pcpiRd, PcpiMul.next⟩

/-- **The multiplier is correct**, for all operands and whatever its registers hold at power-up.
In every run with a client of the co-processor interface, a multiplication is answered in time, and
every answer is the product.  Meanwhile `pcpi_wait` keeps the processor from giving up. -/
theorem multiplier_correct (data : MulData) (mulCounter : BitVec 7) (pcpiRd : BitVec 32)
    (ι : ℕ → PcpiReq) (hclient : multiplier.Client ι ((pcpiMul data mulCounter pcpiRd).run ι))
    (n : ℕ) :
    let σ := (pcpiMul data mulCounter pcpiRd).run ι
    ((σ n).pcpiReady = true → ∃ op, (ι n).mulOp = some op ∧ (σ n).pcpiWr = true ∧
      (σ n).pcpiRd = op.eval (ι n).rs1 (ι n).rs2) ∧
    (∀ op, (ι n).mulOp = some op → ∃ m ≤ mulLatency op, ι (n + m) = ι n ∧
      (σ (n + m)).pcpiReady = true ∧ (∀ j < m, (σ (n + j)).pcpiReady = false) ∧
      ∀ j ≤ m, 2 ≤ j → (σ (n + j)).pcpiWait = true) :=
  multiplier.answers (fun _ => rfl)
    ((PcpiMul.cooling_iff_rest le_rfl).2 (PcpiMul.reset_rest data mulCounter pcpiRd)) hclient n

/-- `mul` of `-7` and `6`. -/
def mulReq : PcpiReq := ⟨true, 0x02000033#32, 0xFFFFFFF9#32, 6#32⟩

theorem multiplier_correct_mulReq : ∃ m ≤ 36,
    ((pcpiMul ⟨0, 0, 0, 0⟩ 0 0).run (PcpiUnit.once mulReq 36) m).pcpiReady = true := by
  have hready : ∀ n : Fin 37, ((pcpiMul ⟨0, 0, 0, 0⟩ 0 0).run (PcpiUnit.once mulReq 36)
      n.val).pcpiReady = decide (n.val = 36) := by decide +kernel
  have hclient := PcpiUnit.client_once mulReq (U := multiplier) (m := 36)
    (σ := (pcpiMul ⟨0, 0, 0, 0⟩ 0 0).run (PcpiUnit.once mulReq 36))
    fun n hn => hready ⟨n, by omega⟩
  obtain ⟨m, hm, -, hr, -⟩ := (multiplier_correct _ _ _ _ hclient 0).2 .mul (by decide)
  rw [Nat.zero_add] at hr
  exact ⟨m, hm, hr⟩

end SystolicSoc
