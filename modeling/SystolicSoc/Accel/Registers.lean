import SystolicSoc.Accel.Port
import Mathlib.Data.Fintype.Sigma
import Mathlib.Data.Fintype.Sum
import Mathlib.Tactic.DeriveFintype

/-!
# The registers that writes reach

`CTRL` and the two halves of every stream word, each with its offset in the register window.  The
decode of the source selects a half by a range test, an index and an address bit; this file shows
that it selects exactly the half with the given offset, and says once what an executed write does
to every register.

* `WriteReg` : a register, `WriteReg.offset` its address bits `[7:0]`, `WriteReg.get` its value.
* `WriteReg.decode` : **the decode is the offset.**
* `WriteReg.get_next`, `accel_changes` : a register changes only by an executed write to its offset.
-/

namespace SystolicSoc

/-- A 32-bit register that writes reach: `CTRL`, or the lower or upper half of a stream word. -/
inductive WriteReg
  | ctrl
  | aHalf (i : Fin 8) (upper : Bool)
  | bHalf (i : Fin 8) (upper : Bool)
deriving DecidableEq, Fintype, Repr

namespace WriteReg

/-- The address bits `[7:0]` of the register. -/
def offset : WriteReg → BitVec 8
  | ctrl => 0x00#8
  | aHalf i upper => BitVec.ofNat 8 (0x08 + 8 * i.val + 4 * upper.toNat)
  | bHalf i upper => BitVec.ofNat 8 (0x48 + 8 * i.val + 4 * upper.toNat)

/-- The value of the register. -/
def get : WriteReg → AccelRegs → BitVec 32
  | ctrl, s => s.ctrlQ
  | aHalf i upper, s => (s.aStreamQ i).extractLsb' (32 * upper.toNat) 32
  | bHalf i upper, s => (s.bStreamQ i).extractLsb' (32 * upper.toNat) 32

/-- The strobes that the source applies: those on the bus for `CTRL`, none for the streams. -/
def strbUsed : WriteReg → Req → BitVec 4
  | ctrl, req => req.w.strb
  | aHalf _ _, _ => 0xF#4
  | bHalf _ _, _ => 0xF#4

theorem strbUsed_of_ne_ctrl : ∀ r : WriteReg, r ≠ ctrl → ∀ req, r.strbUsed req = 0xF#4
  | ctrl, h, _ => absurd rfl h
  | aHalf _ _, _, _ => rfl
  | bHalf _ _, _, _ => rfl

end WriteReg

theorem WriteReg.offset_injective : ∀ r r' : WriteReg, r.offset = r'.offset → r = r' := by
  decide +kernel

theorem strobedWrite_full (x data : BitVec 32) : strobedWrite x data 0xF#4 = data := by
  refine eq_iff_bytes.2 fun b => ?_
  rw [strobedWrite_byte, if_pos]
  fin_cases b <;> rfl

namespace AccelRegs

variable {s : AccelRegs}

/-! ### The decode -/

/-- The range test of the decode, on the address bits `[7:0]`. -/
def inStream (x : BitVec 8) (base : BitVec 32) : Bool :=
  inWindow x base (8 * 8) && x.extractLsb' 0 2 == 0#2

theorem low8_extractLsb' (addr : BitVec 32) :
    addr.extractLsb' 0 2 = (low8 addr).extractLsb' 0 2 := by
  ext i hi
  simp [low8]

theorem addrInA_eq (s : AccelRegs) : s.addrInA = inStream (low8 s.awAddrQ) aStreamOffset := by
  rw [addrInA, inStream, low8_extractLsb']

theorem addrInB_eq (s : AccelRegs) : s.addrInB = inStream (low8 s.awAddrQ) bStreamOffset := by
  rw [addrInB, inStream, low8_extractLsb']

theorem halfLo_eq (s : AccelRegs) : s.halfLo = 32 * ((low8 s.awAddrQ).getLsbD 2).toNat := by
  have hbit : (low8 s.awAddrQ).getLsbD 2 = s.awAddrQ.getLsbD 2 := by simp [low8]
  rw [halfLo, hbit]
  cases s.awAddrQ.getLsbD 2 <;> rfl

/-- **The decode of `A_STREAM` is the offset.** -/
theorem inStream_aHalf : ∀ (x : BitVec 8) (i : Fin 8) (upper : Bool),
    (inStream x aStreamOffset = true ∧ ((x - low8 aStreamOffset) >>> 3).toNat = i.val ∧
      x.getLsbD 2 = upper) ↔ x = (WriteReg.aHalf i upper).offset := by
  decide +kernel

theorem inStream_bHalf : ∀ (x : BitVec 8) (i : Fin 8) (upper : Bool),
    (inStream x bStreamOffset = true ∧ ((x - low8 bStreamOffset) >>> 3).toNat = i.val ∧
      x.getLsbD 2 = upper) ↔ x = (WriteReg.bHalf i upper).offset := by
  decide +kernel

theorem inStream_disjoint : ∀ x : BitVec 8,
    (inStream x aStreamOffset = true → x ≠ low8 ctrlOffset) ∧
      (inStream x bStreamOffset = true → x ≠ low8 ctrlOffset ∧
        inStream x aStreamOffset = false) := by
  decide +kernel

theorem writesA_eq (s : AccelRegs) :
    s.writesA = (s.executes && inStream (low8 s.awAddrQ) aStreamOffset) := by
  have hdis := (inStream_disjoint (low8 s.awAddrQ)).1
  rw [writesA, addrInA_eq]
  cases h : inStream (low8 s.awAddrQ) aStreamOffset with
  | false => simp
  | true => simp [hdis h]

theorem writesB_eq (s : AccelRegs) :
    s.writesB = (s.executes && inStream (low8 s.awAddrQ) bStreamOffset) := by
  have hdis := (inStream_disjoint (low8 s.awAddrQ)).2
  rw [writesB, addrInA_eq, addrInB_eq]
  cases h : inStream (low8 s.awAddrQ) bStreamOffset with
  | false => simp
  | true => simp [hdis h]

theorem extractLsb'_writeHalf (m : Fin 8 → BitVec 64) (idx : BitVec 8) (u v : Bool)
    (data : BitVec 32) (i : Fin 8) :
    (writeHalf m idx (32 * u.toNat) data i).extractLsb' (32 * v.toNat) 32 =
      if idx.toNat = i.val ∧ u = v then data else (m i).extractLsb' (32 * v.toNat) 32 := by
  unfold writeHalf
  by_cases hi : idx.toNat = i.val
  · by_cases huv : u = v
    · subst huv
      rw [if_pos hi, if_pos ⟨hi, rfl⟩]
      exact Bits.extractLsb'_setSlice_self _ _ _ (by cases u <;> simp)
    · rw [if_pos hi, if_neg (fun h => huv h.2)]
      refine Bits.extractLsb'_setSlice_of_disjoint _ _ ?_ ?_ <;> cases u <;> cases v <;> simp_all
  · rw [if_neg hi, if_neg (fun h => hi h.1)]

/-- An executed write assigns the half of the stream at `base` whose offset it addresses. -/
theorem half_assigned (m : Fin 8 → BitVec 64) {base : BitVec 32} {off : BitVec 8} {i : Fin 8}
    {upper : Bool} (hdec : (inStream (low8 s.awAddrQ) base = true ∧
      (s.streamIdx base).toNat = i.val ∧ (low8 s.awAddrQ).getLsbD 2 = upper) ↔
        low8 s.awAddrQ = off) :
    ((if s.executes && inStream (low8 s.awAddrQ) base then
        writeHalf m (s.streamIdx base) s.halfLo s.wDataQ
      else m) i).extractLsb' (32 * upper.toNat) 32 =
      if s.executes = true ∧ low8 s.awAddrQ = off then s.wDataQ
      else (m i).extractLsb' (32 * upper.toNat) 32 := by
  simp only [← hdec]
  by_cases hw : s.executes = true ∧ inStream (low8 s.awAddrQ) base = true
  · rw [hw.1, hw.2, Bool.and_self, if_pos rfl, halfLo_eq, extractLsb'_writeHalf]
    simp only [true_and]
  · rw [if_neg (by simpa using hw), if_neg fun h => hw ⟨h.1, h.2.1⟩]

end AccelRegs

namespace WriteReg

open AccelRegs

/-- **What an edge does to a register**: it changes only when a write to its offset executes. -/
theorem get_next (r : WriteReg) (req : Req) (s : AccelRegs) : r.get (next req s) =
    if s.executes = true ∧ low8 s.awAddrQ = r.offset then
      strobedWrite (r.get s) s.wDataQ (r.strbUsed req)
    else r.get s := by
  cases r with
  | ctrl =>
    change (next req s).ctrlQ = if s.executes = true ∧ low8 s.awAddrQ = low8 ctrlOffset then
      strobedWrite s.ctrlQ s.wDataQ req.w.strb else s.ctrlQ
    simp only [next_eq, writesCtrl, Bool.and_eq_true, beq_iff_eq]
  | aHalf i upper =>
    have hdec := inStream_aHalf (low8 s.awAddrQ) i upper
    simp only [get, strbUsed, strobedWrite_full, ← half_assigned s.aStreamQ hdec, next_eq,
      writesA_eq]
  | bHalf i upper =>
    have hdec := inStream_bHalf (low8 s.awAddrQ) i upper
    simp only [get, strbUsed, strobedWrite_full, ← half_assigned s.bStreamQ hdec, next_eq,
      writesB_eq]

/-- What an executed write does to the value `x` of a register. -/
def effect (r : WriteReg) (req : Req) (w : BitVec 32 × BitVec 32) (x : BitVec 32) : BitVec 32 :=
  if low8 w.1 = r.offset then strobedWrite x w.2 (r.strbUsed req) else x

end WriteReg

theorem accel_changes : accelSlave.ChangesByWrites WriteReg.get WriteReg.effect := by
  intro req s r
  have hexec : accelSlave.executed req s =
      if s.executes then some (s.awAddrQ, s.wDataQ) else none := rfl
  refine (r.get_next req s).trans ?_
  rw [hexec]
  cases s.executes <;> simp [WriteReg.effect]

end SystolicSoc
