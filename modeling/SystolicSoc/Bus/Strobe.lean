import SystolicSoc.Bus.Types
import Mathlib.Data.Fintype.Basic
import Mathlib.Tactic.FinCases

/-!
# Byte strobes

The four guarded byte assignments with which the slaves of the SoC honour the write strobes.

* `strobedWrite_byte` : byte `b` comes from the data where its strobe is set and from the old
  word elsewhere.
* `eq_iff_bytes` : a word is determined by its bytes.
-/

namespace SystolicSoc

/-- Byte `b` of a word, bits `[8 b + 7 : 8 b]`. -/
def byte (x : BitVec 32) (b : Fin 4) : BitVec 8 := x.extractLsb' (8 * b.val) 8

/-- `if (strb[b]) x[8 b +: 8] <= data[8 b +: 8]`. -/
def writeByte (data : BitVec 32) (strb : BitVec 4) (b : Fin 4) (x : BitVec 32) : BitVec 32 :=
  if strb.getLsbD b then Bits.setSlice x (8 * b.val) (byte data b) else x

/-- The guarded assignments of the bytes `0`, `1`, `2` and `3`. -/
def strobedWrite (x data : BitVec 32) (strb : BitVec 4) : BitVec 32 :=
  writeByte data strb 3 (writeByte data strb 2 (writeByte data strb 1 (writeByte data strb 0 x)))

theorem byte_writeByte (data : BitVec 32) (strb : BitVec 4) (b c : Fin 4) (x : BitVec 32) :
    byte (writeByte data strb b x) c =
      if c = b ∧ strb.getLsbD b = true then byte data b else byte x c := by
  unfold writeByte
  split_ifs with hs hc hc
  · rw [hc.1]
    exact Bits.extractLsb'_setSlice_self x _ _ (by omega)
  · have hne : c.val ≠ b.val := by
      intro h
      exact hc ⟨Fin.ext h, hs⟩
    exact Bits.extractLsb'_setSlice_of_disjoint x _ (by omega) (by omega)
  · exact absurd hc.2 hs
  · rfl

/-- **The strobe law**: byte `b` comes from the data where its strobe is set. -/
theorem strobedWrite_byte (x data : BitVec 32) (strb : BitVec 4) (b : Fin 4) :
    byte (strobedWrite x data strb) b = if strb.getLsbD b then byte data b else byte x b := by
  simp only [strobedWrite, byte_writeByte]
  fin_cases b <;> simp

theorem eq_iff_bytes {x y : BitVec 32} : x = y ↔ ∀ b, byte x b = byte y b :=
  ⟨fun h b => by rw [h], fun h => Bits.eq_of_lanes (w := 8) (m := 4) (by omega)
    fun i hi => h ⟨i, hi⟩⟩

/-- **Two strobes have the same effect exactly if** they differ only in bytes that the data leave
as they are. -/
theorem strobedWrite_eq_iff {x data : BitVec 32} {strb strb' : BitVec 4} :
    strobedWrite x data strb = strobedWrite x data strb' ↔
      ∀ b : Fin 4, strb.getLsbD b ≠ strb'.getLsbD b → byte data b = byte x b := by
  rw [eq_iff_bytes]
  refine forall_congr' fun b => ?_
  rw [strobedWrite_byte, strobedWrite_byte]
  cases strb.getLsbD b <;> cases strb'.getLsbD b <;> simp [eq_comm]

end SystolicSoc
