import SystolicSoc.Accel.Registers
import SystolicSoc.Clocked.History

/-!
# The stream storage of the accelerator

Seen from the bus, the stream words are a map from register offsets to 32-bit words: a half of a
stream word holds the data of the last executed write to its offset, whatever else was written and
whatever the controller did.

* `storedWord ws off` : what the writes `ws` left at the offset `off`.
* `WriteReg.get_run` : the halves of the streams hold the words stored.
* `storage_refines` : **the streams are that map, and writes never reach the result.**
-/

namespace SystolicSoc

open AccelRegs

/-- The data of the last of the writes `ws` whose address bits `[7:0]` are `off`, or zero. -/
def storedWord (ws : List (BitVec 32 × BitVec 32)) (off : BitVec 8) : BitVec 32 :=
  lastHit (fun w => if low8 w.1 = off then some w.2 else none) 0#32 ws

theorem WriteReg.get_next_of_full {r : WriteReg} (hr : r ≠ .ctrl) (req : Req) (s : AccelRegs) :
    r.get (next req s) = (((accelSlave.executed req s).bind fun w =>
      if low8 w.1 = r.offset then some w.2 else none)).getD (r.get s) := by
  have hexec : accelSlave.executed req s =
      if s.executes then some (s.awAddrQ, s.wDataQ) else none := rfl
  rw [get_next, hexec, r.strbUsed_of_ne_ctrl hr, strobedWrite_full]
  by_cases he : s.executes = true
  · by_cases hx : low8 s.awAddrQ = r.offset <;> simp [he, hx]
  · simp [he]

theorem WriteReg.get_run {r : WriteReg} (hr : r ≠ .ctrl) (ι : ℕ → Req) (n : ℕ) :
    r.get (accel.run ι n) =
      storedWord (accelSlave.history accelSlave.executed ι n) r.offset := by
  have hreset : r.get accel.reset = 0#32 := by
    cases r <;> simp [WriteReg.get, accel, AccelRegs.reset]
  rw [storedWord, ← hreset]
  exact Clocked.runFrom_eq_lastHit (A := accel) (f := r.get) (get_next_of_full hr) _ ι n

/-- **The stream storage refines a map from offsets to words**, over all runs: the lower and the
upper half of `a_stream_q[i]` hold what was last written to `0x08 + 8 i` and `0x08 + 8 i + 4`,
those of `b_stream_q[i]` what was last written to `0x48 + 8 i` and `0x48 + 8 i + 4`.  The result
changes in capture steps alone, to the output of the array. -/
theorem storage_refines (ι : ℕ → Req) (n : ℕ) :
    (∀ (i : Fin 8) (upper : Bool),
      ((accel.run ι n).aStreamQ i).extractLsb' (32 * upper.toNat) 32 =
        storedWord (accelSlave.history accelSlave.executed ι n)
          (BitVec.ofNat 8 (0x08 + 8 * i.val + 4 * upper.toNat)) ∧
      ((accel.run ι n).bStreamQ i).extractLsb' (32 * upper.toNat) 32 =
        storedWord (accelSlave.history accelSlave.executed ι n)
          (BitVec.ofNat 8 (0x48 + 8 * i.val + 4 * upper.toNat))) ∧
    (accel.run ι (n + 1)).resultQ =
      if (accel.run ι n).captures then (accel.run ι n).systolicResult
      else (accel.run ι n).resultQ := by
  refine ⟨fun i upper => ⟨?_, ?_⟩, ?_⟩
  · exact WriteReg.get_run (r := .aHalf i upper) (by simp) ι n
  · exact WriteReg.get_run (r := .bHalf i upper) (by simp) ι n
  · rw [Clocked.run_succ]
    change (next (ι n) (accel.run ι n)).resultQ = _
    rw [next_eq]

end SystolicSoc
