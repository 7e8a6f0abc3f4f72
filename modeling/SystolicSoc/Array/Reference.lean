import SystolicSoc.Array.Basic

/-!
# The standalone reference array

The modules `pe` and `systolic_array` of `Systolic-Array-for-Matrix-Multiplication/rtl`, from which
the array of the accelerator is taken.  The reference has no `clear`; it starts from reset.

* `Reference.systolicArray` : the reference as a clocked machine.
* `systolicArray` : the array of the accelerator as one.
* `SystolicArray.toReference_next` : without `clear` the two take the same edges.
* `clear_refines_reference` : **after a clear the array of the accelerator gives the outputs of the
  reference after reset**, whatever it held before.
-/

namespace SystolicSoc

namespace Reference

/-- The module `pe` of `pe.v`. -/
@[ext] structure Pe where
  sum : BitVec 32
deriving DecidableEq, Repr

namespace Pe

/-- The output of the element. -/
def out (p : Pe) : BitVec 32 := p.sum

/-- One clock edge: `sum + a * b` in the 32 bits of the sum. -/
def next (a b : BitVec 16) (p : Pe) : Pe where
  sum := p.sum + a.setWidth 32 * b.setWidth 32

end Pe

/-- The registers of the module `systolic_array` of `systolic_array.v`. -/
@[ext] structure SystolicArray where
  shiftRegA : Fin 4 → Fin 4 → BitVec 16
  shiftRegB : Fin 4 → Fin 4 → BitVec 16
  peInst : Fin 4 → Fin 4 → Pe

namespace SystolicArray

/-- The registers while `rst_n` is low. -/
def reset : SystolicArray := ⟨fun _ _ => 0, fun _ _ => 0, fun _ _ => ⟨0⟩⟩

/-- One clock edge with `rst_n` high. -/
def next (a b : BitVec 64) (s : SystolicArray) : SystolicArray where
  shiftRegA step i :=
    if step = 0 then Bits.downSelect a (16 * i.val + 15) 16 else s.shiftRegA (step - 1) i
  shiftRegB i step :=
    if step = 0 then Bits.downSelect b (16 * i.val + 15) 16 else s.shiftRegB i (step - 1)
  peInst k l := (s.peInst k l).next (s.shiftRegA k l) (s.shiftRegB k l)

/-- The output port: element `(k, l)` drives `result[32*(4*k+l+1)-1 -: 32]`. -/
def result (s : SystolicArray) : BitVec 512 :=
  Bits.packLanes 512 (fun n => (s.peInst (Fin.ofNat 4 (n / 4)) (Fin.ofNat 4 n)).out) 16

end SystolicArray

/-- The reference array as a clocked machine, on the words `a` and `b`. -/
def systolicArray : Clocked (BitVec 64 × BitVec 64) SystolicArray where
  reset := .reset
  edge w := SystolicArray.next w.1 w.2

end Reference

/-- The inputs of the array of the accelerator. -/
structure ArrayIn where
  clear : Bool
  a : BitVec 64
  b : BitVec 64
deriving DecidableEq, Repr

/-- The array of the accelerator as a clocked machine. -/
def systolicArray : Clocked ArrayIn SystolicArray where
  reset := .cleared
  edge i := SystolicArray.next i.clear i.a i.b

namespace SystolicArray

/-- The registers of the array as those of the reference. -/
def toReference (s : SystolicArray) : Reference.SystolicArray where
  shiftRegA := s.shiftRegA
  shiftRegB := s.shiftRegB
  peInst k l := ⟨(s.peInst k l).sumQ⟩

theorem toReference_cleared : toReference cleared = Reference.SystolicArray.reset := rfl

theorem result_toReference (s : SystolicArray) : s.toReference.result = s.result := rfl

theorem toReference_next (a b : BitVec 64) (s : SystolicArray) :
    (s.next false a b).toReference = s.toReference.next a b := by
  have hlane : ∀ (x : BitVec 64) (i : Fin 4),
      Bits.downSelect x (16 * i.val + 15) 16 = lane x i := by
    intro x i
    rw [Bits.downSelect, lane, show 16 * i.val + 15 + 1 - 16 = 16 * i.val by omega]
  simp only [toReference, next, Reference.SystolicArray.next, hlane]
  rfl

end SystolicArray

/-- **Clear equals reset, and the array refines the reference.**  From any state, after `clear` has
been high in cycle `m`, the array gives for as long as `clear` is low the outputs that the reference
gives on the same words from reset. -/
theorem clear_refines_reference (s : SystolicArray) (ι : ℕ → ArrayIn) {m n : ℕ}
    (hclear : (ι m).clear = true) (hfeed : ∀ j < n, (ι (m + 1 + j)).clear = false) :
    (systolicArray.runFrom s ι (m + 1 + n)).result =
      (Reference.systolicArray.run (fun j => ((ι (m + 1 + j)).a, (ι (m + 1 + j)).b)) n).result := by
  have hsim : (systolicArray.runFrom s ι (m + 1 + n)).toReference =
      Reference.systolicArray.run (fun j => ((ι (m + 1 + j)).a, (ι (m + 1 + j)).b)) n := by
    induction n with
    | zero =>
      change (SystolicArray.next (ι m).clear (ι m).a (ι m).b _).toReference = _
      rw [hclear, SystolicArray.next_clear]
      exact SystolicArray.toReference_cleared
    | succ n ih =>
      have hsame := ih fun j hj => hfeed j (by omega)
      rw [← Nat.add_assoc, Clocked.runFrom_succ, Clocked.run_succ, ← hsame]
      change (SystolicArray.next (ι (m + 1 + n)).clear _ _ _).toReference = _
      rw [hfeed n (by omega)]
      exact SystolicArray.toReference_next _ _ _
  rw [← SystolicArray.result_toReference, hsim]

/-- An array full of old contents. -/
def usedArray : SystolicArray := ⟨fun _ _ => 7, fun _ _ => 9, fun _ _ => ⟨11⟩⟩

/-- A clear in cycle 0, and the same two words in every cycle. -/
def clearAndFeed (n : ℕ) : ArrayIn := ⟨n == 0, 0x0004000300020001, 0x0008000700060005⟩

theorem clear_refines_reference_used :
    (systolicArray.runFrom usedArray clearAndFeed (0 + 1 + 3)).result =
      (Reference.systolicArray.run (fun _ => (0x0004000300020001, 0x0008000700060005)) 3).result :=
  clear_refines_reference usedArray clearAndFeed rfl (by decide)

end SystolicSoc
