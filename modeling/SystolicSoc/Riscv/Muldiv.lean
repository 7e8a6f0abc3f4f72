import Mathlib.Algebra.Group.Int.Defs

/-!
# Multiplication and division of RISC-V

The values of the instructions of the `M` extension for 32-bit registers.

* `MulOp.eval` : the low or the high word of a product.
* `DivOp.eval` : quotients round towards zero; a division by zero gives the quotient with all bits
  set, and the dividend as its remainder.
-/

namespace SystolicSoc

namespace Riscv

/-- The number that a register holds. -/
def operand (signed : Bool) (x : BitVec 32) : ℤ := if signed then x.toInt else x.toNat

/-- The multiplications. -/
inductive MulOp
  | mul
  | mulh
  | mulhsu
  | mulhu
deriving DecidableEq, Repr

namespace MulOp

/-- The first operand is signed. -/
def rs1Signed : MulOp → Bool
  | mul | mulhu => false
  | mulh | mulhsu => true

/-- The second operand is signed. -/
def rs2Signed : MulOp → Bool
  | mul | mulhsu | mulhu => false
  | mulh => true

/-- The result is the high word. -/
def high : MulOp → Bool
  | mul => false
  | mulh | mulhsu | mulhu => true

/-- The result of a multiplication. -/
def eval (op : MulOp) (a b : BitVec 32) : BitVec 32 :=
  let product := operand op.rs1Signed a * operand op.rs2Signed b
  BitVec.ofInt 32 (if op.high then product / 2 ^ 32 else product)

end MulOp

/-- The multiplication of a `funct3` field. -/
def mulOpOf (funct3 : BitVec 3) : Option MulOp :=
  if funct3 = 0b000#3 then some .mul
  else if funct3 = 0b001#3 then some .mulh
  else if funct3 = 0b010#3 then some .mulhsu
  else if funct3 = 0b011#3 then some .mulhu
  else none

/-- The divisions. -/
inductive DivOp
  | div
  | divu
  | rem
  | remu
deriving DecidableEq, Repr

namespace DivOp

/-- The operands are signed. -/
def signed : DivOp → Bool
  | div | rem => true
  | divu | remu => false

/-- The result is the quotient. -/
def quotient : DivOp → Bool
  | div | divu => true
  | rem | remu => false

/-- The result of a division. -/
def eval (op : DivOp) (a b : BitVec 32) : BitVec 32 :=
  let dividend := operand op.signed a
  let divisor := operand op.signed b
  BitVec.ofInt 32 (
    if op.quotient then (if divisor = 0 then -1 else dividend.tdiv divisor)
    else dividend.tmod divisor)

end DivOp

/-- The division of a `funct3` field. -/
def divOpOf (funct3 : BitVec 3) : Option DivOp :=
  if funct3 = 0b100#3 then some .div
  else if funct3 = 0b101#3 then some .divu
  else if funct3 = 0b110#3 then some .rem
  else if funct3 = 0b111#3 then some .remu
  else none

end Riscv

end SystolicSoc
