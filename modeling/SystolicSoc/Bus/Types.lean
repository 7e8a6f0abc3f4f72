import SystolicSoc.Bits.Slice

/-!
# The AXI4-Lite channels of the SoC

The channel and port structures that `soc_pkg` instantiates: 32-bit addresses and data, 4-bit
strobes.  The `prot` fields are left out, no slave of the SoC reads them.
-/

namespace SystolicSoc

/-- Write address channel. -/
structure AwChan where
  addr : BitVec 32
deriving DecidableEq, Repr

/-- Write data channel. -/
structure WChan where
  data : BitVec 32
  strb : BitVec 4
deriving DecidableEq, Repr

/-- Write response channel. -/
structure BChan where
  resp : BitVec 2
deriving DecidableEq, Repr

/-- Read address channel. -/
structure ArChan where
  addr : BitVec 32
deriving DecidableEq, Repr

/-- Read data channel. -/
structure RChan where
  data : BitVec 32
  resp : BitVec 2
deriving DecidableEq, Repr

/-- What a master drives, `soc_axi_req_t`. -/
structure Req where
  aw : AwChan
  awValid : Bool
  w : WChan
  wValid : Bool
  bReady : Bool
  ar : ArChan
  arValid : Bool
  rReady : Bool
deriving DecidableEq, Repr

/-- What a slave drives, `soc_axi_resp_t`. -/
structure Resp where
  awReady : Bool
  wReady : Bool
  b : BChan
  bValid : Bool
  arReady : Bool
  r : RChan
  rValid : Bool
deriving DecidableEq, Repr

namespace Req

/-- A request that drives no beat and takes every response. -/
def idle : Req where
  aw := ⟨0⟩
  awValid := false
  w := ⟨0, 0⟩
  wValid := false
  bReady := true
  ar := ⟨0⟩
  arValid := false
  rReady := true

/-- The address and the data of a write, in one cycle. -/
def write (addr data : BitVec 32) (strb : BitVec 4) : Req :=
  { idle with aw := ⟨addr⟩, awValid := true, w := ⟨data, strb⟩, wValid := true }

/-- The requests listed with their cycles, idle in all others. -/
def script (l : List (ℕ × Req)) (n : ℕ) : Req := (l.lookup n).getD idle

theorem forall_script {P : Req → Prop} {l : List (ℕ × Req)} (hidle : P idle)
    (hl : ∀ p ∈ l, P p.2) (n : ℕ) : P (script l n) := by
  rw [script]
  cases h : l.lookup n with
  | none => exact hidle
  | some r =>
    obtain ⟨l₁, l₂, rfl, -⟩ := List.lookup_eq_some_iff.1 h
    exact hl (n, r) (by simp)

end Req

end SystolicSoc
