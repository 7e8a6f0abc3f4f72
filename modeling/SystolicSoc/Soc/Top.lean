import SystolicSoc.Accel.Port
import SystolicSoc.Cpu.Adapter
import SystolicSoc.Ram.Port
import SystolicSoc.Xbar.Basic
import Mathlib.Data.Fin.VecNotation

/-!
# The SoC

The module `soc_top` of `soc_top.sv`: the memory interface of the processor with its AXI adapter,
the crossbar in the configuration of `soc_pkg.sv`, the memory and the accelerator.  Which access
the processor begins, and when, is left open, so what is proved holds for all firmware.

* `SocTop.next`, `soc` : one clock edge, and the machine.
* `target` : the port of an address; `select_addrMap` : the crossbar routes to it.
* `SocTop.completed` : the access that completes in a cycle, with the data it returns.
-/

namespace SystolicSoc

/-- What is in the registers and words that the reset does not assign. -/
structure PowerUp where
  image : BitVec 14 → BitVec 32
  request : MemReq
  adapter : AxiAdapter

/-- Zero everywhere. -/
def PowerUp.blank : PowerUp := ⟨fun _ => 0, ⟨0, 0, 0⟩, ⟨false, false, false, false⟩⟩

/-- The registers of `soc_top`. -/
structure SocTop (P : XbarParts 2 1) where
  cpu : MemRegs
  adapter : AxiAdapter
  xbar : AxiLiteXbar P
  accel : AccelRegs
  ram : AxiLiteRam

/-- The address map. -/
def addrMap : List (XbarRule 2) :=
  [⟨0, 0x00000000#32, 0x00010000#32⟩, ⟨1, 0x10000000#32, 0x10000100#32⟩]

namespace SocTop

variable {P : XbarParts 2 1}

/-- The registers after reset. -/
def reset (up : PowerUp) : SocTop P where
  cpu := ⟨false, up.request⟩
  adapter := { up.adapter with ackAwvalid := false }
  xbar := .reset
  accel := .reset
  ram := .reset up.image

variable (σ : SocTop P)

/-- What the adapter asks of the crossbar. -/
def cpuReq : Req := σ.adapter.req σ.cpu

/-- The inputs of the crossbar. -/
def xbarIn : XbarIn 2 where
  slvPortsReqI := σ.cpuReq
  mstPortsRespI := ![σ.ram.respO, σ.accel.respO]
  addrMapI := addrMap
  enDefaultMstPortI := false
  defaultMstPortI := 0

/-- What the crossbar asks of the slave on port `p`. -/
def xbarReq (p : Fin 2) : Req := AxiLiteXbar.mstPortsReqO σ.xbarIn σ.xbar p

/-- What the crossbar answers to the adapter. -/
def cpuResp : Resp := AxiLiteXbar.slvPortsRespO σ.xbarIn σ.xbar

/-- `mem_ready` of the processor. -/
def memReady : Bool := AxiAdapter.memReady σ.cpuResp

/-- One clock edge, with the access `go` that the processor has next. -/
def next (go : Option MemReq) : SocTop P where
  cpu := σ.cpu.next go σ.memReady
  adapter := σ.adapter.next σ.cpu σ.cpuResp
  xbar := σ.xbar.next σ.xbarIn
  accel := σ.accel.next (σ.xbarReq 1)
  ram := σ.ram.next (σ.xbarReq 0)

/-- The access that completes in this cycle, and the data it returns. -/
def completed (_ : Option MemReq) : Option (MemReq × BitVec 32) :=
  if σ.cpu.memValid && σ.memReady then some (σ.cpu.request, AxiAdapter.memRdata σ.cpuResp)
  else none

end SocTop

/-- The SoC as a clocked machine. -/
def soc (P : XbarParts 2 1) (up : PowerUp) : Clocked (Option MemReq) (SocTop P) :=
  ⟨.reset up, fun go σ => σ.next go⟩

/-! ### The address map -/

/-- The port of an address: the memory, the accelerator, or the error slave. -/
def target (addr : BitVec 32) : Fin 3 :=
  if addr < 0x00010000#32 then 0
  else if 0x10000000#32 ≤ addr ∧ addr < 0x10000100#32 then 1
  else 2

theorem target_eq_zero {addr : BitVec 32} : target addr = 0 ↔ addr.toNat < 0x10000 := by
  have hlt : addr < 0x00010000#32 ↔ addr.toNat < 0x10000 := BitVec.lt_def
  rw [target]
  split_ifs <;> simp_all

theorem addrMap_bounded : BoundedMap addrMap := by
  intro r hr
  fin_cases hr <;> simp

/-- The crossbar routes every address to its target. -/
theorem select_addrMap {P : XbarParts 2 1} (σ : SocTop P) (addr : BitVec 32) :
    AxiLiteXbar.select P σ.xbarIn addr = target addr := by
  rw [AxiLiteXbar.select_eq _ addrMap_bounded, target]
  simp only [SocTop.xbarIn, decode, addrMap, XbarRule.maps, List.filter_cons, List.filter_nil]
  have h0 : 0x00000000#32 ≤ addr := by simp [BitVec.le_def]
  by_cases h1 : addr < 0x00010000#32
  · -- the two ranges do not overlap
    have h2 : ¬ 0x10000000#32 ≤ addr := by
      rw [BitVec.lt_def] at h1
      rw [BitVec.le_def]
      simp at h1 ⊢
      omega
    simp [h0, h1, h2]
  · by_cases h2 : 0x10000000#32 ≤ addr ∧ addr < 0x10000100#32
    · simp [h0, h1, h2]
    · have h3 : (decide (0x10000000#32 ≤ addr) && decide (addr < 0x10000100#32)) = false := by
        simpa using h2
      simp [h0, h1, h2, h3]

end SystolicSoc
