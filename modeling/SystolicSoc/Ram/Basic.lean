import SystolicSoc.Bus.Strobe
import SystolicSoc.Clocked.Basic

/-!
# The memory

The module `axi_lite_ram` of `axi_lite_ram.sv` with its default of 16384 words, statement by
statement as in `SystolicSoc.Accel.Basic`.  The words are not reset: they hold what the firmware
image or an earlier run left in them, which `ram` takes as a parameter.

* `AxiLiteRam.respO` : the combinational outputs.
* `AxiLiteRam.next`, `ram` : one clock edge, and the machine on given contents.
-/

namespace SystolicSoc

/-- The registers of `axi_lite_ram` and its words. -/
structure AxiLiteRam where
  mem : BitVec 14 → BitVec 32
  awAddrQ : BitVec 32
  wDataQ : BitVec 32
  wStrbQ : BitVec 4
  awPendingQ : Bool
  wPendingQ : Bool
  bValidQ : Bool
  rValidQ : Bool
  rDataQ : BitVec 32

namespace AxiLiteRam

/-- The bus outputs. -/
def respO (s : AxiLiteRam) : Resp where
  awReady := !s.awPendingQ && !s.bValidQ
  wReady := !s.wPendingQ && !s.bValidQ
  b := ⟨0⟩
  bValid := s.bValidQ
  arReady := !s.rValidQ
  r := ⟨s.rDataQ, 0⟩
  rValid := s.rValidQ

/-- The reset values, with the words `mem`. -/
def reset (mem : BitVec 14 → BitVec 32) : AxiLiteRam where
  mem := mem
  awAddrQ := 0#32
  wDataQ := 0#32
  wStrbQ := 0#4
  awPendingQ := false
  wPendingQ := false
  bValidQ := false
  rValidQ := false
  rDataQ := 0#32

/-- Capture write address. -/
def captureAw (req : Req) (s n : AxiLiteRam) : AxiLiteRam :=
  if req.awValid && s.respO.awReady then
    { n with awAddrQ := req.aw.addr, awPendingQ := true }
  else n

/-- Capture write data. -/
def captureW (req : Req) (s n : AxiLiteRam) : AxiLiteRam :=
  if req.wValid && s.respO.wReady then
    { n with wDataQ := req.w.data, wStrbQ := req.w.strb, wPendingQ := true }
  else n

/-- A write is held complete and no response is owed. -/
def executes (s : AxiLiteRam) : Bool := s.awPendingQ && s.wPendingQ && !s.bValidQ

/-- The word an address selects, bits `[15:2]`. -/
def wordIdx (addr : BitVec 32) : BitVec 14 := addr.extractLsb' 2 14

/-- Execute write when AW and W are available. -/
def executeWrite (s n : AxiLiteRam) : AxiLiteRam :=
  if s.executes then
    { n with
      mem := Function.update n.mem (wordIdx s.awAddrQ)
        (strobedWrite (n.mem (wordIdx s.awAddrQ)) s.wDataQ s.wStrbQ)
      awPendingQ := false
      wPendingQ := false
      bValidQ := true }
  else n

/-- Complete write response. -/
def completeWrite (req : Req) (s n : AxiLiteRam) : AxiLiteRam :=
  if s.bValidQ && req.bReady then { n with bValidQ := false } else n

/-- Read request. -/
def captureAr (req : Req) (s n : AxiLiteRam) : AxiLiteRam :=
  if req.arValid && s.respO.arReady then
    { n with rDataQ := s.mem (wordIdx req.ar.addr), rValidQ := true }
  else n

/-- Complete read response. -/
def completeRead (req : Req) (s n : AxiLiteRam) : AxiLiteRam :=
  if s.rValidQ && req.rReady then { n with rValidQ := false } else n

/-- One clock edge. -/
def next (req : Req) (s : AxiLiteRam) : AxiLiteRam :=
  let n := captureAw req s s
  let n := captureW req s n
  let n := executeWrite s n
  let n := completeWrite req s n
  let n := captureAr req s n
  completeRead req s n

end AxiLiteRam

/-- The memory as a clocked machine, on the contents `mem`. -/
def ram (mem : BitVec 14 → BitVec 32) : Clocked Req AxiLiteRam :=
  ⟨AxiLiteRam.reset mem, AxiLiteRam.next⟩

end SystolicSoc
