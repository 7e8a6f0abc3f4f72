import SystolicSoc.Ram.Basic
import SystolicSoc.Bus.Slave

/-!
# The bus ports of the memory

* `AxiLiteRam.next_eq` : the registers after an edge.
* `ramSlave` : the memory as a bus slave, which keeps the strobes with the data.
-/

namespace SystolicSoc

namespace AxiLiteRam

variable {req : Req} {s n : AxiLiteRam}

/-! ### The statements -/

theorem captureAw_eq : captureAw req s n =
    { n with
      awAddrQ := if req.awValid && s.respO.awReady then req.aw.addr else n.awAddrQ
      awPendingQ := n.awPendingQ || (req.awValid && s.respO.awReady) } := by
  unfold captureAw
  split <;> simp [*]

theorem captureW_eq : captureW req s n =
    { n with
      wDataQ := if req.wValid && s.respO.wReady then req.w.data else n.wDataQ
      wStrbQ := if req.wValid && s.respO.wReady then req.w.strb else n.wStrbQ
      wPendingQ := n.wPendingQ || (req.wValid && s.respO.wReady) } := by
  unfold captureW
  split <;> simp [*]

theorem executeWrite_eq : executeWrite s n =
    { n with
      mem := if s.executes then
          Function.update n.mem (wordIdx s.awAddrQ)
            (strobedWrite (n.mem (wordIdx s.awAddrQ)) s.wDataQ s.wStrbQ)
        else n.mem
      awPendingQ := if s.executes then false else n.awPendingQ
      wPendingQ := if s.executes then false else n.wPendingQ
      bValidQ := n.bValidQ || s.executes } := by
  unfold executeWrite
  split <;> simp [*]

theorem completeWrite_eq : completeWrite req s n =
    { n with bValidQ := if s.bValidQ && req.bReady then false else n.bValidQ } := by
  unfold completeWrite
  split <;> simp

theorem captureAr_eq : captureAr req s n =
    { n with
      rDataQ := if req.arValid && s.respO.arReady then s.mem (wordIdx req.ar.addr) else n.rDataQ
      rValidQ := n.rValidQ || (req.arValid && s.respO.arReady) } := by
  unfold captureAr
  split <;> simp [*]

theorem completeRead_eq : completeRead req s n =
    { n with rValidQ := if s.rValidQ && req.rReady then false else n.rValidQ } := by
  unfold completeRead
  split <;> simp

/-- **One clock edge, register by register.** -/
theorem next_eq : next req s =
    { mem := if s.executes then
          Function.update s.mem (wordIdx s.awAddrQ)
            (strobedWrite (s.mem (wordIdx s.awAddrQ)) s.wDataQ s.wStrbQ)
        else s.mem
      awAddrQ := if req.awValid && s.respO.awReady then req.aw.addr else s.awAddrQ
      wDataQ := if req.wValid && s.respO.wReady then req.w.data else s.wDataQ
      wStrbQ := if req.wValid && s.respO.wReady then req.w.strb else s.wStrbQ
      awPendingQ :=
        if s.executes then false else s.awPendingQ || (req.awValid && s.respO.awReady)
      wPendingQ := if s.executes then false else s.wPendingQ || (req.wValid && s.respO.wReady)
      bValidQ := if s.bValidQ && req.bReady then false else s.bValidQ || s.executes
      rValidQ :=
        if s.rValidQ && req.rReady then false
        else s.rValidQ || (req.arValid && s.respO.arReady)
      rDataQ :=
        if req.arValid && s.respO.arReady then s.mem (wordIdx req.ar.addr)
        else s.rDataQ } := by
  simp only [next, completeRead_eq, captureAr_eq, completeWrite_eq, executeWrite_eq, captureW_eq,
    captureAw_eq]

/-! ### The ports -/

/-- The write registers. -/
def writePort (s : AxiLiteRam) : WritePort (BitVec 32) WChan :=
  ⟨s.awPendingQ, s.wPendingQ, s.bValidQ, s.awAddrQ, ⟨s.wDataQ, s.wStrbQ⟩⟩

/-- The read registers. -/
def readPort (s : AxiLiteRam) : ReadPort (BitVec 32) := ⟨s.rValidQ, s.rDataQ⟩

theorem writePort_next (req : Req) (s : AxiLiteRam) : (next req s).writePort =
    WritePort.next ⟨req.awValid, req.aw.addr, req.wValid, req.w, req.bReady⟩ s.writePort := by
  -- data and strobes are captured together
  have hw : (⟨if req.wValid && s.respO.wReady then req.w.data else s.wDataQ,
      if req.wValid && s.respO.wReady then req.w.strb else s.wStrbQ⟩ : WChan) =
      if req.wValid && s.respO.wReady then req.w else ⟨s.wDataQ, s.wStrbQ⟩ := by
    split_ifs <;> rfl
  rw [next_eq, writePort, hw]
  rfl

theorem readPort_next (req : Req) (s : AxiLiteRam) : (next req s).readPort =
    ReadPort.next ⟨req.arValid, s.mem (wordIdx req.ar.addr), req.rReady⟩ s.readPort := by
  rw [next_eq]
  rfl

end AxiLiteRam

/-- The memory as a bus slave. -/
def ramSlave (mem : BitVec 14 → BitVec 32) : Slave AxiLiteRam WChan where
  toClocked := ram mem
  respO := AxiLiteRam.respO
  keep := id
  answer req s := s.mem (AxiLiteRam.wordIdx req.ar.addr)
  writePort := AxiLiteRam.writePort
  readPort := AxiLiteRam.readPort
  awReady_eq _ := rfl
  wReady_eq _ := rfl
  bValid_eq _ := rfl
  arReady_eq _ := rfl
  rValid_eq _ := rfl
  rData_eq _ := rfl
  writePort_reset := ⟨rfl, rfl, rfl⟩
  readPort_reset := rfl
  writePort_edge := AxiLiteRam.writePort_next
  readPort_edge := AxiLiteRam.readPort_next

end SystolicSoc
