import SystolicSoc.Accel.Step
import SystolicSoc.Bus.Slave

/-!
# The bus ports of the accelerator

The write registers of `accel_regs` step as the write port of `SystolicSoc.Clocked.Port` does, and
the read registers as its read port, whose answer is `AccelRegs.readMux`.

* `AccelRegs.writePort_next`, `AccelRegs.readPort_next` : the projections.
* `accelSlave` : the accelerator as a bus slave.  Of a data beat it keeps the data alone.
-/

namespace SystolicSoc

namespace AccelRegs

/-- The write registers. -/
def writePort (s : AccelRegs) : WritePort (BitVec 32) (BitVec 32) :=
  ⟨s.awPendingQ, s.wPendingQ, s.bValidQ, s.awAddrQ, s.wDataQ⟩

/-- The read registers. -/
def readPort (s : AccelRegs) : ReadPort (BitVec 32) := ⟨s.rValidQ, s.rDataQ⟩

theorem writePort_next (req : Req) (s : AccelRegs) : (next req s).writePort =
    WritePort.next ⟨req.awValid, req.aw.addr, req.wValid, req.w.data, req.bReady⟩
      s.writePort := by
  rw [next_eq]
  rfl

theorem writePort_idle_next {s : AccelRegs} (h : s.writePort.Idle) (req : Req) :
    (next req s).writePort.Idle := by
  rw [writePort_next]
  exact WritePort.idle_next h _

theorem readPort_next (req : Req) (s : AccelRegs) : (next req s).readPort =
    ReadPort.next ⟨req.arValid, s.readMux req.ar.addr, req.rReady⟩ s.readPort := by
  rw [next_eq]
  rfl

/-- What holds of the read data owed and of what a read returns now holds of the data owed next. -/
theorem rDataQ_next {req : Req} {s : AccelRegs} {P : BitVec 32 → Prop}
    (hp : s.rValidQ = true → P s.rDataQ)
    (hi : req.arValid = true → P (s.readMux req.ar.addr))
    (h : (next req s).rValidQ = true) : P (next req s).rDataQ := by
  have hport := readPort_next req s
  have hv : (next req s).readPort.rValid = true := h
  have hdata := ReadPort.data_next (p := s.readPort) (P := P) hp hi (by rw [← hport]; exact hv)
  rw [← hport] at hdata
  exact hdata

end AccelRegs

/-- The accelerator as a bus slave. -/
def accelSlave : Slave AccelRegs (BitVec 32) where
  toClocked := accel
  respO := AccelRegs.respO
  keep := WChan.data
  answer req s := s.readMux req.ar.addr
  writePort := AccelRegs.writePort
  readPort := AccelRegs.readPort
  awReady_eq _ := rfl
  wReady_eq _ := rfl
  bValid_eq _ := rfl
  arReady_eq _ := rfl
  rValid_eq _ := rfl
  rData_eq _ := rfl
  writePort_reset := ⟨rfl, rfl, rfl⟩
  readPort_reset := rfl
  writePort_edge := AccelRegs.writePort_next
  readPort_edge := AccelRegs.readPort_next

end SystolicSoc
