import SystolicSoc.Array.Basic
import SystolicSoc.Bus.Strobe

/-!
# The accelerator registers and controller

The module `accel_regs` of `accel_regs.sv`.  Its clocked process assigns registers with
non-blocking assignments: every right-hand side reads the registers before the edge, and of two
assignments to the same register (or the same bits of one) the later one wins.  Each statement of
the process is therefore a function of the registers `s` before the edge and of the registers `n`
assigned so far, and `AccelRegs.next` applies them in the order of the source.

* `AccelRegs.respO` : the combinational outputs.
* `AccelRegs.executeWrite` : the write decode, with the start of an operation.
* `AccelRegs.controller` : the clear countdown, the feed delay, the feed, the drain and the capture.
* `AccelRegs.next`, `accel` : one clock edge, and the machine it makes with the reset values.
-/

namespace SystolicSoc

/-- The registers of `accel_regs`, and the array it instantiates. -/
structure AccelRegs where
  awAddrQ : BitVec 32
  wDataQ : BitVec 32
  awPendingQ : Bool
  wPendingQ : Bool
  bValidQ : Bool
  rValidQ : Bool
  rDataQ : BitVec 32
  ctrlQ : BitVec 32
  statusQ : BitVec 32
  aStreamQ : Fin 8 → BitVec 64
  bStreamQ : Fin 8 → BitVec 64
  resultQ : BitVec 512
  arrayAQ : BitVec 64
  arrayBQ : BitVec 64
  computeCycleQ : BitVec 5
  busyQ : Bool
  startPendingQ : BitVec 2
  feedDelayQ : BitVec 2
  uSystolicArray : SystolicArray

namespace AccelRegs

/-- The offset of `CTRL`. -/
def ctrlOffset : BitVec 32 := 0x00#32

/-- The offset of the first word of `A_STREAM`. -/
def aStreamOffset : BitVec 32 := 0x08#32

/-- The offset of the first word of `B_STREAM`. -/
def bStreamOffset : BitVec 32 := 0x48#32

/-- The offset of the first word of the result. -/
def res0Offset : BitVec 32 := 0x88#32

/-- Bits `[7:0]` of an address or an offset. -/
def low8 (addr : BitVec 32) : BitVec 8 := addr.extractLsb' 0 8

/-- `addr >= base[7:0] && addr < (base[7:0] + size)`, the second comparison in 32 bits. -/
def inWindow (addr : BitVec 8) (base size : BitVec 32) : Bool :=
  decide (low8 base ≤ addr) && decide (addr.setWidth 32 < (low8 base).setWidth 32 + size)

/-! ### Outputs -/

/-- The array is cleared while a start is pending. -/
def clearArray (s : AccelRegs) : Bool := s.startPendingQ != 0#2

/-- The output of the array. -/
def systolicResult (s : AccelRegs) : BitVec 512 := s.uSystolicArray.result

/-- The bus outputs. -/
def respO (s : AccelRegs) : Resp where
  awReady := !s.awPendingQ && !s.bValidQ
  wReady := !s.wPendingQ && !s.bValidQ
  b := ⟨0⟩
  bValid := s.bValidQ
  arReady := !s.rValidQ
  r := ⟨s.rDataQ, 0⟩
  rValid := s.rValidQ

/-- Bit 0 of `CTRL`. -/
def startO (s : AccelRegs) : Bool := s.ctrlQ.getLsbD 0

/-- `CTRL`. -/
def debugValueO (s : AccelRegs) : BitVec 32 := s.ctrlQ

/-! ### The clocked process, statement by statement -/

/-- The reset values. -/
def reset : AccelRegs where
  awAddrQ := 0#32
  wDataQ := 0#32
  awPendingQ := false
  wPendingQ := false
  bValidQ := false
  rValidQ := false
  rDataQ := 0#32
  ctrlQ := 0#32
  statusQ := 0#32
  aStreamQ _ := 0#64
  bStreamQ _ := 0#64
  resultQ := 0#512
  arrayAQ := 0#64
  arrayBQ := 0#64
  computeCycleQ := 0#5
  busyQ := false
  startPendingQ := 0#2
  feedDelayQ := 0#2
  uSystolicArray := .cleared

/-- Accept a write address. -/
def captureAw (req : Req) (s n : AccelRegs) : AccelRegs :=
  if req.awValid && s.respO.awReady then
    { n with awAddrQ := req.aw.addr, awPendingQ := true }
  else n

/-- Accept a write data word.  The strobes of the beat are not kept. -/
def captureW (req : Req) (s n : AccelRegs) : AccelRegs :=
  if req.wValid && s.respO.wReady then
    { n with wDataQ := req.w.data, wPendingQ := true }
  else n

/-- A write is held complete and no response is owed. -/
def executes (s : AccelRegs) : Bool := s.awPendingQ && s.wPendingQ && !s.bValidQ

/-- The `CTRL` branch of the write decode.  The strobes are those on the bus in this cycle. -/
def writeCtrl (req : Req) (s n : AccelRegs) : AccelRegs :=
  let n := { n with ctrlQ := strobedWrite n.ctrlQ s.wDataQ req.w.strb }
  if s.wDataQ.getLsbD 0 then
    { n with
      startPendingQ := 2#2
      busyQ := true
      computeCycleQ := 0#5
      feedDelayQ := 1#2
      arrayAQ := 0#64
      arrayBQ := 0#64
      statusQ := Bits.setSlice n.statusQ 0 0#1 }
  else n

/-- `stream[idx][lo +: 32] <= data`; an index outside the stream assigns nothing. -/
def writeHalf (stream : Fin 8 → BitVec 64) (idx : BitVec 8) (lo : ℕ) (data : BitVec 32) :
    Fin 8 → BitVec 64 :=
  fun i => if idx.toNat = i.val then Bits.setSlice (stream i) lo data else stream i

/-- The address held is that of a half of an `A_STREAM` word. -/
def addrInA (s : AccelRegs) : Bool :=
  inWindow (low8 s.awAddrQ) aStreamOffset (8 * 8) && s.awAddrQ.extractLsb' 0 2 == 0#2

/-- The address held is that of a half of a `B_STREAM` word. -/
def addrInB (s : AccelRegs) : Bool :=
  inWindow (low8 s.awAddrQ) bStreamOffset (8 * 8) && s.awAddrQ.extractLsb' 0 2 == 0#2

/-- The low bit of the half selected by bit 2 of the address held. -/
def halfLo (s : AccelRegs) : ℕ := if s.awAddrQ.getLsbD 2 then 32 else 0

/-- The index of the address held in the stream at `base`. -/
def streamIdx (s : AccelRegs) (base : BitVec 32) : BitVec 8 := (low8 s.awAddrQ - low8 base) >>> 3

/-- The `default` branch of the write decode. -/
def writeStream (s n : AccelRegs) : AccelRegs :=
  if s.addrInA then
    { n with aStreamQ := writeHalf n.aStreamQ (s.streamIdx aStreamOffset) s.halfLo s.wDataQ }
  else if s.addrInB then
    { n with bStreamQ := writeHalf n.bStreamQ (s.streamIdx bStreamOffset) s.halfLo s.wDataQ }
  else n

/-- Execute the write held. -/
def executeWrite (req : Req) (s n : AccelRegs) : AccelRegs :=
  if s.executes then
    let n := if low8 s.awAddrQ = low8 ctrlOffset then writeCtrl req s n else writeStream s n
    { n with awPendingQ := false, wPendingQ := false, bValidQ := true }
  else n

/-- Hand over the write response. -/
def completeWrite (req : Req) (s n : AccelRegs) : AccelRegs :=
  if s.bValidQ && req.bReady then { n with bValidQ := false } else n

/-- The index `compute_cycle_q[2:0]`. -/
def feedIdx (s : AccelRegs) : Fin 8 := (s.computeCycleQ.extractLsb' 0 3).toFin

/-- The controller. -/
def controller (s n : AccelRegs) : AccelRegs :=
  if s.startPendingQ ≠ 0#2 then
    { n with startPendingQ := s.startPendingQ - 1#2 }
  else if s.busyQ then
    if s.feedDelayQ ≠ 0#2 then
      { n with feedDelayQ := s.feedDelayQ - 1#2, arrayAQ := 0#64, arrayBQ := 0#64 }
    else if s.computeCycleQ = 20#5 then
      { n with
        resultQ := s.systolicResult
        statusQ := Bits.setSlice n.statusQ 0 1#1
        busyQ := false }
    else if s.computeCycleQ < 8#5 then
      { n with
        arrayAQ := s.aStreamQ s.feedIdx
        arrayBQ := s.bStreamQ s.feedIdx
        computeCycleQ := s.computeCycleQ + 1#5 }
    else
      { n with arrayAQ := 0#64, arrayBQ := 0#64, computeCycleQ := s.computeCycleQ + 1#5 }
  else n

/-- What a read of `addr` returns. -/
def readMux (s : AccelRegs) (addr : BitVec 32) : BitVec 32 :=
  if low8 addr = 0x00#8 then s.ctrlQ
  else if low8 addr = 0x04#8 then s.statusQ
  else if inWindow (low8 addr) res0Offset (16 * 4) then
    let wordIdx := ((low8 addr).setWidth 32 - (low8 res0Offset).setWidth 32) >>> 2
    s.resultQ.extractLsb' (32 * wordIdx.toNat) 32
  else 0#32

/-- Accept a read address. -/
def captureAr (req : Req) (s n : AccelRegs) : AccelRegs :=
  if req.arValid && s.respO.arReady then
    { n with rDataQ := s.readMux req.ar.addr, rValidQ := true }
  else n

/-- Hand over the read response. -/
def completeRead (req : Req) (s n : AccelRegs) : AccelRegs :=
  if s.rValidQ && req.rReady then { n with rValidQ := false } else n

/-- One clock edge of the module and of the array it instantiates. -/
def next (req : Req) (s : AccelRegs) : AccelRegs :=
  let n := captureAw req s s
  let n := captureW req s n
  let n := executeWrite req s n
  let n := completeWrite req s n
  let n := controller s n
  let n := captureAr req s n
  let n := completeRead req s n
  { n with uSystolicArray := s.uSystolicArray.next s.clearArray s.arrayAQ s.arrayBQ }

/-- Word `4 k + l` of the captured result. -/
def resultWord (s : AccelRegs) (k l : Fin 4) : BitVec 32 :=
  s.resultQ.extractLsb' (32 * (4 * k.val + l.val)) 32

/-- The done bit `status_q[0]`. -/
def done (s : AccelRegs) : Bool := s.statusQ.getLsbD 0

end AccelRegs

/-- The accelerator as a clocked machine. -/
def accel : Clocked Req AccelRegs := ⟨AccelRegs.reset, AccelRegs.next⟩

end SystolicSoc
