import SystolicSoc.Accel.Basic

/-!
# What a clock edge of the accelerator does

The clocked process assigns a register at several places.  This file says once, for every
register, what it holds after an edge; the later assignment of the process stands first in each
equation.  Nothing below unfolds `AccelRegs.next` again.

* `AccelRegs.writesCtrl`, `AccelRegs.starts`, `AccelRegs.writesA`, `AccelRegs.writesB` : the
  branches of the write decode.
* `AccelRegs.delays`, `AccelRegs.captures`, `AccelRegs.advances` : the branches of the controller.
* `AccelRegs.next_busyQ` and its siblings : the registers after an edge.
-/

namespace SystolicSoc

namespace AccelRegs

/-! ### The branches of the process -/

/-- A write to `CTRL` executes. -/
def writesCtrl (s : AccelRegs) : Bool := s.executes && low8 s.awAddrQ == low8 ctrlOffset

/-- A write to `CTRL` with data bit 0 set executes. -/
def starts (s : AccelRegs) : Bool := s.writesCtrl && s.wDataQ.getLsbD 0

/-- A write to a half of an `A_STREAM` word executes. -/
def writesA (s : AccelRegs) : Bool :=
  s.executes && low8 s.awAddrQ != low8 ctrlOffset && s.addrInA

/-- A write to a half of a `B_STREAM` word executes. -/
def writesB (s : AccelRegs) : Bool :=
  s.executes && low8 s.awAddrQ != low8 ctrlOffset && !s.addrInA && s.addrInB

/-- The controller runs an operation whose clear is over. -/
def running (s : AccelRegs) : Bool := s.startPendingQ == 0#2 && s.busyQ

/-- The controller waits before the feed. -/
def delays (s : AccelRegs) : Bool := s.running && s.feedDelayQ != 0#2

/-- The controller captures the result. -/
def captures (s : AccelRegs) : Bool := s.running && s.feedDelayQ == 0#2 && s.computeCycleQ == 20#5

/-- The controller feeds a word or a zero. -/
def advances (s : AccelRegs) : Bool := s.running && s.feedDelayQ == 0#2 && s.computeCycleQ != 20#5

/-- The word of the stream `m` that the controller feeds, zero after the eighth. -/
def feedWord (m : Fin 8 → BitVec 64) (s : AccelRegs) : BitVec 64 :=
  if s.computeCycleQ < 8#5 then m s.feedIdx else 0

/-! ### The statements of the process -/

variable (req : Req) (s n : AccelRegs)

theorem captureAw_eq : captureAw req s n =
    { n with
      awAddrQ := if req.awValid && s.respO.awReady then req.aw.addr else n.awAddrQ
      awPendingQ := n.awPendingQ || (req.awValid && s.respO.awReady) } := by
  unfold captureAw
  split <;> simp [*]

theorem captureW_eq : captureW req s n =
    { n with
      wDataQ := if req.wValid && s.respO.wReady then req.w.data else n.wDataQ
      wPendingQ := n.wPendingQ || (req.wValid && s.respO.wReady) } := by
  unfold captureW
  split <;> simp [*]

theorem writeCtrl_eq : writeCtrl req s n =
    { n with
      ctrlQ := strobedWrite n.ctrlQ s.wDataQ req.w.strb
      startPendingQ := if s.wDataQ.getLsbD 0 then 2#2 else n.startPendingQ
      busyQ := if s.wDataQ.getLsbD 0 then true else n.busyQ
      computeCycleQ := if s.wDataQ.getLsbD 0 then 0#5 else n.computeCycleQ
      feedDelayQ := if s.wDataQ.getLsbD 0 then 1#2 else n.feedDelayQ
      arrayAQ := if s.wDataQ.getLsbD 0 then 0#64 else n.arrayAQ
      arrayBQ := if s.wDataQ.getLsbD 0 then 0#64 else n.arrayBQ
      statusQ := if s.wDataQ.getLsbD 0 then Bits.setSlice n.statusQ 0 0#1 else n.statusQ } := by
  unfold writeCtrl
  split <;> simp [*]

theorem writeStream_eq : writeStream s n =
    { n with
      aStreamQ := if s.addrInA then
          writeHalf n.aStreamQ (s.streamIdx aStreamOffset) s.halfLo s.wDataQ
        else n.aStreamQ
      bStreamQ := if !s.addrInA && s.addrInB then
          writeHalf n.bStreamQ (s.streamIdx bStreamOffset) s.halfLo s.wDataQ
        else n.bStreamQ } := by
  unfold writeStream
  cases s.addrInA <;> cases s.addrInB <;> simp

theorem executeWrite_eq : executeWrite req s n =
    { n with
      ctrlQ := if s.writesCtrl then strobedWrite n.ctrlQ s.wDataQ req.w.strb else n.ctrlQ
      startPendingQ := if s.starts then 2#2 else n.startPendingQ
      busyQ := if s.starts then true else n.busyQ
      computeCycleQ := if s.starts then 0#5 else n.computeCycleQ
      feedDelayQ := if s.starts then 1#2 else n.feedDelayQ
      arrayAQ := if s.starts then 0#64 else n.arrayAQ
      arrayBQ := if s.starts then 0#64 else n.arrayBQ
      statusQ := if s.starts then Bits.setSlice n.statusQ 0 0#1 else n.statusQ
      aStreamQ := if s.writesA then
          writeHalf n.aStreamQ (s.streamIdx aStreamOffset) s.halfLo s.wDataQ
        else n.aStreamQ
      bStreamQ := if s.writesB then
          writeHalf n.bStreamQ (s.streamIdx bStreamOffset) s.halfLo s.wDataQ
        else n.bStreamQ
      awPendingQ := if s.executes then false else n.awPendingQ
      wPendingQ := if s.executes then false else n.wPendingQ
      bValidQ := n.bValidQ || s.executes } := by
  unfold executeWrite
  by_cases he : s.executes = true
  · by_cases hc : low8 s.awAddrQ = low8 ctrlOffset
    · simp only [writeCtrl_eq, writesCtrl, starts, writesA, writesB, he, hc]
      simp
    · simp only [writeStream_eq, writesCtrl, starts, writesA, writesB, he, hc]
      simp [hc]
  · simp [writesCtrl, starts, writesA, writesB, he]

theorem completeWrite_eq : completeWrite req s n =
    { n with bValidQ := if s.bValidQ && req.bReady then false else n.bValidQ } := by
  unfold completeWrite
  split <;> simp

theorem controller_eq : controller s n =
    { n with
      startPendingQ := if s.startPendingQ ≠ 0#2 then s.startPendingQ - 1#2 else n.startPendingQ
      feedDelayQ := if s.delays then s.feedDelayQ - 1#2 else n.feedDelayQ
      arrayAQ := if s.delays then 0#64 else if s.advances then feedWord s.aStreamQ s else n.arrayAQ
      arrayBQ := if s.delays then 0#64 else if s.advances then feedWord s.bStreamQ s else n.arrayBQ
      computeCycleQ := if s.advances then s.computeCycleQ + 1#5 else n.computeCycleQ
      resultQ := if s.captures then s.systolicResult else n.resultQ
      statusQ := if s.captures then Bits.setSlice n.statusQ 0 1#1 else n.statusQ
      busyQ := if s.captures then false else n.busyQ } := by
  unfold controller
  split_ifs with hp hb hd hc hf <;> simp_all [delays, advances, captures, running, feedWord]

theorem captureAr_eq : captureAr req s n =
    { n with
      rDataQ := if req.arValid && s.respO.arReady then s.readMux req.ar.addr else n.rDataQ
      rValidQ := n.rValidQ || (req.arValid && s.respO.arReady) } := by
  unfold captureAr
  split <;> simp [*]

theorem completeRead_eq : completeRead req s n =
    { n with rValidQ := if s.rValidQ && req.rReady then false else n.rValidQ } := by
  unfold completeRead
  split <;> simp

/-! ### The registers after an edge -/

/-- **One clock edge, register by register.** -/
theorem next_eq : next req s =
    { awAddrQ := if req.awValid && s.respO.awReady then req.aw.addr else s.awAddrQ
      wDataQ := if req.wValid && s.respO.wReady then req.w.data else s.wDataQ
      awPendingQ :=
        if s.executes then false else s.awPendingQ || (req.awValid && s.respO.awReady)
      wPendingQ := if s.executes then false else s.wPendingQ || (req.wValid && s.respO.wReady)
      bValidQ := if s.bValidQ && req.bReady then false else s.bValidQ || s.executes
      rValidQ :=
        if s.rValidQ && req.rReady then false
        else s.rValidQ || (req.arValid && s.respO.arReady)
      rDataQ := if req.arValid && s.respO.arReady then s.readMux req.ar.addr else s.rDataQ
      ctrlQ := if s.writesCtrl then strobedWrite s.ctrlQ s.wDataQ req.w.strb else s.ctrlQ
      statusQ :=
        let status := if s.starts then Bits.setSlice s.statusQ 0 0#1 else s.statusQ
        if s.captures then Bits.setSlice status 0 1#1 else status
      aStreamQ :=
        if s.writesA then writeHalf s.aStreamQ (s.streamIdx aStreamOffset) s.halfLo s.wDataQ
        else s.aStreamQ
      bStreamQ :=
        if s.writesB then writeHalf s.bStreamQ (s.streamIdx bStreamOffset) s.halfLo s.wDataQ
        else s.bStreamQ
      resultQ := if s.captures then s.systolicResult else s.resultQ
      arrayAQ :=
        if s.delays then 0#64 else if s.advances then feedWord s.aStreamQ s
        else if s.starts then 0#64 else s.arrayAQ
      arrayBQ :=
        if s.delays then 0#64 else if s.advances then feedWord s.bStreamQ s
        else if s.starts then 0#64 else s.arrayBQ
      computeCycleQ :=
        if s.advances then s.computeCycleQ + 1#5 else if s.starts then 0#5 else s.computeCycleQ
      busyQ := if s.captures then false else if s.starts then true else s.busyQ
      startPendingQ :=
        if s.startPendingQ ≠ 0#2 then s.startPendingQ - 1#2
        else if s.starts then 2#2 else s.startPendingQ
      feedDelayQ :=
        if s.delays then s.feedDelayQ - 1#2 else if s.starts then 1#2 else s.feedDelayQ
      uSystolicArray := s.uSystolicArray.next s.clearArray s.arrayAQ s.arrayBQ } := by
  simp only [next, completeRead_eq, captureAr_eq, controller_eq, completeWrite_eq,
    executeWrite_eq, captureW_eq, captureAw_eq]

end AccelRegs

end SystolicSoc
