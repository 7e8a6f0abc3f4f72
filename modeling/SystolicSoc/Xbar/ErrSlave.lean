import SystolicSoc.Clocked.Fifo
import Mathlib.Data.BitVec

/-!
# The error slave

The module `axi_err_slv` of `axi_err_slv.sv` without atomic operations (`ATOPs = 0`), which the
crossbar answers with where no address rule matches.  It takes every AXI4 write and read and answers
with an error: a write with one response, a read burst with as many data beats as it asks for.  Its
three FIFOs and its counter are any implementations.

* `UpDownCounter` : the counter that the module instantiates.
* `AxiErrSlv.respO`, `AxiErrSlv.next`, `axiErrSlv` : the outputs, one clock edge, and the machine.
* `ErrAnswers`, `errSlave_answers` : **every write gets one error response and every read burst
  exactly the beats it asks for, the last one marked, in the order of the requests**, which are
  accepted while there is room for them.
-/

namespace SystolicSoc

/-- A counter of `width` bits. -/
structure UpDownCounter (width : ℕ) where
  State : Type
  reset : State
  qO : State → BitVec width
  next : (clear en load down : Bool) → (d : BitVec width) → State → State
  qO_next : ∀ clear en load down d s, qO (next clear en load down d s) =
    if clear then 0
    else if load then d
    else if en then (if down then qO s - 1 else qO s + 1)
    else qO s

/-- The counter whose register is its value. -/
def valueCounter (width : ℕ) : UpDownCounter width where
  State := BitVec width
  reset := 0
  qO := id
  next clear en load down d q :=
    if clear then 0 else if load then d else if en then (if down then q - 1 else q + 1) else q
  qO_next _ _ _ _ _ _ := rfl

/-- What the error slave stores of a read burst, `r_data_t`. -/
structure RData where
  id : BitVec 1
  len : BitVec 8
deriving DecidableEq, Repr, Inhabited

/-- The fields of an AXI4 request that the error slave reads. -/
structure ErrReq where
  awId : BitVec 1
  awValid : Bool
  wLast : Bool
  wValid : Bool
  bReady : Bool
  ar : RData
  arValid : Bool
  rReady : Bool
deriving DecidableEq, Repr

/-- A write response of AXI4. -/
structure FullBChan where
  id : BitVec 1
  resp : BitVec 2
deriving DecidableEq, Repr

/-- A read data beat of AXI4. -/
structure FullRChan where
  id : BitVec 1
  data : BitVec 32
  resp : BitVec 2
  last : Bool
deriving DecidableEq, Repr

/-- An AXI4 response. -/
structure ErrResp where
  awReady : Bool
  wReady : Bool
  b : FullBChan
  bValid : Bool
  arReady : Bool
  r : FullRChan
  rValid : Bool
deriving DecidableEq, Repr

/-- The parts that the error slave instantiates. -/
structure ErrParts (maxTrans : ℕ) where
  wFifo : FallThroughFifo (BitVec 1) maxTrans
  bFifo : Fifo (BitVec 1) 2
  rFifo : Fifo RData maxTrans
  counter : UpDownCounter 8

variable {maxTrans : ℕ}

/-- The registers of `axi_err_slv`. -/
structure AxiErrSlv (P : ErrParts maxTrans) where
  iWFifo : P.wFifo.State
  iBFifo : P.bFifo.State
  iRFifo : P.rFifo.State
  iRCounter : P.counter.State
  rBusyQ : Bool

/-- `axi_pkg::RESP_DECERR`. -/
def respDecerr : BitVec 2 := 0b11#2

/-- The parameter `RespData`, truncated to the data width. -/
def respData : BitVec 32 := (0xCA11AB1EBADCAB1E#64).setWidth 32

namespace AxiErrSlv

variable {P : ErrParts maxTrans}

/-- The registers after reset. -/
def reset : AxiErrSlv P :=
  ⟨P.wFifo.reset, P.bFifo.reset, P.rFifo.reset, P.counter.reset, false⟩

variable (req : ErrReq) (s : AxiErrSlv P)

/-! ### Write transactions -/

/-- A write is accepted: its id is stored until its data have come. -/
def wFifoPush : Bool := req.awValid && !P.wFifo.full s.iWFifo

/-- No write awaits its data, not even one accepted in this cycle. -/
def wFifoEmpty : Bool := P.wFifo.empty (wFifoPush req s) s.iWFifo

/-- The id of the write whose data are taken. -/
def wFifoData : BitVec 1 := P.wFifo.dataO (wFifoPush req s) req.awId s.iWFifo

/-- The write data are eaten. -/
def wReady : Bool := !wFifoEmpty req s && !P.bFifo.full s.iBFifo

/-- The last beat of a write is taken: its id moves from the W to the B FIFO. -/
def wFifoPop : Bool := wReady req s && (req.wValid && req.wLast)

/-- A write response is owed. -/
def bValid : Bool := !P.bFifo.empty s.iBFifo

/-- A write response is taken. -/
def bFifoPop : Bool := if s.bValid then req.bReady else false

/-! ### Read transactions -/

/-- A read burst is accepted. -/
def rFifoPush : Bool := req.arValid && !P.rFifo.full s.iRFifo

/-- The beats of the burst that come after the one on the R channel. -/
def rCurrentBeat : BitVec 8 := P.counter.qO s.iRCounter

/-- What the process of the R channel assigns. -/
structure RControl where
  rBusyD : Bool
  rBusyLoad : Bool
  rFifoPop : Bool
  rCntClear : Bool
  rCntEn : Bool
  rCntLoad : Bool
  rLast : Bool
  rValid : Bool

/-- The process of the R channel: it starts a burst, and counts its beats down. -/
def rControl : RControl :=
  -- default assignments
  let c : RControl :=
    { rBusyD := s.rBusyQ
      rBusyLoad := false
      rFifoPop := false
      rCntClear := false
      rCntEn := false
      rCntLoad := false
      rLast := false
      rValid := false }
  if s.rBusyQ then
    let c := { c with rValid := true, rLast := s.rCurrentBeat == 0 }
    if req.rReady then
      let c := { c with rCntEn := true }
      if s.rCurrentBeat == 0 then
        { c with rBusyD := false, rBusyLoad := true, rCntClear := true, rFifoPop := true }
      else c
    else c
  -- when not busy and fifo not empty, start counter err gen
  else if !P.rFifo.empty s.iRFifo then
    { c with rBusyD := true, rBusyLoad := true, rCntLoad := true }
  else c

/-! ### Outputs and registers -/

/-- The outputs. -/
def respO : ErrResp where
  awReady := !P.wFifo.full s.iWFifo
  wReady := wReady req s
  b := ⟨P.bFifo.dataO s.iBFifo, respDecerr⟩
  bValid := s.bValid
  arReady := !P.rFifo.full s.iRFifo
  r := ⟨(P.rFifo.dataO s.iRFifo).id, respData, respDecerr, (rControl req s).rLast⟩
  rValid := (rControl req s).rValid

/-- One clock edge. -/
def next : AxiErrSlv P where
  iWFifo := P.wFifo.next (wFifoPush req s) req.awId (wFifoPop req s) s.iWFifo
  iBFifo := P.bFifo.next (wFifoPop req s) (wFifoData req s) (bFifoPop req s) s.iBFifo
  iRFifo := P.rFifo.next (rFifoPush req s) req.ar (rControl req s).rFifoPop s.iRFifo
  iRCounter := P.counter.next (rControl req s).rCntClear (rControl req s).rCntEn
    (rControl req s).rCntLoad true (P.rFifo.dataO s.iRFifo).len s.iRCounter
  rBusyQ := if (rControl req s).rBusyLoad then (rControl req s).rBusyD else s.rBusyQ

end AxiErrSlv

/-- The error slave as a clocked machine. -/
def axiErrSlv (P : ErrParts maxTrans) : Clocked ErrReq (AxiErrSlv P) := ⟨.reset, AxiErrSlv.next⟩

namespace AxiErrSlv

variable {P : ErrParts maxTrans}

/-! ### Events -/

section Events

variable (req : ErrReq) (s : AxiErrSlv P)

/-- The id of the write accepted in this cycle. -/
def awBeat : Option (BitVec 1) :=
  if req.awValid && (respO req s).awReady then some req.awId else none

/-- The id of the write whose last data beat is taken in this cycle. -/
def wLastBeat : Option (BitVec 1) :=
  if req.wValid && req.wLast && (respO req s).wReady then some (wFifoData req s) else none

/-- The write response handed over in this cycle. -/
def bBeat : Option FullBChan :=
  if (respO req s).bValid && req.bReady then some (respO req s).b else none

/-- The read burst accepted in this cycle. -/
def arBeat : Option RData := if req.arValid && (respO req s).arReady then some req.ar else none

/-- The read data beat handed over in this cycle. -/
def rBeat : Option FullRChan :=
  if (respO req s).rValid && req.rReady then some (respO req s).r else none

end Events

/-- The error response to a write. -/
def errB (id : BitVec 1) : FullBChan := ⟨id, respDecerr⟩

/-- The data beats of a read burst of which `c` are to come before the last one. -/
def errBeats (id : BitVec 1) (c : ℕ) : List FullRChan :=
  List.replicate c ⟨id, respData, respDecerr, false⟩ ++ [⟨id, respData, respDecerr, true⟩]

/-- The answer to a read burst: `len + 1` beats. -/
def errBurst (a : RData) : List FullRChan := errBeats a.id a.len.toNat

/-! ### One cycle -/

variable {req : ErrReq} {s : AxiErrSlv P}

theorem wLastBeat_eq (req : ErrReq) (s : AxiErrSlv P) :
    wLastBeat req s = if wFifoPop req s then some (wFifoData req s) else none := by
  rw [wLastBeat, wFifoPop, Bool.and_comm]
  rfl

theorem wFifo_balance (req : ErrReq) (s : AxiErrSlv P) :
    P.wFifo.contents s.iWFifo ++ (awBeat req s).toList =
      (wLastBeat req s).toList ++ P.wFifo.contents (next req s).iWFifo := by
  have hbal := P.wFifo.balance (wFifoPush req s) req.awId (wFifoPop req s) (s := s.iWFifo)
    (fun h => by simp_all [wFifoPush])
    (fun h => by simp_all [wFifoPop, wReady, wFifoEmpty])
  have haw : (awBeat req s).toList = if wFifoPush req s then [req.awId] else [] := by
    rw [awBeat, respO, ← wFifoPush]
    split_ifs <;> rfl
  have hw : (wLastBeat req s).toList =
      if wFifoPop req s then [P.wFifo.dataO (wFifoPush req s) req.awId s.iWFifo] else [] := by
    rw [wLastBeat_eq]
    split_ifs <;> rfl
  rw [haw, hw]
  exact hbal

theorem bFifo_balance (req : ErrReq) (s : AxiErrSlv P) :
    (P.bFifo.contents s.iBFifo).map errB ++ (wLastBeat req s).toList.flatMap (fun id => [errB id]) =
      (bBeat req s).toList ++ (P.bFifo.contents (next req s).iBFifo).map errB := by
  have hpush : P.bFifo.pushed (wFifoPop req s) (wFifoData req s) s.iBFifo = wLastBeat req s := by
    rw [wLastBeat_eq]
    refine Fifo.pushed_eq ?_ _
    simp_all [wFifoPop, wReady]
  have hpop : (P.bFifo.popped (bFifoPop req s) s.iBFifo).map errB = bBeat req s := by
    rw [Fifo.popped_eq (by simp_all [bFifoPop, bValid]), bBeat, respO, bFifoPop]
    cases s.bValid <;> cases req.bReady <;> rfl
  have hbal := congrArg (List.map errB)
    (P.bFifo.balance (wFifoPop req s) (wFifoData req s) (bFifoPop req s) s.iBFifo)
  rw [List.map_append, List.map_append, hpush, ← Option.toList_map, ← Option.toList_map,
    hpop] at hbal
  refine Eq.trans ?_ hbal
  cases wLastBeat req s <;> rfl

/-- The R channel in a cycle: a beat is offered while busy, and the last one ends the burst. -/
theorem rControl_eq (req : ErrReq) (s : AxiErrSlv P) :
    (rControl req s).rValid = s.rBusyQ ∧
    (rControl req s).rLast = (s.rBusyQ && s.rCurrentBeat == 0) ∧
    (rControl req s).rFifoPop = (s.rBusyQ && req.rReady && s.rCurrentBeat == 0) ∧
    (next req s).rBusyQ = (if s.rBusyQ then !(req.rReady && s.rCurrentBeat == 0)
      else !P.rFifo.empty s.iRFifo) := by
  unfold next rControl
  cases s.rBusyQ <;> cases req.rReady <;> cases s.rCurrentBeat == 0 <;>
    cases P.rFifo.empty s.iRFifo <;> simp

theorem rCurrentBeat_next (req : ErrReq) (s : AxiErrSlv P) : (next req s).rCurrentBeat =
    if s.rBusyQ then (if req.rReady && !(s.rCurrentBeat == 0) then s.rCurrentBeat - 1
      else s.rCurrentBeat)
    else if P.rFifo.empty s.iRFifo then s.rCurrentBeat
    else (P.rFifo.dataO s.iRFifo).len := by
  rw [rCurrentBeat, next, P.counter.qO_next, ← rCurrentBeat]
  unfold rControl
  cases s.rBusyQ <;> cases req.rReady <;> cases hz : s.rCurrentBeat == 0 <;>
    cases P.rFifo.empty s.iRFifo <;> simp_all

/-- A busy error slave is in the burst at the head of its FIFO. -/
def Busy (s : AxiErrSlv P) : Prop := s.rBusyQ = true → P.rFifo.contents s.iRFifo ≠ []

theorem rFifo_contents_next (req : ErrReq) (s : AxiErrSlv P) :
    P.rFifo.contents (next req s).iRFifo =
      if (rControl req s).rFifoPop && !P.rFifo.empty s.iRFifo then
        (P.rFifo.contents s.iRFifo ++ (arBeat req s).toList).tail
      else P.rFifo.contents s.iRFifo ++ (arBeat req s).toList := by
  have hpush : P.rFifo.pushed (rFifoPush req s) req.ar s.iRFifo = arBeat req s := by
    refine (Fifo.pushed_eq (by simp_all [rFifoPush]) _).trans ?_
    rfl
  rw [← hpush, ← P.rFifo.offer_eq]
  exact P.rFifo.contents_next _ _ _ _

theorem busy_next {s : AxiErrSlv P} (h : Busy s) (req : ErrReq) : Busy (next req s) := by
  obtain ⟨-, -, hpop, hbusy⟩ := rControl_eq req s
  intro hnext
  rw [hbusy] at hnext
  rw [rFifo_contents_next, hpop]
  cases hb : s.rBusyQ with
  | true =>
    -- the burst goes on
    rw [hb, if_pos rfl, Bool.not_eq_true'] at hnext
    rw [Bool.true_and, hnext, Bool.false_and, if_neg Bool.false_ne_true]
    simp [h hb]
  | false =>
    rw [hb, if_neg Bool.false_ne_true, P.rFifo.empty_eq] at hnext
    simp_all

/-- The beats of the bursts held that are still to come. -/
def heldBeats (s : AxiErrSlv P) : List FullRChan :=
  match P.rFifo.contents s.iRFifo with
  | [] => []
  | a :: q =>
    (if s.rBusyQ then errBeats a.id s.rCurrentBeat.toNat else errBurst a) ++ q.flatMap errBurst

theorem heldBeats_of_idle {s : AxiErrSlv P} (h : s.rBusyQ = false) :
    s.heldBeats = (P.rFifo.contents s.iRFifo).flatMap errBurst := by
  rw [heldBeats, h]
  cases P.rFifo.contents s.iRFifo <;> rfl

/-- Within a burst the counter says how many of its beats are still to come. -/
theorem heldBeats_of_busy {s : AxiErrSlv P} (h : s.rBusyQ = true) {a : RData} {q : List RData}
    (hq : P.rFifo.contents s.iRFifo = a :: q) :
    s.heldBeats = errBeats a.id s.rCurrentBeat.toNat ++ q.flatMap errBurst := by
  rw [heldBeats, h, hq]
  rfl

/-- An accepted burst adds its beats, and a beat handed over is the next one to come. -/
theorem heldBeats_next {s : AxiErrSlv P} (h : Busy s) (req : ErrReq) :
    s.heldBeats ++ (arBeat req s).toList.flatMap errBurst =
      (rBeat req s).toList ++ (next req s).heldBeats := by
  obtain ⟨hvalid, hlast, hpop, hbusy⟩ := rControl_eq req s
  have hcount := rCurrentBeat_next req s
  have hcontents := rFifo_contents_next req s
  have hbeat : rBeat req s = if s.rBusyQ && req.rReady then
      some ⟨(P.rFifo.dataO s.iRFifo).id, respData, respDecerr, s.rCurrentBeat == 0⟩ else none := by
    rw [rBeat, respO, hvalid, hlast]
    cases s.rBusyQ <;> cases req.rReady <;> simp
  rw [hbeat]
  cases hb : s.rBusyQ with
  | false =>
    rw [hb, Bool.false_and, Bool.false_and] at hpop
    rw [hpop, Bool.false_and, if_neg Bool.false_ne_true] at hcontents
    rw [hb, if_neg Bool.false_ne_true] at hbusy hcount
    rw [heldBeats_of_idle hb, ← List.flatMap_append, ← hcontents]
    cases hq : P.rFifo.contents s.iRFifo with
    | nil =>
      -- no burst is held: the one accepted is taken up in the next cycle
      have hempty : P.rFifo.empty s.iRFifo = true := by rw [P.rFifo.empty_eq, hq]; rfl
      rw [hempty] at hbusy
      exact (heldBeats_of_idle hbusy).symm
    | cons a q =>
      -- the counter is loaded with the length of the first burst
      have hempty : P.rFifo.empty s.iRFifo = false := by rw [P.rFifo.empty_eq, hq]; rfl
      rw [hempty] at hbusy hcount
      rw [hq, List.cons_append] at hcontents
      have hnext := heldBeats_of_busy hbusy hcontents
      rw [hcount, if_neg Bool.false_ne_true, P.rFifo.dataO_eq _ _ _ hq] at hnext
      rw [hcontents, List.flatMap_cons]
      exact hnext.symm
  | true =>
    obtain ⟨a, q, hq⟩ := List.exists_cons_of_ne_nil (h hb)
    have hempty : P.rFifo.empty s.iRFifo = false := by rw [P.rFifo.empty_eq, hq]; rfl
    rw [hb, if_pos rfl] at hbusy hcount
    rw [hb, Bool.true_and] at hpop
    rw [heldBeats_of_busy hb hq, P.rFifo.dataO_eq _ _ _ hq]
    rw [hpop, hempty, hq] at hcontents
    cases hr : req.rReady with
    | false =>
      -- the beat is not taken
      rw [hr] at hbusy hcount hcontents
      have hnext := heldBeats_of_busy hbusy hcontents
      rw [hcount] at hnext
      simp [hnext]
    | true =>
      rw [hr] at hbusy hcount hcontents
      by_cases hz : s.rCurrentBeat = 0
      · -- the last beat of the burst
        simp only [hz, beq_self_eq_true, Bool.and_self, Bool.not_true, Bool.not_false, if_true,
          List.cons_append, List.tail_cons] at hbusy hcontents
        rw [heldBeats_of_idle hbusy, hcontents, hz, List.flatMap_append]
        rfl
      · have hzb : (s.rCurrentBeat == 0) = false := beq_false_of_ne hz
        obtain ⟨c, hc⟩ : ∃ c, s.rCurrentBeat.toNat = c + 1 :=
          Nat.exists_eq_succ_of_ne_zero fun h0 => hz (BitVec.eq_of_toNat_eq h0)
        have hpred : (s.rCurrentBeat - 1).toNat = c := by
          rw [BitVec.toNat_sub_of_le (by bv_omega), hc]
          rfl
        simp only [hzb, Bool.and_false, Bool.not_false, Bool.and_self, if_true, Bool.false_and,
          Bool.false_eq_true, if_false, List.cons_append] at hbusy hcount hcontents
        have hnext := heldBeats_of_busy hbusy hcontents
        rw [hcount, hpred] at hnext
        rw [hnext, hc, hzb, List.flatMap_append]
        simp [errBeats, List.replicate_succ]

theorem errBeats_last (id : BitVec 1) (c : ℕ) : ((errBeats id c).filter (·.last)).length = 1 := by
  simp [errBeats]

theorem errBurst_last (l : List RData) :
    ((l.flatMap errBurst).filter (·.last)).length = l.length := by
  induction l with
  | nil => rfl
  | cons a l ih =>
    rw [List.flatMap_cons, List.filter_append, List.length_append, ih, errBurst, errBeats_last,
      List.length_cons, Nat.add_comm]

theorem heldBeats_last (s : AxiErrSlv P) :
    (s.heldBeats.filter (·.last)).length = (P.rFifo.contents s.iRFifo).length := by
  rw [heldBeats]
  cases P.rFifo.contents s.iRFifo with
  | nil => rfl
  | cons a q =>
    have hfirst : ((if s.rBusyQ then errBeats a.id s.rCurrentBeat.toNat
        else errBurst a).filter (·.last)).length = 1 := by
      split_ifs <;> exact errBeats_last _ _
    rw [List.filter_append, List.length_append, hfirst, errBurst_last, List.length_cons,
      Nat.add_comm]

/-- No FIFO holds more than it has room for. -/
structure Bounded (s : AxiErrSlv P) : Prop where
  w : (P.wFifo.contents s.iWFifo).length ≤ maxTrans
  b : (P.bFifo.contents s.iBFifo).length ≤ 2
  r : (P.rFifo.contents s.iRFifo).length ≤ maxTrans

theorem bounded_run (ι : ℕ → ErrReq) (n : ℕ) : Bounded ((axiErrSlv P).run ι n) := by
  refine Clocked.runFrom_invariant (P := Bounded) ?_ (fun k hk => ?_) n
  · constructor <;>
      simp [axiErrSlv, reset, P.wFifo.contents_reset, P.bFifo.contents_reset,
        P.rFifo.contents_reset]
  · exact ⟨P.wFifo.length_next_le hk.w, P.bFifo.length_next_le hk.b, P.rFifo.length_next_le hk.r⟩

end AxiErrSlv

open AxiErrSlv

/-! ### Whole runs -/

/-- The history of an event of the error slave. -/
def errHistory {α : Type*} (P : ErrParts maxTrans) (e : ErrReq → AxiErrSlv P → Option α)
    (ι : ℕ → ErrReq) (n : ℕ) : List α :=
  (axiErrSlv P).log e (axiErrSlv P).reset ι n

/-- **The answers of the error slave** in the run on the inputs `ι`. -/
structure ErrAnswers (P : ErrParts maxTrans) (ι : ℕ → ErrReq) : Prop where
  /-- A write is accepted unless `maxTrans` writes await their data. -/
  awUp : ∀ n, (respO (ι n) ((axiErrSlv P).run ι n)).awReady = true ↔
    (errHistory P awBeat ι n).length < (errHistory P wLastBeat ι n).length + maxTrans
  /-- Data are taken while a write awaits them, be it the one accepted in this cycle, unless two
  responses are owed. -/
  wUp : ∀ n, (respO (ι n) ((axiErrSlv P).run ι n)).wReady = true ↔
    (errHistory P wLastBeat ι n).length < (errHistory P awBeat ι (n + 1)).length ∧
      (errHistory P wLastBeat ι n).length < (errHistory P bBeat ι n).length + 2
  /-- The writes whose last data beat is taken are those accepted, in order. -/
  data : ∀ n, errHistory P wLastBeat ι n <+: errHistory P awBeat ι n
  /-- They get one error response each, in order. -/
  write : ∀ n, errHistory P bBeat ι n <+: (errHistory P wLastBeat ι n).map errB
  /-- A write response is up exactly while one is owed. -/
  writeUp : ∀ n, (respO (ι n) ((axiErrSlv P).run ι n)).bValid = true ↔
    (errHistory P bBeat ι n).length < (errHistory P wLastBeat ι n).length
  /-- A read burst is accepted unless `maxTrans` bursts have not had their last beat. -/
  arUp : ∀ n, (respO (ι n) ((axiErrSlv P).run ι n)).arReady = true ↔
    (errHistory P arBeat ι n).length <
      ((errHistory P rBeat ι n).filter (·.last)).length + maxTrans
  /-- Every read burst gets the beats it asks for, in order. -/
  read : ∀ n, errHistory P rBeat ι n <+: (errHistory P arBeat ι n).flatMap errBurst
  /-- While a beat is owed, one is up in this cycle or the next. -/
  readUp : ∀ n,
    (errHistory P rBeat ι n).length < ((errHistory P arBeat ι n).flatMap errBurst).length →
    (respO (ι n) ((axiErrSlv P).run ι n)).rValid = true ∨
      (respO (ι (n + 1)) ((axiErrSlv P).run ι (n + 1))).rValid = true

variable (P : ErrParts maxTrans) (ι : ℕ → ErrReq) (n : ℕ)

theorem awHistory_eq : errHistory P awBeat ι n =
    errHistory P wLastBeat ι n ++ P.wFifo.contents ((axiErrSlv P).run ι n).iWFifo := by
  have hbal := Clocked.log_balance (A := axiErrSlv P) wFifo_balance (axiErrSlv P).reset ι n
  rwa [show P.wFifo.contents (axiErrSlv P).reset.iWFifo = [] from P.wFifo.contents_reset,
    List.nil_append] at hbal

theorem wLastHistory_eq : (errHistory P wLastBeat ι n).map errB =
    errHistory P bBeat ι n ++ (P.bFifo.contents ((axiErrSlv P).run ι n).iBFifo).map errB := by
  have hbal := Clocked.log_balance_flatMap (A := axiErrSlv P) (P := fun _ => True)
    (fun _ _ h => h) (fun req s _ => bFifo_balance req s) (s := (axiErrSlv P).reset) trivial ι n
  rwa [show P.bFifo.contents (axiErrSlv P).reset.iBFifo = [] from P.bFifo.contents_reset,
    List.map_nil, List.nil_append, ← List.map_eq_flatMap] at hbal

theorem arHistory_eq : (errHistory P arBeat ι n).flatMap errBurst =
    errHistory P rBeat ι n ++ ((axiErrSlv P).run ι n).heldBeats := by
  have hbal := Clocked.log_balance_flatMap (A := axiErrSlv P) (P := Busy)
    (fun req s h => busy_next h req) (fun req s h => heldBeats_next h req)
    (s := (axiErrSlv P).reset) (fun h => by cases h) ι n
  have hreset : (axiErrSlv P).reset.heldBeats = [] := by
    rw [heldBeats_of_idle rfl, show P.rFifo.contents (axiErrSlv P).reset.iRFifo = [] from
      P.rFifo.contents_reset]
    rfl
  rwa [hreset, List.nil_append] at hbal

theorem arHistory_length : (errHistory P arBeat ι n).length =
    ((errHistory P rBeat ι n).filter (·.last)).length +
      (P.rFifo.contents ((axiErrSlv P).run ι n).iRFifo).length := by
  have hlast := congrArg (fun l => (l.filter (·.last)).length) (arHistory_eq P ι n)
  simp only [List.filter_append, List.length_append, errBurst_last, heldBeats_last] at hlast
  exact hlast

theorem wLastHistory_length : (errHistory P wLastBeat ι n).length =
    (errHistory P bBeat ι n).length +
      (P.bFifo.contents ((axiErrSlv P).run ι n).iBFifo).length := by
  have hlen := congrArg List.length (wLastHistory_eq P ι n)
  rwa [List.length_append, List.length_map, List.length_map] at hlen

/-- **The error slave answers every request** with the error response. -/
theorem errSlave_answers : ErrAnswers P ι where
  awUp n := by
    have hbound := (bounded_run (P := P) ι n).w
    change (!P.wFifo.full _) = true ↔ _
    rw [P.wFifo.full_eq, Bool.not_eq_true', decide_eq_false_iff_not, awHistory_eq,
      List.length_append]
    omega
  wUp n := by
    have hbound := (bounded_run (P := P) ι n).b
    have haw : (errHistory P awBeat ι (n + 1)).length = (errHistory P awBeat ι n).length +
        (awBeat (ι n) ((axiErrSlv P).run ι n)).toList.length := List.length_append
    have hempty : (wFifoEmpty (ι n) ((axiErrSlv P).run ι n) = false) ↔
        0 < (P.wFifo.contents ((axiErrSlv P).run ι n).iWFifo).length +
          (awBeat (ι n) ((axiErrSlv P).run ι n)).toList.length := by
      rw [wFifoEmpty, P.wFifo.empty_eq, awBeat, respO, ← wFifoPush]
      cases P.wFifo.contents ((axiErrSlv P).run ι n).iWFifo <;>
        cases wFifoPush (ι n) ((axiErrSlv P).run ι n) <;> simp
    change (!wFifoEmpty _ _ && !P.bFifo.full _) = true ↔ _
    rw [Bool.and_eq_true, Bool.not_eq_true', Bool.not_eq_true', hempty, P.bFifo.full_eq,
      decide_eq_false_iff_not, haw, awHistory_eq, List.length_append, wLastHistory_length]
    omega
  data n := by
    rw [awHistory_eq]
    exact List.prefix_append _ _
  write n := by
    rw [wLastHistory_eq]
    exact List.prefix_append _ _
  writeUp n := by
    change (!P.bFifo.empty _) = true ↔ _
    rw [P.bFifo.empty_eq, wLastHistory_length]
    cases P.bFifo.contents ((axiErrSlv P).run ι n).iBFifo <;> simp
  arUp n := by
    have hbound := (bounded_run (P := P) ι n).r
    change (!P.rFifo.full _) = true ↔ _
    rw [P.rFifo.full_eq, Bool.not_eq_true', decide_eq_false_iff_not, arHistory_length]
    omega
  read n := by
    rw [arHistory_eq]
    exact List.prefix_append _ _
  readUp n h := by
    rw [arHistory_eq, List.length_append] at h
    obtain ⟨hvalid, -, -, hbusy⟩ := rControl_eq (ι n) ((axiErrSlv P).run ι n)
    obtain ⟨hvalid', -⟩ := rControl_eq (ι (n + 1)) ((axiErrSlv P).run ι (n + 1))
    change (rControl _ _).rValid = true ∨ (rControl _ _).rValid = true
    rw [hvalid, hvalid']
    cases hb : ((axiErrSlv P).run ι n).rBusyQ with
    | true => exact Or.inl rfl
    | false =>
      refine Or.inr (hbusy.trans ?_)
      rw [hb, if_neg Bool.false_ne_true, P.rFifo.empty_eq]
      rw [heldBeats_of_idle hb] at h
      cases hq : P.rFifo.contents ((axiErrSlv P).run ι n).iRFifo with
      | nil => rw [hq] at h; simp at h
      | cons a q => rfl

end SystolicSoc
