import SystolicSoc.Bus.Master
import SystolicSoc.Soc.Top
import SystolicSoc.Xbar.Routing

/-!
# The stages of an access

An access of the processor goes through the SoC in a fixed order of stages, one a cycle.  The stage
determines the acknowledgements of the adapter, the routing decisions stored in the crossbar and
the ports of the slaves.

* `Stage`, `Stage.next` : the stages, and what follows a stage.
* `Slave.At`, `AxiErrSlv.At` : a slave in a stage of an access that it owns or does not own.
* `SocTop.At`, `SocTop.At.next` : **every clock edge takes the SoC to the next stage.**
-/

namespace SystolicSoc

/-- The stages of an access. -/
inductive Stage
  /-- No access. -/
  | idle
  /-- The address is offered. -/
  | request
  /-- The address of a write has been accepted, and the data are offered. -/
  | data
  /-- The data of a write have been accepted. -/
  | execute
  /-- The write has been executed. -/
  | respond
  /-- The address of a read has been accepted. -/
  | answer
  /-- The error slave is in its burst. -/
  | burst
deriving DecidableEq, Repr

namespace Stage

/-- The address of a write has been accepted. -/
def awSent : Stage → Bool
  | data | execute | respond => true
  | _ => false

/-- The data of a write have been accepted. -/
def wSent : Stage → Bool
  | execute | respond => true
  | _ => false

/-- The address of a read has been accepted. -/
def arSent : Stage → Bool
  | answer | burst => true
  | _ => false

/-- The write response is up; the error slave gives it a cycle earlier than the others. -/
def bUp (err : Bool) : Stage → Bool
  | execute => err
  | respond => true
  | _ => false

/-- The read data are up; the error slave gives them a cycle later than the others. -/
def rUp (err : Bool) : Stage → Bool
  | answer => !err
  | burst => true
  | _ => false

/-- The stage after a cycle. -/
def next (go write err : Bool) : Stage → Stage
  | idle => if go then request else idle
  | request => if write then data else answer
  | data => execute
  | execute => if err then idle else respond
  | respond => idle
  | answer => if err then burst else idle
  | burst => idle

/-- The stage is one of a write (`write`) or of a read, owned by the error slave (`err`) or not. -/
def fits (write err : Bool) : Stage → Prop
  | idle | request => True
  | data | execute => write = true
  | respond => write = true ∧ err = false
  | answer => write = false
  | burst => write = false ∧ err = true

theorem fits_next {t : Stage} {write err : Bool} (h : t.fits write err) (go write' err' : Bool)
    (hsame : t ≠ idle → write' = write ∧ err' = err) :
    (t.next go write err).fits write' err' := by
  cases t <;> cases go <;> cases write <;> cases err <;> simp_all [fits, next]

/-- An access ends in the cycle in which its response is up. -/
theorem next_ne_idle {t : Stage} {write err : Bool} (go : Bool) (ht : t ≠ idle)
    (h : t.fits write err) :
    decide (t.next go write err ≠ idle) = !(t.bUp err || t.rUp err) := by
  cases t <;> cases write <;> cases err <;> simp_all [fits, next, bUp, rUp]

theorem next_eq_answer {t : Stage} {go write err : Bool} (h : t.next go write err = answer) :
    t = request ∧ write = false := by
  cases t <;> cases go <;> cases write <;> cases err <;> simp_all [next]

theorem eq_answer {t : Stage} (h : t.fits false false)
    (hup : (t.bUp false || t.rUp false) = true) : t = answer := by
  cases t <;> simp_all [fits, bUp, rUp]

theorem eq_respond {t : Stage} (h : t.fits true false)
    (hup : (t.bUp false || t.rUp false) = true) : t = respond := by
  cases t <;> simp_all [fits, bUp, rUp]

theorem next_eq_respond {t : Stage} {go write err : Bool} (h : t.next go write err = respond) :
    t = execute := by
  cases t <;> cases go <;> cases write <;> cases err <;> simp_all [next]

/-- What follows a stage of an access does not depend on the accesses to come. -/
theorem next_congr {t : Stage} (ht : t ≠ idle) (go go' write err : Bool) :
    t.next go write err = t.next go' write err := by
  cases t <;> first | rfl | exact absurd rfl ht

/-- The stage of an access after `k` cycles. -/
def after (write err : Bool) : ℕ → Stage
  | 0 => request
  | k + 1 => (after write err k).next false write err

/-- The number of cycles from the first of an access to that in which it is ready. -/
def latency (write err : Bool) : ℕ := if err then 2 else if write then 3 else 1

/-- **An access goes through its stages** without being ready before the last. -/
theorem after_ready (write err : Bool) :
    (∀ k < latency write err, after write err k ≠ idle ∧
      (after write err k).bUp err = false ∧ (after write err k).rUp err = false) ∧
    after write err (latency write err) ≠ idle ∧
    ((after write err (latency write err)).bUp err ||
      (after write err (latency write err)).rUp err) = true ∧
    after write err (latency write err + 1) = idle := by
  cases write <;> cases err <;> decide

theorem sent_next {t : Stage} {go write err : Bool} (ht : t ≠ idle) (h : t.fits write err)
    (hnext : t.next go write err ≠ idle) :
    (t.next go write err).awSent = (t.awSent || decide (t = request) && write) ∧
    (t.next go write err).wSent = (t.wSent || decide (t = data)) ∧
    (t.next go write err).arSent = (t.arSent || decide (t = request) && !write) := by
  cases t <;> cases write <;> cases err <;> simp_all [fits, next, awSent, wSent, arSent]

/-- What the processor asks of the crossbar. -/
def cpuReq (t : Stage) (r : MemReq) : Req where
  aw := ⟨r.addr⟩
  awValid := decide (t = request) && r.isWrite
  w := ⟨r.wdata, r.wstrb⟩
  wValid := decide (t = request ∨ t = data) && r.isWrite
  bReady := decide (t ≠ idle) && r.isWrite
  ar := ⟨r.addr⟩
  arValid := decide (t = request) && !r.isWrite
  rReady := decide (t ≠ idle) && !r.isWrite

/-- What a port is asked that owns the access, `own`, or does not. -/
def req (t : Stage) (r : MemReq) (own : Bool) : Req where
  aw := ⟨r.addr⟩
  awValid := decide (t = request) && r.isWrite && own
  w := ⟨r.wdata, r.wstrb⟩
  wValid := decide (t = data) && own
  bReady := t.wSent && own
  ar := ⟨r.addr⟩
  arValid := decide (t = request) && !r.isWrite && own
  rReady := t.arSent && own

end Stage

open Stage

/-! ### The slaves -/

/-- The ports of a slave in a stage of the access `r`, which it owns or does not. -/
structure Slave.At {S β : Type*} (L : Slave S β) (t : Stage) (r : MemReq) (own : Bool) (s : S) :
    Prop where
  aw : (L.writePort s).awPending = (decide (t = .data ∨ t = .execute) && own)
  w : (L.writePort s).wPending = (decide (t = .execute) && own)
  b : (L.writePort s).bValid = (decide (t = .respond) && own)
  rd : (L.readPort s).rValid = (decide (t = .answer) && own)
  addr : (L.writePort s).awPending = true → (L.writePort s).addr = r.addr
  held : (L.writePort s).wPending = true → (L.writePort s).data = L.keep ⟨r.wdata, r.wstrb⟩

namespace Slave

variable {S β : Type*} {L : Slave S β} {t : Stage} {r r' : MemReq} {own own' : Bool} {s : S}

theorem Clear.at (h : L.Clear s) (ht : t = idle ∨ t = request) : L.At t r own s := by
  obtain ⟨haw, hw, hb, hr⟩ := h
  constructor <;> rcases ht with rfl | rfl <;> simp [haw, hw, hb, hr]

theorem At.clear (h : L.At t r own s) (ht : t = idle ∨ t = request ∨ own = false) :
    L.Clear s := by
  obtain ⟨haw, hw, hb, hr, -, -⟩ := h
  constructor <;> rcases ht with rfl | rfl | rfl <;> simp [haw, hw, hb, hr]

theorem Clear.unasked (h : L.Clear s) {req : Req} (haw : req.awValid = false)
    (hw : req.wValid = false) (har : req.arValid = false) : L.Clear (L.edge req s) := by
  constructor
  · rw [L.writePort_edge]
    simp [WritePort.next, haw, h.aw]
  · rw [L.writePort_edge]
    simp [WritePort.next, hw, h.w]
  · rw [L.writePort_edge]
    simp [WritePort.next, WritePort.executes, h.aw, h.b]
  · rw [L.readPort_edge]
    simp [ReadPort.next, har, h.r]

/-- **A slave follows the stages** of the accesses that it owns, and is at rest in the others. -/
theorem At.next (h : L.At t r own s) (go err : Bool) (r' : MemReq) (own' : Bool)
    (hsame : t ≠ idle → r' = r ∧ own' = own)
    (hown : own = true → err = false ∧ t ≠ burst) :
    L.At (t.next go r.isWrite err) r' own' (L.edge (t.req r own) s) := by
  by_cases ht : t = idle ∨ own = false
  · have hclear : L.Clear (L.edge (t.req r own) s) := by
      refine (h.clear (ht.imp_right Or.inr)).unasked ?_ ?_ ?_ <;>
        rcases ht with rfl | rfl <;> simp [Stage.req]
    by_cases hidle : t = idle
    · subst hidle
      exact hclear.at (by cases go <;> simp [Stage.next])
    · obtain ⟨-, rfl⟩ := hsame hidle
      obtain rfl : own' = false := ht.resolve_left hidle
      obtain ⟨haw, hw, hb, hr⟩ := hclear
      constructor <;> simp [haw, hw, hb, hr]
  · obtain ⟨hidle, rfl⟩ : t ≠ idle ∧ own = true := by simpa using ht
    obtain ⟨rfl, rfl⟩ := hsame hidle
    obtain ⟨rfl, hburst⟩ := hown rfl
    obtain ⟨haw, hw, hb, hr, haddr, hheld⟩ := h
    refine ⟨?_, ?_, ?_, ?_, ?_, ?_⟩
    case refine_5 =>
      rw [L.writePort_edge]
      exact WritePort.addr_next haddr fun _ => rfl
    case refine_6 =>
      rw [L.writePort_edge]
      exact WritePort.data_next hheld fun _ => rfl
    all_goals
      simp only [L.writePort_edge, L.readPort_edge, WritePort.next, ReadPort.next,
        WritePort.executes, WritePort.awReady, WritePort.wReady, ReadPort.arReady, haw, hw, hb, hr]
      cases t <;> cases hwrite : r'.isWrite <;>
        simp_all [Stage.req, Stage.next, wSent, arSent]

theorem At.answered (h : L.At request r true s) (hread : r.isWrite = false) :
    (L.readPort (L.edge (Stage.req request r true) s)).data =
      L.answer (Stage.req request r true) s := by
  have hr := h.rd
  rw [L.readPort_edge]
  simp_all [ReadPort.next, ReadPort.arReady, Stage.req]

end Slave

/-! ### The error slave -/

/-- The error slave in a stage of an access that it owns or does not. -/
structure AxiErrSlv.At {P : ErrParts 1} (t : Stage) (own : Bool) (s : AxiErrSlv P) : Prop where
  w : P.wFifo.contents s.iWFifo = if t = data ∧ own = true then [0] else []
  b : P.bFifo.contents s.iBFifo = if t = execute ∧ own = true then [0] else []
  rd : P.rFifo.contents s.iRFifo = if t.arSent = true ∧ own = true then [⟨0, 0⟩] else []
  busy : s.rBusyQ = decide (t = burst)
  beat : t = burst → s.rCurrentBeat = 0

namespace AxiErrSlv

variable {P : ErrParts 1} {t : Stage} {r : MemReq} {own own' : Bool} {s : AxiErrSlv P}

/-- Nothing is held and no response owed. -/
structure Clear (s : AxiErrSlv P) : Prop where
  w : P.wFifo.contents s.iWFifo = []
  b : P.bFifo.contents s.iBFifo = []
  rd : P.rFifo.contents s.iRFifo = []
  busy : s.rBusyQ = false

theorem Clear.at (h : Clear s) (ht : t = idle ∨ t = request ∨ own = false) (hburst : t ≠ burst) :
    At t own s := by
  obtain ⟨hw, hb, hr, hbusy⟩ := h
  constructor <;> rcases ht with rfl | rfl | rfl <;> simp [hw, hb, hr, hbusy, hburst, arSent]

theorem At.clear (h : At t own s) (ht : t = idle ∨ t = request ∨ own = false) (hburst : t ≠ burst) :
    Clear s := by
  obtain ⟨hw, hb, hr, hbusy, -⟩ := h
  constructor <;> rcases ht with rfl | rfl | rfl <;> simp [hw, hb, hr, hbusy, hburst, arSent]

theorem Clear.unasked (h : Clear s) {req : ErrReq} (haw : req.awValid = false)
    (har : req.arValid = false) : Clear (next req s) := by
  obtain ⟨hw, hb, hr, hbusy⟩ := h
  obtain ⟨-, -, -, hbusy'⟩ := rControl_eq req s
  have hempty : wFifoEmpty req s = true := by
    simp [wFifoEmpty, wFifoPush, haw, P.wFifo.empty_eq, hw]
  have hpop : wFifoPop req s = false := by simp [wFifoPop, wReady, hempty]
  constructor
  · have hbal := wFifo_balance req s
    rw [hw, awBeat, haw, wLastBeat_eq, hpop] at hbal
    simpa using hbal.symm
  · rw [AxiErrSlv.next, P.bFifo.contents_next, hpop, P.bFifo.empty_eq, hb]
    simp [offer]
  · rw [rFifo_contents_next, arBeat, har, P.rFifo.empty_eq, hr]
    simp
  · rw [hbusy', hbusy, P.rFifo.empty_eq, hr]
    simp

/-- **The error slave follows the stages** of the accesses that it owns, and is at rest in the
others. -/
theorem At.next (h : At t own s) {go : Bool} (hsame : t ≠ idle → own' = own)
    (hburst : t = burst → own = true) (hrespond : t = respond → own = false) :
    At (t.next go r.isWrite own) own' (AxiErrSlv.next (toAxiReq (t.req r own)) s) := by
  by_cases ht : t = idle ∨ own = false
  · have hclear : Clear (AxiErrSlv.next (toAxiReq (t.req r own)) s) := by
      refine (h.clear (ht.imp_right Or.inr) (by rintro rfl; simp_all)).unasked ?_ ?_ <;>
        rcases ht with rfl | rfl <;> simp [Stage.req, toAxiReq]
    by_cases hidle : t = idle
    · subst hidle
      exact hclear.at (by cases go <;> simp [Stage.next]) (by cases go <;> simp [Stage.next])
    · obtain rfl := hsame hidle
      obtain rfl : own' = false := ht.resolve_left hidle
      refine hclear.at (by simp) ?_
      cases t <;> simp [Stage.next] <;> split <;> simp
  · obtain ⟨hidle, rfl⟩ : t ≠ idle ∧ own = true := by simpa using ht
    obtain rfl := hsame hidle
    obtain ⟨hw, hb, hr, hbusy, hbeat⟩ := h
    obtain ⟨-, -, hpop, hbusy'⟩ := rControl_eq (toAxiReq (t.req r true)) s
    have hbeat' := rCurrentBeat_next (toAxiReq (t.req r true)) s
    rw [hbusy, P.rFifo.empty_eq, hr] at hbusy' hbeat'
    rw [hbusy] at hpop
    refine ⟨?_, ?_, ?_, ?_, ?_⟩
    · clear hpop hbusy' hbeat'
      rw [AxiErrSlv.next, P.wFifo.contents_next]
      simp only [wFifoPop, wReady, wFifoEmpty, wFifoPush, P.wFifo.full_eq, P.wFifo.empty_eq,
        P.bFifo.full_eq, hw, hb]
      cases t <;> cases hwrite : r.isWrite <;>
        simp_all [Stage.req, Stage.next, toAxiReq, offer]
    · clear hpop hbusy' hbeat'
      have hdata := P.wFifo.dataO_eq false 0 s.iWFifo 0 []
      rw [AxiErrSlv.next, P.bFifo.contents_next]
      simp only [bFifoPop, bValid, wFifoPop, wReady, wFifoEmpty, wFifoPush, wFifoData,
        P.wFifo.full_eq, P.wFifo.empty_eq, P.bFifo.full_eq, P.bFifo.empty_eq, hw, hb]
      cases t <;> cases hwrite : r.isWrite <;>
        simp_all [Stage.req, Stage.next, toAxiReq, offer, wSent]
    · clear hbusy' hbeat'
      rw [rFifo_contents_next, hpop, P.rFifo.empty_eq, hr]
      simp only [arBeat, respO, P.rFifo.full_eq, hr]
      cases t <;> cases hwrite : r.isWrite <;>
        simp_all [Stage.req, Stage.next, toAxiReq, arSent]
    · rw [hbusy']
      cases t <;> cases hwrite : r.isWrite <;>
        simp_all [Stage.req, Stage.next, toAxiReq, arSent]
    · have hhead := P.rFifo.dataO_eq s.iRFifo ⟨0, 0⟩ []
      rw [hbeat']
      cases t <;> cases hwrite : r.isWrite <;>
        simp_all [Stage.req, Stage.next, toAxiReq, arSent]

end AxiErrSlv

/-! ### The demultiplexer -/

/-- The response of the port that owns the access. -/
structure Resp.At (t : Stage) (err : Bool) (resp : Resp) : Prop where
  aw : t = request → resp.awReady = true
  w : t = data → resp.wReady = true
  b : t.wSent = true → resp.bValid = t.bUp err
  ar : t = request → resp.arReady = true
  rd : t.arSent = true → resp.rValid = t.rUp err

namespace AxiLiteDemux

variable {n : ℕ} {F : Fifo (Fin n) 1} {t : Stage} {r : MemReq} {err : Bool} {p p' : Fin n}
  {i : DemuxIn n} {s : AxiLiteDemux F}

/-- The demultiplexer in a stage of an access that port `p` owns. -/
structure At (t : Stage) (p : Fin n) (s : AxiLiteDemux F) : Prop where
  lock : s.lockAwValidQ = false
  w : F.contents s.iWFifo = if t = data then [p] else []
  b : F.contents s.iBFifo = if t.wSent then [p] else []
  rd : F.contents s.iRFifo = if t.arSent then [p] else []

/-- The inputs of the demultiplexer in a stage of an access that port `p` owns. -/
structure InAt (t : Stage) (r : MemReq) (p : Fin n) (i : DemuxIn n) : Prop where
  req : i.slvReqI = t.cpuReq r
  aw : i.slvAwSelectI = p
  ar : i.slvArSelectI = p

theorem At.wSelect (h : At t p s) (ht : t = data) : s.wSelect = p :=
  F.dataO_eq _ _ [] (by rw [h.w, if_pos ht])

theorem At.bSelect (h : At t p s) (ht : t.wSent = true) : s.bSelect = p :=
  F.dataO_eq _ _ [] (by rw [h.b, if_pos ht])

theorem At.rSelect (h : At t p s) (ht : t.arSent = true) : s.rSelect = p :=
  F.dataO_eq _ _ [] (by rw [h.rd, if_pos ht])

/-- **The requests of the demultiplexer**: its ports are asked by stage, the owner alone. -/
theorem At.mstReqsO (h : At t p s) (hi : InAt t r p i) (hfits : t.fits r.isWrite err)
    (q : Fin n) : AxiLiteDemux.mstReqsO i s q = t.req r (p == q) := by
  have hw := h.wSelect
  have hb := h.bSelect
  have hr := h.rSelect
  simp only [AxiLiteDemux.mstReqsO, mstAwValids_eq, awGo, F.full_eq, F.empty_eq, h.lock, h.w, h.b,
    h.rd, hi.req, hi.aw, hi.ar]
  cases t <;> simp_all [fits, cpuReq, Stage.req, wSent, arSent]

theorem At.slvRespO (h : At t p s) (hi : InAt t r p i) (hresp : (i.mstRespsI p).At t err)
    (hfits : t.fits r.isWrite err) :
    (AxiLiteDemux.slvRespO i s).awReady = (decide (t = request) && r.isWrite) ∧
    (AxiLiteDemux.slvRespO i s).wReady = decide (t = data) ∧
    (AxiLiteDemux.slvRespO i s).bValid = t.bUp err ∧
    (t = request → (AxiLiteDemux.slvRespO i s).arReady = true) ∧
    (AxiLiteDemux.slvRespO i s).rValid = t.rUp err ∧
    (t.arSent = true → (AxiLiteDemux.slvRespO i s).r = (i.mstRespsI p).r) := by
  have hw := h.wSelect
  have hb := h.bSelect
  have hr := h.rSelect
  obtain ⟨haw, hwr, hbr, har, hrr⟩ := hresp
  simp only [AxiLiteDemux.slvRespO, slvAwReady_eq, awGo, slvWReady, slvBValid, slvArReady,
    slvRValid, F.full_eq, F.empty_eq, h.lock, h.w, h.b, h.rd, hi.req, hi.aw, hi.ar]
  cases t <;> simp_all [fits, cpuReq, wSent, arSent, bUp, rUp]

theorem At.ports (h : At t p s) (hi : InAt t r p i) (hresp : (i.mstRespsI p).At t err)
    (hfits : t.fits r.isWrite err) :
    awIssued i s = (if t = request ∧ r.isWrite = true then some p else none) ∧
    wPort i s = (if t = data then some p else none) ∧
    bPort i s = (if t.bUp err then some p else none) ∧
    arPort i s = (if t = request ∧ r.isWrite = false then some p else none) ∧
    rPort i s = (if t.rUp err then some p else none) := by
  have hw := h.wSelect
  have hb := h.bSelect
  have hr := h.rSelect
  obtain ⟨-, hwready, hbvalid, harready, hrvalid, -⟩ := h.slvRespO hi hresp hfits
  simp only [AxiLiteDemux.slvRespO] at hwready hbvalid harready hrvalid
  simp only [awIssued_eq, wFifoPush_eq, wPort_eq, wFifoPop, bPort_eq, bFifoPop, arPort_eq,
    rFifoPush, rPort_eq, rFifoPop, hwready, hbvalid, hrvalid, h.lock, F.full_eq, h.w, hi.req,
    hi.aw, hi.ar]
  cases t <;> cases hwrite : r.isWrite <;> cases err <;>
    simp_all [fits, cpuReq, wSent, arSent, bUp, rUp]

/-- **The demultiplexer follows the stages.** -/
theorem At.next (h : At t p s) (hi : InAt t r p i) (hresp : (i.mstRespsI p).At t err)
    (hfits : t.fits r.isWrite err) {go : Bool}
    (hsame : t ≠ idle → p' = p) : At (t.next go r.isWrite err) p' (AxiLiteDemux.next i s) := by
  obtain ⟨haw, hw, hb, har, hr⟩ := h.ports hi hresp hfits
  have hwbal := wFifo_balance i s
  have hbbal := bFifo_balance i s
  have hrbal := rFifo_balance i s
  rw [haw, hw, h.w] at hwbal
  rw [hw, hb, h.b] at hbbal
  rw [har, hr, h.rd] at hrbal
  refine ⟨?_, ?_, ?_, ?_⟩
  · have hready := (h.slvRespO hi hresp hfits).1
    simp only [AxiLiteDemux.slvRespO, slvAwReady_eq, hi.aw] at hready
    rw [lockAwValidQ_next, hi.aw]
    simp only [awGo, h.lock, h.w, hi.req, F.full_eq] at hready ⊢
    cases t <;> cases hwrite : r.isWrite <;> simp_all [cpuReq]
  · clear hbbal hrbal
    cases t <;> cases hwrite : r.isWrite <;> cases go <;> cases err <;> simp_all [Stage.next, fits]
  · clear hwbal hrbal
    cases t <;> cases hwrite : r.isWrite <;> cases go <;> cases err <;>
      simp_all [Stage.next, fits, wSent, bUp]
  · clear hwbal hbbal
    cases t <;> cases hwrite : r.isWrite <;> cases go <;> cases err <;>
      simp_all [Stage.next, fits, arSent, rUp]

end AxiLiteDemux

end SystolicSoc
