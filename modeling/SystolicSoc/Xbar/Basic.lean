import SystolicSoc.Xbar.Demux
import SystolicSoc.Xbar.ErrSlave
import Mathlib.Data.Fin.Tuple.Basic

/-!
# The crossbar

The module `axi_lite_xbar` of `axi_lite_xbar.sv` with one slave port, `m` master ports and latency
mode `NO_LATENCY`: the multiplexer of a single slave port is a wire.  Its demultiplexer has one
port more, behind which `axi_lite_to_axi` and the error slave answer what no rule maps.

* `decode` : what an address map says about an address; `AddrDecode` : the decoder instantiated.
* `toAxiReq`, `toLiteResp` : the two directions of `axi_lite_to_axi`.
* `AxiLiteXbar.mstPortsReqO`, `AxiLiteXbar.slvPortsRespO`, `AxiLiteXbar.next` : the outputs, and
  one clock edge.
* `AxiLiteXbar.select_eq` : the port that a request is routed to.
-/

namespace SystolicSoc

variable {m maxTrans : ℕ}

/-- An address rule, `xbar_rule_32_t`. -/
structure XbarRule (m : ℕ) where
  idx : Fin m
  startAddr : BitVec 32
  endAddr : BitVec 32
deriving DecidableEq, Repr

/-- The address lies in the range of the rule. -/
def XbarRule.maps (addr : BitVec 32) (r : XbarRule m) : Bool :=
  decide (r.startAddr ≤ addr) && decide (addr < r.endAddr)

/-- The port that an address map gives to an address: that of the rule at the highest position, or
the default port if it is enabled. -/
def decode (addrMap : List (XbarRule m)) (enDefault : Bool) (defaultIdx : Fin m)
    (addr : BitVec 32) : Option (Fin m) :=
  match (addrMap.filter (XbarRule.maps addr)).getLast? with
  | some r => some r.idx
  | none => if enDefault then some defaultIdx else none

/-- The ranges of an address map end at an address, not with the address space. -/
def BoundedMap (addrMap : List (XbarRule m)) : Prop := ∀ r ∈ addrMap, r.endAddr ≠ 0

/-- The combinational module `addr_decode`.  Nothing is said about maps that are not bounded. -/
structure AddrDecode (m : ℕ) where
  idxO : List (XbarRule m) → Bool → Fin m → BitVec 32 → Fin m
  decErrorO : List (XbarRule m) → Bool → Fin m → BitVec 32 → Bool
  idxO_eq : ∀ addrMap en d addr p, BoundedMap addrMap → decode addrMap en d addr = some p →
    idxO addrMap en d addr = p
  decErrorO_eq : ∀ addrMap en d addr, BoundedMap addrMap →
    decErrorO addrMap en d addr = (decode addrMap en d addr).isNone

/-- The decoder that computes `decode`. -/
def listDecode (m : ℕ) : AddrDecode m where
  idxO addrMap en d addr := (decode addrMap en d addr).getD d
  decErrorO addrMap en d addr := (decode addrMap en d addr).isNone
  idxO_eq _ _ _ _ _ _ h := by rw [h, Option.getD_some]
  decErrorO_eq _ _ _ _ _ := rfl

/-! ### From AXI4-Lite to AXI4 -/

/-- `mst_req_o` of `axi_lite_to_axi`: bursts of one beat. -/
def toAxiReq (req : Req) : ErrReq where
  awId := 0
  awValid := req.awValid
  wLast := true
  wValid := req.wValid
  bReady := req.bReady
  ar := ⟨0, 0⟩
  arValid := req.arValid
  rReady := req.rReady

/-- `slv_resp_lite_o` of `axi_lite_to_axi`. -/
def toLiteResp (resp : ErrResp) : Resp where
  awReady := resp.awReady
  wReady := resp.wReady
  b := ⟨resp.b.resp⟩
  bValid := resp.bValid
  arReady := resp.arReady
  r := ⟨resp.r.data, resp.r.resp⟩
  rValid := resp.rValid

/-! ### The crossbar -/

/-- The parts that the crossbar instantiates. -/
structure XbarParts (m maxTrans : ℕ) where
  fifo : Fifo (Fin (m + 1)) maxTrans
  err : ErrParts 1
  addrDecode : AddrDecode m

/-- The parts whose registers are what they hold. -/
def listXbar (m maxTrans : ℕ) : XbarParts m maxTrans where
  fifo := listFifo maxTrans
  err := ⟨listFallThroughFifo 1, listFifo 2, listFifo 1, valueCounter 8⟩
  addrDecode := listDecode m

/-- The inputs of `axi_lite_xbar`. -/
structure XbarIn (m : ℕ) where
  slvPortsReqI : Req
  mstPortsRespI : Fin m → Resp
  addrMapI : List (XbarRule m)
  enDefaultMstPortI : Bool
  defaultMstPortI : Fin m

/-- The registers of `axi_lite_xbar`. -/
structure AxiLiteXbar (P : XbarParts m maxTrans) where
  iAxiLiteDemux : AxiLiteDemux P.fifo
  iAxiErrSlv : AxiErrSlv P.err

namespace AxiLiteXbar

variable {P : XbarParts m maxTrans}

/-- The registers after reset. -/
def reset : AxiLiteXbar P := ⟨.reset, .reset⟩

variable (P) in
/-- The port of the demultiplexer for an address, the last one after a decode error. -/
def select (i : XbarIn m) (addr : BitVec 32) : Fin (m + 1) :=
  if P.addrDecode.decErrorO i.addrMapI i.enDefaultMstPortI i.defaultMstPortI addr then Fin.last m
  else (P.addrDecode.idxO i.addrMapI i.enDefaultMstPortI i.defaultMstPortI addr).castSucc

variable (P) in
/-- The inputs of the demultiplexer, with the responses `slvResps` of its ports. -/
def demuxIn (i : XbarIn m) (slvResps : Fin (m + 1) → Resp) : DemuxIn (m + 1) where
  slvReqI := i.slvPortsReqI
  slvAwSelectI := select P i i.slvPortsReqI.aw.addr
  slvArSelectI := select P i i.slvPortsReqI.ar.addr
  mstRespsI := slvResps

variable (i : XbarIn m) (s : AxiLiteXbar P)

/-- The request to the error slave.  The requests of the demultiplexer do not depend on the
responses (`slvReqs_eq`), so any may stand for those that the error slave is yet to give. -/
def decerrReq : ErrReq :=
  toAxiReq (AxiLiteDemux.mstReqsO
    (demuxIn P i fun _ => ⟨false, false, ⟨0⟩, false, false, ⟨0, 0⟩, false⟩)
    s.iAxiLiteDemux (Fin.last m))

/-- The responses to the demultiplexer, that of the error slave on the last port. -/
def slvResps : Fin (m + 1) → Resp :=
  Fin.snoc (α := fun _ => Resp) i.mstPortsRespI
    (toLiteResp (AxiErrSlv.respO (decerrReq i s) s.iAxiErrSlv))

/-- The requests of the demultiplexer. -/
def slvReqs (p : Fin (m + 1)) : Req :=
  AxiLiteDemux.mstReqsO (demuxIn P i (slvResps i s)) s.iAxiLiteDemux p

/-- The request to master port `p`. -/
def mstPortsReqO (p : Fin m) : Req := slvReqs i s p.castSucc

/-- The response to the slave port. -/
def slvPortsRespO : Resp := AxiLiteDemux.slvRespO (demuxIn P i (slvResps i s)) s.iAxiLiteDemux

/-- One clock edge. -/
def next : AxiLiteXbar P where
  iAxiLiteDemux := s.iAxiLiteDemux.next (demuxIn P i (slvResps i s))
  iAxiErrSlv := s.iAxiErrSlv.next (decerrReq i s)

end AxiLiteXbar

namespace AxiLiteXbar

variable {P : XbarParts m maxTrans} (i : XbarIn m) (s : AxiLiteXbar P)

/-- The port of the demultiplexer for an address is the one that the map gives, or the last. -/
theorem select_eq (hmap : BoundedMap i.addrMapI) (addr : BitVec 32) : select P i addr =
    match decode i.addrMapI i.enDefaultMstPortI i.defaultMstPortI addr with
    | some p => p.castSucc
    | none => Fin.last m := by
  rw [select, P.addrDecode.decErrorO_eq _ _ _ _ hmap]
  cases h : decode i.addrMapI i.enDefaultMstPortI i.defaultMstPortI addr with
  | none => rfl
  | some p => rw [P.addrDecode.idxO_eq _ _ _ _ _ hmap h]; rfl

theorem slvReqs_eq : decerrReq i s = toAxiReq (slvReqs i s (Fin.last m)) := by
  simp only [decerrReq, slvReqs, AxiLiteDemux.mstReqsO, AxiLiteDemux.mstAwValids_eq]
  rfl

@[simp] theorem slvResps_castSucc (p : Fin m) : slvResps i s p.castSucc = i.mstPortsRespI p :=
  Fin.snoc_castSucc (α := fun _ => Resp) _ _ p

@[simp] theorem slvResps_last : slvResps i s (Fin.last m) =
    toLiteResp (AxiErrSlv.respO (decerrReq i s) s.iAxiErrSlv) :=
  Fin.snoc_last (α := fun _ => Resp) _ _

end AxiLiteXbar

end SystolicSoc
