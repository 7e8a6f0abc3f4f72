import SystolicSoc.Bus.Types
import SystolicSoc.Clocked.Basic

/-!
# The memory interface of the processor

The registers of the native memory interface of `picorv32.v`, and the module `picorv32_axi_adapter`
that turns it into an AXI4-Lite master.  When an access begins, and which, is left open: the
interface keeps the request until it is ready and is then idle for a cycle at least.  The output
`mem_instr` is left out with the `prot` fields, which are all it reaches.

* `MemRegs.next` : one clock edge of the native interface.
* `AxiAdapter.req`, `AxiAdapter.memReady`, `AxiAdapter.next` : the adapter.
-/

namespace SystolicSoc

/-- A request of the native memory interface: a write of the bytes whose strobe is set, or a read if
none is. -/
structure MemReq where
  addr : BitVec 32
  wdata : BitVec 32
  wstrb : BitVec 4
deriving DecidableEq, Repr

/-- `|mem_wstrb`. -/
def MemReq.isWrite (r : MemReq) : Bool := r.wstrb != 0

/-- The output registers of the native memory interface. -/
structure MemRegs where
  memValid : Bool
  request : MemReq
deriving DecidableEq, Repr

namespace MemRegs

/-- One clock edge: the request `go` begins if there is none, and a request ends when it is
ready. -/
def next (go : Option MemReq) (memReady : Bool) (s : MemRegs) : MemRegs :=
  if s.memValid then { s with memValid := !memReady }
  else
    match go with
    | some r => ⟨true, r⟩
    | none => s

theorem next_of_valid {s : MemRegs} (h : s.memValid = true) (go : Option MemReq)
    (memReady : Bool) : s.next go memReady = ⟨!memReady, s.request⟩ := by
  unfold next
  rw [if_pos h]

theorem next_of_not_valid {s : MemRegs} (h : s.memValid = false) (go : Option MemReq)
    (memReady : Bool) : s.next go memReady = ⟨go.isSome, go.getD s.request⟩ := by
  obtain ⟨v, r⟩ := s
  cases go <;> simp_all [next]

end MemRegs

/-- The registers of `picorv32_axi_adapter`. -/
structure AxiAdapter where
  ackAwvalid : Bool
  ackArvalid : Bool
  ackWvalid : Bool
  xferDone : Bool
deriving DecidableEq, Repr

namespace AxiAdapter

variable (m : MemRegs) (resp : Resp) (s : AxiAdapter)

/-- The AXI4-Lite request. -/
def req : Req where
  aw := ⟨m.request.addr⟩
  awValid := m.memValid && m.request.isWrite && !s.ackAwvalid
  w := ⟨m.request.wdata, m.request.wstrb⟩
  wValid := m.memValid && m.request.isWrite && !s.ackWvalid
  bReady := m.memValid && m.request.isWrite
  ar := ⟨m.request.addr⟩
  arValid := m.memValid && !m.request.isWrite && !s.ackArvalid
  rReady := m.memValid && !m.request.isWrite

/-- `mem_ready`: a response is up. -/
def memReady : Bool := resp.bValid || resp.rValid

/-- `mem_rdata`. -/
def memRdata : BitVec 32 := resp.r.data

/-- One clock edge. -/
def next : AxiAdapter :=
  let n := { s with xferDone := m.memValid && memReady resp }
  let n := if resp.awReady && (s.req m).awValid then { n with ackAwvalid := true } else n
  let n := if resp.arReady && (s.req m).arValid then { n with ackArvalid := true } else n
  let n := if resp.wReady && (s.req m).wValid then { n with ackWvalid := true } else n
  if s.xferDone || !m.memValid then
    { n with ackAwvalid := false, ackArvalid := false, ackWvalid := false }
  else n

theorem next_of_not_valid (h : m.memValid = false) :
    next m resp s = ⟨false, false, false, false⟩ := by
  simp [next, req, h]

theorem next_of_valid (h : m.memValid = true) (hx : s.xferDone = false) : next m resp s =
    { ackAwvalid := s.ackAwvalid || (resp.awReady && m.request.isWrite)
      ackArvalid := s.ackArvalid || (resp.arReady && !m.request.isWrite)
      ackWvalid := s.ackWvalid || (resp.wReady && m.request.isWrite)
      xferDone := memReady resp } := by
  obtain ⟨aw, ar, w, x⟩ := s
  simp only [next, req, h, Bool.true_and] at hx ⊢
  subst hx
  cases aw <;> cases ar <;> cases w <;> cases resp.awReady <;> cases resp.arReady <;>
    cases resp.wReady <;> cases m.request.isWrite <;> simp

end AxiAdapter

end SystolicSoc
