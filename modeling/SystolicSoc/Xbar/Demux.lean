import SystolicSoc.Bus.Types
import SystolicSoc.Clocked.Fifo

/-!
# The AXI4-Lite demultiplexer

The module `axi_lite_demux` of `axi_lite_demux.sv` with `n` master ports, `FallThrough` and all
spill registers off: a bypassed spill register is a wire.  The three FIFOs that store the routing
decisions are any implementation `F` of a buffer of `maxTrans` ports.

* `AxiLiteDemux.awControl` : the handshake control of the AW channel; `awControl_eq` says what it
  computes.
* `AxiLiteDemux.mstReqsO`, `AxiLiteDemux.slvRespO` : the combinational outputs.
* `AxiLiteDemux.next`, `axiLiteDemux` : one clock edge, and the machine.
* `AxiLiteDemux.awPort`, `AxiLiteDemux.wPort`, `AxiLiteDemux.bPort`, `AxiLiteDemux.arPort`,
  `AxiLiteDemux.rPort` : the master port at which a beat of each channel is handed over in a cycle.
* `AxiLiteDemux.OnlyAt`, `AxiLiteDemux.OnlyBeat`, `AxiLiteDemux.wBeat_onlyAt` and the like : it is
  the selected port, and no other.
-/

namespace SystolicSoc

-- (a named instance, so that the ports of the crossbar elaborate alike in every module)
instance (priority := high) neZero_three : @NeZero ℕ Zero.ofOfNat0 3 := ⟨Nat.succ_ne_zero 2⟩

variable {n maxTrans : ℕ}

/-- The inputs of `axi_lite_demux`. -/
structure DemuxIn (n : ℕ) where
  slvReqI : Req
  slvAwSelectI : Fin n
  slvArSelectI : Fin n
  mstRespsI : Fin n → Resp

/-- The registers of `axi_lite_demux`. -/
structure AxiLiteDemux (F : Fifo (Fin n) maxTrans) where
  lockAwValidQ : Bool
  iWFifo : F.State
  iBFifo : F.State
  iRFifo : F.State

/-- What the handshake control of the AW channel assigns. -/
structure AwControl (n : ℕ) where
  lockAwValidD : Bool
  loadAwLock : Bool
  slvAwReady : Bool
  mstAwValids : Fin n → Bool
  wFifoPush : Bool

namespace AxiLiteDemux

variable {F : Fifo (Fin n) maxTrans}

/-- The registers after reset. -/
def reset : AxiLiteDemux F := ⟨false, F.reset, F.reset, F.reset⟩

variable (i : DemuxIn n) (s : AxiLiteDemux F)

/-! ### Write channels -/

/-- The AW channel handshake control. -/
def awControl : AwControl n :=
  -- default assignments
  let c : AwControl n :=
    { lockAwValidD := s.lockAwValidQ
      loadAwLock := false
      slvAwReady := false
      mstAwValids := fun _ => false
      wFifoPush := false }
  let mstAwReady := (i.mstRespsI i.slvAwSelectI).awReady
  if s.lockAwValidQ then
    let c := { c with mstAwValids := Function.update c.mstAwValids i.slvAwSelectI true }
    if mstAwReady then { c with slvAwReady := true, lockAwValidD := false, loadAwLock := true }
    else c
  else if !F.full s.iWFifo && i.slvReqI.awValid then
    let c :=
      { c with
        wFifoPush := true
        mstAwValids := Function.update c.mstAwValids i.slvAwSelectI true }
    if mstAwReady then { c with slvAwReady := true }
    else { c with lockAwValidD := true, loadAwLock := true }
  else c

/-- The master port of the W beat. -/
def wSelect : Fin n := F.dataO s.iWFifo

/-- The W beat is taken: a decision is stored for it, and there is room for that of its B beat. -/
def slvWReady : Bool :=
  !F.empty s.iWFifo && !F.full s.iBFifo && (i.mstRespsI s.wSelect).wReady

/-- A W beat is handed over: its decision moves from the W to the B FIFO. -/
def wFifoPop : Bool := i.slvReqI.wValid && slvWReady i s

/-- The master port of the B beat. -/
def bSelect : Fin n := F.dataO s.iBFifo

/-- A B beat is offered to the master. -/
def slvBValid : Bool := !F.empty s.iBFifo && (i.mstRespsI s.bSelect).bValid

/-- A B beat is handed over. -/
def bFifoPop : Bool := slvBValid i s && i.slvReqI.bReady

/-! ### Read channels -/

/-- The AR beat is taken: the selected port takes it, and there is room for its decision. -/
def slvArReady : Bool := !F.full s.iRFifo && (i.mstRespsI i.slvArSelectI).arReady

/-- An AR beat is handed over. -/
def rFifoPush : Bool := i.slvReqI.arValid && slvArReady i s

/-- The master port of the R beat. -/
def rSelect : Fin n := F.dataO s.iRFifo

/-- An R beat is offered to the master. -/
def slvRValid : Bool := if !F.empty s.iRFifo then (i.mstRespsI s.rSelect).rValid else false

/-- An R beat is handed over. -/
def rFifoPop : Bool := slvRValid i s && i.slvReqI.rReady

/-! ### Outputs and registers -/

/-- The request to master port `p`. -/
def mstReqsO (p : Fin n) : Req where
  aw := i.slvReqI.aw
  awValid := (awControl i s).mstAwValids p
  w := i.slvReqI.w
  wValid := !F.empty s.iWFifo && !F.full s.iBFifo && i.slvReqI.wValid && s.wSelect == p
  bReady := !F.empty s.iBFifo && i.slvReqI.bReady && s.bSelect == p
  ar := i.slvReqI.ar
  arValid := !F.full s.iRFifo && i.slvReqI.arValid && i.slvArSelectI == p
  rReady := !F.empty s.iRFifo && i.slvReqI.rReady && s.rSelect == p

/-- The response to the slave port. -/
def slvRespO : Resp where
  awReady := (awControl i s).slvAwReady
  wReady := slvWReady i s
  b := if !F.empty s.iBFifo then (i.mstRespsI s.bSelect).b else ⟨0⟩
  bValid := slvBValid i s
  arReady := slvArReady i s
  r := if !F.empty s.iRFifo then (i.mstRespsI s.rSelect).r else ⟨0, 0⟩
  rValid := slvRValid i s

/-- One clock edge. -/
def next : AxiLiteDemux F where
  lockAwValidQ :=
    if (awControl i s).loadAwLock then (awControl i s).lockAwValidD else s.lockAwValidQ
  iWFifo := F.next (awControl i s).wFifoPush i.slvAwSelectI (wFifoPop i s) s.iWFifo
  iBFifo := F.next (wFifoPop i s) s.wSelect (bFifoPop i s) s.iBFifo
  iRFifo := F.next (rFifoPush i s) i.slvArSelectI (rFifoPop i s) s.iRFifo

/-! ### Events -/

/-- The first port that `f` holds of. -/
def portOf (f : Fin n → Bool) : Option (Fin n) := (List.finRange n).find? f

/-- The master port at which an AW beat is offered. -/
def awOffered : Option (Fin n) := portOf fun p => (mstReqsO i s p).awValid

/-- The master port to which an AW beat is issued, the first cycle in which it is offered there. -/
def awIssued : Option (Fin n) := if s.lockAwValidQ then none else awOffered i s

/-- The master port at which a W beat is handed over. -/
def wPort : Option (Fin n) := portOf fun p => (mstReqsO i s p).wValid && (i.mstRespsI p).wReady

/-- The master port at which a B beat is handed over. -/
def bPort : Option (Fin n) := portOf fun p => (i.mstRespsI p).bValid && (mstReqsO i s p).bReady

/-- The master port at which an AR beat is handed over. -/
def arPort : Option (Fin n) :=
  portOf fun p => (mstReqsO i s p).arValid && (i.mstRespsI p).arReady

/-- The master port at which an R beat is handed over. -/
def rPort : Option (Fin n) := portOf fun p => (i.mstRespsI p).rValid && (mstReqsO i s p).rReady

/-! ### The AW channel -/

/-- An AW beat is offered to the selected port: the one locked, or a new one if there is room for
its routing decision. -/
def awGo : Bool := s.lockAwValidQ || (!F.full s.iWFifo && i.slvReqI.awValid)

/-- **The AW control**: the beat is offered until the selected port takes it, and its routing
decision is pushed in the first cycle. -/
theorem awControl_eq :
    (awControl i s).mstAwValids = (fun p => awGo i s && i.slvAwSelectI == p) ∧
    (awControl i s).slvAwReady = (awGo i s && (i.mstRespsI i.slvAwSelectI).awReady) ∧
    (awControl i s).wFifoPush =
      (!s.lockAwValidQ && (!F.full s.iWFifo && i.slvReqI.awValid)) ∧
    (next i s).lockAwValidQ = (awGo i s && !(i.mstRespsI i.slvAwSelectI).awReady) := by
  have hupdate : Function.update (fun _ => false) i.slvAwSelectI true =
      fun p => i.slvAwSelectI == p := by
    funext p
    by_cases hp : p = i.slvAwSelectI
    · simp [hp]
    · simp [Function.update_of_ne hp, Ne.symm hp]
  unfold next awControl awGo
  cases s.lockAwValidQ <;> cases (!F.full s.iWFifo && i.slvReqI.awValid) <;>
    cases (i.mstRespsI i.slvAwSelectI).awReady <;> simp [hupdate]

theorem wFifoPush_eq : (awControl i s).wFifoPush =
    (!s.lockAwValidQ && (!F.full s.iWFifo && i.slvReqI.awValid)) :=
  (awControl_eq i s).2.2.1

theorem mstAwValids_eq (p : Fin n) :
    (awControl i s).mstAwValids p = (awGo i s && i.slvAwSelectI == p) :=
  congrFun (awControl_eq i s).1 p

theorem slvAwReady_eq : (awControl i s).slvAwReady =
    (awGo i s && (i.mstRespsI i.slvAwSelectI).awReady) :=
  (awControl_eq i s).2.1

theorem lockAwValidQ_next : (next i s).lockAwValidQ =
    (awGo i s && !(i.mstRespsI i.slvAwSelectI).awReady) :=
  (awControl_eq i s).2.2.2

/-! ### The ports of the beats -/

/-- `f` holds of the port `p` if `b`, and of no other port. -/
def OnlyAt (p : Fin n) (b : Bool) (f : Fin n → Bool) : Prop := f p = b ∧ ∀ q, p ≠ q → f q = false

theorem OnlyAt.portOf_eq {p : Fin n} {b : Bool} {f : Fin n → Bool} (h : OnlyAt p b f) :
    portOf f = if b then some p else none := by
  cases hf : portOf f with
  | none =>
    have hp := List.find?_eq_none.1 hf p (List.mem_finRange p)
    rw [h.1] at hp
    rw [if_neg hp]
  | some q =>
    have hq := List.find?_some hf
    have heq : p = q := by
      by_contra hpq
      rw [h.2 q hpq] at hq
      cases hq
    rw [← heq, h.1] at hq
    rw [if_pos hq, heq]

theorem awValid_onlyAt :
    OnlyAt i.slvAwSelectI (awGo i s) fun p => (mstReqsO i s p).awValid := by
  refine ⟨?_, fun q hq => ?_⟩ <;> simp only [mstReqsO, mstAwValids_eq]
  · rw [beq_self_eq_true, Bool.and_true]
  · rw [beq_false_of_ne hq, Bool.and_false]

theorem wBeat_onlyAt : OnlyAt s.wSelect (wFifoPop i s) fun p =>
    (mstReqsO i s p).wValid && (i.mstRespsI p).wReady := by
  refine ⟨?_, fun q hq => ?_⟩ <;> simp only [mstReqsO]
  · rw [beq_self_eq_true, wFifoPop, slvWReady]
    cases F.empty s.iWFifo <;> cases F.full s.iBFifo <;> cases i.slvReqI.wValid <;> simp
  · rw [beq_false_of_ne hq, Bool.and_false, Bool.false_and]

theorem bBeat_onlyAt : OnlyAt s.bSelect (bFifoPop i s) fun p =>
    (i.mstRespsI p).bValid && (mstReqsO i s p).bReady := by
  refine ⟨?_, fun q hq => ?_⟩ <;> simp only [mstReqsO]
  · rw [beq_self_eq_true, bFifoPop, slvBValid]
    cases F.empty s.iBFifo <;> cases i.slvReqI.bReady <;> simp
  · rw [beq_false_of_ne hq, Bool.and_false, Bool.and_false]

theorem arBeat_onlyAt : OnlyAt i.slvArSelectI (rFifoPush i s) fun p =>
    (mstReqsO i s p).arValid && (i.mstRespsI p).arReady := by
  refine ⟨?_, fun q hq => ?_⟩ <;> simp only [mstReqsO]
  · rw [beq_self_eq_true, rFifoPush, slvArReady]
    cases F.full s.iRFifo <;> cases i.slvReqI.arValid <;> simp
  · rw [beq_false_of_ne hq, Bool.and_false, Bool.false_and]

theorem rBeat_onlyAt : OnlyAt s.rSelect (rFifoPop i s) fun p =>
    (i.mstRespsI p).rValid && (mstReqsO i s p).rReady := by
  refine ⟨?_, fun q hq => ?_⟩ <;> simp only [mstReqsO]
  · rw [beq_self_eq_true, rFifoPop, slvRValid]
    cases F.empty s.iRFifo <;> cases i.slvReqI.rReady <;> simp
  · rw [beq_false_of_ne hq, Bool.and_false, Bool.and_false]

theorem awIssued_eq :
    awIssued i s = if (awControl i s).wFifoPush then some i.slvAwSelectI else none := by
  rw [awIssued, awOffered, (awValid_onlyAt i s).portOf_eq, wFifoPush_eq, awGo]
  cases s.lockAwValidQ <;> rfl

theorem wPort_eq : wPort i s = if wFifoPop i s then some s.wSelect else none :=
  (wBeat_onlyAt i s).portOf_eq

theorem bPort_eq : bPort i s = if bFifoPop i s then some s.bSelect else none :=
  (bBeat_onlyAt i s).portOf_eq

theorem arPort_eq : arPort i s = if rFifoPush i s then some i.slvArSelectI else none :=
  (arBeat_onlyAt i s).portOf_eq

theorem rPort_eq : rPort i s = if rFifoPop i s then some s.rSelect else none :=
  (rBeat_onlyAt i s).portOf_eq

end AxiLiteDemux

/-- The demultiplexer as a clocked machine. -/
def axiLiteDemux (F : Fifo (Fin n) maxTrans) : Clocked (DemuxIn n) (AxiLiteDemux F) :=
  ⟨.reset, AxiLiteDemux.next⟩

end SystolicSoc
