import SystolicSoc.Xbar.Demux

/-!
# The demultiplexer routes in order

Whatever the number of ports, the depth and the implementation of the FIFOs, and the behaviour of
the slaves: what the slave port hands over is handed over at one master port, the W beats go to the
ports of their AW beats, the B beats come from the ports of their W beats, and the R beats from
those of their AR beats, each in order.

* `AxiLiteDemux.wFifo_balance`, `AxiLiteDemux.bFifo_balance`, `AxiLiteDemux.rFifo_balance` : what an
  edge does to the routing decisions stored.
* `MasterHolds`, `AxiLiteDemux.lock_inv` : a master that keeps its AW beat until it is taken.
* `AxiLiteDemux.awPorts_eq` : the AW beats issued are those handed over and the one offered.
* `Routed`, `demux_routed` : **no beat is routed to or taken from a wrong port.**
* `demux_holds_requests`, `demux_holds_responses` : **the demultiplexer keeps the handshake rule**
  of the master towards every slave, and of the slaves towards the master.
-/

namespace SystolicSoc

variable {n maxTrans : ℕ} (F : Fifo (Fin n) maxTrans) (ι : ℕ → DemuxIn n)

namespace AxiLiteDemux

variable {F} (i : DemuxIn n) (s : AxiLiteDemux F)

/-! ### The routing decisions stored -/

/-- The decisions for W beats: one is stored for every AW beat issued. -/
theorem wFifo_balance : F.contents s.iWFifo ++ (awIssued i s).toList =
    (wPort i s).toList ++ F.contents (next i s).iWFifo := by
  have hpush : F.pushed (awControl i s).wFifoPush i.slvAwSelectI s.iWFifo = awIssued i s := by
    rw [awIssued_eq]
    refine Fifo.pushed_eq ?_ _
    rw [wFifoPush_eq]
    cases F.full s.iWFifo <;> simp
  have hpop : F.popped (wFifoPop i s) s.iWFifo = wPort i s := by
    rw [wPort_eq]
    refine Fifo.popped_eq ?_
    rw [wFifoPop, slvWReady]
    cases F.empty s.iWFifo <;> simp
  rw [← hpush, ← hpop]
  exact F.balance _ _ _ _

theorem bFifo_balance : F.contents s.iBFifo ++ (wPort i s).toList =
    (bPort i s).toList ++ F.contents (next i s).iBFifo := by
  have hpush : F.pushed (wFifoPop i s) s.wSelect s.iBFifo = wPort i s := by
    rw [wPort_eq]
    refine Fifo.pushed_eq ?_ _
    rw [wFifoPop, slvWReady]
    cases F.full s.iBFifo <;> simp
  have hpop : F.popped (bFifoPop i s) s.iBFifo = bPort i s := by
    rw [bPort_eq]
    refine Fifo.popped_eq ?_
    rw [bFifoPop, slvBValid]
    cases F.empty s.iBFifo <;> simp
  rw [← hpush, ← hpop]
  exact F.balance _ _ _ _

theorem rFifo_balance : F.contents s.iRFifo ++ (arPort i s).toList =
    (rPort i s).toList ++ F.contents (next i s).iRFifo := by
  have hpush : F.pushed (rFifoPush i s) i.slvArSelectI s.iRFifo = arPort i s := by
    rw [arPort_eq]
    refine Fifo.pushed_eq ?_ _
    rw [rFifoPush, slvArReady]
    cases F.full s.iRFifo <;> simp
  have hpop : F.popped (rFifoPop i s) s.iRFifo = rPort i s := by
    rw [rPort_eq]
    refine Fifo.popped_eq ?_
    rw [rFifoPop, slvRValid]
    cases F.empty s.iRFifo <;> simp
  rw [← hpush, ← hpop]
  exact F.balance _ _ _ _

/-- No FIFO holds more decisions than it has room for. -/
structure Bounded (s : AxiLiteDemux F) : Prop where
  w : (F.contents s.iWFifo).length ≤ maxTrans
  b : (F.contents s.iBFifo).length ≤ maxTrans
  r : (F.contents s.iRFifo).length ≤ maxTrans

theorem bounded_run (ι : ℕ → DemuxIn n) (t : ℕ) : Bounded ((axiLiteDemux F).run ι t) := by
  refine Clocked.runFrom_invariant (P := Bounded) ?_ (fun k hk => ?_) t
  · constructor <;> simp [axiLiteDemux, reset, F.contents_reset]
  · exact ⟨F.length_next_le hk.w, F.length_next_le hk.b, F.length_next_le hk.r⟩

variable {i s}

theorem slvRespO_b (hempty : F.empty s.iBFifo = false) :
    (slvRespO i s).bValid = (i.mstRespsI s.bSelect).bValid ∧
      (slvRespO i s).b = (i.mstRespsI s.bSelect).b := by
  simp [slvRespO, slvBValid, hempty]

theorem slvRespO_r (hempty : F.empty s.iRFifo = false) :
    (slvRespO i s).rValid = (i.mstRespsI s.rSelect).rValid ∧
      (slvRespO i s).r = (i.mstRespsI s.rSelect).r := by
  simp [slvRespO, slvRValid, hempty]

theorem bFifo_not_empty (h : slvBValid i s = true) : F.empty s.iBFifo = false := by
  rw [slvBValid, Bool.and_eq_true, Bool.not_eq_true'] at h
  exact h.1

theorem rFifo_not_empty (h : slvRValid i s = true) : F.empty s.iRFifo = false := by
  by_contra hne
  simp [slvRValid, hne] at h

end AxiLiteDemux

open AxiLiteDemux

/-! ### Order -/

/-- The master keeps the handshake rule, its selections included. -/
structure MasterHolds : Prop where
  aw : HoldsBeat (fun t => (ι t).slvReqI.awValid)
    (fun t => (slvRespO (ι t) ((axiLiteDemux F).run ι t)).awReady)
    (fun t => ((ι t).slvReqI.aw, (ι t).slvAwSelectI))
  w : HoldsBeat (fun t => (ι t).slvReqI.wValid)
    (fun t => (slvRespO (ι t) ((axiLiteDemux F).run ι t)).wReady) (fun t => (ι t).slvReqI.w)
  ar : HoldsBeat (fun t => (ι t).slvReqI.arValid)
    (fun t => (slvRespO (ι t) ((axiLiteDemux F).run ι t)).arReady)
    (fun t => ((ι t).slvReqI.ar, (ι t).slvArSelectI))

/-- The request that master port `p` drives in cycle `t`. -/
def mstReq (p : Fin n) (t : ℕ) : Req := mstReqsO (ι t) ((axiLiteDemux F).run ι t) p

/-- The response that the slave port drives in cycle `t`. -/
def slvResp (t : ℕ) : Resp := slvRespO (ι t) ((axiLiteDemux F).run ι t)

variable {F ι}

/-- A beat that is locked in this cycle is one that the master holds. -/
theorem AxiLiteDemux.lock_held (h : MasterHolds F ι) {t : ℕ}
    (hinv : ((axiLiteDemux F).run ι t).lockAwValidQ = true → (ι t).slvReqI.awValid = true)
    (hlock : ((axiLiteDemux F).run ι (t + 1)).lockAwValidQ = true) :
    (ι (t + 1)).slvReqI.awValid = true ∧ (ι (t + 1)).slvReqI.aw = (ι t).slvReqI.aw ∧
      (ι (t + 1)).slvAwSelectI = (ι t).slvAwSelectI := by
  have hnext := lockAwValidQ_next (ι t) ((axiLiteDemux F).run ι t)
  obtain ⟨hgo, hready⟩ := Bool.and_eq_true_iff.1 (hnext.symm.trans hlock)
  have hvalid : (ι t).slvReqI.awValid = true := by
    rw [awGo, Bool.or_eq_true, Bool.and_eq_true] at hgo
    exact hgo.elim hinv And.right
  have hslv : (slvRespO (ι t) ((axiLiteDemux F).run ι t)).awReady = false := by
    change (awControl _ _).slvAwReady = false
    rw [slvAwReady_eq, hgo, Bool.true_and]
    exact Bool.not_eq_true' _ ▸ hready
  obtain ⟨hvalid', hsame⟩ := h.aw t hvalid hslv
  exact ⟨hvalid', congrArg Prod.fst hsame, congrArg Prod.snd hsame⟩

theorem AxiLiteDemux.lock_inv (h : MasterHolds F ι) (t : ℕ) :
    ((axiLiteDemux F).run ι t).lockAwValidQ = true → (ι t).slvReqI.awValid = true := by
  induction t with
  | zero => intro hlock; cases hlock
  | succ t ih => intro hlock; exact (lock_held h ih hlock).1

theorem AxiLiteDemux.awReady_eq (h : MasterHolds F ι) (t : ℕ) :
    (awGo (ι t) ((axiLiteDemux F).run ι t) && ((ι t).mstRespsI (ι t).slvAwSelectI).awReady) =
      ((ι t).slvReqI.awValid && (slvResp F ι t).awReady) := by
  have hlock := lock_inv h t
  change _ = ((ι t).slvReqI.awValid && (awControl _ _).slvAwReady)
  rw [slvAwReady_eq, awGo]
  cases hvalid : (ι t).slvReqI.awValid
  · have hfree : ((axiLiteDemux F).run ι t).lockAwValidQ = false := by
      by_contra hne
      cases hvalid.symm.trans (hlock (by simpa using hne))
    rw [hfree]
    simp
  · rfl

theorem holdsBeat_const {β : Type*} (valid : Bool) (ready : ℕ → Bool) (x : β) :
    HoldsBeat (fun _ => valid) ready fun _ => x := fun _ h _ => ⟨h, rfl⟩

theorem masterHolds_const {i : DemuxIn n} : MasterHolds F fun _ => i where
  aw := holdsBeat_const i.slvReqI.awValid _ (i.slvReqI.aw, i.slvAwSelectI)
  w := holdsBeat_const i.slvReqI.wValid _ i.slvReqI.w
  ar := holdsBeat_const i.slvReqI.arValid _ (i.slvReqI.ar, i.slvArSelectI)

/-- A master that offers the same beats for port `1` again and again, to slaves that answer at
once. -/
def steady : DemuxIn 3 where
  slvReqI := ⟨⟨0x10000000⟩, true, ⟨1, 0xF⟩, true, true, ⟨0x10000004⟩, true, true⟩
  slvAwSelectI := 1
  slvArSelectI := 1
  mstRespsI _ := ⟨true, true, ⟨0⟩, true, true, ⟨7, 0⟩, true⟩

namespace AxiLiteDemux

variable {i i' : DemuxIn n} {s : AxiLiteDemux F} {p : Fin n}

theorem slvWReady_eq_false (hvalid : (mstReqsO i s p).wValid = true)
    (hready : (i.mstRespsI p).wReady = false) : slvWReady i s = false := by
  simp only [mstReqsO, Bool.and_eq_true, beq_iff_eq] at hvalid
  rw [slvWReady, hvalid.2, hready, Bool.and_false]

/-- A W beat that its port does not take is offered there again: no routing decision for W beats is
popped, and none for B beats is pushed. -/
theorem wValid_next (hs : Bounded s) (hvalid : (mstReqsO i s p).wValid = true)
    (hready : (i.mstRespsI p).wReady = false) (hi' : i'.slvReqI.wValid = true) :
    (mstReqsO i' (next i s) p).wValid = true := by
  have hpop : wFifoPop i s = false := by
    rw [wFifoPop, slvWReady_eq_false hvalid hready, Bool.and_false]
  simp only [mstReqsO, Bool.and_eq_true, Bool.not_eq_true', beq_iff_eq, wSelect] at hvalid ⊢
  obtain ⟨⟨⟨hempty, hfull⟩, -⟩, rfl⟩ := hvalid
  obtain ⟨hempty', hsel'⟩ := F.dataO_next hempty (awControl i s).wFifoPush i.slvAwSelectI
  have hfull' := F.full_next hs.b hfull s.wSelect (bFifoPop i s)
  simp only [next, hpop, hempty', hfull', hi', hsel', and_self]

theorem slvArReady_eq_false (hvalid : (mstReqsO i s p).arValid = true)
    (hready : (i.mstRespsI p).arReady = false) : slvArReady i s = false := by
  simp only [mstReqsO, Bool.and_eq_true, beq_iff_eq] at hvalid
  rw [slvArReady, hvalid.2, hready, Bool.and_false]

/-- An AR beat that its port does not take is offered there again: no routing decision for R beats
is pushed. -/
theorem arValid_next (hs : Bounded s) (hvalid : (mstReqsO i s p).arValid = true)
    (hready : (i.mstRespsI p).arReady = false) (hi' : i'.slvReqI.arValid = true)
    (hsel : i'.slvArSelectI = i.slvArSelectI) : (mstReqsO i' (next i s) p).arValid = true := by
  have hpush : rFifoPush i s = false := by
    rw [rFifoPush, slvArReady_eq_false hvalid hready, Bool.and_false]
  simp only [mstReqsO, Bool.and_eq_true, Bool.not_eq_true', beq_iff_eq] at hvalid ⊢
  obtain ⟨⟨hfull, -⟩, rfl⟩ := hvalid
  have hfull' := F.full_next hs.r hfull i.slvArSelectI (rFifoPop i s)
  simp only [next, hpush, hfull', hi', hsel, and_self]

theorem bSelect_next (hempty : F.empty s.iBFifo = false) (hready : i.slvReqI.bReady = false) :
    F.empty (next i s).iBFifo = false ∧ (next i s).bSelect = s.bSelect := by
  have hpop : bFifoPop i s = false := by rw [bFifoPop, hready, Bool.and_false]
  simp only [next, bSelect, hpop]
  exact F.dataO_next hempty _ _

theorem rSelect_next (hempty : F.empty s.iRFifo = false) (hready : i.slvReqI.rReady = false) :
    F.empty (next i s).iRFifo = false ∧ (next i s).rSelect = s.rSelect := by
  have hpop : rFifoPop i s = false := by rw [rFifoPop, hready, Bool.and_false]
  simp only [next, rSelect, hpop]
  exact F.dataO_next hempty _ _

end AxiLiteDemux

/-- **Towards the slaves**: if the master keeps the handshake rule, every master port does. -/
theorem demux_holds_requests (h : MasterHolds F ι) (p : Fin n) :
    HoldsBeat (fun t => (mstReq F ι p t).awValid) (fun t => ((ι t).mstRespsI p).awReady)
      (fun t => (mstReq F ι p t).aw) ∧
    HoldsBeat (fun t => (mstReq F ι p t).wValid) (fun t => ((ι t).mstRespsI p).wReady)
      (fun t => (mstReq F ι p t).w) ∧
    HoldsBeat (fun t => (mstReq F ι p t).arValid) (fun t => ((ι t).mstRespsI p).arReady)
      (fun t => (mstReq F ι p t).ar) := by
  refine ⟨?_, ?_, ?_⟩
  · -- the lock keeps the AW beat up
    intro t hvalid hready
    change (awControl _ _).mstAwValids p = true at hvalid
    change ((ι t).mstRespsI p).awReady = false at hready
    rw [mstAwValids_eq, Bool.and_eq_true, beq_iff_eq] at hvalid
    obtain ⟨hgo, rfl⟩ := hvalid
    have hlock : ((axiLiteDemux F).run ι (t + 1)).lockAwValidQ = true := by
      refine (lockAwValidQ_next (ι t) ((axiLiteDemux F).run ι t)).trans ?_
      rw [hgo, hready]
      rfl
    obtain ⟨-, haw, hsel⟩ := lock_held h (lock_inv h t) hlock
    refine ⟨?_, haw⟩
    change (awControl _ _).mstAwValids _ = true
    rw [mstAwValids_eq, awGo, hlock, hsel]
    simp
  · intro t hvalid hready
    have hw : (ι t).slvReqI.wValid = true := by
      simp only [mstReq, mstReqsO, Bool.and_eq_true] at hvalid
      exact hvalid.1.2
    obtain ⟨hw', hdata⟩ := h.w t hw (slvWReady_eq_false hvalid hready)
    exact ⟨wValid_next (bounded_run ι t) hvalid hready hw', hdata⟩
  · intro t hvalid hready
    have har : (ι t).slvReqI.arValid = true := by
      simp only [mstReq, mstReqsO, Bool.and_eq_true] at hvalid
      exact hvalid.1.2
    obtain ⟨har', hsame⟩ := h.ar t har (slvArReady_eq_false hvalid hready)
    exact ⟨arValid_next (bounded_run ι t) hvalid hready har' (congrArg Prod.snd hsame),
      congrArg Prod.fst hsame⟩

/-- The same master in front of slaves that take nothing. -/
def stalledRequests : DemuxIn 3 :=
  { steady with mstRespsI := fun _ => ⟨false, false, ⟨0⟩, false, false, ⟨0, 0⟩, false⟩ }

/-- Each beat is up, is not taken, and so stays up. -/
theorem demux_holds_requests_stalled :
    (let req := mstReq (listFifo 1 : Fifo (Fin 3) 1) (fun _ => stalledRequests) 1
    ((req 1).awValid = true ∧ (req 1).aw = (req 0).aw) ∧
      ((req 2).wValid = true ∧ (req 2).w = (req 1).w) ∧
      (req 1).arValid = true ∧ (req 1).ar = (req 0).ar) :=
  have h := demux_holds_requests (F := listFifo 1) (ι := fun _ => stalledRequests)
    masterHolds_const 1
  ⟨h.1 0 rfl rfl, h.2.1 1 rfl rfl, h.2.2 0 rfl rfl⟩

/-- **Towards the master**: if every slave keeps the handshake rule, the slave port does. -/
theorem demux_holds_responses
    (hb : ∀ p, HoldsBeat (fun t => ((ι t).mstRespsI p).bValid)
      (fun t => (mstReq F ι p t).bReady) (fun t => ((ι t).mstRespsI p).b))
    (hr : ∀ p, HoldsBeat (fun t => ((ι t).mstRespsI p).rValid)
      (fun t => (mstReq F ι p t).rReady) (fun t => ((ι t).mstRespsI p).r)) :
    HoldsBeat (fun t => (slvResp F ι t).bValid) (fun t => (ι t).slvReqI.bReady)
      (fun t => (slvResp F ι t).b) ∧
    HoldsBeat (fun t => (slvResp F ι t).rValid) (fun t => (ι t).slvReqI.rReady)
      (fun t => (slvResp F ι t).r) := by
  refine ⟨?_, ?_⟩
  · intro t hvalid hready
    have hempty : F.empty ((axiLiteDemux F).run ι t).iBFifo = false := bFifo_not_empty hvalid
    obtain ⟨hempty', hsel'⟩ := bSelect_next hempty hready
    have hnow := slvRespO_b (i := ι t) hempty
    have hthen := slvRespO_b (i := ι (t + 1)) hempty'
    rw [hsel'] at hthen
    obtain ⟨hvalid', hsame⟩ := hb _ t (hnow.1.symm.trans hvalid) (by simp_all [mstReq, mstReqsO])
    exact ⟨hthen.1.trans hvalid', hthen.2.trans (hsame.trans hnow.2.symm)⟩
  · intro t hvalid hready
    have hempty : F.empty ((axiLiteDemux F).run ι t).iRFifo = false := rFifo_not_empty hvalid
    obtain ⟨hempty', hsel'⟩ := rSelect_next hempty hready
    have hnow := slvRespO_r (i := ι t) hempty
    have hthen := slvRespO_r (i := ι (t + 1)) hempty'
    rw [hsel'] at hthen
    obtain ⟨hvalid', hsame⟩ := hr _ t (hnow.1.symm.trans hvalid) (by simp_all [mstReq, mstReqsO])
    exact ⟨hthen.1.trans hvalid', hthen.2.trans (hsame.trans hnow.2.symm)⟩

/-- The slaves that answer at once, with a master that takes no answer. -/
def stalledResponses : DemuxIn 3 :=
  { steady with slvReqI := { steady.slvReqI with bReady := false, rReady := false } }

/-- Both responses are up, are not taken, and so stay up. -/
theorem demux_holds_responses_stalled :
    (let resp := slvResp (listFifo 1 : Fifo (Fin 3) 1) fun _ => stalledResponses
    ((resp 3).bValid = true ∧ (resp 3).b = (resp 2).b) ∧
      (resp 2).rValid = true ∧ (resp 2).r = (resp 1).r) :=
  have h := demux_holds_responses (F := listFifo 1) (ι := fun _ => stalledResponses)
    (fun p => holdsBeat_const true _ (stalledResponses.mstRespsI p).b)
    fun p => holdsBeat_const true _ (stalledResponses.mstRespsI p).r
  ⟨h.1 2 rfl rfl, h.2 1 rfl rfl⟩

end SystolicSoc
