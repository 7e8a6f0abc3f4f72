import SystolicSoc.Driver.Correct
import SystolicSoc.Soc.Memory

/-!
# The firmware on the SoC

`main` of `main.c` on the whole SoC.  Its accesses go through the memory interface, the crossbar
and the bus of the accelerator, with any other traffic in between: instruction fetches, reads of the
tables, the stack.  Every result that is loaded is stored to the array `results` in the memory
before the next one is loaded.

* `Choice`, `Firmware.next`, `firmware` : the processor between its accesses, and the machine.
* `Firmware.At` : the invariant, in which the program and the accelerator are those of
  `SystolicSoc.Driver.Correct`; `system_next` : the SoC is one of the buses considered there.
* `firmware_results` : **once `main` has ended, the array holds the sums of the tables.**
-/

namespace SystolicSoc

variable {P : XbarParts 2 1} {up : PowerUp}

/-- What the processor does in a cycle in which it has no access. -/
inductive Choice
  /-- Nothing. -/
  | wait
  /-- It begins an access that is not one of `main`. -/
  | other (r : MemReq)
  /-- It begins the next access of `main`; a load leaves `wdata` on the data outputs. -/
  | proceed (wdata : BitVec 32)

/-- The access that begins is one of `main`. -/
def Choice.isProceed : Choice → Bool
  | wait | other _ => false
  | proceed _ => true

/-- The request of an access. -/
def Access.req (wdata : BitVec 32) : Access → MemReq
  | .store addr data => ⟨addr, data, 0xF#4⟩
  | .load addr => ⟨addr, wdata, 0#4⟩

/-- The result that the access at a program point loads. -/
def MainPc.result : MainPc → Option (Fin 16)
  | readResult i => some i
  | _ => none

/-- `&results[i]`. -/
def resultAddr (base : BitVec 32) (i : Fin 16) : BitVec 32 := base + BitVec.ofNat 32 (4 * i.val)

/-- The SoC with the program `main` on its processor. -/
structure Firmware (P : XbarParts 2 1) where
  soc : SocTop P
  main : MainState
  /-- The result that is loaded and not stored. -/
  toStore : Option (Fin 16)
  /-- The access in flight is one of `main`. -/
  mine : Bool

namespace Firmware

variable (a b : Table) (base : BitVec 32) (c : Choice) (φ : Firmware P)

/-- The next access of `main`, or the one in flight. -/
def access : Option Access :=
  match φ.toStore with
  | some i => some (.store (resultAddr base i) (φ.main.results i))
  | none => φ.main.pc.access a b

/-- The request that begins. -/
def go : Option MemReq :=
  match c with
  | .wait => none
  | .other r => some r
  | .proceed wdata => (φ.access a b base).map (Access.req wdata)

/-- An access of `main` completes. -/
def ends : Bool := φ.mine && (φ.soc.cpu.memValid && φ.soc.memReady)

/-- One clock edge. -/
def next : Firmware P where
  soc := φ.soc.next (φ.go a b base c)
  main :=
    if φ.ends && φ.toStore.isNone then φ.main.complete (AxiAdapter.memRdata φ.soc.cpuResp)
    else φ.main
  toStore :=
    if φ.ends then (if φ.toStore.isNone then φ.main.pc.result else none) else φ.toStore
  mine := if φ.soc.cpu.memValid then φ.mine else c.isProceed

theorem next_main : (φ.next a b base c).main =
    if φ.ends && φ.toStore.isNone then φ.main.complete (AxiAdapter.memRdata φ.soc.cpuResp)
    else φ.main := rfl

theorem next_toStore : (φ.next a b base c).toStore =
    if φ.ends then (if φ.toStore.isNone then φ.main.pc.result else none) else φ.toStore := rfl

theorem next_mine : (φ.next a b base c).mine =
    if φ.soc.cpu.memValid then φ.mine else c.isProceed := rfl

/-- `main` has ended: its last result is stored. -/
def Halted : Prop := φ.main.pc = .halt ∧ φ.toStore = none

instance : Decidable φ.Halted := inferInstanceAs (Decidable (_ ∧ _))

end Firmware

instance (priority := high) neZero_eight : @NeZero ℕ Zero.ofOfNat0 8 := ⟨Nat.succ_ne_zero 7⟩

/-- The firmware as a clocked machine, with the array `results` at `base`. -/
def firmware (P : XbarParts 2 1) (up : PowerUp) (a b : Table) (base : BitVec 32)
    (results : Fin 16 → BitVec 32) : Clocked Choice (Firmware P) where
  reset := ⟨.reset up, ⟨.storeA 0 0, results⟩, none, false⟩
  edge c φ := φ.next a b base c

/-- The array lies in the memory, aligned to words. -/
def ResultsArea (base : BitVec 32) : Prop := base.toNat % 4 = 0 ∧ base.toNat + 64 ≤ 0x10000

instance (base : BitVec 32) : Decidable (ResultsArea base) := inferInstanceAs (Decidable (_ ∧ _))

/-- The other accesses leave the accelerator and the array alone. -/
def Choice.Harmless (base : BitVec 32) : Choice → Prop
  | .other r => target r.addr ≠ 1 ∧
      (r.isWrite = true → ¬ (base.toNat ≤ r.addr.toNat ∧ r.addr.toNat < base.toNat + 64))
  | _ => True

theorem entry_lt (k l : Fin 4) : 4 * k.val + l.val < 16 := by omega

/-! ### The bus of the accelerator -/

open Stage

/-- The choices of a master that drives `req`. -/
def Delays.ofReq (req : Req) : Delays :=
  ⟨req.awValid, req.wValid, req.arValid, req.bReady, req.rReady, req.aw, req.w, req.ar⟩

/-- The beats of an access that have been accepted in a stage. -/
def Stage.inFlight (t : Stage) : InFlight := ⟨t.awSent, t.wSent, t.arSent⟩

/-- In every stage of an access of `main`, the bus of the accelerator is driven as its master
would drive it. -/
theorem drive_stage (acc : Access) (wdata : BitVec 32) {t : Stage}
    (hfits : t.fits (acc.req wdata).isWrite false) :
    drive (some acc) t.inFlight (.ofReq (t.req (acc.req wdata) true)) =
      t.req (acc.req wdata) true := by
  cases acc with
  | store addr data =>
    have hwrite : (Access.req wdata (.store addr data)).isWrite = true := rfl
    rw [hwrite] at hfits
    cases t <;> simp_all [drive, Delays.noBeat, Delays.ofReq, Stage.req, Stage.fits,
      Stage.inFlight, awSent, wSent, arSent, Access.req]
  | load addr =>
    have hread : (Access.req wdata (.load addr)).isWrite = false := rfl
    rw [hread] at hfits
    cases t <;> simp_all [drive, Delays.noBeat, Delays.ofReq, Stage.req, Stage.fits,
      Stage.inFlight, awSent, wSent, arSent, Access.req]

section Stages

variable {acc : Access} {wdata : BitVec 32} {t : Stage} {s : AccelRegs}

theorem completes_stage (hfits : t.fits (acc.req wdata).isWrite false)
    (hs : accelSlave.At t (acc.req wdata) true s) :
    completes (some acc) (.ofReq (t.req (acc.req wdata) true)) s.respO =
      (t.bUp false || t.rUp false) := by
  have hb : s.respO.bValid = _ := (accelSlave.bValid_eq s).trans hs.b
  have hr : s.respO.rValid = _ := (accelSlave.rValid_eq s).trans hs.rd
  cases acc with
  | store addr data =>
    have hwrite : (Access.req wdata (.store addr data)).isWrite = true := rfl
    rw [hwrite] at hfits
    rw [completes, hb]
    cases t <;> simp_all [Delays.ofReq, Stage.req, Stage.fits, wSent, bUp, rUp]
  | load addr =>
    have hread : (Access.req wdata (.load addr)).isWrite = false := rfl
    rw [hread] at hfits
    rw [completes, hr]
    cases t <;> simp_all [Delays.ofReq, Stage.req, Stage.fits, arSent, bUp, rUp]

theorem inFlight_stage (hfits : t.fits (acc.req wdata).isWrite false)
    (hs : accelSlave.At t (acc.req wdata) true s) (ht : t ≠ idle) (go : Bool) :
    t.inFlight.next (some acc) (.ofReq (t.req (acc.req wdata) true)) s.respO =
      (t.next go (acc.req wdata).isWrite false).inFlight := by
  have hresp := hs.resp (L := accelSlave) (by rintro rfl; exact absurd hfits.2 (by simp))
  rw [InFlight.next, completes_stage hfits hs]
  have hgo := next_ne_idle go ht hfits
  split_ifs with hup
  · -- the access has ended
    rw [hup, Bool.not_true, decide_eq_false_iff_not, not_not] at hgo
    rw [hgo]
    rfl
  · rw [Bool.eq_false_iff.2 hup, Bool.not_false, decide_eq_true_eq] at hgo
    obtain ⟨haw, hw, har⟩ := sent_next ht hfits hgo
    rw [drive_stage acc wdata hfits, Stage.inFlight, Stage.inFlight, haw, hw, har]
    have haw' : t = request → s.respO.awReady = true := hresp.aw
    have hw' : t = .data → s.respO.wReady = true := hresp.w
    have har' : t = request → s.respO.arReady = true := hresp.ar
    cases t <;> simp_all [Stage.req]

end Stages

theorem drive_unasked (acc : Option Access) {req : Req} (haw : req.awValid = false)
    (hw : req.wValid = false) (har : req.arValid = false) :
    drive acc .fresh (.ofReq req) = req := by
  obtain ⟨aw, awv, w, wv, br, ar, arv, rr⟩ := req
  obtain rfl : awv = false := haw
  obtain rfl : wv = false := hw
  obtain rfl : arv = false := har
  cases acc with
  | none => rfl
  | some acc => cases acc <;> simp [drive, Delays.noBeat, Delays.ofReq, InFlight.fresh]

theorem inFlight_unasked (acc : Option Access) {req : Req} (haw : req.awValid = false)
    (hw : req.wValid = false) (har : req.arValid = false) (hb : req.bReady = false)
    (hr : req.rReady = false) (resp : Resp) :
    completes acc (.ofReq req) resp = false ∧
      InFlight.fresh.next acc (.ofReq req) resp = .fresh := by
  have hc : completes acc (.ofReq req) resp = false := by
    cases acc with
    | none => rfl
    | some acc => cases acc <;> simp [completes, Delays.ofReq, hb, hr]
  refine ⟨hc, ?_⟩
  rw [InFlight.next, hc, drive_unasked acc haw hw har, haw, hw, har]
  rfl

/-! ### The accesses of `main` -/

theorem target_access {a b : Table} {pc : MainPc} {acc : Access} (h : pc.access a b = some acc)
    (wdata : BitVec 32) : target (acc.req wdata).addr = 1 := by
  have hA : ∀ (i : Fin 8) (j : Fin 2),
      target (accelABase + BitVec.ofNat 32 (i.val * 8 + 4 * j.val)) = 1 := by decide
  have hB : ∀ (i : Fin 8) (j : Fin 2),
      target (accelBBase + BitVec.ofNat 32 (i.val * 8 + 4 * j.val)) = 1 := by decide
  have hR : ∀ i : Fin 16, target (accelResultBase + BitVec.ofNat 32 (i.val * 4)) = 1 := by decide
  cases pc with
  | storeA i j => cases h; exact hA i j
  | storeB i j => cases h; exact hB i j
  | ctrl =>
    cases h
    change target accelCtrl = 1
    decide
  | poll =>
    cases h
    change target accelStatus = 1
    decide
  | readResult i => cases h; exact hR i
  | halt => cases h

theorem resultAddr_toNat {base : BitVec 32} (h : ResultsArea base) (i : Fin 16) :
    (resultAddr base i).toNat = base.toNat + 4 * i.val := by
  have := h.2
  rw [resultAddr, BitVec.toNat_add, BitVec.toNat_ofNat]
  omega

theorem target_resultAddr {base : BitVec 32} (h : ResultsArea base) (i : Fin 16) :
    target (resultAddr base i) = 0 := by
  have := h.2
  rw [target_eq_zero, resultAddr_toNat h]
  omega

namespace Firmware

variable {a b : Table} {base : BitVec 32} {c : Choice} {φ : Firmware P} {t : Stage}

/-- The access in flight is one of `main` to the accelerator. -/
def driving (φ : Firmware P) : Bool := φ.mine && φ.toStore.isNone

/-- What the access in flight is. -/
structure Requests (a b : Table) (base : BitVec 32) (t : Stage) (φ : Firmware P) : Prop where
  mine : φ.mine = true → t ≠ idle → ∃ acc wdata,
    φ.access a b base = some acc ∧ φ.soc.cpu.request = acc.req wdata
  other : φ.mine = false → t ≠ idle → (Choice.other φ.soc.cpu.request).Harmless base

theorem Requests.driving (h : Requests a b base t φ) (hd : φ.driving = true) (ht : t ≠ idle) :
    ∃ acc wdata, φ.main.pc.access a b = some acc ∧ φ.soc.cpu.request = acc.req wdata ∧
      φ.soc.owner = 1 := by
  obtain ⟨hmine, hstore⟩ := Bool.and_eq_true_iff.1 hd
  rw [Option.isNone_iff_eq_none] at hstore
  obtain ⟨acc, wdata, hacc, hreq⟩ := h.mine hmine ht
  rw [access, hstore] at hacc
  refine ⟨acc, wdata, hacc, hreq, ?_⟩
  rw [SocTop.owner, hreq]
  exact target_access hacc wdata

theorem Requests.not_driving (harea : ResultsArea base) (h : Requests a b base t φ)
    (hd : φ.driving = false) (ht : t ≠ idle) : (φ.soc.owner == 1) = false := by
  rw [beq_eq_false_iff_ne, SocTop.owner]
  cases hmine : φ.mine with
  | false => exact (h.other hmine ht).1
  | true =>
    obtain ⟨acc, wdata, hacc, hreq⟩ := h.mine hmine ht
    rw [Firmware.driving, hmine, Bool.true_and] at hd
    obtain ⟨i, hi⟩ := Option.isSome_iff_exists.1 (by simpa using hd)
    rw [access, hi] at hacc
    cases hacc
    rw [hreq, show (Access.req wdata (.store (resultAddr base i) (φ.main.results i))).addr =
      resultAddr base i from rfl, target_resultAddr harea]
    decide

/-- The program, its master and the accelerator. -/
def system (t : Stage) (φ : Firmware P) : System :=
  ⟨φ.main, if φ.driving then t.inFlight else .fresh, φ.soc.accel⟩

/-- What `main` does with the data of an access that is not a load does not depend on them. -/
theorem complete_store {m : MainState} {addr data : BitVec 32}
    (h : m.pc.access a b = some (.store addr data)) (d d' : BitVec 32) :
    m.complete d = m.complete d' := by
  obtain ⟨pc, results⟩ := m
  cases pc <;> first | rfl | cases h

theorem complete_eq (hat : φ.soc.At up t) (howner : φ.soc.owner = 1) {acc : Access}
    {wdata : BitVec 32} (hacc : φ.main.pc.access a b = some acc)
    (hrequest : φ.soc.cpu.request = acc.req wdata) (hready : φ.soc.memReady = true) :
    φ.main.complete (AxiAdapter.memRdata φ.soc.cpuResp) =
      φ.main.complete φ.soc.accel.respO.r.data := by
  cases acc with
  | store addr data => exact complete_store hacc _ _
  | load addr =>
    have hfits := hat.fits
    rw [hrequest, howner, show (Access.req wdata (.load addr)).isWrite = false from rfl] at hfits
    rw [hat.memReady, howner] at hready
    have hanswer := eq_answer hfits hready
    have hr := hat.cpuResp.2.2.2.2.2 (by rw [hanswer]; rfl)
    rw [howner, show (1 : Fin 3) = (1 : Fin 2).castSucc from rfl,
      AxiLiteXbar.slvResps_castSucc] at hr
    rw [AxiAdapter.memRdata, hr]
    rfl

theorem system_next_driving (hat : φ.soc.At up t) (hreq : Requests a b base t φ) (c : Choice)
    (hd : φ.driving = true) (ht : t ≠ idle) :
    (φ.next a b base c).system
        (t.next (φ.go a b base c).isSome φ.soc.cpu.request.isWrite (φ.soc.owner == 2)) =
      (φ.system t).next a b (.ofReq (φ.soc.xbarReq 1)) := by
  obtain ⟨acc, wdata, hacc, hrequest, howner⟩ := hreq.driving hd ht
  obtain ⟨hmine, hstore⟩ := Bool.and_eq_true_iff.1 hd
  have hask : φ.soc.xbarReq 1 = t.req φ.soc.cpu.request (φ.soc.owner == 1) := hat.slvReqs 1
  have hstage := hat.accel
  have hfits := hat.fits
  have hmem := hat.memReady
  have hv : φ.soc.cpu.memValid = true := by rw [hat.valid, decide_eq_true ht]
  have hends : φ.ends = φ.soc.memReady := by rw [ends, hmine, hv, Bool.true_and, Bool.true_and]
  rw [howner, hrequest, beq_self_eq_true] at hask hstage
  rw [howner, hrequest, show ((1 : Fin 3) == 2) = false from rfl] at hfits
  rw [howner, show ((1 : Fin 3) == 2) = false from rfl, ← completes_stage hfits hstage,
    ← hask] at hmem
  rw [howner, hrequest, show ((1 : Fin 3) == 2) = false from rfl]
  have hflight := inFlight_stage hfits hstage ht (φ.go a b base c).isSome
  have hdrive := drive_stage acc wdata hfits
  rw [← hask] at hflight hdrive
  rw [system, system, System.next, System.access, if_pos hd, hacc, System.mk.injEq]
  refine ⟨?_, ?_, ?_⟩
  · -- the program goes on when its access completes
    rw [MainState.step, hacc, ← hmem, next_main, hends, hstore, Bool.and_true]
    split_ifs with hready
    · exact complete_eq hat howner hacc hrequest hready
    · rfl
  · rw [hflight]
    split_ifs with hd'
    · rfl
    · -- a result was loaded, so nothing is in flight
      have hgo := next_ne_idle (φ.go a b base c).isSome ht hfits
      rw [← completes_stage hfits hstage, ← hask, ← hmem] at hgo
      cases hready : φ.soc.memReady with
      | true =>
        rw [hready, Bool.not_true, decide_eq_false_iff_not, not_not] at hgo
        rw [hgo]
        rfl
      | false =>
        refine absurd ?_ hd'
        rw [driving, next_mine, next_toStore, hv, hends, hready, if_pos rfl, hmine, Bool.true_and]
        exact hstore
  · rw [hdrive]
    rfl

theorem system_next_resting (harea : ResultsArea base) (hat : φ.soc.At up t)
    (hreq : Requests a b base t φ) (c : Choice) (hd : ¬ (φ.driving = true ∧ t ≠ idle)) :
    (φ.next a b base c).system
        (t.next (φ.go a b base c).isSome φ.soc.cpu.request.isWrite (φ.soc.owner == 2)) =
      (φ.system t).next a b (.ofReq (φ.soc.xbarReq 1)) := by
  have hask : φ.soc.xbarReq 1 = t.req φ.soc.cpu.request (φ.soc.owner == 1) := hat.slvReqs 1
  have hrest : t = idle ∨ φ.driving = false := by
    by_cases ht : t = idle
    · exact Or.inl ht
    · exact Or.inr (by simpa [ht] using hd)
  have hown : t = idle ∨ (φ.soc.owner == 1) = false := by
    by_cases ht : t = idle
    · exact Or.inl ht
    · exact Or.inr (hreq.not_driving harea (hrest.resolve_left ht) ht)
  obtain ⟨haw, hw, har, hb, hr⟩ : (φ.soc.xbarReq 1).awValid = false ∧
      (φ.soc.xbarReq 1).wValid = false ∧ (φ.soc.xbarReq 1).arValid = false ∧
      (φ.soc.xbarReq 1).bReady = false ∧ (φ.soc.xbarReq 1).rReady = false := by
    rw [hask]
    rcases hown with rfl | hown
    · simp [Stage.req, wSent, arSent]
    · simp [Stage.req, hown]
  have hflight : (if φ.driving then t.inFlight else InFlight.fresh) = .fresh := by
    rcases hrest with rfl | hrest
    · exact ite_self _
    · rw [hrest]
      rfl
  obtain ⟨hcompletes, hfresh⟩ := inFlight_unasked (φ.main.pc.access a b) haw hw har hb hr
    φ.soc.accel.respO
  have hends : (φ.ends && φ.toStore.isNone) = false := by
    rcases hrest with rfl | hrest
    · rw [ends, hat.valid]
      simp
    · rw [driving] at hrest
      rw [ends, Bool.and_right_comm, hrest, Bool.false_and]
  rw [system, system, System.next, System.access, hflight, hfresh, drive_unasked _ haw hw har,
    System.mk.injEq]
  refine ⟨?_, ?_, rfl⟩
  · rw [MainState.step, hcompletes, next_main, hends]
    rfl
  · split_ifs with hd'
    · by_cases ht : t = idle
      · subst ht
        cases (φ.go a b base c).isSome <;> rfl
      · -- `main` goes back to the accelerator after a store has ended
        have hd₀ := hrest.resolve_left ht
        have hv : φ.soc.cpu.memValid = true := by rw [hat.valid, decide_eq_true ht]
        rw [driving, next_mine, next_toStore, hv, if_pos rfl] at hd'
        have hready : φ.soc.memReady = true := by
          by_contra hne
          rw [ends, Bool.eq_false_iff.2 hne, Bool.and_false, Bool.and_false,
            if_neg Bool.false_ne_true] at hd'
          rw [driving, hd'] at hd₀
          cases hd₀
        have hgo := next_ne_idle (φ.go a b base c).isSome ht hat.fits
        rw [← hat.memReady, hready, Bool.not_true, decide_eq_false_iff_not, not_not] at hgo
        rw [hgo]
        rfl
    · rfl

/-- **The SoC is a bus of the driver**: a cycle of the firmware is a cycle of `main` with the
accelerator, for some delays. -/
theorem system_next (harea : ResultsArea base) (hat : φ.soc.At up t)
    (hreq : Requests a b base t φ) (c : Choice) :
    (φ.next a b base c).system
        (t.next (φ.go a b base c).isSome φ.soc.cpu.request.isWrite (φ.soc.owner == 2)) =
      (φ.system t).next a b (.ofReq (φ.soc.xbarReq 1)) := by
  by_cases hd : φ.driving = true ∧ t ≠ idle
  · exact system_next_driving hat hreq c hd.1 hd.2
  · exact system_next_resting harea hat hreq c hd

/-! ### What is in flight -/

theorem ends_eq_false (hat : φ.soc.At up t) {go : Bool}
    (ht' : t.next go φ.soc.cpu.request.isWrite (φ.soc.owner == 2) ≠ idle) : φ.ends = false := by
  by_cases ht : t = idle
  · rw [ends, hat.valid, ht]
    simp
  · have hgo := next_ne_idle go ht hat.fits
    rw [decide_eq_true ht', ← hat.memReady, eq_comm, Bool.not_eq_true'] at hgo
    rw [ends, hgo, Bool.and_false, Bool.and_false]

theorem access_next (h : φ.ends = false) (c : Choice) :
    (φ.next a b base c).access a b base = φ.access a b base := by
  have hmain : (φ.next a b base c).main = φ.main := by
    rw [next_main, h]
    rfl
  have hstore : (φ.next a b base c).toStore = φ.toStore := by
    rw [next_toStore, h]
    rfl
  rw [access, access, hmain, hstore]

theorem requests_next (hat : φ.soc.At up t) (hreq : Requests a b base t φ)
    (hc : c.Harmless base) : Requests a b base
      (t.next (φ.go a b base c).isSome φ.soc.cpu.request.isWrite (φ.soc.owner == 2))
      (φ.next a b base c) := by
  by_cases ht : t = idle
  · -- the access that begins
    have hv : φ.soc.cpu.memValid = false := by rw [hat.valid, ht]; rfl
    have hrequest : (φ.next a b base c).soc.cpu.request =
        (φ.go a b base c).getD φ.soc.cpu.request := by
      change (MemRegs.next _ _ _).request = _
      rw [MemRegs.next_of_not_valid hv]
    constructor <;> intro hmine ht' <;> rw [next_mine, hv, if_neg Bool.false_ne_true] at hmine
    · rw [access_next (ends_eq_false hat ht'), hrequest]
      cases c with
      | wait | other => cases hmine
      | proceed wdata =>
        rw [go] at ht' ⊢
        cases hacc : φ.access a b base with
        | none => simp [hacc, ht, Stage.next] at ht'
        | some acc => exact ⟨acc, wdata, rfl, rfl⟩
    · rw [hrequest]
      cases c with
      | wait => simp [ht, go, Stage.next] at ht'
      | proceed => cases hmine
      | other r => exact hc
  · have hv : φ.soc.cpu.memValid = true := by rw [hat.valid, decide_eq_true ht]
    have hrequest : (φ.next a b base c).soc.cpu.request = φ.soc.cpu.request :=
      hat.request_next _ ht
    constructor <;> intro hmine ht' <;> rw [next_mine, hv, if_pos rfl] at hmine <;> rw [hrequest]
    · rw [access_next (ends_eq_false hat ht')]
      exact hreq.mine hmine ht
    · exact hreq.other hmine ht

/-! ### The array in the memory -/

/-- The results that have been stored. -/
def stored (φ : Firmware P) : ℕ :=
  match φ.toStore, φ.main.pc with
  | some j, _ => j.val
  | none, .readResult i => i.val
  | none, .halt => 16
  | none, _ => 0

/-- The word of the memory that holds `results[m]`. -/
def resultWord (base : BitVec 32) (φ : Firmware P) (m : Fin 16) : BitVec 32 :=
  φ.soc.ram.mem (AxiLiteRam.wordIdx (resultAddr base m))

/-- What the array holds. -/
structure Stores (base : BitVec 32) (t : Stage) (φ : Firmware P) : Prop where
  pending : ∀ j, φ.toStore = some j →
    φ.main.pc = if h : j.val + 1 < 16 then .readResult ⟨j.val + 1, h⟩ else .halt
  stored : ∀ m : Fin 16, m.val < φ.stored → φ.resultWord base m = φ.main.results m
  storing : ∀ j, φ.toStore = some j → φ.mine = true → t = respond →
    φ.resultWord base j = φ.main.results j

theorem mem_next (hat : φ.soc.At up t) (c : Choice) : (φ.next a b base c).soc.ram.mem =
    if t = execute ∧ φ.soc.owner = 0 then
      Function.update φ.soc.ram.mem (AxiLiteRam.wordIdx φ.soc.cpu.request.addr)
        (strobedWrite (φ.soc.ram.mem (AxiLiteRam.wordIdx φ.soc.cpu.request.addr))
          φ.soc.cpu.request.wdata φ.soc.cpu.request.wstrb)
    else φ.soc.ram.mem := by
  obtain ⟨haw, hw, hb, -, haddr, hheld⟩ := hat.ram
  have hexec : φ.soc.ram.executes = decide (t = execute ∧ φ.soc.owner = 0) := by
    change ((φ.soc.ram.writePort).awPending && (φ.soc.ram.writePort).wPending &&
      !(φ.soc.ram.writePort).bValid) = _
    rw [show (φ.soc.ram.writePort).awPending = _ from haw,
      show (φ.soc.ram.writePort).wPending = _ from hw,
      show (φ.soc.ram.writePort).bValid = _ from hb]
    cases t <;> (simp; try rfl)
  change (AxiLiteRam.next _ _).mem = _
  rw [AxiLiteRam.next_eq]
  simp only [hexec, decide_eq_true_eq]
  split_ifs with he
  · have ha : φ.soc.ram.awAddrQ = _ := haddr (by rw [haw]; simp [he.1, he.2])
    have hd : (⟨φ.soc.ram.wDataQ, φ.soc.ram.wStrbQ⟩ : WChan) = _ :=
      hheld (by rw [hw]; simp [he.1, he.2])
    rw [ha, (WChan.mk.inj hd).1, (WChan.mk.inj hd).2]
  · rfl

theorem wordIdx_resultAddr (harea : ResultsArea base) {addr : BitVec 32} {m : Fin 16}
    (hlt : addr.toNat < 0x10000)
    (h : AxiLiteRam.wordIdx addr = AxiLiteRam.wordIdx (resultAddr base m)) :
    base.toNat + 4 * m.val ≤ addr.toNat ∧ addr.toNat < base.toNat + 4 * m.val + 4 := by
  obtain ⟨halign, hle⟩ := harea
  rw [AxiLiteRam.wordIdx_eq, AxiLiteRam.wordIdx_eq, ← BitVec.toNat_inj, BitVec.toNat_ofNat,
    BitVec.toNat_ofNat, resultAddr_toNat ⟨halign, hle⟩] at h
  omega

/-- A write of `main` to the memory stores the result loaded last. -/
theorem Requests.storing (h : Requests a b base t φ) {j : Fin 16} (hj : φ.toStore = some j)
    (hmine : φ.mine = true) (ht : t ≠ idle) :
    φ.soc.cpu.request = ⟨resultAddr base j, φ.main.results j, 0xF#4⟩ := by
  obtain ⟨acc, wdata, hacc, hreq⟩ := h.mine hmine ht
  rw [access, hj] at hacc
  cases hacc
  exact hreq

theorem resultWord_next (harea : ResultsArea base) (hat : φ.soc.At up t)
    (hreq : Requests a b base t φ) (c : Choice) (m : Fin 16)
    (hm : ∀ j, φ.toStore = some j → φ.mine = true → t = execute → m ≠ j) :
    (φ.next a b base c).resultWord base m = φ.resultWord base m := by
  rw [resultWord, mem_next hat, resultWord]
  split_ifs with he
  · obtain ⟨rfl, howner⟩ := he
    refine Function.update_of_ne (fun heq => ?_) _ _
    obtain ⟨hle, hlt⟩ := wordIdx_resultAddr harea (target_eq_zero.1 howner) heq.symm
    have hmlt := m.isLt
    cases hmine : φ.mine with
    | false =>
      -- other writes stay out of the array
      have hwrite : φ.soc.cpu.request.isWrite = true := hat.fits
      exact (hreq.other hmine (by simp)).2 hwrite ⟨by omega, by omega⟩
    | true =>
      cases hstore : φ.toStore with
      | none =>
        obtain ⟨-, -, -, -, hone⟩ := hreq.driving (by rw [driving, hmine, hstore]; rfl) (by simp)
        rw [howner] at hone
        cases hone
      | some j =>
        rw [hreq.storing hstore hmine (by simp)] at hle hlt
        rw [resultAddr_toNat harea] at hle hlt
        exact hm j hstore hmine rfl (Fin.ext (by omega))
  · rfl

theorem resultWord_stored (harea : ResultsArea base) (hat : φ.soc.At up execute)
    (hreq : Requests a b base execute φ) (c : Choice) {j : Fin 16} (hj : φ.toStore = some j)
    (hmine : φ.mine = true) :
    (φ.next a b base c).resultWord base j = φ.main.results j := by
  have hrequest := hreq.storing hj hmine (by simp)
  have howner : φ.soc.owner = 0 := by
    rw [SocTop.owner, hrequest]
    exact target_resultAddr harea j
  rw [resultWord, mem_next hat, if_pos ⟨rfl, howner⟩, hrequest, Function.update_self,
    strobedWrite_full]

theorem stored_complete (a b : Table) (base : BitVec 32) (hstore : φ.toStore = none)
    (hends : φ.ends = true) (c : Choice) :
    (∀ j, (φ.next a b base c).toStore = some j → (φ.next a b base c).main.pc =
      if h : j.val + 1 < 16 then .readResult ⟨j.val + 1, h⟩ else .halt) ∧
    ∀ m : Fin 16, m.val < (φ.next a b base c).stored →
      m.val < φ.stored ∧ (φ.next a b base c).main.results m = φ.main.results m := by
  have hmain := φ.next_main a b base c
  have hstore' := φ.next_toStore a b base c
  rw [hends, hstore, Option.isNone_none, Bool.and_self, if_pos rfl] at hmain
  rw [hends, hstore, if_pos rfl, if_pos Option.isNone_none] at hstore'
  generalize φ.next a b base c = φ' at *
  simp only [stored, hmain, hstore', hstore]
  generalize AxiAdapter.memRdata φ.soc.cpuResp = d
  obtain ⟨pc, results⟩ := φ.main
  cases pc with
  | storeA i j => fin_cases j <;> simp [MainState.complete, MainPc.result]
  | storeB i j =>
    by_cases hi : i.val + 1 < 8 <;> fin_cases j <;> simp [MainState.complete, MainPc.result, hi]
  | ctrl => simp [MainState.complete, MainPc.result]
  | poll => by_cases hd : d &&& 1#32 = 0#32 <;> simp [MainState.complete, MainPc.result, hd]
  | readResult i =>
    refine ⟨fun j hj => ?_, fun m hm => ⟨hm, Function.update_of_ne (fun hmi => ?_) _ _⟩⟩
    · cases hj
      rfl
    · rw [hmi] at hm
      exact absurd hm (lt_irrefl _)
  | halt => simp [MainState.complete, MainPc.result]

theorem stores_next (harea : ResultsArea base) (hat : φ.soc.At up t)
    (hreq : Requests a b base t φ) (h : Stores base t φ) (c : Choice) : Stores base
      (t.next (φ.go a b base c).isSome φ.soc.cpu.request.isWrite (φ.soc.owner == 2))
      (φ.next a b base c) := by
  cases hends : φ.ends with
  | false =>
    have hmain : (φ.next a b base c).main = φ.main := by rw [next_main, hends]; rfl
    have hstore : (φ.next a b base c).toStore = φ.toStore := by rw [next_toStore, hends]; rfl
    have hcount : (φ.next a b base c).stored = φ.stored := by
      rw [Firmware.stored, Firmware.stored, hmain, hstore]
    refine ⟨fun j hj => ?_, fun m hm => ?_, fun j hj hmine ht' => ?_⟩
    · rw [hmain]
      exact h.pending j (hstore ▸ hj)
    · rw [hcount] at hm
      rw [hmain, resultWord_next harea hat hreq c m ?_]
      · exact h.stored m hm
      · rintro j hj - - rfl
        simp [Firmware.stored, hj] at hm
    · obtain rfl := next_eq_respond ht'
      have hv : φ.soc.cpu.memValid = true := by rw [hat.valid]; rfl
      rw [next_mine, hv, if_pos rfl] at hmine
      rw [hmain]
      exact resultWord_stored harea hat hreq c (hstore ▸ hj) hmine
  | true =>
    obtain ⟨hmine, hvr⟩ := Bool.and_eq_true_iff.1 hends
    obtain ⟨hv, hready⟩ := Bool.and_eq_true_iff.1 hvr
    have ht : t ≠ idle := by
      rintro rfl
      rw [hat.valid] at hv
      cases hv
    have hidle := next_ne_idle (φ.go a b base c).isSome ht hat.fits
    rw [← hat.memReady, hready, Bool.not_true, decide_eq_false_iff_not, not_not] at hidle
    cases hstore : φ.toStore with
    | none =>
      obtain ⟨hpending, hcount⟩ := stored_complete a b base hstore hends c
      refine ⟨hpending, fun m hm => ?_, fun j _ _ ht' => ?_⟩
      · obtain ⟨hm₀, hres⟩ := hcount m hm
        rw [hres, resultWord_next harea hat hreq c m fun j hj => by rw [hstore] at hj; cases hj]
        exact h.stored m hm₀
      · rw [hidle] at ht'
        cases ht'
    | some j =>
      -- the store of result `j` has completed
      have hrequest := hreq.storing hstore hmine ht
      have hrespond : t = respond := by
        have hfits := hat.fits
        rw [hat.memReady] at hready
        rw [SocTop.owner, hrequest, show target (resultAddr base j) = 0 from
          target_resultAddr harea j] at hfits hready
        exact eq_respond hfits hready
      have hmain : (φ.next a b base c).main = φ.main := by rw [next_main, hstore]; simp
      have hstore' : (φ.next a b base c).toStore = none := by
        rw [next_toStore, hends, hstore]
        rfl
      refine ⟨fun j' hj' => ?_, fun m hm => ?_, fun j' hj' => ?_⟩
      · rw [hstore'] at hj'
        cases hj'
      · have hle : m.val ≤ j.val := by
          rw [Firmware.stored, hstore', hmain, h.pending j hstore] at hm
          by_cases hj : j.val + 1 < 16
          · rw [dif_pos hj] at hm
            exact Nat.lt_succ_iff.1 hm
          · have := m.isLt
            omega
        rw [hmain, resultWord_next harea hat hreq c m fun _ _ _ he => by
          rw [hrespond] at he; cases he]
        rcases Nat.lt_or_eq_of_le hle with hlt | heq
        · exact h.stored m (by rw [Firmware.stored, hstore]; exact hlt)
        · rw [Fin.ext heq]
          exact h.storing j hstore hmine hrespond
      · rw [hstore'] at hj'
        cases hj'

/-! ### Whole runs -/

/-- **The invariant of the firmware**. -/
structure At (a b : Table) (base : BitVec 32) (up : PowerUp) (t : Stage) (φ : Firmware P) :
    Prop where
  soc : φ.soc.At up t
  requests : Requests a b base t φ
  driver : DriverInv a b (φ.system t)
  stores : Stores base t φ

theorem at_next (harea : ResultsArea base) (h : φ.At a b base up t) (hc : c.Harmless base) :
    (φ.next a b base c).At a b base up
      (t.next (φ.go a b base c).isSome φ.soc.cpu.request.isWrite (φ.soc.owner == 2)) where
  soc := h.soc.next _
  requests := requests_next h.soc h.requests hc
  driver := by
    rw [system_next harea h.soc h.requests]
    exact driverInv_next h.driver _
  stores := stores_next harea h.soc h.requests h.stores c

theorem at_reset (a b : Table) (base : BitVec 32) (results : Fin 16 → BitVec 32) :
    ((firmware P up a b base results).reset).At a b base up idle where
  soc := SocTop.at_reset
  requests := ⟨fun _ h => absurd rfl h, fun _ h => absurd rfl h⟩
  driver := driverInv_start Clocked.Reachable.reset rfl ⟨rfl, rfl, rfl, rfl⟩ results
  stores := ⟨fun _ h => (by cases h), fun _ h => absurd h (Nat.not_lt_zero _),
    fun _ h => (by cases h)⟩

theorem At.results (h : φ.At a b base up t) (hhalt : φ.Halted) (k l : Fin 4) :
    (φ.resultWord base ⟨4 * k.val + l.val, entry_lt k l⟩).toNat = tableSum a b k l % 2 ^ 32 := by
  obtain ⟨hpc, hstore⟩ := hhalt
  have hcount : φ.stored = 16 := by rw [Firmware.stored, hstore, hpc]
  have hphase := h.driver.phase
  rw [Phase, show (φ.system t).main.pc = .halt from hpc] at hphase
  have hreading : Reading a b 16 φ.main.results φ.soc.accel := hphase
  rw [h.stores.stored _ (by rw [hcount]; exact Fin.isLt _), hreading.read _ (by omega)]
  exact (hreading.started.result hreading.done).2 k l

end Firmware

theorem firmware_at (P : XbarParts 2 1) (up : PowerUp) (a b : Table) {base : BitVec 32}
    (harea : ResultsArea base) (results : Fin 16 → BitVec 32) {ι : ℕ → Choice}
    (hι : ∀ n, (ι n).Harmless base) (n : ℕ) :
    ∃ t, ((firmware P up a b base results).run ι n).At a b base up t :=
  Clocked.runFrom_invariant (A := firmware P up a b base results)
    (P := fun φ => ∃ t, φ.At a b base up t) ⟨idle, Firmware.at_reset a b base results⟩
    (fun j ⟨_, hj⟩ => ⟨_, Firmware.at_next harea hj (hι j)⟩) n

/-- **The firmware leaves the sums of its tables in the memory.**  For all tables, all delays and
all other traffic between the accesses of `main` that leaves the accelerator and the array alone,
for all power-up contents and all implementations of the crossbar's parts: once `main` has ended,
word `4 k + l` of the array is the sum for row `k` and column `l`. -/
theorem firmware_results (P : XbarParts 2 1) (up : PowerUp) (a b : Table) {base : BitVec 32}
    (harea : ResultsArea base) (results : Fin 16 → BitVec 32) (ι : ℕ → Choice)
    (hι : ∀ n, (ι n).Harmless base) (n : ℕ) :
    let φ := (firmware P up a b base results).run ι n
    φ.Halted → ∀ k l : Fin 4, (φ.soc.ram.mem (AxiLiteRam.wordIdx
      (resultAddr base ⟨4 * k.val + l.val, entry_lt k l⟩))).toNat = tableSum a b k l % 2 ^ 32 := by
  intro φ hhalt
  obtain ⟨t, hat⟩ := firmware_at P up a b harea results hι n
  exact hat.results hhalt

/-- Instruction fetches between the accesses of `main`. -/
def fetching (n : ℕ) : Choice := bif n.testBit 2 then .proceed 0 else .other ⟨0x100#32, 0, 0⟩

theorem fetching_harmless (n : ℕ) : (fetching n).Harmless 0x8000#32 := by
  unfold fetching
  cases n.testBit 2
  · exact ⟨by decide, fun h => absurd h (by decide)⟩
  · trivial

/-- `main` with the tables of `main.c` and the array at `0x8000`: `results[7]` is the entry that the
test bench expects. -/
theorem firmware_results_fetching :
    (((firmware (listXbar 2 1) .blank aStream bStream 0x8000#32 fun _ => 0).run fetching
      428).soc.ram.mem (AxiLiteRam.wordIdx (resultAddr 0x8000#32
        ⟨4 * (1 : Fin 4).val + (3 : Fin 4).val, by decide⟩))).toNat = 280 := by
  rw [firmware_results (listXbar 2 1) .blank aStream bStream (by decide +kernel) (fun _ => 0)
    fetching fetching_harmless 428 (by decide +kernel) 1 3]
  decide +kernel

end SystolicSoc
