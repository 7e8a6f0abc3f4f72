import SystolicSoc.Soc.Stage

/-!
# The accesses of the processor

The stages of `SystolicSoc.Soc.Stage` put together: in every reachable state the whole SoC is in
one stage of one access.

* `SocTop.At`, `SocTop.At.next` : **every clock edge takes the SoC to the next stage.**
* `soc_at` : every state of a run is in a stage.
* `Completes`, `soc_completes` : **every access completes**, after the same number of cycles
  whatever came before it, and nothing else makes the memory interface ready.
-/

namespace SystolicSoc

open Stage

variable {P : XbarParts 2 1} {up : PowerUp} {t : Stage} {σ : SocTop P}

/-! ### The responses of the owners -/

theorem Slave.At.resp {S β : Type*} {L : Slave S β} {r : MemReq} {s : S} (h : L.At t r true s)
    (ht : t ≠ burst) : (L.respO s).At t false := by
  obtain ⟨haw, hw, hb, hr, -, -⟩ := h
  constructor <;> intro ht' <;>
    simp only [L.awReady_eq, L.wReady_eq, L.bValid_eq, L.arReady_eq, L.rValid_eq,
      WritePort.awReady, WritePort.wReady, ReadPort.arReady, haw, hw, hb, hr] <;>
    cases t <;> simp_all [wSent, arSent, bUp, rUp]

theorem AxiErrSlv.At.resp {Q : ErrParts 1} {r : MemReq} {s : AxiErrSlv Q} (h : s.At t true)
    (ht : t ≠ respond) :
    (toLiteResp (AxiErrSlv.respO (toAxiReq (t.req r true)) s)).At t true := by
  obtain ⟨hvalid, -⟩ := rControl_eq (toAxiReq (t.req r true)) s
  obtain ⟨hw, hb, hr, hbusy, -⟩ := h
  constructor <;> intro ht' <;>
    simp only [toLiteResp, AxiErrSlv.respO, wReady, wFifoEmpty, wFifoPush, bValid, hvalid,
      Q.wFifo.full_eq, Q.wFifo.empty_eq, Q.bFifo.full_eq, Q.bFifo.empty_eq, Q.rFifo.full_eq, hw,
      hb, hr, hbusy] <;>
    cases t <;> simp_all [wSent, arSent, bUp, rUp]

/-! ### The SoC in a stage -/

namespace SocTop

/-- The port of the access. -/
def owner (σ : SocTop P) : Fin 3 := target σ.cpu.request.addr

/-- **The SoC in a stage of an access.** -/
structure At (up : PowerUp) (t : Stage) (σ : SocTop P) : Prop where
  valid : σ.cpu.memValid = decide (t ≠ idle)
  acks : t ≠ idle → σ.adapter = ⟨t.awSent, t.arSent, t.wSent, false⟩
  fits : t.fits σ.cpu.request.isWrite (σ.owner == 2)
  demux : σ.xbar.iAxiLiteDemux.At t σ.owner
  err : σ.xbar.iAxiErrSlv.At t (σ.owner == 2)
  ram : (ramSlave up.image).At t σ.cpu.request (σ.owner == 0) σ.ram
  accel : accelSlave.At t σ.cpu.request (σ.owner == 1) σ.accel

theorem at_reset : (SocTop.reset up : SocTop P).At up idle where
  valid := rfl
  acks h := absurd rfl h
  fits := trivial
  demux := by constructor <;> simp [SocTop.reset, AxiLiteXbar.reset, AxiLiteDemux.reset,
    P.fifo.contents_reset, wSent, arSent]
  err := by constructor <;> simp [SocTop.reset, AxiLiteXbar.reset, AxiErrSlv.reset,
    P.err.wFifo.contents_reset, P.err.bFifo.contents_reset, P.err.rFifo.contents_reset, arSent]
  ram := by constructor <;> simp [SocTop.reset, ramSlave, AxiLiteRam.reset, AxiLiteRam.writePort,
    AxiLiteRam.readPort]
  accel := by constructor <;> simp [SocTop.reset, accelSlave, AccelRegs.reset,
    AccelRegs.writePort, AccelRegs.readPort]

theorem At.cpuReq (h : σ.At up t) : σ.cpuReq = t.cpuReq σ.cpu.request := by
  have hfits := h.fits
  rw [SocTop.cpuReq, AxiAdapter.req, h.valid]
  by_cases ht : t = idle
  · subst ht
    simp [Stage.cpuReq]
  · rw [h.acks ht]
    cases t <;> simp_all [Stage.cpuReq, Stage.fits, awSent, wSent, arSent]

theorem At.err_iff (h : σ.At up t) :
    (t = respond → (σ.owner == 2) = false) ∧ (t = burst → (σ.owner == 2) = true) := by
  have hfits := h.fits
  constructor <;> rintro rfl <;> exact hfits.2

theorem At.inAt (h : σ.At up t) (resps : Fin 3 → Resp) :
    AxiLiteDemux.InAt t σ.cpu.request σ.owner (AxiLiteXbar.demuxIn P σ.xbarIn resps) where
  req := h.cpuReq
  aw := by
    change AxiLiteXbar.select P σ.xbarIn σ.cpuReq.aw.addr = _
    rw [select_addrMap, h.cpuReq]
    rfl
  ar := by
    change AxiLiteXbar.select P σ.xbarIn σ.cpuReq.ar.addr = _
    rw [select_addrMap, h.cpuReq]
    rfl

/-- **The requests of the crossbar**: the owner of the access is asked by stage, the others are
asked nothing. -/
theorem At.slvReqs (h : σ.At up t) (p : Fin 3) :
    AxiLiteXbar.slvReqs σ.xbarIn σ.xbar p = t.req σ.cpu.request (σ.owner == p) :=
  h.demux.mstReqsO (h.inAt _) h.fits p

theorem At.decerrReq (h : σ.At up t) : AxiLiteXbar.decerrReq σ.xbarIn σ.xbar =
    toAxiReq (t.req σ.cpu.request (σ.owner == 2)) := by
  rw [AxiLiteXbar.slvReqs_eq, h.slvReqs]
  rfl

theorem At.resp (h : σ.At up t) :
    (AxiLiteXbar.slvResps σ.xbarIn σ.xbar σ.owner).At t (σ.owner == 2) := by
  have hram := h.ram
  have haccel := h.accel
  have herr := h.err
  have hreq := h.decerrReq
  obtain ⟨hrespond, hburst⟩ := h.err_iff
  generalize σ.owner = p at *
  match p with
  | 0 => exact hram.resp fun ht => by simpa using hburst ht
  | 1 => exact haccel.resp fun ht => by simpa using hburst ht
  | 2 =>
    rw [show (2 : Fin 3) = Fin.last 2 from rfl, AxiLiteXbar.slvResps_last, hreq]
    exact herr.resp fun ht => by simpa using hrespond ht

theorem At.cpuResp (h : σ.At up t) :
    σ.cpuResp.awReady = (decide (t = request) && σ.cpu.request.isWrite) ∧
    σ.cpuResp.wReady = decide (t = data) ∧
    σ.cpuResp.bValid = t.bUp (σ.owner == 2) ∧
    (t = request → σ.cpuResp.arReady = true) ∧
    σ.cpuResp.rValid = t.rUp (σ.owner == 2) ∧
    (t.arSent = true → σ.cpuResp.r = (AxiLiteXbar.slvResps σ.xbarIn σ.xbar σ.owner).r) :=
  h.demux.slvRespO (h.inAt _) h.resp h.fits

theorem At.memReady (h : σ.At up t) :
    σ.memReady = (t.bUp (σ.owner == 2) || t.rUp (σ.owner == 2)) := by
  obtain ⟨-, -, hb, -, hr, -⟩ := h.cpuResp
  rw [SocTop.memReady, AxiAdapter.memReady, hb, hr]

theorem At.request_next (h : σ.At up t) (go : Option MemReq) (ht : t ≠ idle) :
    (σ.next go).cpu.request = σ.cpu.request := by
  have hv : σ.cpu.memValid = true := by rw [h.valid]; simpa using ht
  rw [SocTop.next, MemRegs.next_of_valid hv]

/-- **Every clock edge takes the SoC to the next stage.** -/
theorem At.next (h : σ.At up t) (go : Option MemReq) :
    (σ.next go).At up (t.next go.isSome σ.cpu.request.isWrite (σ.owner == 2)) := by
  have hsame : t ≠ idle → (σ.next go).cpu.request = σ.cpu.request := h.request_next go
  have howner : t ≠ idle → (σ.next go).owner = σ.owner := fun ht => by
    rw [owner, hsame ht, owner]
  obtain ⟨haw, hw, hb, har, hr, -⟩ := h.cpuResp
  constructor
  · by_cases ht : t = idle
    · have hv : σ.cpu.memValid = false := by rw [h.valid]; simpa using ht
      rw [SocTop.next, MemRegs.next_of_not_valid hv, ht]
      cases go <;> simp [Stage.next]
    · have hv : σ.cpu.memValid = true := by rw [h.valid]; simpa using ht
      rw [SocTop.next, MemRegs.next_of_valid hv, h.memReady, next_ne_idle _ ht h.fits]
  · intro ht'
    by_cases ht : t = idle
    · have hv : σ.cpu.memValid = false := by rw [h.valid]; simpa using ht
      rw [SocTop.next, AxiAdapter.next_of_not_valid _ _ _ hv, ht]
      cases go.isSome <;> rfl
    · have hv : σ.cpu.memValid = true := by rw [h.valid]; simpa using ht
      -- the access goes on, so it is not ready
      have hgo := next_ne_idle go.isSome ht h.fits
      rw [decide_eq_true ht', ← h.memReady, eq_comm, Bool.not_eq_true'] at hgo
      obtain ⟨haw', hw', har'⟩ := sent_next ht h.fits ht'
      rw [SocTop.next, AxiAdapter.next_of_valid _ _ _ hv (by rw [h.acks ht]), h.acks ht, haw, hw,
        haw', hw', har', show AxiAdapter.memReady σ.cpuResp = false from hgo]
      have hfits := h.fits
      cases t <;> simp_all [Stage.fits, arSent]
  · exact fits_next h.fits _ _ _ fun ht => by rw [hsame ht, howner ht]; exact ⟨rfl, rfl⟩
  · exact h.demux.next (h.inAt _) h.resp h.fits howner
  · change AxiErrSlv.At _ _ (AxiErrSlv.next (AxiLiteXbar.decerrReq σ.xbarIn σ.xbar) _)
    rw [h.decerrReq]
    exact h.err.next (fun ht => by rw [howner ht]) h.err_iff.2 h.err_iff.1
  · have hedge := h.ram.next go.isSome (σ.owner == 2) (σ.next go).cpu.request
      ((σ.next go).owner == 0)
      (fun ht => ⟨hsame ht, by rw [howner ht]⟩) fun hown => by
        have := h.err_iff.2
        simp_all
    rw [← h.slvReqs 0] at hedge
    exact hedge
  · have hedge := h.accel.next go.isSome (σ.owner == 2) (σ.next go).cpu.request
      ((σ.next go).owner == 1)
      (fun ht => ⟨hsame ht, by rw [howner ht]⟩) fun hown => by
        have := h.err_iff.2
        simp_all
    rw [← h.slvReqs 1] at hedge
    exact hedge

end SocTop

/-! ### Whole runs -/

/-- The stage of cycle `n`. -/
def socStage (P : XbarParts 2 1) (up : PowerUp) (ι : ℕ → Option MemReq) : ℕ → Stage
  | 0 => idle
  | n + 1 => (socStage P up ι n).next (ι n).isSome ((soc P up).run ι n).cpu.request.isWrite
      (((soc P up).run ι n).owner == 2)

/-- **Every state of a run is in its stage.** -/
theorem soc_at (P : XbarParts 2 1) (up : PowerUp) (ι : ℕ → Option MemReq) (n : ℕ) :
    ((soc P up).run ι n).At up (socStage P up ι n) := by
  induction n with
  | zero => exact SocTop.at_reset
  | succ n ih => exact ih.next (ι n)

/-- The number of cycles from the first of an access to that in which it is ready. -/
def MemReq.latency (r : MemReq) : ℕ := Stage.latency r.isWrite (target r.addr == 2)

theorem soc_after {ι : ℕ → Option MemReq} {n : ℕ} {r : MemReq}
    (hidle : ((soc P up).run ι n).cpu.memValid = false) (hgo : ι n = some r) {k : ℕ}
    (hk : k ≤ r.latency) :
    ((soc P up).run ι (n + 1 + k)).cpu.request = r ∧
      ((soc P up).run ι (n + 1 + k)).At up (after r.isWrite (target r.addr == 2) k) := by
  induction k with
  | zero =>
    have ht := soc_at P up ι n
    have hstage : socStage P up ι n = idle := by
      have hv := ht.valid
      rw [hidle] at hv
      simpa using hv.symm
    rw [hstage] at ht
    have hnext := ht.next (ι n)
    rw [hgo] at hnext
    refine ⟨?_, ?_⟩
    · rw [Nat.add_zero, Clocked.run_succ]
      change (MemRegs.next _ _ _).request = r
      rw [MemRegs.next_of_not_valid hidle, hgo]
      rfl
    · rw [Nat.add_zero, Clocked.run_succ, hgo]
      exact hnext
  | succ k ih =>
    obtain ⟨hreq, hat⟩ := ih (by omega)
    have hne := ((after_ready r.isWrite (target r.addr == 2)).1 k (by
      rw [MemReq.latency] at hk; omega)).1
    have hnext := hat.next (ι (n + 1 + k))
    rw [SocTop.owner, hreq, next_congr hne _ false] at hnext
    rw [← Nat.add_assoc, Clocked.run_succ]
    exact ⟨(hat.request_next _ hne).trans hreq, hnext⟩

section Completion

variable {ι : ℕ → Option MemReq} {n : ℕ} {r : MemReq}
  (hidle : ((soc P up).run ι n).cpu.memValid = false) (hgo : ι n = some r)

include hidle hgo

theorem soc_pending {k : ℕ} (hk : k < r.latency) :
    ((soc P up).run ι (n + 1 + k)).cpu.memValid = true ∧
      ((soc P up).run ι (n + 1 + k)).memReady = false := by
  obtain ⟨hne, hb, hr⟩ := (after_ready r.isWrite (target r.addr == 2)).1 k hk
  obtain ⟨hreq, hat⟩ := soc_after hidle hgo hk.le
  rw [hat.valid, hat.memReady, SocTop.owner, hreq, hb, hr]
  exact ⟨decide_eq_true hne, rfl⟩

theorem soc_ready : ((soc P up).run ι (n + 1 + r.latency)).cpu.memValid = true ∧
    ((soc P up).run ι (n + 1 + r.latency)).memReady = true ∧
    ((soc P up).run ι (n + 1 + r.latency)).cpu.request = r := by
  obtain ⟨-, hne, hready, -⟩ := after_ready r.isWrite (target r.addr == 2)
  obtain ⟨hreq, hat⟩ := soc_after hidle hgo le_rfl
  rw [hat.valid, hat.memReady, SocTop.owner, hreq]
  exact ⟨decide_eq_true hne, hready, rfl⟩

theorem soc_idle_after : ((soc P up).run ι (n + 1 + r.latency + 1)).cpu.memValid = false := by
  obtain ⟨-, hne, -, hend⟩ := after_ready r.isWrite (target r.addr == 2)
  obtain ⟨hreq, hat⟩ := soc_after hidle hgo le_rfl
  have hnext := hat.next (ι (n + 1 + r.latency))
  rw [SocTop.owner, hreq, MemReq.latency, next_congr hne _ false, ← after, hend] at hnext
  exact hnext.valid

end Completion

theorem soc_idle_again (P : XbarParts 2 1) (up : PowerUp) (ι : ℕ → Option MemReq) (N : ℕ) :
    ∃ n ≥ N, ((soc P up).run ι n).cpu.memValid = false := by
  induction N with
  | zero => exact ⟨0, le_rfl, rfl⟩
  | succ N ih =>
    obtain ⟨n, hn, hidle⟩ := ih
    cases hgo : ι n with
    | none =>
      refine ⟨n + 1, by omega, ?_⟩
      rw [Clocked.run_succ]
      change (MemRegs.next _ _ _).memValid = false
      rw [MemRegs.next_of_not_valid hidle, hgo]
      rfl
    | some r => exact ⟨n + 1 + r.latency + 1, by omega, soc_idle_after hidle hgo⟩

/-- **Every access completes**, `latency` cycles after its first cycle and not before, whatever the
SoC has been through, and leaves the interface idle. -/
theorem soc_completes (P : XbarParts 2 1) (up : PowerUp) (ι : ℕ → Option MemReq) {n : ℕ}
    {r : MemReq} (hidle : ((soc P up).run ι n).cpu.memValid = false) (hgo : ι n = some r) :
    (∀ k < r.latency, ((soc P up).run ι (n + 1 + k)).completed (ι (n + 1 + k)) = none) ∧
    (∃ d, ((soc P up).run ι (n + 1 + r.latency)).completed (ι (n + 1 + r.latency)) =
      some (r, d)) ∧
    ((soc P up).run ι (n + 1 + r.latency + 1)).cpu.memValid = false := by
  refine ⟨fun k hk => ?_, ⟨AxiAdapter.memRdata ((soc P up).run ι (n + 1 + r.latency)).cpuResp, ?_⟩,
    soc_idle_after hidle hgo⟩
  · rw [SocTop.completed, (soc_pending hidle hgo hk).2, Bool.and_false]
    rfl
  · obtain ⟨hv, hready, hreq⟩ := soc_ready hidle hgo
    rw [SocTop.completed, hv, hready, hreq]
    rfl

/-- A read of an address that nothing maps, which begins in cycle 3 and completes in cycle 6. -/
theorem soc_completes_unmapped :
    ∃ d, ((soc (listXbar 2 1) .blank).run
      (fun n => if n = 3 then some ⟨0x20000000, 0, 0⟩ else none) 6).completed none =
        some (⟨0x20000000, 0, 0⟩, d) :=
  (soc_completes (listXbar 2 1) .blank (fun n => if n = 3 then some ⟨0x20000000, 0, 0⟩ else none)
    (n := 3) rfl rfl).2.1

end SystolicSoc
