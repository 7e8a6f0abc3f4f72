import SystolicSoc.Driver.Operation

/-!
# The driver returns the sums of its tables

In every cycle the program point says what the accelerator holds: the stores made so far, the
operation on the tables, its result.  The invariant is kept by every edge, for all delays.

* `Filling`, `Polling`, `Reading` : what holds in the loops of `main`.
* `DriverInv` : the invariant, `driverInv_next` its step.
* `driver_results` : **once the polling loop has exited, the results are those of the tables.**
-/

namespace SystolicSoc

open AccelRegs

variable {a b : Table} {s : AccelRegs} {m i : ℕ} {req : Req}

/-! ### The loops of `main` -/

/-- The stores of the tables: `m` have completed, and one more has executed if its response is
up. -/
structure Filling (a b : Table) (m : ℕ) (s : AccelRegs) : Prop where
  idle : s.busyQ = false
  stored : Stored a b (m + s.bValidQ.toNat) s

/-- The polling loop. -/
structure Polling (a b : Table) (s : AccelRegs) : Prop where
  started : Started a b s
  vouched : s.rValidQ = true → s.rDataQ.getLsbD 0 = true → s.done = true

/-- The readback, with `i` results read. -/
structure Reading (a b : Table) (i : ℕ) (results : Fin 16 → BitVec 32) (s : AccelRegs) :
    Prop where
  started : Started a b s
  done : s.done = true
  owed : s.rValidQ = true → s.rDataQ = s.resultQ.extractLsb' (32 * i) 32
  read : ∀ m : Fin 16, m.val < i → results m = s.resultQ.extractLsb' (32 * m.val) 32

theorem bValidQ_next (h : (s.bValidQ && req.bReady) = false) :
    (s.next req).bValidQ = (s.bValidQ || s.executes) := by
  rw [next_eq]
  simp [h]

theorem Filling.complete (h : Filling a b m s) (hb : s.bValidQ = true)
    (hb' : (s.next req).bValidQ = false) : Filling a b (m + 1) (s.next req) := by
  have he : s.executes = false := by simp [executes, hb]
  refine ⟨(settled_next req h.idle he).1, ?_⟩
  have hstored := h.stored.next req he
  rw [hb] at hstored
  rw [hb']
  exact hstored

theorem Filling.wait (h : Filling a b m s) (hb : (s.bValidQ && req.bReady) = false)
    (he : s.executes = false) : Filling a b m (s.next req) := by
  refine ⟨(settled_next req h.idle he).1, ?_⟩
  rw [bValidQ_next hb, he, Bool.or_false]
  exact h.stored.next req he

theorem Filling.advance (h : Filling a b m s) (hb : (s.bValidQ && req.bReady) = false)
    {r : WriteReg} (hctrl : r ≠ .ctrl) (hr : r.rank = m)
    (hexec : s.executes = true → low8 s.awAddrQ = r.offset ∧ s.wDataQ = r.tableWord a b) :
    Filling a b m (s.next req) := by
  by_cases he : s.executes = true
  · obtain ⟨haddr, hdata⟩ := hexec he
    have hb₀ : s.bValidQ = false := (executes_iff.1 he).2.2
    -- a store to a stream half is no start
    have hst : s.starts = false := by
      have hne : low8 s.awAddrQ ≠ low8 ctrlOffset := by
        intro heq
        exact hctrl (r.offset_injective .ctrl (haddr.symm.trans heq))
      simp [starts, writesCtrl, hne]
    refine ⟨by simp [next_busyQ, captures, running, h.idle, hst], ?_⟩
    have hstored := h.stored
    rw [hb₀] at hstored
    rw [bValidQ_next hb, he, Bool.or_true]
    exact hstored.execute req he hctrl hr haddr hdata
  · exact h.wait hb (by simpa using he)

theorem readMux_status : s.readMux accelStatus = s.statusQ := by
  rw [readMux, if_neg (by decide), if_pos (by decide)]

theorem readMux_result (i : Fin 16) :
    s.readMux (accelResultBase + BitVec.ofNat 32 (i.val * 4)) =
      s.resultQ.extractLsb' (32 * i.val) 32 := by
  have hdec : ∀ i : Fin 16,
      low8 (accelResultBase + BitVec.ofNat 32 (i.val * 4)) ≠ 0x00#8 ∧
      low8 (accelResultBase + BitVec.ofNat 32 (i.val * 4)) ≠ 0x04#8 ∧
      inWindow (low8 (accelResultBase + BitVec.ofNat 32 (i.val * 4))) res0Offset (16 * 4) = true ∧
      (((low8 (accelResultBase + BitVec.ofNat 32 (i.val * 4))).setWidth 32 -
        (low8 res0Offset).setWidth 32) >>> 2).toNat = i.val := by decide
  obtain ⟨hctrl, hstatus, hwin, hidx⟩ := hdec i
  rw [readMux, if_neg hctrl, if_neg hstatus, if_pos hwin]
  dsimp only
  rw [hidx]

/-- A status read in the polling loop returns the done bit, which stays up. -/
theorem Polling.next (h : Polling a b s) (he : s.executes = false)
    (har : req.arValid = true → req.ar.addr = accelStatus) : Polling a b (s.next req) := by
  have hstays : s.done = true → (s.next req).done = true := by
    intro hd
    exact (h.started.done_next hd req he).1
  refine ⟨h.started.next req he, rDataQ_next (P := fun d => d.getLsbD 0 = true → _) ?_ ?_⟩
  · intro hv hbit
    exact hstays (h.vouched hv hbit)
  · intro hv hbit
    rw [har hv, readMux_status] at hbit
    exact hstays hbit

theorem Reading.next {results : Fin 16 → BitVec 32} (h : Reading a b i results s)
    (he : s.executes = false)
    (har : req.arValid = true → ∃ hi : i < 16,
      req.ar.addr = accelResultBase + BitVec.ofNat 32 ((⟨i, hi⟩ : Fin 16).val * 4)) :
    Reading a b i results (s.next req) := by
  obtain ⟨hdone, hres⟩ := h.started.done_next h.done req he
  refine ⟨h.started.next req he, hdone, rDataQ_next (P := fun d => d = _) ?_ ?_, fun m hm => ?_⟩
  · intro hv
    rw [hres]
    exact h.owed hv
  · intro hv
    obtain ⟨hi, haddr⟩ := har hv
    rw [haddr, readMux_result, hres]
  · rw [hres]
    exact h.read m hm

theorem Reading.complete {results : Fin 16 → BitVec 32} {i : Fin 16} {s' : AccelRegs}
    (h : Reading a b i.val results s) (h' : Reading a b i.val results s')
    (hres : s'.resultQ = s.resultQ) (hv : s.rValidQ = true) (hv' : s'.rValidQ = false) :
    Reading a b (i.val + 1) (Function.update results i s.rDataQ) s' := by
  refine ⟨h'.started, h'.done, fun hv'' => absurd (hv'.symm.trans hv'') (by decide), ?_⟩
  intro m hm
  by_cases hmi : m = i
  · rw [hmi, Function.update_self, h.owed hv, hres]
  · have hlt : m.val < i.val := by
      have hval : m.val ≠ i.val := by
        intro hval
        exact hmi (Fin.ext hval)
      omega
    rw [Function.update_of_ne hmi, h'.read m hlt]

/-! ### The invariant -/

/-- The stores to the stream halves that have completed. -/
def MainPc.stores : MainPc → ℕ
  | .storeA i j => 4 * i.val + j.val
  | .storeB i j => 4 * i.val + 2 + j.val
  | _ => 32

/-- What the accelerator holds at every program point. -/
def Phase (a b : Table) (m : MainState) (s : AccelRegs) : Prop :=
  match m.pc with
  | .storeA _ _ => Filling a b m.pc.stores s
  | .storeB _ _ => Filling a b m.pc.stores s
  | .ctrl => if s.bValidQ then Started a b s else Filling a b 32 s
  | .poll => Polling a b s
  | .readResult i => Reading a b i.val m.results s
  | .halt => Reading a b 16 m.results s

/-- The invariant of the driver. -/
structure DriverInv (a b : Table) (σ : System) : Prop where
  inv : σ.accel.Inv
  linked : accelSlave.Linked (σ.access a b) σ.inFlight σ.accel
  phase : Phase a b σ.main σ.accel

theorem upper_eq : ∀ j : Fin 2, (if (j == 1) = true then 1 else 0 : Fin 2) = j := by decide

theorem storeA_reg (i : Fin 8) (j : Fin 2) :
    (WriteReg.aHalf i (j == 1)).rank = (MainPc.storeA i j).stores ∧
      low8 (accelABase + BitVec.ofNat 32 (i.val * 8 + 4 * j.val)) =
        (WriteReg.aHalf i (j == 1)).offset ∧
      a i j = (WriteReg.aHalf i (j == 1)).tableWord a b := by
  have hdec : ∀ (i : Fin 8) (j : Fin 2),
      (WriteReg.aHalf i (j == 1)).rank = (MainPc.storeA i j).stores ∧
      low8 (accelABase + BitVec.ofNat 32 (i.val * 8 + 4 * j.val)) =
        (WriteReg.aHalf i (j == 1)).offset := by decide
  exact ⟨(hdec i j).1, (hdec i j).2, (congrArg (a i) (upper_eq j)).symm⟩

theorem storeB_reg (i : Fin 8) (j : Fin 2) :
    (WriteReg.bHalf i (j == 1)).rank = (MainPc.storeB i j).stores ∧
      low8 (accelBBase + BitVec.ofNat 32 (i.val * 8 + 4 * j.val)) =
        (WriteReg.bHalf i (j == 1)).offset ∧
      b i j = (WriteReg.bHalf i (j == 1)).tableWord a b := by
  have hdec : ∀ (i : Fin 8) (j : Fin 2),
      (WriteReg.bHalf i (j == 1)).rank = (MainPc.storeB i j).stores ∧
      low8 (accelBBase + BitVec.ofNat 32 (i.val * 8 + 4 * j.val)) =
        (WriteReg.bHalf i (j == 1)).offset := by decide
  exact ⟨(hdec i j).1, (hdec i j).2, (congrArg (b i) (upper_eq j)).symm⟩

theorem starts_of_ctrl (he : s.executes = true) (haddr : s.awAddrQ = accelCtrl)
    (hdata : s.wDataQ = 1) : s.starts = true := by
  have hctrl : low8 accelCtrl = low8 ctrlOffset := by decide
  have hbit : (1 : BitVec 32).getLsbD 0 = true := by decide
  rw [starts, writesCtrl, he, haddr, hdata, hctrl, hbit, beq_self_eq_true]
  rfl

/-! ### One cycle -/

variable {f : InFlight} {e : Delays} {addr data : BitVec 32}

theorem filling_next (h : Filling a b m s) (hlink : accelSlave.Stores addr data f s)
    {r : WriteReg} (hctrl : r ≠ .ctrl) (hr : r.rank = m) (haddr : low8 addr = r.offset)
    (hdata : data = r.tableWord a b) :
    if completes (some (.store addr data)) e s.respO then
      (s.next (drive (some (.store addr data)) f e)).bValidQ = false ∧
        Filling a b (m + 1) (s.next (drive (some (.store addr data)) f e))
    else Filling a b m (s.next (drive (some (.store addr data)) f e)) := by
  split_ifs with hc
  · have hclear : accelSlave.Clear (s.next (drive (some (.store addr data)) f e)) :=
      Slave.Stores.clear hlink hc
    exact ⟨hclear.b, h.complete (Bool.and_eq_true_iff.1 hc).1 hclear.b⟩
  · refine h.advance (Bool.eq_false_iff.2 hc) hctrl hr fun he => ?_
    obtain ⟨ha, hd⟩ := Slave.Stores.executes hlink he
    exact ⟨(congrArg low8 ha).trans haddr, Eq.trans hd hdata⟩

theorem ctrl_next (hinv : s.Inv) (h : if s.bValidQ then Started a b s else Filling a b 32 s)
    (hlink : accelSlave.Stores accelCtrl 1 f s) :
    if completes (some (.store accelCtrl 1)) e s.respO then
      (s.next (drive (some (.store accelCtrl 1)) f e)).rValidQ = false ∧
        Started a b (s.next (drive (some (.store accelCtrl 1)) f e))
    else if (s.next (drive (some (.store accelCtrl 1)) f e)).bValidQ then
      Started a b (s.next (drive (some (.store accelCtrl 1)) f e))
    else Filling a b 32 (s.next (drive (some (.store accelCtrl 1)) f e)) := by
  have hresp : s.bValidQ = true → s.executes = false := by
    intro hb
    simp [executes, hb]
  have hwait : ¬ completes (some (.store accelCtrl 1)) e s.respO = true →
      (s.bValidQ && (drive (some (.store accelCtrl 1)) f e).bReady) = false := Bool.eq_false_iff.2
  split_ifs with hc hb'
  · have hb : s.bValidQ = true := (Bool.and_eq_true_iff.1 hc).1
    have hclear : accelSlave.Clear (s.next (drive (some (.store accelCtrl 1)) f e)) :=
      Slave.Stores.clear hlink hc
    rw [if_pos hb] at h
    exact ⟨hclear.r, h.next _ (hresp hb)⟩
  · rw [bValidQ_next (hwait hc), Bool.or_eq_true] at hb'
    rcases hb' with hb | he
    · rw [if_pos hb] at h
      exact h.next _ (hresp hb)
    · -- the store executes in this cycle, with all stream halves stored
      have hb : s.bValidQ = false := (executes_iff.1 he).2.2
      obtain ⟨ha, hd⟩ := Slave.Stores.executes hlink he
      simp only [hb, Bool.false_eq_true, if_false] at h
      have hstored := h.stored
      rw [hb] at hstored
      exact started_of_starts hinv h.idle (starts_of_ctrl he ha hd) hstored _
  · rw [bValidQ_next (hwait hc), Bool.or_eq_true, not_or] at hb'
    rw [if_neg hb'.1] at h
    exact h.wait (hwait hc) (Bool.eq_false_iff.2 hb'.2)

theorem getLsbD_zero_of_and_one {d : BitVec 32} (h : d &&& 1 ≠ 0) : d.getLsbD 0 = true := by
  by_contra hbit
  refine h (BitVec.eq_of_getLsbD_eq fun i hi => ?_)
  rcases Nat.eq_zero_or_pos i with rfl | hpos
  · simpa using hbit
  · simp [BitVec.getLsbD_one, hpos.ne']

variable {results : Fin 16 → BitVec 32}

theorem phase_storeA {i : Fin 8} {j : Fin 2} (h : Phase a b ⟨.storeA i j, results⟩ s)
    (hlink : accelSlave.Linked ((MainPc.storeA i j).access a b) f s) :
    Phase a b (MainState.step a b e s.respO ⟨.storeA i j, results⟩)
      (s.next (drive ((MainPc.storeA i j).access a b) f e)) := by
  obtain ⟨hr, haddr, hdata⟩ := storeA_reg (a := a) (b := b) i j
  have hnext := filling_next (e := e) h hlink (by simp) hr haddr hdata
  change Phase a b (if completes (some (.store _ (a i j))) e s.respO then _ else _) _
  split_ifs at hnext ⊢
  · match j with
    | 0 => exact hnext.2
    | 1 => exact hnext.2
  · exact hnext

theorem phase_storeB {i : Fin 8} {j : Fin 2} (h : Phase a b ⟨.storeB i j, results⟩ s)
    (hlink : accelSlave.Linked ((MainPc.storeB i j).access a b) f s) :
    Phase a b (MainState.step a b e s.respO ⟨.storeB i j, results⟩)
      (s.next (drive ((MainPc.storeB i j).access a b) f e)) := by
  obtain ⟨hr, haddr, hdata⟩ := storeB_reg (a := a) (b := b) i j
  have hnext := filling_next (e := e) h hlink (by simp) hr haddr hdata
  change Phase a b (if completes (some (.store _ (b i j))) e s.respO then _ else _) _
  split_ifs at hnext ⊢
  · match j with
    | 0 => exact hnext.2
    | 1 =>
      -- the last store of a row: another round of the loop, or the start
      have hpc : MainState.complete s.respO.r.data ⟨.storeB i 1, results⟩ =
        ⟨if h : i.val + 1 < 8 then .storeA ⟨i.val + 1, h⟩ 0 else .ctrl, results⟩ := rfl
      have hstores : (MainPc.storeB i 1).stores + 1 = 4 * (i.val + 1) := by
        simp only [MainPc.stores, Fin.val_one]
        omega
      rw [hstores] at hnext
      rw [hpc]
      by_cases hi : i.val + 1 < 8
      · rw [dif_pos hi]
        exact hnext.2
      · rw [dif_neg hi]
        rw [show 4 * (i.val + 1) = 32 by omega] at hnext
        exact (if_neg (Bool.eq_false_iff.1 hnext.1)).mpr hnext.2
  · exact hnext

theorem phase_ctrl (hinv : s.Inv) (h : Phase a b ⟨.ctrl, results⟩ s)
    (hlink : accelSlave.Linked (MainPc.ctrl.access a b) f s) :
    Phase a b (MainState.step a b e s.respO ⟨.ctrl, results⟩)
      (s.next (drive (MainPc.ctrl.access a b) f e)) := by
  have hnext := ctrl_next (e := e) hinv h hlink
  change Phase a b (if completes (some (.store accelCtrl 1)) e s.respO then _ else _) _
  by_cases hc : completes (some (.store accelCtrl 1)) e s.respO = true
  · rw [if_pos hc] at hnext ⊢
    exact ⟨hnext.2, fun hv => absurd (hnext.1.symm.trans hv) (by decide)⟩
  · rw [if_neg hc] at hnext ⊢
    exact hnext

theorem phase_poll (h : Phase a b ⟨.poll, results⟩ s)
    (hlink : accelSlave.Linked (MainPc.poll.access a b) f s) :
    Phase a b (MainState.step a b e s.respO ⟨.poll, results⟩)
      (s.next (drive (MainPc.poll.access a b) f e)) := by
  have hpoll : Polling a b s := h
  have hload : accelSlave.Loads f s := hlink
  have he : s.executes = false := Slave.executes_eq_false (L := accelSlave) (.inl hload.aw)
  have hnext : Polling a b (s.next (drive (some (.load accelStatus)) f e)) :=
    hpoll.next he fun hv => congrArg ArChan.addr (if_pos hv)
  change Phase a b (if completes (some (.load accelStatus)) e s.respO then _ else _) _
  split_ifs with hc
  · have hclear : accelSlave.Clear (s.next (drive (some (.load accelStatus)) f e)) :=
      hload.clear hc
    have hpc : MainState.complete s.respO.r.data ⟨.poll, results⟩ =
      ⟨if s.rDataQ &&& 1 = 0 then .poll else .readResult 0, results⟩ := rfl
    rw [hpc]
    split_ifs with hbit
    · exact hnext
    · -- the data read vouch for the done bit
      have hdone : s.done = true :=
        hpoll.vouched (Bool.and_eq_true_iff.1 hc).1 (getLsbD_zero_of_and_one hbit)
      exact ⟨hnext.started, (hpoll.started.done_next hdone _ he).1,
        fun hv => absurd (hclear.r.symm.trans hv) (by decide), fun m hm => by omega⟩
  · exact hnext

theorem phase_readResult {i : Fin 16} (h : Phase a b ⟨.readResult i, results⟩ s)
    (hlink : accelSlave.Linked ((MainPc.readResult i).access a b) f s) :
    Phase a b (MainState.step a b e s.respO ⟨.readResult i, results⟩)
      (s.next (drive ((MainPc.readResult i).access a b) f e)) := by
  have hread : Reading a b i.val results s := h
  have hload : accelSlave.Loads f s := hlink
  have he : s.executes = false := Slave.executes_eq_false (L := accelSlave) (.inl hload.aw)
  have hnext : Reading a b i.val results (s.next (drive
      (some (.load (accelResultBase + BitVec.ofNat 32 (i.val * 4)))) f e)) :=
    hread.next he fun hv => ⟨i.isLt, congrArg ArChan.addr (if_pos hv)⟩
  change Phase a b (if completes (some (.load _)) e s.respO then _ else _) _
  split_ifs with hc
  · have hclear : accelSlave.Clear (s.next (drive
        (some (.load (accelResultBase + BitVec.ofNat 32 (i.val * 4)))) f e)) := hload.clear hc
    have hcomplete := hread.complete hnext (hread.started.done_next hread.done _ he).2
      (Bool.and_eq_true_iff.1 hc).1 hclear.r
    have hpc : MainState.complete s.respO.r.data ⟨.readResult i, results⟩ =
      ⟨if h : i.val + 1 < 16 then .readResult ⟨i.val + 1, h⟩ else .halt,
        Function.update results i s.rDataQ⟩ := rfl
    rw [hpc]
    by_cases hi : i.val + 1 < 16
    · rw [dif_pos hi]
      exact hcomplete
    · rw [dif_neg hi]
      rw [show i.val + 1 = 16 by omega] at hcomplete
      exact hcomplete
  · exact hnext

theorem phase_halt (h : Phase a b ⟨.halt, results⟩ s)
    (hlink : accelSlave.Linked (MainPc.halt.access a b) f s) :
    Phase a b (MainState.step a b e s.respO ⟨.halt, results⟩)
      (s.next (drive (MainPc.halt.access a b) f e)) := by
  have hclear : accelSlave.Clear s := hlink
  have he : s.executes = false := Slave.executes_eq_false (L := accelSlave) (.inl hclear.aw)
  exact Reading.next h he fun hv => absurd hv (by simp [drive, Delays.noBeat, MainPc.access])

/-- **Every cycle keeps the phase**, whatever is driven and taken in it. -/
theorem phase_next {m : MainState} (hinv : s.Inv)
    (hlink : accelSlave.Linked (m.pc.access a b) f s) (h : Phase a b m s) :
    Phase a b (m.step a b e s.respO) (s.next (drive (m.pc.access a b) f e)) := by
  obtain ⟨pc, results⟩ := m
  cases pc with
  | storeA i j => exact phase_storeA h hlink
  | storeB i j => exact phase_storeB h hlink
  | ctrl => exact phase_ctrl hinv h hlink
  | poll => exact phase_poll h hlink
  | readResult i => exact phase_readResult h hlink
  | halt => exact phase_halt h hlink

theorem driverInv_next {σ : System} (h : DriverInv a b σ) (e : Delays) :
    DriverInv a b (σ.next a b e) where
  inv := inv_next h.inv _
  linked := Slave.Linked.next h.linked fun hc =>
    congrArg (fun m : MainState => m.pc.access a b) (if_neg (Bool.eq_false_iff.1 hc))
  phase := phase_next h.inv h.linked h.phase

/-- The invariant holds before the first access, on an accelerator that is idle and owes nothing:
its status bit and its results may be those of an earlier operation. -/
theorem driverInv_start (hs : accel.Reachable s) (hidle : s.busyQ = false)
    (hclear : accelSlave.Clear s) (results : Fin 16 → BitVec 32) :
    DriverInv a b (.start s results) where
  inv := inv_of_reachable hs
  linked := hclear.linked _
  phase := ⟨hidle, fun r hr => absurd hr (by
    have hb : s.bValidQ = false := hclear.b
    simp [System.start, MainPc.stores, hb])⟩

/-- **The driver returns the sums of its tables.**  From every reachable accelerator that is idle
and owes nothing, for all tables and all delays: once the polling loop has exited, the results read
so far are the sums, and all sixteen are when the readback has ended. -/
theorem driver_results (a b : Table) {s : AccelRegs} (hs : accel.Reachable s)
    (hidle : s.busyQ = false) (hclear : accelSlave.Clear s) (results₀ : Fin 16 → BitVec 32)
    (ε : ℕ → Delays) (n : ℕ) :
    let σ := (system a b).runFrom (.start s results₀) ε n
    (∀ i, σ.main.pc = .readResult i → ∀ k l : Fin 4, 4 * k.val + l.val < i.val →
      (σ.main.results ⟨4 * k.val + l.val, by omega⟩).toNat = tableSum a b k l % 2 ^ 32) ∧
    (σ.main.pc = .halt → ∀ k l : Fin 4,
      (σ.main.results ⟨4 * k.val + l.val, by omega⟩).toNat = tableSum a b k l % 2 ^ 32) := by
  intro σ
  have hinv : DriverInv a b σ :=
    Clocked.runFrom_invariant (A := system a b) (driverInv_start hs hidle hclear results₀)
      (fun j hj => driverInv_next hj (ε j)) n
  have hread : ∀ i, Reading a b i σ.main.results σ.accel → ∀ k l : Fin 4,
      4 * k.val + l.val < i →
      (σ.main.results ⟨4 * k.val + l.val, by omega⟩).toNat = tableSum a b k l % 2 ^ 32 := by
    intro i h k l hlt
    rw [h.read _ hlt]
    exact (h.started.result h.done).2 k l
  have hphase := hinv.phase
  constructor
  · intro i hpc
    rw [Phase, hpc] at hphase
    exact hread i.val hphase
  · intro hpc k l
    rw [Phase, hpc] at hphase
    exact hread 16 hphase k l (by omega)

/-- A master that never waits. -/
def eager : Delays := ⟨true, true, true, true, true, ⟨0⟩, ⟨0, 0⟩, ⟨0⟩⟩

/-- `main` with the tables of `main.c`, on an accelerator whose done bit and results are left from
an earlier operation: `results[7]` is the entry that the test bench expects. -/
theorem driver_results_main :
    (((system aStream bStream).runFrom (.start (accel.run smallOperation 40) fun _ => 0)
      (fun _ => eager) 170).main.results ⟨4 * (1 : Fin 4).val + (3 : Fin 4).val, by omega⟩).toNat =
        280 := by
  rw [(driver_results aStream bStream (accel.reachable_run smallOperation 40) (by decide +kernel)
    (by constructor <;> decide +kernel) (fun _ => 0) (fun _ => eager) 170).2
      (by decide +kernel) 1 3]
  decide +kernel

end SystolicSoc
