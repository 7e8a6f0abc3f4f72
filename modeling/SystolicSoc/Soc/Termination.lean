import SystolicSoc.Accel.Progress
import SystolicSoc.Soc.Firmware

/-!
# The firmware ends

`main` waits in a polling loop for the done bit, and other accesses may come between any two of its
own.  It nevertheless ends, as long as the processor keeps coming back to it.

* `Firmware.rank` : the accesses that `main` has left, the polling loop counted as one.
* `firmware_completes` : an access of `main` completes, and is followed by the next.
* `firmware_polling` : the done bit is up after 25 cycles of the polling loop.
* `Fair`, `firmware_terminates` : **every fair run of the firmware ends.**
-/

namespace SystolicSoc

open Stage

theorem exists_eq_zero_of_descent {f : ℕ → ℕ} (h : ∀ n, 0 < f n → ∃ m ≥ n, f m < f n) :
    ∃ n, f n = 0 := by
  suffices hall : ∀ k n, f n = k → ∃ m, f m = 0 from hall _ 0 rfl
  intro k
  induction k using Nat.strong_induction_on with
  | _ k ih =>
    intro n hn
    rcases Nat.eq_zero_or_pos (f n) with h0 | hpos
    · exact ⟨n, h0⟩
    · obtain ⟨m, -, hm⟩ := h n hpos
      exact ih (f m) (hn ▸ hm) m rfl

/-! ### The polling loop -/

namespace AccelRegs

variable {s : AccelRegs}

/-- The operation is under way, or its result is there. -/
def Settling (s : AccelRegs) : Prop := s.busyQ = true ∨ s.done = true

/-- The clocks after which the result is there. -/
def settlingTime (s : AccelRegs) : ℕ := if s.busyQ then s.remaining + 1 else 0

theorem settlingTime_le (h : s.Inv) : s.settlingTime ≤ 25 := by
  have hp := h.pending_le
  have hd := h.delay_le
  have hc := h.cycle_le
  rw [settlingTime, remaining]
  split_ifs
  · bv_omega
  · omega

/-- A clock without a write brings the result nearer, and leaves it once it is there. -/
theorem settling_next (hinv : s.Inv) (h : s.Settling) (req : Req) (he : s.executes = false) :
    (next req s).Settling ∧ (next req s).settlingTime ≤ s.settlingTime - 1 := by
  have hst : s.starts = false := by rw [starts, writesCtrl, he]; rfl
  cases hb : s.busyQ with
  | false =>
    obtain ⟨hbusy, hdone, -⟩ := settled_next req hb he
    refine ⟨.inr (hdone.trans (h.resolve_left (by simp [hb]))), ?_⟩
    rw [settlingTime, hbusy]
    exact Nat.zero_le _
  | true =>
    cases hcap : s.captures with
    | true =>
      obtain ⟨hbusy, hdone, -⟩ := capture_next req hcap
      refine ⟨.inr hdone, ?_⟩
      rw [settlingTime, hbusy]
      exact Nat.zero_le _
    | false =>
      obtain ⟨hbusy, hrem⟩ := remaining_next hinv hb hst hcap req
      refine ⟨.inl hbusy, ?_⟩
      rw [settlingTime, settlingTime, hbusy, hb, if_pos rfl, if_pos rfl]
      omega

end AccelRegs

open AccelRegs

theorem Started.settling {a b : Table} {s : AccelRegs} (h : Started a b s) : s.Settling := by
  obtain ⟨s₁, κ, j, hinv, hidle, hst, -, hj, hq, rfl⟩ := h
  obtain ⟨j, rfl⟩ := Nat.exists_eq_add_of_le' hj
  clear hj
  suffices hboth : (accel.runFrom s₁ κ (j + 1)).Inv ∧ (accel.runFrom s₁ κ (j + 1)).Settling from
    hboth.2
  induction j with
  | zero =>
    refine ⟨inv_next hinv _, .inl ?_⟩
    change (AccelRegs.next (κ 0) s₁).busyQ = true
    simp [next_busyQ, captures, running, hidle, hst]
  | succ j ih =>
    obtain ⟨hinv', hset⟩ := ih (hq.mono (by omega))
    exact ⟨inv_next hinv' _, (settling_next hinv' hset _ (hq (j + 1) (by omega) (by omega))).1⟩

/-! ### The rank of the program -/

/-- The accesses that follow a program point. -/
def MainPc.rank : MainPc → ℕ
  | storeA i j => 66 - (4 * i.val + j.val)
  | storeB i j => 64 - (4 * i.val + j.val)
  | ctrl => 34
  | poll => 33
  | readResult i => 2 * (16 - i.val)
  | halt => 0

theorem MainPc.rank_pos (pc : MainPc) : 0 < pc.rank ↔ pc ≠ .halt := by
  cases pc <;> simp [rank] <;> omega

/-- The accesses left at a program point, when result `toStore` is loaded and not stored. -/
def rankOf (toStore : Option (Fin 16)) (pc : MainPc) : ℕ :=
  match toStore with
  | some j => 2 * (15 - j.val) + 1
  | none => pc.rank

/-- **An access of `main` that completes leaves fewer**, except a poll that finds the done bit
down. -/
theorem MainState.rank_complete (m : MainState) (d : BitVec 32) (hrank : 0 < m.pc.rank)
    (hpoll : m.pc = .poll → d &&& 1#32 ≠ 0#32) :
    rankOf m.pc.result (m.complete d).pc < m.pc.rank := by
  obtain ⟨pc, results⟩ := m
  cases pc with
  | storeA i j =>
    fin_cases j <;> simp [rankOf, complete, MainPc.result, MainPc.rank] <;> omega
  | storeB i j =>
    by_cases hi : i.val + 1 < 8 <;> fin_cases j <;>
      simp [rankOf, complete, MainPc.result, MainPc.rank, hi] <;> omega
  | ctrl => simp [rankOf, complete, MainPc.result, MainPc.rank]
  | poll => simp [rankOf, complete, MainPc.result, MainPc.rank, hpoll rfl]
  | readResult i =>
    simp [rankOf, MainPc.result, MainPc.rank]
    omega
  | halt => exact absurd hrank (lt_irrefl _)

theorem MainState.rank_complete_le (m : MainState) (d : BitVec 32) :
    rankOf m.pc.result (m.complete d).pc ≤ m.pc.rank := by
  by_cases h : m.pc ≠ .halt ∧ (m.pc = .poll → d &&& 1#32 ≠ 0#32)
  · exact (m.rank_complete d ((MainPc.rank_pos _).2 h.1) h.2).le
  · obtain ⟨pc, results⟩ := m
    cases pc with
    | halt => exact le_rfl
    | poll =>
      -- one more round of the loop
      have hd : d &&& 1#32 = 0#32 := by simpa using h
      simp [rankOf, complete, MainPc.result, MainPc.rank, hd]
    | storeA | storeB | ctrl | readResult => simp at h

namespace Firmware

/-- The accesses that `main` has left, the polling loop counted as one. -/
def rank (φ : Firmware P) : ℕ := rankOf φ.toStore φ.main.pc

variable {P : XbarParts 2 1} {up : PowerUp} {a b : Table} {base : BitVec 32} {c : Choice}
  {φ : Firmware P} {t : Stage}

theorem rank_eq_zero : φ.rank = 0 ↔ φ.Halted := by
  rw [rank, Halted]
  cases hstore : φ.toStore with
  | some j => simp [rankOf]
  | none =>
    have hpos := MainPc.rank_pos φ.main.pc
    rw [Nat.pos_iff_ne_zero] at hpos
    simpa [rankOf] using not_iff_not.1 hpos

theorem access_of_rank (h : 0 < φ.rank) : ∃ acc, φ.access a b base = some acc := by
  rw [access]
  cases hstore : φ.toStore with
  | some j => exact ⟨_, rfl⟩
  | none =>
    rw [rank, hstore, rankOf] at h
    cases hpc : φ.main.pc with
    | halt => rw [hpc] at h; exact absurd h (lt_irrefl _)
    | storeA | storeB | ctrl | poll | readResult => exact ⟨_, rfl⟩

theorem rank_next (hends : φ.ends = true) (hrank : 0 < φ.rank) (hs : Stores base t φ)
    (hpoll : φ.toStore = none → φ.main.pc = .poll →
      AxiAdapter.memRdata φ.soc.cpuResp &&& 1#32 ≠ 0#32) :
    (φ.next a b base c).rank < φ.rank := by
  rw [rank, next_main, next_toStore, hends, Bool.true_and, if_pos rfl]
  rw [rank] at hrank ⊢
  cases hstore : φ.toStore with
  | some j =>
    rw [Option.isNone_some, if_neg Bool.false_ne_true, if_neg Bool.false_ne_true,
      hs.pending j hstore]
    by_cases hj : j.val + 1 < 16
    · simp only [dif_pos hj, rankOf, MainPc.rank]
      omega
    · simp only [dif_neg hj, rankOf, MainPc.rank]
      omega
  | none =>
    rw [hstore] at hrank
    rw [Option.isNone_none, if_pos rfl, if_pos rfl]
    exact φ.main.rank_complete _ hrank (hpoll hstore)

theorem rank_next_le (hs : Stores base t φ) (c : Choice) :
    (φ.next a b base c).rank ≤ φ.rank := by
  by_cases hends : φ.ends = true
  · cases hstore : φ.toStore with
    | some j =>
      refine (rank_next hends ?_ hs fun h => ?_).le
      · rw [rank, hstore, rankOf]
        omega
      · rw [hstore] at h
        cases h
    | none =>
      rw [rank, rank, next_main, next_toStore, hends, hstore]
      exact φ.main.rank_complete_le _
  · rw [rank, next_main, next_toStore, Bool.eq_false_iff.2 hends]
    exact le_rfl

theorem rank_eq_poll (hs : Stores base t φ) : φ.rank = 33 ↔ φ.main.pc = .poll := by
  rw [rank]
  cases hstore : φ.toStore with
  | some j =>
    have hpending := hs.pending j hstore
    have hne : φ.main.pc ≠ .poll := by
      rw [hpending]
      split_ifs <;> simp
    simp only [rankOf, hne, iff_false]
    omega
  | none => cases hpc : φ.main.pc <;> simp [rankOf, MainPc.rank] <;> omega

/-- In the polling loop the accelerator executes no write, and its result is on its way. -/
theorem At.polling (h : φ.At a b base up t) (hpc : φ.main.pc = .poll) :
    φ.soc.accel.Inv ∧ φ.soc.accel.Settling ∧ φ.soc.accel.executes = false := by
  have hphase := h.driver.phase
  have hlink := h.driver.linked
  rw [Phase, show (φ.system t).main.pc = .poll from hpc] at hphase
  rw [System.access, show (φ.system t).main.pc = .poll from hpc] at hlink
  have hpolling : Polling a b φ.soc.accel := hphase
  have hload : accelSlave.Loads (φ.system t).inFlight φ.soc.accel := hlink
  exact ⟨h.driver.inv, hpolling.started.settling,
    Slave.executes_eq_false (L := accelSlave) (.inl hload.aw)⟩

end Firmware

/-! ### A poll -/

theorem latency_poll (wdata : BitVec 32) :
    ((Access.load accelStatus).req wdata).latency = 1 := by
  have hmapped : (target accelStatus == 2) = false := by decide
  change Stage.latency false (target accelStatus == 2) = 1
  rw [hmapped]
  rfl

theorem soc_polled {P : XbarParts 2 1} {up : PowerUp} {ι : ℕ → Option MemReq} {n : ℕ}
    {wdata : BitVec 32} (hidle : ((soc P up).run ι n).cpu.memValid = false)
    (hgo : ι n = some ((Access.load accelStatus).req wdata))
    (hdone : ((soc P up).run ι (n + 1)).accel.done = true) :
    AxiAdapter.memRdata ((soc P up).run ι (n + 2)).cpuResp &&& 1#32 ≠ 0#32 := by
  obtain ⟨hv, hready, hreq⟩ := soc_ready hidle hgo
  rw [latency_poll] at hv hready hreq
  have hend : ((soc P up).run ι (n + 2)).completed (ι (n + 2)) =
      some ((Access.load accelStatus).req wdata,
        AxiAdapter.memRdata ((soc P up).run ι (n + 2)).cpuResp) := by
    rw [SocTop.completed, hv, hready, hreq]
    rfl
  have hmapped : target accelStatus = 1 := by decide
  obtain ⟨k, hk, -, -, hd⟩ := (accel_attached P up).read hend rfl hmapped
  obtain rfl : n + 1 = k := by omega
  rw [hd]
  change AccelRegs.readMux ((soc P up).run ι (n + 1)).accel accelStatus &&& 1#32 ≠ 0#32
  rw [readMux_status]
  intro hzero
  have hbit := congrArg (fun x : BitVec 32 => x.getLsbD 0) hzero
  simp only [BitVec.getLsbD_and, show ((soc P up).run ι (n + 1)).accel.statusQ.getLsbD 0 = true
    from hdone] at hbit
  exact absurd hbit (by decide)

/-! ### Whole runs -/

/-- The processor begins an access of `main` again and again. -/
def Fair (ι : ℕ → Choice) (A : Clocked Choice (Firmware P)) : Prop :=
  ∀ N, ∃ n ≥ N, (A.run ι n).soc.cpu.memValid = false ∧ (ι n).isProceed = true

section Runs

variable {P : XbarParts 2 1} {up : PowerUp} {a b : Table} {base : BitVec 32}
  {results : Fin 16 → BitVec 32} {ι : ℕ → Choice}

theorem firmware_soc (n : ℕ) : ((firmware P up a b base results).run ι n).soc =
    (soc P up).run (fun k => ((firmware P up a b base results).run ι k).go a b base (ι k)) n :=
  Clocked.runFrom_proj (A := firmware P up a b base results) (B := soc P up) (f := Firmware.soc)
    (g := fun c φ => φ.go a b base c) (fun _ _ => rfl) _ ι n

theorem fair_of_proceed (h : ∀ n, (ι n).isProceed = true) :
    Fair ι (firmware P up a b base results) := by
  intro N
  obtain ⟨n, hn, hidle⟩ := soc_idle_again P up
    (fun k => ((firmware P up a b base results).run ι k).go a b base (ι k)) N
  rw [← firmware_soc] at hidle
  exact ⟨n, hn, hidle, h n⟩

theorem firmware_completes {n : ℕ} {r : MemReq}
    (hidle : ((firmware P up a b base results).run ι n).soc.cpu.memValid = false)
    (hproceed : (ι n).isProceed = true)
    (hgo : ((firmware P up a b base results).run ι n).go a b base (ι n) = some r) :
    let φ := (firmware P up a b base results).run ι
    (φ (n + 1 + r.latency)).ends = true ∧ (φ (n + 1 + r.latency)).main = (φ n).main ∧
      (φ (n + 1 + r.latency)).toStore = (φ n).toStore := by
  intro φ
  have hidle' := hidle
  rw [firmware_soc] at hidle'
  have hkeep : ∀ k ≤ r.latency, (φ (n + 1 + k)).mine = true ∧
      (φ (n + 1 + k)).main = (φ n).main ∧ (φ (n + 1 + k)).toStore = (φ n).toStore := by
    intro k hk
    induction k with
    | zero =>
      have hends : (φ n).ends = false := by
        rw [Firmware.ends, hidle, Bool.false_and, Bool.and_false]
      change ((φ n).next a b base (ι n)).mine = true ∧ ((φ n).next a b base (ι n)).main = _ ∧
        ((φ n).next a b base (ι n)).toStore = _
      rw [Firmware.next_mine, Firmware.next_main, Firmware.next_toStore, hends, hidle]
      exact ⟨hproceed, rfl, rfl⟩
    | succ k ih =>
      obtain ⟨hmine, hmain, hstore⟩ := ih (by omega)
      obtain ⟨hv, hready⟩ := soc_pending hidle' hgo hk
      rw [← firmware_soc] at hv hready
      have hends : (φ (n + 1 + k)).ends = false := by
        rw [Firmware.ends, hready, Bool.and_false, Bool.and_false]
      change ((φ (n + 1 + k)).next a b base _).mine = true ∧
        ((φ (n + 1 + k)).next a b base _).main = _ ∧
        ((φ (n + 1 + k)).next a b base _).toStore = _
      rw [Firmware.next_mine, Firmware.next_main, Firmware.next_toStore, hends, hv]
      exact ⟨hmine, hmain, hstore⟩
  obtain ⟨hmine, hmain, hstore⟩ := hkeep r.latency le_rfl
  obtain ⟨hv, hready, -⟩ := soc_ready hidle' hgo
  rw [← firmware_soc] at hv hready
  refine ⟨?_, hmain, hstore⟩
  rw [Firmware.ends, hmine, hv, hready]
  rfl

variable (harea : ResultsArea base) (hι : ∀ n, (ι n).Harmless base)

include harea hι

theorem firmware_rank_le {m n : ℕ} (h : m ≤ n) :
    ((firmware P up a b base results).run ι n).rank ≤
      ((firmware P up a b base results).run ι m).rank := by
  refine antitone_nat_of_succ_le (f := fun n => ((firmware P up a b base results).run ι n).rank)
    (fun n => ?_) h
  obtain ⟨t, hat⟩ := firmware_at P up a b harea results hι n
  exact Firmware.rank_next_le hat.stores (ι n)

/-- **The polling loop sees the done bit** after 25 cycles at most. -/
theorem firmware_polling {n : ℕ}
    (hpoll : ∀ m ≥ n, ((firmware P up a b base results).run ι m).main.pc = .poll) {m : ℕ}
    (hm : n + 25 ≤ m) : ((firmware P up a b base results).run ι m).soc.accel.done = true := by
  set φ := (firmware P up a b base results).run ι with hφ
  have hpolling : ∀ m ≥ n, (φ m).soc.accel.Inv ∧ (φ m).soc.accel.Settling ∧
      (φ m).soc.accel.executes = false := fun m hm =>
    (firmware_at P up a b harea results hι m).elim fun t hat => hat.polling (hpoll m hm)
  have htime : ∀ j, (φ (n + j)).soc.accel.settlingTime ≤ 25 - j := by
    intro j
    induction j with
    | zero => exact settlingTime_le (hpolling n le_rfl).1
    | succ j ih =>
      obtain ⟨hinv, hset, he⟩ := hpolling (n + j) (by omega)
      have hnext := (settling_next hinv hset ((φ (n + j)).soc.xbarReq 1) he).2
      change (φ (n + j + 1)).soc.accel.settlingTime ≤ _ at hnext
      rw [← Nat.add_assoc]
      omega
  obtain ⟨j, rfl⟩ := Nat.exists_eq_add_of_le hm
  have h0 := htime (25 + j)
  have hset := (hpolling (n + 25 + j) (by omega)).2.1
  rw [← Nat.add_assoc] at h0
  refine hset.resolve_left fun hbusy => ?_
  rw [settlingTime, if_pos hbusy] at h0
  omega

/-- **The rank goes down again and again**. -/
theorem firmware_descends (hfair : Fair ι (firmware P up a b base results)) {n : ℕ}
    (hrank : 0 < ((firmware P up a b base results).run ι n).rank) :
    ∃ m ≥ n, ((firmware P up a b base results).run ι m).rank <
      ((firmware P up a b base results).run ι n).rank := by
  by_contra hno
  set φ := (firmware P up a b base results).run ι with hφ
  have hsame : ∀ m ≥ n, (φ m).rank = (φ n).rank := by
    intro m hm
    have hle : (φ m).rank ≤ (φ n).rank := firmware_rank_le harea hι hm
    by_contra hne
    exact hno ⟨m, hm, lt_of_le_of_ne hle hne⟩
  -- an access of `main` that begins after 25 more cycles
  obtain ⟨m, hm, hidle, hproceed⟩ := hfair (n + 25)
  obtain ⟨acc, hacc⟩ : ∃ acc, (φ m).access a b base = some acc := by
    refine Firmware.access_of_rank ?_
    rw [hsame m (by omega)]
    exact hrank
  obtain ⟨wdata, hchoice⟩ : ∃ wdata, ι m = .proceed wdata := by
    cases hc : ι m with
    | wait | other => rw [hc] at hproceed; cases hproceed
    | proceed wdata => exact ⟨wdata, rfl⟩
  have hgo : (φ m).go a b base (ι m) = some (acc.req wdata) := by
    rw [hchoice, Firmware.go, hacc]
    rfl
  obtain ⟨hends, hmain, hstore⟩ := firmware_completes hidle hproceed hgo
  rw [← hφ] at hends hmain hstore
  generalize hend : m + 1 + (acc.req wdata).latency = e at hends hmain hstore
  obtain ⟨t, hat⟩ := firmware_at P up a b harea results hι e
  refine hno ⟨e + 1, by omega, (Firmware.rank_next hends ?_ hat.stores ?_).trans_eq ?_⟩
  · exact hrank.trans_eq (hsame e (by omega)).symm
  · intro hstore' hpc
    -- in the polling loop, from cycle `n` on
    have hpoll : ∀ k ≥ n, (φ k).main.pc = .poll := by
      intro k hk
      obtain ⟨t', hat'⟩ := firmware_at P up a b harea results hι k
      have hrank' := (Firmware.rank_eq_poll hat.stores).2 hpc
      exact (Firmware.rank_eq_poll hat'.stores).1
        ((hsame k hk).trans ((hsame e (by omega)).symm.trans hrank'))
    have hload : acc = .load accelStatus := by
      rw [Firmware.access, ← hstore, show (φ e).toStore = none from hstore',
        hpoll m (by omega)] at hacc
      exact (Option.some.inj hacc).symm
    have hdone := firmware_polling harea hι hpoll (m := m + 1) (by omega)
    rw [hload] at hgo hend
    rw [latency_poll] at hend
    rw [firmware_soc] at hidle hdone
    rw [← hend, firmware_soc]
    exact soc_polled hidle hgo hdone
  · exact hsame e (by omega)

end Runs

/-- **The firmware ends**, with the sums of its tables in the memory, in every fair run.  For all
tables, all delays and all other traffic between the accesses of `main` that leaves the accelerator
and the array alone, for all power-up contents and all implementations of the crossbar's parts. -/
theorem firmware_terminates (P : XbarParts 2 1) (up : PowerUp) (a b : Table) {base : BitVec 32}
    (harea : ResultsArea base) (results : Fin 16 → BitVec 32) (ι : ℕ → Choice)
    (hι : ∀ n, (ι n).Harmless base) (hfair : Fair ι (firmware P up a b base results)) :
    ∃ n, ∀ m ≥ n, ((firmware P up a b base results).run ι m).Halted ∧
      ∀ k l : Fin 4, (((firmware P up a b base results).run ι m).soc.ram.mem (AxiLiteRam.wordIdx
        (resultAddr base ⟨4 * k.val + l.val, entry_lt k l⟩))).toNat =
          tableSum a b k l % 2 ^ 32 := by
  obtain ⟨n, hn⟩ := exists_eq_zero_of_descent
    (f := fun n => ((firmware P up a b base results).run ι n).rank)
    fun n => firmware_descends harea hι hfair
  refine ⟨n, fun m hm => ?_⟩
  obtain ⟨t, hat⟩ := firmware_at P up a b harea results hι m
  have hhalt : ((firmware P up a b base results).run ι m).Halted := by
    refine Firmware.rank_eq_zero.1 (Nat.le_zero.1 ?_)
    rw [← hn]
    exact firmware_rank_le harea hι hm
  exact ⟨hhalt, hat.results hhalt⟩

/-- A processor that does nothing but `main`, with the tables of `main.c`. -/
theorem firmware_terminates_eager : ∃ n, ∀ m ≥ n, ((firmware (listXbar 2 1) .blank aStream bStream
    0x8000#32 fun _ => 0).run (fun _ => .proceed 0) m).Halted := by
  have harea : ResultsArea 0x8000#32 := by decide +kernel
  obtain ⟨n, hn⟩ := firmware_terminates (listXbar 2 1) .blank aStream bStream harea (fun _ => 0)
    (fun _ => .proceed 0) (fun _ => trivial) (fair_of_proceed fun _ => rfl)
  exact ⟨n, fun m hm => (hn m hm).1⟩

end SystolicSoc
