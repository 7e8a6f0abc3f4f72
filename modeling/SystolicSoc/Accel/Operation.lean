import SystolicSoc.Accel.Control
import SystolicSoc.Array.Closed

/-!
# One operation of the accelerator

The controller runs an operation in four stages: two clear cycles, the feed delay, twenty feed and
drain cycles counted by `compute_cycle_q`, and the capture.  This file follows a run through each
stage, for any bus traffic without a further start.

* `AccelRegs.Feeds s c` : the controller is at cycle `c` of the feed and drain.
* `AccelRegs.clear_run`, `AccelRegs.feeds_run`, `AccelRegs.capture_run` : the stages.
* `AccelRegs.fresh_run` : from cycle `0` with an empty pipeline the captured words are the skewed
  sums of the eight words fed.
* `operation_result` : **the result of a start from an idle accelerator**, whatever happened
  before it and whatever else the bus does meanwhile.
-/

namespace SystolicSoc

/-- Word `t` of a stream, zero after the eighth. -/
def wordAt (m : Fin 8 → BitVec 64) (t : ℕ) : BitVec 64 := if h : t < 8 then m ⟨t, h⟩ else 0

theorem wordAt_of_ge {m : Fin 8 → BitVec 64} {t : ℕ} (h : 8 ≤ t) : wordAt m t = 0 := by
  rw [wordAt, dif_neg (by omega)]

/-- The exact sum, over the words `t < M`, of lane `l` of `a t` times lane `k` of
`b (t + k - l)`. -/
def streamSum (M : ℕ) (a b : ℕ → BitVec 64) (k l : Fin 4) : ℕ :=
  skewSum (fun x y => x.toNat * y.toNat) M (fun t => lane (a t) l) (fun t => lane (b t) k) k l

theorem toNat_skewSum_mac (M : ℕ) (a b : ℕ → BitVec 64) (k l : Fin 4) :
    (skewSum mac M (fun t => lane (a t) l) (fun t => lane (b t) k) k l).toNat =
      streamSum M a b k l % 2 ^ 32 :=
  toNat_skewSum toNat_mac M _ _ k l

namespace AccelRegs

variable (req : Req) {s : AccelRegs} {c : ℕ}

/-- The controller is at cycle `c` of the feed and drain. -/
structure Feeds (s : AccelRegs) (c : ℕ) : Prop where
  pending : s.startPendingQ = 0#2
  busy : s.busyQ = true
  delay : s.feedDelayQ = 0#2
  cycle : s.computeCycleQ.toNat = c

theorem Feeds.running (h : s.Feeds c) : s.running = true := by
  simp [AccelRegs.running, h.pending, h.busy]

theorem Feeds.delays (h : s.Feeds c) : s.delays = false := by
  simp [AccelRegs.delays, h.delay]

theorem Feeds.captures (h : s.Feeds c) : s.captures = decide (c = 20) := by
  have hc : s.computeCycleQ = 20#5 ↔ c = 20 := by have := h.cycle; bv_omega
  rw [Bool.eq_iff_iff, decide_eq_true_eq, ← hc]
  simp [AccelRegs.captures, h.running, h.delay]

theorem Feeds.advances (h : s.Feeds c) : s.advances = decide (c ≠ 20) := by
  have hc : s.computeCycleQ = 20#5 ↔ c = 20 := by have := h.cycle; bv_omega
  rw [Bool.eq_iff_iff, decide_eq_true_eq, ne_eq, ← hc]
  simp [AccelRegs.advances, h.running, h.delay]

theorem Feeds.feedWord (h : s.Feeds c) (m : Fin 8 → BitVec 64) :
    feedWord m s = wordAt m c := by
  have hlt : s.computeCycleQ < 8#5 ↔ c < 8 := by have := h.cycle; bv_omega
  by_cases hc : c < 8
  · have hidx : s.feedIdx = ⟨c, hc⟩ := by
      ext
      simp [feedIdx, h.cycle]
      omega
    rw [AccelRegs.feedWord, if_pos (hlt.2 hc), wordAt, dif_pos hc, hidx]
  · rw [AccelRegs.feedWord, if_neg (mt hlt.1 hc), wordAt, dif_neg hc]

/-! ### Stage lemmas -/

/-- What an edge without a start leaves alone while the operation goes on. -/
structure Holds (s s' : AccelRegs) : Prop where
  busy : s'.busyQ = s.busyQ
  done : s'.done = s.done
  result : s'.resultQ = s.resultQ

theorem holds_next (hst : s.starts = false) (hc : s.captures = false) : Holds s (next req s) where
  busy := by simp [next_busyQ, hst, hc]
  done := by simp [next_done, hst, hc]
  result := by simp [next_resultQ, hc]

/-- The controller runs an operation at the given counters and feed registers. -/
structure Armed (s : AccelRegs) (sp fd : BitVec 2) (cc : BitVec 5) (x y : BitVec 64) : Prop where
  pending : s.startPendingQ = sp
  busy : s.busyQ = true
  done : s.done = false
  delay : s.feedDelayQ = fd
  cycle : s.computeCycleQ = cc
  a : s.arrayAQ = x
  b : s.arrayBQ = y

variable {sp fd : BitVec 2} {cc : BitVec 5} {x y : BitVec 64}

theorem Armed.feeds (h : s.Armed 0#2 0#2 cc x y) : s.Feeds cc.toNat :=
  ⟨h.pending, h.busy, h.delay, congrArg BitVec.toNat h.cycle⟩

/-- A start while the controller does not capture: the counters and feed registers are the new
ones, except where the controller assigns them too. -/
theorem armed_of_starts (h : s.Inv) (hst : s.starts = true) (hcap : s.captures = false) :
    (next req s).Armed 2#2 (if s.delays then s.feedDelayQ - 1#2 else 1#2)
      (if s.advances then s.computeCycleQ + 1#5 else 0#5)
      (if s.advances then feedWord s.aStreamQ s else 0#64)
      (if s.advances then feedWord s.bStreamQ s else 0#64) := by
  have hp := h.pending_of_executes (executes_of_starts hst)
  have hexcl : s.delays = true → s.advances = false := by
    intro hd
    simp only [delays, Bool.and_eq_true, bne_iff_ne] at hd
    simp [advances, hd.2]
  constructor
  · simp [next_startPendingQ, hp, hst]
  · simp [next_busyQ, hcap, hst]
  · simp [next_done, hcap, hst]
  · simp [next_feedDelayQ, hst]
  · simp [next_computeCycleQ, hst]
  -- a delay and an advance exclude each other
  · rw [next_arrayAQ]
    cases hd : s.delays <;> simp_all
  · rw [next_arrayBQ]
    cases hd : s.delays <;> simp_all

theorem armed_clear (hinv : s.Inv) (h : s.Armed sp fd cc x y) (hp : sp ≠ 0#2) :
    (next req s).Armed (sp - 1#2) fd cc x y ∧ (next req s).uSystolicArray = .cleared := by
  have hp' : s.startPendingQ ≠ 0#2 := by rw [h.pending]; exact hp
  have hst : s.starts = false := by
    by_contra hst
    exact hp' (hinv.pending_of_executes (executes_of_starts (by simpa using hst)))
  have hrun : s.running = false := by simp [running, hp']
  have hclear : s.clearArray = true := by simp [clearArray, hp']
  have hcap : s.captures = false := by simp [captures, hrun]
  refine ⟨⟨?_, ?_, ?_, ?_, ?_, ?_, ?_⟩, ?_⟩
  · simp [next_startPendingQ, h.pending, hp]
  · simp [next_busyQ, hcap, hst, h.busy]
  · simp [next_done, hcap, hst, h.done]
  · simp [next_feedDelayQ, delays, hrun, hst, h.delay]
  · simp [next_computeCycleQ, advances, hrun, hst, h.cycle]
  · simp [next_arrayAQ, delays, advances, hrun, hst, h.a]
  · simp [next_arrayBQ, delays, advances, hrun, hst, h.b]
  · simp [next_uSystolicArray, hclear]

/-- The feed delay empties the feed registers, while the array takes in what they held. -/
theorem armed_delay (h : s.Armed 0#2 1#2 cc x y) (hst : s.starts = false) :
    (next req s).Armed 0#2 0#2 cc 0#64 0#64 ∧
      (next req s).uSystolicArray = s.uSystolicArray.next false x y := by
  have hdel : s.delays = true := by simp [delays, running, h.pending, h.busy, h.delay]
  have hadv : s.advances = false := by simp [advances, h.delay]
  have hcap : s.captures = false := by simp [captures, h.delay]
  have hclear : s.clearArray = false := by simp [clearArray, h.pending]
  refine ⟨⟨?_, ?_, ?_, ?_, ?_, ?_, ?_⟩, ?_⟩
  · simp [next_startPendingQ, h.pending, hst]
  · simp [next_busyQ, hcap, hst, h.busy]
  · simp [next_done, hcap, hst, h.done]
  · simp [next_feedDelayQ, hdel, h.delay]
  · simp [next_computeCycleQ, hadv, hst, h.cycle]
  · simp [next_arrayAQ, hdel]
  · simp [next_arrayBQ, hdel]
  · rw [next_uSystolicArray, hclear, h.a, h.b]

theorem feeds_next (h : s.Feeds c) (hc : c < 20) (hst : s.starts = false) :
    (next req s).Feeds (c + 1) ∧
      (next req s).arrayAQ = wordAt s.aStreamQ c ∧ (next req s).arrayBQ = wordAt s.bStreamQ c ∧
      (next req s).uSystolicArray = s.uSystolicArray.next false s.arrayAQ s.arrayBQ := by
  have hadv : s.advances = true := by simp [h.advances, hc.ne]
  have hcap : s.captures = false := by simp [h.captures, hc.ne]
  have hclear : s.clearArray = false := by simp [clearArray, h.pending]
  refine ⟨⟨?_, ?_, ?_, ?_⟩, ?_, ?_, ?_⟩
  · simp [next_startPendingQ, h.pending, hst]
  · simp [next_busyQ, hcap, hst, h.busy]
  · simp [next_feedDelayQ, h.delays, hst, h.delay]
  · have := h.cycle
    rw [next_computeCycleQ, if_pos hadv]
    bv_omega
  · simp [next_arrayAQ, h.delays, hadv, h.feedWord]
  · simp [next_arrayBQ, h.delays, hadv, h.feedWord]
  · rw [next_uSystolicArray, hclear]

theorem capture_next (hc : s.captures = true) :
    (next req s).busyQ = false ∧ (next req s).done = true ∧
      (next req s).resultQ = s.systolicResult := by
  refine ⟨?_, ?_, ?_⟩
  · simp [next_busyQ, hc]
  · simp [next_done, hc]
  · simp [next_resultQ, hc]

/-- Only a write that executes, and not one to `CTRL`, changes the streams. -/
theorem streams_next (h : s.executes = false ∨ s.starts = true) :
    (next req s).aStreamQ = s.aStreamQ ∧ (next req s).bStreamQ = s.bStreamQ := by
  have hw : s.writesA = false ∧ s.writesB = false := by
    rcases h with he | hst
    · simp [writesA, writesB, he]
    · simp only [starts, writesCtrl, Bool.and_eq_true, beq_iff_eq] at hst
      simp [writesA, writesB, hst.1.2]
  rw [next_eq]
  simp [hw]

/-! ### Runs through the stages -/

theorem streams_run (hst : s.starts = true) {ι : ℕ → Req} {n : ℕ}
    (hno : ∀ j < n, 0 < j → (accel.runFrom s ι j).executes = false) {j : ℕ} (hj : j ≤ n) :
    (accel.runFrom s ι j).aStreamQ = s.aStreamQ ∧ (accel.runFrom s ι j).bStreamQ = s.bStreamQ := by
  induction j with
  | zero => exact ⟨rfl, rfl⟩
  | succ j ih =>
    have hstep : (accel.runFrom s ι j).executes = false ∨ (accel.runFrom s ι j).starts = true := by
      rcases Nat.eq_zero_or_pos j with rfl | hpos
      · exact Or.inr hst
      · exact Or.inl (hno j (by omega) hpos)
    obtain ⟨hA, hB⟩ := ih (by omega)
    obtain ⟨hA', hB'⟩ := streams_next (ι j) hstep
    exact ⟨hA'.trans hA, hB'.trans hB⟩

/-- What the array takes in from cycle `c` of the feed on: the words held at first, then the
words fed. -/
def intake (m : AccelRegs → Fin 8 → BitVec 64) (x₀ : BitVec 64) (s : AccelRegs) (ι : ℕ → Req)
    (c : ℕ) : ℕ → BitVec 64
  | 0 => x₀
  | t + 1 => wordAt (m (accel.runFrom s ι t)) (c + t)

/-- **The feed and the drain**, for any bus traffic without a start. -/
theorem feeds_run (h : s.Feeds c) (ι : ℕ → Req) {n : ℕ} (hn : c + n ≤ 20)
    (hst : ∀ j < n, (accel.runFrom s ι j).starts = false) :
    (accel.runFrom s ι n).Feeds (c + n) ∧ Holds s (accel.runFrom s ι n) ∧
      (accel.runFrom s ι n).arrayAQ = intake aStreamQ s.arrayAQ s ι c n ∧
      (accel.runFrom s ι n).arrayBQ = intake bStreamQ s.arrayBQ s ι c n ∧
      (accel.runFrom s ι n).uSystolicArray =
        SystolicArray.runFed (intake aStreamQ s.arrayAQ s ι c) (intake bStreamQ s.arrayBQ s ι c)
          s.uSystolicArray n := by
  induction n with
  | zero => exact ⟨h, ⟨rfl, rfl, rfl⟩, rfl, rfl, rfl⟩
  | succ n ih =>
    obtain ⟨hf, hold, hA, hB, harr⟩ := ih (by omega) fun j hj => hst j (by omega)
    have hst' := hst n (by omega)
    have hcap : (accel.runFrom s ι n).captures = false := by
      rw [hf.captures]; simp; omega
    obtain ⟨hf', hA', hB', harr'⟩ := feeds_next (ι n) hf (by omega) hst'
    have hold' : Holds (accel.runFrom s ι n) (next (ι n) (accel.runFrom s ι n)) :=
      holds_next (ι n) hst' hcap
    refine ⟨hf', ⟨hold'.busy.trans hold.busy, hold'.done.trans hold.done,
      hold'.result.trans hold.result⟩, hA', hB', ?_⟩
    rw [SystolicArray.runFed, ← harr, ← hA, ← hB]
    exact harr'

/-- **The clear**: three edges from a start the array is empty. -/
theorem clear_run (hinv : s.Inv) {ι : ℕ → Req}
    (h : (accel.runFrom s ι 1).Armed 2#2 fd cc x y) :
    (accel.runFrom s ι 2).done = false ∧ (accel.runFrom s ι 3).Armed 0#2 fd cc x y ∧
      (accel.runFrom s ι 3).uSystolicArray = .cleared := by
  have hinv₁ : (accel.runFrom s ι 1).Inv := inv_next hinv (ι 0)
  obtain ⟨h₂, -⟩ := armed_clear (ι 1) hinv₁ h (by decide)
  obtain ⟨h₃, harr⟩ := armed_clear (ι 2) (inv_next hinv₁ (ι 1)) h₂ (by decide)
  exact ⟨h₂.done, h₃, harr⟩

/-- **The capture**: an operation that feeds at cycle `c` completes `21 - c` clocks later, with
what the array has summed by then. -/
theorem capture_run (h : s.Feeds c) (hc : c ≤ 20) (ι : ℕ → Req)
    (hst : ∀ j < 20 - c, (accel.runFrom s ι j).starts = false) :
    (∀ j ≤ 20 - c, (accel.runFrom s ι j).done = s.done) ∧
      (accel.runFrom s ι (20 - c + 1)).busyQ = false ∧
      (accel.runFrom s ι (20 - c + 1)).done = true ∧
      (accel.runFrom s ι (20 - c + 1)).resultQ =
        (SystolicArray.runFed (intake aStreamQ s.arrayAQ s ι c) (intake bStreamQ s.arrayBQ s ι c)
          s.uSystolicArray (20 - c)).result := by
  have hrun : ∀ n ≤ 20 - c, _ := fun n hn =>
    feeds_run h ι (n := n) (by omega) fun j hj => hst j (by omega)
  obtain ⟨hf, -, -, -, harr⟩ := hrun (20 - c) le_rfl
  have hcap : (accel.runFrom s ι (20 - c)).captures = true := by
    rw [hf.captures]; simp; omega
  obtain ⟨hbusy, hdone, hres⟩ := capture_next (ι (20 - c)) hcap
  refine ⟨fun j hj => (hrun j hj).2.1.done, hbusy, hdone, ?_⟩
  rw [← harr]
  exact hres

/-- With an empty pipeline the first intake is an empty feed register, so the words fed arrive one
clock later. -/
theorem runFed_intake (h : s.Armed 0#2 0#2 0#5 0#64 0#64) (harr : s.uSystolicArray = .cleared)
    (ι : ℕ → Req) (n : ℕ) :
    SystolicArray.runFed (intake aStreamQ s.arrayAQ s ι 0) (intake bStreamQ s.arrayBQ s ι 0)
        s.uSystolicArray (n + 1) =
      SystolicArray.runFed (fun t => wordAt (accel.runFrom s ι t).aStreamQ t)
        (fun t => wordAt (accel.runFrom s ι t).bStreamQ t) .cleared n := by
  rw [SystolicArray.runFed_succ_head, harr, h.a, h.b]
  simp only [intake, SystolicArray.next_cleared_zero, Nat.zero_add]

/-- **An operation with an empty pipeline** captures the skewed sums of the words it feeds. -/
theorem fresh_run (h : s.Armed 0#2 0#2 0#5 0#64 0#64) (harr : s.uSystolicArray = .cleared)
    (ι : ℕ → Req) (hst : ∀ j < 20, (accel.runFrom s ι j).starts = false) :
    (∀ j ≤ 20, (accel.runFrom s ι j).done = false) ∧
      (accel.runFrom s ι 21).busyQ = false ∧ (accel.runFrom s ι 21).done = true ∧
      ∀ k l, ((accel.runFrom s ι 21).resultWord k l).toNat =
        streamSum 8 (fun t => wordAt (accel.runFrom s ι t).aStreamQ t)
          (fun t => wordAt (accel.runFrom s ι t).bStreamQ t) k l % 2 ^ 32 := by
  obtain ⟨hd, hbusy, hdone, hres⟩ := capture_run h.feeds (by simp) ι hst
  refine ⟨fun j hj => (hd j hj).trans h.done, hbusy, hdone, fun k l => ?_⟩
  rw [← toNat_skewSum_mac, resultWord]
  have hfed := runFed_intake h harr ι 19
  refine congrArg BitVec.toNat ((congrArg _ (hres.trans (congrArg _ hfed))).trans ?_)
  exact SystolicArray.result_runFed (fun t ht => wordAt_of_ge ht) (fun t ht => wordAt_of_ge ht)
    (by omega) k l

theorem armed_of_idle (h : s.Inv) (hidle : s.busyQ = false) (hst : s.starts = true) :
    (next req s).Armed 2#2 1#2 0#5 0#64 0#64 := by
  have hrun : s.running = false := by simp [running, hidle]
  have harm := armed_of_starts req h hst (by simp [captures, hrun])
  simpa [delays, advances, hrun] using harm

end AccelRegs

open AccelRegs

theorem operation_run {s : AccelRegs} (hinv : s.Inv) (hidle : s.busyQ = false)
    (hst : s.starts = true) {ι : ℕ → Req} (hno : (accel.runFrom s ι 3).starts = false) :
    (accel.runFrom s ι 1).done = false ∧ (accel.runFrom s ι 2).done = false ∧
      (accel.runFrom s ι 3).done = false ∧
      (accel.runFrom s ι 4).Armed 0#2 0#2 0#5 0#64 0#64 ∧
      (accel.runFrom s ι 4).uSystolicArray = .cleared := by
  have h₁ : (accel.runFrom s ι 1).Armed 2#2 1#2 0#5 0#64 0#64 := armed_of_idle (ι 0) hinv hidle hst
  obtain ⟨hd₂, h₃, harr₃⟩ := clear_run hinv h₁
  obtain ⟨h₄, harr₄⟩ := armed_delay (ι 3) h₃ hno
  refine ⟨h₁.done, hd₂, h₃.done, h₄, ?_⟩
  rw [← SystolicArray.next_cleared_zero, ← harr₃]
  exact harr₄

theorem operation_feeds {s : AccelRegs} (hinv : s.Inv) (hidle : s.busyQ = false)
    (hst : s.starts = true) {ι : ℕ → Req}
    (hno : ∀ j < 24, 0 < j → (accel.runFrom s ι j).starts = false) {t : ℕ} (ht : t ≤ 20) :
    (accel.runFrom s ι (4 + t)).Feeds t := by
  obtain ⟨-, -, -, h₄, -⟩ := operation_run hinv hidle hst (hno 3 (by omega) (by omega))
  have hf := feeds_run h₄.feeds (fun j => ι (4 + j)) (n := t) (by simp; omega) fun j hj => by
    rw [← Clocked.runFrom_add]
    exact hno (4 + j) (by omega) (by omega)
  rw [← Clocked.runFrom_add] at hf
  simpa using hf.1

theorem operation_completes {s : AccelRegs} (hinv : s.Inv) (hidle : s.busyQ = false)
    (hst : s.starts = true) {ι : ℕ → Req}
    (hno : ∀ j < 24, 0 < j → (accel.runFrom s ι j).starts = false) :
    (∀ j < 25, 0 < j → (accel.runFrom s ι j).done = false) ∧
      (accel.runFrom s ι 25).done = true ∧
      ∀ k l, ((accel.runFrom s ι 25).resultWord k l).toNat =
        streamSum 8 (fun t => wordAt (accel.runFrom s ι (4 + t)).aStreamQ t)
          (fun t => wordAt (accel.runFrom s ι (4 + t)).bStreamQ t) k l % 2 ^ 32 := by
  obtain ⟨hd₁, hd₂, hd₃, h₄, harr⟩ :=
    operation_run hinv hidle hst (hno 3 (by omega) (by omega))
  have hrun : ∀ j, accel.runFrom (accel.runFrom s ι 4) (fun j => ι (4 + j)) j =
      accel.runFrom s ι (4 + j) := by
    intro j
    exact (Clocked.runFrom_add s ι 4 j).symm
  obtain ⟨hd, -, hdone, hres⟩ := fresh_run h₄ harr (fun j => ι (4 + j)) fun j hj => by
    rw [hrun]
    exact hno _ (by omega) (by omega)
  simp only [hrun] at hd hdone hres
  refine ⟨?_, hdone, hres⟩
  intro j hj hj₀
  -- the start lowers the done bit, and only the capture raises it
  by_cases h4 : 4 ≤ j
  · obtain ⟨i, rfl⟩ := Nat.exists_eq_add_of_le h4
    exact hd i (by omega)
  · obtain rfl | rfl | rfl : j = 1 ∨ j = 2 ∨ j = 3 := by omega
    · exact hd₁
    · exact hd₂
    · exact hd₃

/-- **The result of an operation.**  A start that executes while the controller is idle raises the
done bit 25 clocks later and not before, unless another start executes in between.  Word `t` is
fed four clocks and `t` after the start, and the captured words are the skewed sums of the words
that the streams hold in those cycles: no earlier operation contributes. -/
theorem operation_result {s : AccelRegs} (hs : accel.Reachable s) (hidle : s.busyQ = false)
    (hst : s.starts = true) (ι : ℕ → Req)
    (hno : ∀ j < 24, 0 < j → (accel.runFrom s ι j).starts = false) :
    (∀ t < 8, (accel.runFrom s ι (4 + t)).Feeds t) ∧
      (∀ j < 25, 0 < j → (accel.runFrom s ι j).done = false) ∧
      (accel.runFrom s ι 25).done = true ∧
      ∀ k l, ((accel.runFrom s ι 25).resultWord k l).toNat =
        streamSum 8 (fun t => wordAt (accel.runFrom s ι (4 + t)).aStreamQ t)
          (fun t => wordAt (accel.runFrom s ι (4 + t)).bStreamQ t) k l % 2 ^ 32 := by
  have hinv := inv_of_reachable hs
  refine ⟨?_, operation_completes hinv hidle hst hno⟩
  intro t ht
  exact operation_feeds hinv hidle hst hno (by omega)

/-- Two stream words, a start, and a stream word replaced after it was fed. -/
def smallOperation : ℕ → Req :=
  Req.script [(0, Req.write 0x10000008 3 0xF), (3, Req.write 0x10000048 5 0xF),
    (6, Req.write 0x10000000 1 0xF), (12, Req.write 0x10000008 7 0xF)]

theorem operation_result_small :
    (accel.run smallOperation 32).done = true ∧
      ((accel.run smallOperation 32).resultWord 0 0).toNat = 15 := by
  obtain ⟨-, -, hdone, hres⟩ := operation_result (s := accel.run smallOperation 7)
    (Clocked.reachable_run _ _) (by decide +kernel) (by decide +kernel)
    (fun j => smallOperation (7 + j)) (by decide +kernel)
  refine ⟨by rwa [Clocked.run_add smallOperation 7 25], ?_⟩
  rw [Clocked.run_add smallOperation 7 25, hres]
  decide +kernel

end SystolicSoc
