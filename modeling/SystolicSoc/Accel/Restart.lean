import SystolicSoc.Accel.Operation

/-!
# Starts that interrupt an operation

A start write and the controller assign the same registers, and the controller's assignment comes
later in the process.  What a start does to an operation in progress therefore depends on the
phase it meets:

* in the feed delay nothing of the old run survives: the restarted operation is a fresh one;
* at cycle `c` of the feed and drain the counter goes on to `c + 1` and the feed registers hold
  word `c` through the clear, so the array takes in word `c`, a zero, and the words after `c`;
* in the capture cycle the old result is delivered and the start is lost.

`AccelRegs.Delivers` says what an undisturbed run delivers and when, `AccelRegs.delivers_restart`
settles the three cases, and `restart_iff` concludes **when an interrupting start delivers what it
would have delivered from an idle accelerator**.
-/

namespace SystolicSoc

/-- What the array takes in after a start at cycle `c` of the feed and drain. -/
def restartWord (m : Fin 8 → BitVec 64) (c : ℕ) : ℕ → BitVec 64
  | 0 => wordAt m c
  | 1 => 0#64
  | t + 2 => wordAt m (c + 1 + t)

/-- What the array takes in from cycle `c` on, after the word `x` of the feed register. -/
def resumeWord (m : Fin 8 → BitVec 64) (x : BitVec 64) (c : ℕ) : ℕ → BitVec 64
  | 0 => x
  | t + 1 => wordAt m (c + t)

theorem restartWord_of_ge {m : Fin 8 → BitVec 64} {c t : ℕ} (h : 9 ≤ c + t) (ht : 2 ≤ t) :
    restartWord m c t = 0#64 := by
  obtain ⟨t, rfl⟩ := Nat.exists_eq_add_of_le' ht
  exact wordAt_of_ge (by omega)

theorem restartWord_of_drain {m : Fin 8 → BitVec 64} {c : ℕ} (h : 8 ≤ c) (t : ℕ) :
    restartWord m c t = 0#64 := by
  match t with
  | 0 => exact wordAt_of_ge h
  | 1 => rfl
  | t + 2 => exact wordAt_of_ge (by omega)

/-- The words left by a start at cycle `c` are summed up in the `20 - c` clocks that remain. -/
theorem result_restartWord (a b : Fin 8 → BitVec 64) {c : ℕ} (hc : c < 20) (k l : Fin 4) :
    ((SystolicArray.runFed (restartWord a c) (restartWord b c) .cleared
        (20 - c)).result.extractLsb' (32 * (4 * k.val + l.val)) 32).toNat =
      streamSum 9 (restartWord a c) (restartWord b c) k l % 2 ^ 32 := by
  rw [← toNat_skewSum_mac]
  by_cases h : c < 8
  · rw [SystolicArray.result_runFed (M := 9) (fun t ht => restartWord_of_ge (by omega) (by omega))
      (fun t ht => restartWord_of_ge (by omega) (by omega)) (by omega)]
  · -- nothing is left to feed, so the array stays cleared
    have hA : restartWord a c = fun _ => 0#64 := by
      funext t
      exact restartWord_of_drain (by omega) t
    have hB : restartWord b c = fun _ => 0#64 := by
      funext t
      exact restartWord_of_drain (by omega) t
    have hclr : ∀ n,
        SystolicArray.runFed (fun _ => 0#64) (fun _ => 0#64) .cleared n = .cleared := by
      intro n
      induction n with
      | zero => rfl
      | succ n ih => rw [SystolicArray.runFed, ih, SystolicArray.next_cleared_zero]
    rw [hA, hB, hclr, SystolicArray.result_word]
    simp [skewSum, SystolicArray.cleared, mac]

namespace AccelRegs

variable {s : AccelRegs}

/-- No write executes between the first cycle of the run and cycle `n`. -/
def Quiet (s : AccelRegs) (ι : ℕ → Req) (n : ℕ) : Prop :=
  ∀ j < n, 0 < j → (accel.runFrom s ι j).executes = false

/-- The done bit rises in cycle `n` of the run. -/
def CompletesAt (s : AccelRegs) (ι : ℕ → Req) (n : ℕ) : Prop :=
  0 < n ∧ (∀ j < n, 0 < j → (accel.runFrom s ι j).done = false) ∧
    (accel.runFrom s ι n).done = true

/-- Every run from `s` completes in cycle `N`, and not before, with the result words `r`, as long
as it executes no further write. -/
structure Delivers (s : AccelRegs) (N : ℕ) (r : Fin 4 → Fin 4 → ℕ) : Prop where
  pos : 0 < N
  early : ∀ ι n, 0 < n → n < N → Quiet s ι n → (accel.runFrom s ι n).done = false
  final : ∀ ι, Quiet s ι N → (accel.runFrom s ι N).done = true ∧
    (accel.runFrom s ι N).busyQ = false ∧
    ∀ k l, ((accel.runFrom s ι N).resultWord k l).toNat = r k l

theorem Quiet.mono {ι : ℕ → Req} {m n : ℕ} (h : Quiet s ι n) (hm : m ≤ n) : Quiet s ι m :=
  fun j hj hj₀ => h j (by omega) hj₀

theorem Quiet.starts {ι : ℕ → Req} {n j : ℕ} (h : Quiet s ι n) (hj : j < n) (hj₀ : 0 < j) :
    (accel.runFrom s ι j).starts = false :=
  not_starts_of_not_executes (h j hj hj₀)

theorem Delivers.completesAt {N : ℕ} {r : Fin 4 → Fin 4 → ℕ} (h : Delivers s N r) {ι : ℕ → Req}
    (hq : Quiet s ι N) : CompletesAt s ι N :=
  ⟨h.pos, fun j hj hj₀ => h.early ι j hj₀ hj (hq.mono hj.le), (h.final ι hq).1⟩

theorem Delivers.of_eq {N : ℕ} {r r' : Fin 4 → Fin 4 → ℕ} (h : Delivers s N r)
    (hr : ∀ k l, r k l = r' k l) : Delivers s N r' :=
  (funext₂ hr : r = r') ▸ h

theorem Delivers.eq_of_completesAt {N n : ℕ} {r : Fin 4 → Fin 4 → ℕ} (h : Delivers s N r)
    {ι : ℕ → Req} (hc : CompletesAt s ι n) (hq : Quiet s ι n) : n = N := by
  rcases Nat.lt_trichotomy n N with hlt | heq | hgt
  · exact absurd (hc.2.2.symm.trans (h.early ι n hc.1 hlt hq)) (by decide)
  · exact heq
  · have hdone := (h.final ι (hq.mono hgt.le)).1
    exact absurd (hdone.symm.trans (hc.2.1 N hgt h.pos)) (by decide)

theorem settled_next (req : Req) (hb : s.busyQ = false) (he : s.executes = false) :
    (next req s).busyQ = false ∧ (next req s).done = s.done ∧
      (next req s).resultQ = s.resultQ := by
  have hst := not_starts_of_not_executes he
  have hcap : s.captures = false := by simp [captures, running, hb]
  refine ⟨?_, ?_, ?_⟩
  · simp [next_busyQ, hcap, hst, hb]
  · simp [next_done, hcap, hst]
  · simp [next_resultQ, hcap]

/-- **The done bit vouches for the result**: as long as no further write executes, whenever it is
up the controller is idle and the words delivered are there. -/
theorem Delivers.of_done {N n : ℕ} {r : Fin 4 → Fin 4 → ℕ} (h : Delivers s N r) {ι : ℕ → Req}
    (hn : 0 < n) (hq : Quiet s ι n) (hd : (accel.runFrom s ι n).done = true) :
    (accel.runFrom s ι n).busyQ = false ∧
      ∀ k l, ((accel.runFrom s ι n).resultWord k l).toNat = r k l := by
  have hN : N ≤ n := by
    by_contra hlt
    exact absurd (hd.symm.trans (h.early ι n hn (by omega) hq)) (by decide)
  clear hd
  induction n, hN using Nat.le_induction with
  | base => exact (h.final ι hq).2
  | succ n hle ih =>
    have hpos := h.pos
    obtain ⟨hbusy, hres⟩ := ih (by omega) (hq.mono (by omega))
    obtain ⟨hbusy', -, hsame⟩ := settled_next (ι n) hbusy (hq n (by omega) (by omega))
    have hsame' : (accel.runFrom s ι (n + 1)).resultQ = (accel.runFrom s ι n).resultQ := hsame
    refine ⟨hbusy', fun k l => ?_⟩
    rw [← hres, resultWord, resultWord, hsame']

theorem delivers_of_feed {W : ℕ} {c : BitVec 5} {x y : BitVec 64} {z : SystolicArray}
    (hst : s.starts = true) (hW : 0 < W) (hc : c.toNat ≤ 20)
    (hpre : ∀ ι n, 0 < n → n < W → Quiet s ι n → (accel.runFrom s ι n).done = false)
    (hfeed : ∀ ι, Quiet s ι W → (accel.runFrom s ι W).Armed 0#2 0#2 c x y ∧
      (accel.runFrom s ι W).uSystolicArray = z) :
    Delivers s (W + (20 - c.toNat + 1)) fun k l =>
      ((SystolicArray.runFed (resumeWord s.aStreamQ x c.toNat) (resumeWord s.bStreamQ y c.toNat)
        z (20 - c.toNat)).result.extractLsb' (32 * (4 * k.val + l.val)) 32).toNat := by
  have hadd : ∀ ι j, accel.runFrom (accel.runFrom s ι W) (fun j => ι (W + j)) j =
      accel.runFrom s ι (W + j) := by
    intro ι j
    exact (Clocked.runFrom_add s ι W j).symm
  refine ⟨by omega, fun ι n hn hnN hq => ?_, fun ι hq => ?_⟩
  · by_cases hnW : n < W
    · exact hpre ι n hn hnW hq
    · obtain ⟨i, rfl⟩ := Nat.exists_eq_add_of_le (Nat.le_of_not_lt hnW)
      obtain ⟨harm, -⟩ := hfeed ι (hq.mono (by omega))
      have hrun := feeds_run harm.feeds (fun j => ι (W + j)) (n := i) (by omega)
        fun j hj => by rw [hadd]; exact hq.starts (by omega) (by omega)
      rw [← hadd]
      exact hrun.2.1.done.trans harm.done
  · obtain ⟨harm, harr⟩ := hfeed ι (hq.mono (by omega))
    obtain ⟨-, hbusy, hdone, hres⟩ := capture_run harm.feeds hc (fun j => ι (W + j))
      fun j hj => by rw [hadd]; exact hq.starts (by omega) (by omega)
    rw [hadd] at hbusy hdone hres
    refine ⟨hdone, hbusy, fun k l => ?_⟩
    rw [resultWord, hres, harr]
    -- the streams have not changed since the start
    have hstreams : ∀ t < 20 - c.toNat, _ := fun t ht =>
      streams_run hst hq (j := W + t) (by omega)
    refine congrArg (fun a : SystolicArray => (a.result.extractLsb' _ 32).toNat)
      (SystolicArray.runFed_congr (fun t ht => ?_) fun t ht => ?_)
    · cases t with
      | zero => exact harm.a
      | succ t => rw [intake, resumeWord, hadd, (hstreams t (by omega)).1]
    · cases t with
      | zero => exact harm.b
      | succ t => rw [intake, resumeWord, hadd, (hstreams t (by omega)).2]

/-! ### The phases a start can meet -/

/-- The exact sums of the words that the streams hold, modulo `2 ^ 32`. -/
def freshSum (s : AccelRegs) (k l : Fin 4) : ℕ :=
  streamSum 8 (wordAt s.aStreamQ) (wordAt s.bStreamQ) k l % 2 ^ 32

theorem result_resumeWord_zero (k l : Fin 4) :
    ((SystolicArray.runFed (resumeWord s.aStreamQ 0#64 0) (resumeWord s.bStreamQ 0#64 0) .cleared
      20).result.extractLsb' (32 * (4 * k.val + l.val)) 32).toNat = s.freshSum k l := by
  rw [freshSum, ← toNat_skewSum_mac, SystolicArray.runFed_succ_head]
  simp only [resumeWord, SystolicArray.next_cleared_zero, Nat.zero_add]
  exact congrArg BitVec.toNat (SystolicArray.result_runFed (fun t ht => wordAt_of_ge ht)
    (fun t ht => wordAt_of_ge ht) (by omega) k l)

theorem done_clear (hinv : s.Inv) {fd : BitVec 2} {cc : BitVec 5} {x y : BitVec 64}
    {ι : ℕ → Req} (h : (accel.runFrom s ι 1).Armed 2#2 fd cc x y) {n : ℕ} (hn : 0 < n)
    (hn3 : n ≤ 3) : (accel.runFrom s ι n).done = false := by
  obtain ⟨hd₂, h₃, -⟩ := clear_run hinv h
  obtain rfl | rfl | rfl : n = 1 ∨ n = 2 ∨ n = 3 := by omega
  · exact h.done
  · exact hd₂
  · exact h₃.done

theorem delivers_idle (hinv : s.Inv) (hidle : s.busyQ = false) (hst : s.starts = true) :
    Delivers s 25 s.freshSum := by
  have harm : ∀ ι : ℕ → Req, (accel.runFrom s ι 1).Armed 2#2 1#2 0#5 0#64 0#64 := by
    intro ι
    exact armed_of_idle (ι 0) hinv hidle hst
  refine (delivers_of_feed (W := 4) (c := 0#5) (z := .cleared) hst (by omega) (by simp)
    (fun ι n hn hn4 _ => done_clear hinv (harm ι) hn (by omega)) fun ι hq => ?_).of_eq
      fun k l => result_resumeWord_zero k l
  exact (operation_run hinv hidle hst (hq.starts (by omega) (by omega))).2.2.2

/-- A start in the feed delay begins a fresh operation. -/
theorem delivers_delay (hinv : s.Inv) (hd : s.delays = true) (hst : s.starts = true) :
    Delivers s 24 s.freshSum := by
  have hfd : s.feedDelayQ - 1#2 = 0#2 := by
    simp only [delays, Bool.and_eq_true, bne_iff_ne] at hd
    have := hinv.delay_le
    bv_omega
  have hcap : s.captures = false := by
    simp only [delays, Bool.and_eq_true, bne_iff_ne] at hd
    simp [captures, hd.2]
  have hadv : s.advances = false := by
    simp only [delays, Bool.and_eq_true, bne_iff_ne] at hd
    simp [advances, hd.2]
  have harm : ∀ ι : ℕ → Req, (accel.runFrom s ι 1).Armed 2#2 0#2 0#5 0#64 0#64 := by
    intro ι
    have h := armed_of_starts (ι 0) hinv hst hcap
    simp only [hd, hadv, hfd, if_true, Bool.false_eq_true, if_false] at h
    exact h
  refine (delivers_of_feed (W := 3) (c := 0#5) (z := .cleared) hst (by omega) (by simp)
    (fun ι n hn hn3 _ => done_clear hinv (harm ι) hn (by omega)) fun ι _ => ?_).of_eq
      fun k l => result_resumeWord_zero k l
  exact (clear_run hinv (harm ι)).2

/-- A start at cycle `c` of the feed and drain resumes the old operation at cycle `c + 1`. -/
theorem delivers_feed (hinv : s.Inv) {c : ℕ} (h : s.Feeds c) (hc : c < 20)
    (hst : s.starts = true) :
    Delivers s (24 - c) fun k l =>
      streamSum 9 (restartWord s.aStreamQ c) (restartWord s.bStreamQ c) k l % 2 ^ 32 := by
  have hcap : s.captures = false := by simp [h.captures, hc.ne]
  have hadv : s.advances = true := by simp [h.advances, hc.ne]
  have hcc : (s.computeCycleQ + 1#5).toNat = c + 1 := by have := h.cycle; bv_omega
  have harm : ∀ ι : ℕ → Req, (accel.runFrom s ι 1).Armed 2#2 1#2 (s.computeCycleQ + 1#5)
      (wordAt s.aStreamQ c) (wordAt s.bStreamQ c) := by
    intro ι
    have harmed := armed_of_starts (ι 0) hinv hst hcap
    simp only [h.delays, hadv, h.feedWord, if_true, Bool.false_eq_true, if_false] at harmed
    exact harmed
  have hdel := delivers_of_feed (W := 4) (c := s.computeCycleQ + 1#5) (x := 0#64) (y := 0#64)
    (z := SystolicArray.cleared.next false (wordAt s.aStreamQ c) (wordAt s.bStreamQ c)) hst
    (by omega) (by omega) (fun ι n hn hn4 _ => done_clear hinv (harm ι) hn (by omega))
    fun ι hq => by
      obtain ⟨-, h₃, harr⟩ := clear_run hinv (harm ι)
      have hst₃ : (accel.runFrom s ι 3).starts = false := hq.starts (by omega) (by omega)
      rw [← harr]
      exact armed_delay (ι 3) h₃ hst₃
  rw [hcc, show 4 + (20 - (c + 1) + 1) = 24 - c by omega] at hdel
  refine hdel.of_eq fun k l => ?_
  -- the held word, the zero of the delay and the rest are the words left by the start
  have hwords : ∀ m : Fin 8 → BitVec 64,
      (fun t => restartWord m c (t + 1)) = resumeWord m 0#64 (c + 1) := by
    intro m
    funext t
    cases t <;> rfl
  rw [← result_restartWord _ _ hc, show 20 - c = 20 - (c + 1) + 1 by omega,
    SystolicArray.runFed_succ_head, hwords, hwords]
  rfl

/-- A start in the capture cycle is lost: the old result is delivered. -/
theorem delivers_capture (hcap : s.captures = true) :
    Delivers s 1 fun k l => (s.uSystolicArray.peInst k l).sumQ.toNat := by
  refine ⟨by omega, fun ι n hn hn1 _ => by omega, fun ι _ => ?_⟩
  obtain ⟨hbusy, hdone, hres⟩ := capture_next (ι 0) hcap
  refine ⟨hdone, hbusy, fun k l => ?_⟩
  change ((next (ι 0) s).resultWord k l).toNat = _
  rw [resultWord, hres, systolicResult, SystolicArray.result_word]

/-! ### What an interrupting start delivers -/

/-- The same registers with the controller idle. -/
def idled (s : AccelRegs) : AccelRegs := { s with busyQ := false }

@[simp] theorem idled_starts : s.idled.starts = s.starts := rfl

/-- The start that `s` executes delivers, under any traffic without a further write, what it
delivers from the idle controller. -/
def RestartFresh (s : AccelRegs) : Prop :=
  ∀ ι, (Quiet s ι 25 → ∃ n ≤ 25, CompletesAt s ι n) ∧
    ∀ n, Quiet s ι n → CompletesAt s ι n →
      ∀ ι' m, Quiet s.idled ι' m → CompletesAt s.idled ι' m →
        (accel.runFrom s ι n).resultQ = (accel.runFrom s.idled ι' m).resultQ

/-- What a start out of the feed delay leaves to deliver: in the capture cycle the sums of the
operation it interrupts, before that the sums of the words that are still to come. -/
def leftover (s : AccelRegs) (k l : Fin 4) : ℕ :=
  if s.computeCycleQ = 20#5 then (s.uSystolicArray.peInst k l).sumQ.toNat
  else streamSum 9 (restartWord s.aStreamQ s.computeCycleQ.toNat)
    (restartWord s.bStreamQ s.computeCycleQ.toNat) k l % 2 ^ 32

theorem quiet_idle (hst : s.starts = true) (n : ℕ) : Quiet s (fun _ => Req.idle) n := by
  have haw : ∀ j, (accel.runFrom s (fun _ => Req.idle) (j + 1)).awPendingQ = false := by
    intro j
    induction j with
    | zero => exact (next_port_of_executes (executes_of_starts hst)).1
    | succ j ih =>
      rw [Clocked.runFrom_succ]
      change (next Req.idle (accel.runFrom s (fun _ => Req.idle) (j + 1))).awPendingQ = false
      generalize accel.runFrom s (fun _ => Req.idle) (j + 1) = s' at ih
      rw [next_eq]
      simp [ih, Req.idle]
  intro j _ hj₀
  obtain ⟨j, rfl⟩ := Nat.exists_eq_add_of_le' hj₀
  simp [executes, haw j]

/-- **The phases**: a start in the feed delay delivers a fresh operation, a later one the
leftover. -/
theorem delivers_restart (hinv : s.Inv) (hbusy : s.busyQ = true) (hst : s.starts = true) :
    ∃ N ≤ 25, Delivers s N fun k l => if s.feedDelayQ = 0#2 then s.leftover k l
      else s.freshSum k l := by
  have hp := hinv.pending_of_executes (executes_of_starts hst)
  by_cases hfd : s.feedDelayQ = 0#2
  · -- the feed, the drain or the capture cycle
    by_cases hcc : s.computeCycleQ = 20#5
    · refine ⟨1, by omega, (delivers_capture ?_).of_eq fun k l => ?_⟩
      · exact captures_iff.2 ⟨hp, hbusy, hfd, hcc⟩
      · rw [if_pos hfd, leftover, if_pos hcc]
    · have hc : s.computeCycleQ.toNat < 20 := by have := hinv.cycle_le; bv_omega
      refine ⟨_, by omega, (delivers_feed hinv ⟨hp, hbusy, hfd, rfl⟩ hc hst).of_eq fun k l => ?_⟩
      rw [if_pos hfd, leftover, if_neg hcc]
  · refine ⟨24, by omega, (delivers_delay hinv ?_ hst).of_eq fun k l => ?_⟩
    · simp [delays, running, hp, hbusy, hfd]
    · rw [if_neg hfd]

theorem Delivers.resultQ_eq_iff {s' : AccelRegs} {N N' : ℕ} {r r' : Fin 4 → Fin 4 → ℕ}
    (h : Delivers s N r) (h' : Delivers s' N' r') {ι ι' : ℕ → Req} (hq : Quiet s ι N)
    (hq' : Quiet s' ι' N') :
    (accel.runFrom s ι N).resultQ = (accel.runFrom s' ι' N').resultQ ↔
      ∀ k l, r k l = r' k l := by
  have hr := (h.final ι hq).2.2
  have hr' := (h'.final ι' hq').2.2
  constructor
  · intro heq k l
    rw [← hr, ← hr', resultWord, resultWord, heq]
  · intro heq
    refine Bits.eq_of_lanes (w := 32) (m := 16) (by omega) fun i hi => ?_
    have hword := fun k l => BitVec.eq_of_toNat_eq ((hr k l).trans ((heq k l).trans (hr' k l).symm))
    have hi := hword ⟨i / 4, by omega⟩ ⟨i % 4, by omega⟩
    simpa only [resultWord, Nat.div_add_mod] using hi

end AccelRegs

open AccelRegs

/-- **A start that interrupts an operation begins a fresh one exactly if it executes in the feed
delay**, or what is left happens to have the sums of the eight words. -/
theorem restart_iff {s : AccelRegs} (hs : accel.Reachable s) (hbusy : s.busyQ = true)
    (hst : s.starts = true) :
    s.RestartFresh ↔ s.feedDelayQ ≠ 0#2 ∨ ∀ k l, s.leftover k l = s.freshSum k l := by
  have hinv := inv_of_reachable hs
  obtain ⟨N, hN, hdel⟩ := delivers_restart hinv hbusy hst
  -- the idle controller delivers the sums of all eight words
  have hidle : Delivers s.idled 25 s.freshSum :=
    delivers_idle (s := s.idled) ⟨hinv.port, hinv.quiet, hinv.owed, hinv.pending_le,
      hinv.delay_le, hinv.cycle_le⟩ rfl hst
  have hwords : (∀ k l, (if s.feedDelayQ = 0#2 then s.leftover k l else s.freshSum k l) =
      s.freshSum k l) ↔ s.feedDelayQ ≠ 0#2 ∨ ∀ k l, s.leftover k l = s.freshSum k l := by
    by_cases hfd : s.feedDelayQ = 0#2 <;> simp [hfd]
  rw [← hwords]
  constructor
  · intro h
    have hq := quiet_idle hst N
    have hq' := quiet_idle (s := s.idled) hst 25
    exact (hdel.resultQ_eq_iff hidle hq hq').1
      ((h _).2 N hq (hdel.completesAt hq) _ 25 hq' (hidle.completesAt hq'))
  · intro h ι
    refine ⟨fun hq => ⟨N, hN, hdel.completesAt (hq.mono hN)⟩, fun n hq hc ι' m hq' hc' => ?_⟩
    obtain rfl := hdel.eq_of_completesAt hc hq
    obtain rfl := hidle.eq_of_completesAt hc' hq'
    exact (hdel.resultQ_eq_iff hidle hq hq').2 h

/-- A second start in the feed delay of the first. -/
def delayedRestart : ℕ → Req :=
  Req.script [(0, Req.write 0x10000000 1 0xF), (3, Req.write 0x10000000 1 0xF)]

theorem restart_iff_delayed : (accel.run delayedRestart 4).RestartFresh :=
  (restart_iff (accel.reachable_run delayedRestart 4) (by decide +kernel) (by decide +kernel)).2
    (.inl (by decide +kernel))

/-- Streams with a product in word `0` only, and a second start when word `1` is fed. -/
def lateRestart : ℕ → Req :=
  Req.script [(0, Req.write 0x10000008 1 0xF), (3, Req.write 0x10000048 1 0xF),
    (6, Req.write 0x10000000 1 0xF), (11, Req.write 0x10000000 1 0xF)]

/-- The second start delivers a result without word `0`. -/
theorem restart_late :
    ¬ ∀ s : AccelRegs, accel.Reachable s → s.busyQ = true → s.starts = true → s.RestartFresh := by
  intro h
  have hst : (accel.run lateRestart 12).starts = true := by decide +kernel
  -- the counter goes on from word 1, so the operation completes two clocks early
  have hlate : CompletesAt (accel.run lateRestart 12) (fun _ => Req.idle) 23 :=
    ⟨by decide, by decide +kernel, by decide +kernel⟩
  have hidle : CompletesAt (accel.run lateRestart 12).idled (fun _ => Req.idle) 25 :=
    ⟨by decide, by decide +kernel, by decide +kernel⟩
  have hquiet := quiet_idle (idled_starts.trans hst) 25
  have hres := (h _ (accel.reachable_run _ _) (by decide +kernel) hst _).2 23 (quiet_idle hst 23)
    hlate _ 25 hquiet hidle
  exact absurd (congrArg (BitVec.extractLsb' 0 32) hres) (by decide +kernel)

end SystolicSoc
