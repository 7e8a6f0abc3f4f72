import Mathlib.Data.Nat.Notation
import Mathlib.Order.Basic

/-!
# Co-processors

The co-processor interface of `picorv32.v`: the processor holds a request until it is answered, and
then leaves the interface alone for a few cycles.

* `PcpiReq`, `PcpiReq.hits` : the request, and whether it is one of the `M` extension.
* `PcpiUnit` : a co-processor that takes a number of cycles that depends on the instruction only.
* `PcpiUnit.Client` : what the processor keeps to.
* `PcpiUnit.answers` : **every request is answered**, at its time, and every answer is right.
-/

namespace SystolicSoc

/-- The request of the co-processor interface. -/
structure PcpiReq where
  valid : Bool
  insn : BitVec 32
  rs1 : BitVec 32
  rs2 : BitVec 32
deriving DecidableEq, Repr

/-- An instruction of the `M` extension is requested. -/
def PcpiReq.hits (req : PcpiReq) : Bool :=
  req.valid && req.insn.extractLsb' 0 7 == 0b0110011#7 && req.insn.extractLsb' 25 7 == 0b0000001#7

theorem PcpiReq.valid_of_hits (req : PcpiReq) (h : req.hits = true) : req.valid = true :=
  (Bool.and_eq_true_iff.1 (Bool.and_eq_true_iff.1 h).1).1

/-- `pcpi_insn[14:12]`. -/
def PcpiReq.funct3 (req : PcpiReq) : BitVec 3 := req.insn.extractLsb' 12 3

/-- The outputs of a co-processor. -/
structure PcpiResp where
  wr : Bool
  rd : BitVec 32
  wait : Bool
  ready : Bool
deriving DecidableEq, Repr

/-- A co-processor for the instructions `Op`, with registers `S`.  It is described by the cycle of
the instruction it is in, and by the cycles since it has answered the last. -/
structure PcpiUnit (Op S : Type*) where
  next : PcpiReq → S → S
  resp : S → PcpiResp
  /-- The instruction that is requested, if it is one of the co-processor. -/
  opOf : PcpiReq → Option Op
  eval : Op → BitVec 32 → BitVec 32 → BitVec 32
  /-- The cycles from a request to its answer. -/
  latency : Op → ℕ
  /-- The state in cycle `k` of an instruction, `0` being the first in which it is requested. -/
  AtCycle : Op → BitVec 32 → BitVec 32 → ℕ → S → Prop
  /-- The state `j` cycles after the cycle that follows an answer. -/
  Cooling : ℕ → S → Prop
  valid_of_opOf : ∀ req, (opOf req).isSome = true → req.valid = true
  rest : ∀ s, Cooling 3 s ↔ ∀ op a b, AtCycle op a b 0 s
  next_atCycle : ∀ {req op k s}, AtCycle op req.rs1 req.rs2 k s → k < latency op →
    opOf req = some op → AtCycle op req.rs1 req.rs2 (k + 1) (next req s)
  next_answered : ∀ {req op s}, AtCycle op req.rs1 req.rs2 (latency op) s → opOf req = some op →
    Cooling 0 (next req s)
  next_cooling : ∀ {req j s}, Cooling j s → opOf req = none → Cooling (min (j + 1) 3) (next req s)
  ready_atCycle : ∀ {op a b k s}, AtCycle op a b k s → k ≤ latency op →
    (resp s).ready = decide (k = latency op)
  ready_cooling : ∀ {j s}, Cooling j s → (resp s).ready = false
  wait_atCycle : ∀ {op a b k s}, AtCycle op a b k s → k ≤ latency op →
    (resp s).wait = decide (2 ≤ k)
  answer : ∀ {op a b s}, AtCycle op a b (latency op) s → (resp s).wr = true ∧
    (resp s).rd = eval op a b

namespace PcpiUnit

variable {Op S : Type*} {U : PcpiUnit Op S} {s : S} {ι : ℕ → PcpiReq} {n : ℕ} {op : Op}

/-- The processor holds a request until it is answered, and requests nothing for three cycles
then. -/
structure Client (U : PcpiUnit Op S) (ι : ℕ → PcpiReq) (σ : ℕ → S) : Prop where
  held : ∀ n, (U.opOf (ι n)).isSome = true → (U.resp (σ n)).ready = false → ι (n + 1) = ι n
  released : ∀ n, (U.resp (σ n)).ready = true → ∀ j < 3, (ι (n + 1 + j)).valid = false

/-- Where a co-processor is in cycle `n`: at rest after an answer, or in an instruction. -/
def Serving (U : PcpiUnit Op S) (ι : ℕ → PcpiReq) (σ : ℕ → S) (n : ℕ) : Prop :=
  (∃ j m, n = m + 1 + j ∧ j < 3 ∧ (U.resp (σ m)).ready = true ∧ U.Cooling j (σ n)) ∨
  U.Cooling 3 (σ n) ∨
  ∃ op k, k ≤ U.latency op ∧ U.opOf (ι n) = some op ∧ U.AtCycle op (ι n).rs1 (ι n).rs2 k (σ n)

theorem opOf_eq_none {req : PcpiReq} (h : req.valid = false) : U.opOf req = none := by
  rw [← Option.not_isSome_iff_eq_none]
  intro hsome
  rw [U.valid_of_opOf req hsome] at h
  cases h

theorem serving_next_atCycle {σ : ℕ → S} (hσ : ∀ n, σ (n + 1) = U.next (ι n) (σ n))
    (hclient : U.Client ι σ) {k : ℕ} (hk : k ≤ U.latency op) (hop : U.opOf (ι n) = some op)
    (hat : U.AtCycle op (ι n).rs1 (ι n).rs2 k (σ n)) : U.Serving ι σ (n + 1) := by
  have hready := U.ready_atCycle hat hk
  rcases Nat.lt_or_eq_of_le hk with hlt | rfl
  · rw [decide_eq_false (Nat.ne_of_lt hlt)] at hready
    have hheld := hclient.held n (by rw [hop]; rfl) hready
    refine .inr (.inr ⟨op, k + 1, hlt, ?_, ?_⟩)
    · rw [hheld, hop]
    · rw [hheld, hσ]
      exact U.next_atCycle hat hlt hop
  · rw [decide_eq_true rfl] at hready
    refine .inl ⟨0, n, rfl, by decide, hready, ?_⟩
    rw [hσ]
    exact U.next_answered hat hop

theorem serving_next {σ : ℕ → S} (hσ : ∀ n, σ (n + 1) = U.next (ι n) (σ n))
    (hclient : U.Client ι σ) (h : U.Serving ι σ n) : U.Serving ι σ (n + 1) := by
  rcases h with ⟨j, m, rfl, hj, hready, hcool⟩ | hrest | ⟨op, k, hk, hop, hat⟩
  · have hnext := U.next_cooling hcool (opOf_eq_none (hclient.released m hready j hj))
    rw [← hσ] at hnext
    by_cases hj2 : j = 2
    · rw [hj2] at hnext ⊢
      exact .inr (.inl hnext)
    · rw [Nat.min_eq_left (by omega)] at hnext
      exact .inl ⟨j + 1, m, by omega, by omega, hready, hnext⟩
  · cases hop : U.opOf (ι n) with
    | none =>
      have hnext := U.next_cooling hrest hop
      rw [← hσ] at hnext
      exact .inr (.inl hnext)
    | some op =>
      exact serving_next_atCycle hσ hclient (Nat.zero_le _) hop ((U.rest _).1 hrest op _ _)
  · exact serving_next_atCycle hσ hclient hk hop hat

theorem answered_of_atCycle {σ : ℕ → S} (hσ : ∀ n, σ (n + 1) = U.next (ι n) (σ n))
    (hclient : U.Client ι σ) {k : ℕ} (hk : k ≤ U.latency op) (hop : U.opOf (ι n) = some op)
    (hat : U.AtCycle op (ι n).rs1 (ι n).rs2 k (σ n)) :
    ∃ m, k + m = U.latency op ∧ (∀ j ≤ m, ι (n + j) = ι n) ∧
      ∀ j ≤ m, U.AtCycle op (ι n).rs1 (ι n).rs2 (k + j) (σ (n + j)) := by
  have hrun : ∀ j, k + j ≤ U.latency op → ι (n + j) = ι n ∧
      U.AtCycle op (ι n).rs1 (ι n).rs2 (k + j) (σ (n + j)) := by
    intro j
    induction j with
    | zero => exact fun _ => ⟨rfl, hat⟩
    | succ j ih =>
      intro hle
      obtain ⟨heq, hatj⟩ := ih (by omega)
      have hready := U.ready_atCycle hatj (by omega)
      rw [decide_eq_false (by omega)] at hready
      have hheld := hclient.held (n + j) (by rw [heq, hop]; rfl) hready
      refine ⟨(hheld.trans heq : _), ?_⟩
      rw [← heq] at hatj hop ⊢
      have hnext := U.next_atCycle hatj (by omega) hop
      rwa [← hσ] at hnext
  obtain ⟨m, hm⟩ := Nat.exists_eq_add_of_le hk
  exact ⟨m, hm.symm, fun j hj => (hrun j (by omega)).1, fun j hj => (hrun j (by omega)).2⟩

/-- **A co-processor answers.**  In every run from rest with a client: a request is answered within
its latency, with nothing in between, and every answer is that to the request.  From the third
cycle of the request on the co-processor asks the processor to wait. -/
theorem answers {σ : ℕ → S} (hσ : ∀ n, σ (n + 1) = U.next (ι n) (σ n))
    (hrest : U.Cooling 3 (σ 0)) (hclient : U.Client ι σ) (n : ℕ) :
    ((U.resp (σ n)).ready = true → ∃ op, U.opOf (ι n) = some op ∧ (U.resp (σ n)).wr = true ∧
      (U.resp (σ n)).rd = U.eval op (ι n).rs1 (ι n).rs2) ∧
    (∀ op, U.opOf (ι n) = some op → ∃ m ≤ U.latency op, ι (n + m) = ι n ∧
      (U.resp (σ (n + m))).ready = true ∧ (∀ j < m, (U.resp (σ (n + j))).ready = false) ∧
      ∀ j ≤ m, 2 ≤ j → (U.resp (σ (n + j))).wait = true) := by
  have hserving : U.Serving ι σ n := by
    induction n with
    | zero => exact .inr (.inl hrest)
    | succ n ih => exact serving_next hσ hclient ih
  refine ⟨fun hready => ?_, fun op hop => ?_⟩
  · rcases hserving with ⟨j, m, -, -, -, hcool⟩ | hcool | ⟨op, k, hk, hop, hat⟩
    · rw [U.ready_cooling hcool] at hready
      cases hready
    · rw [U.ready_cooling hcool] at hready
      cases hready
    · rw [U.ready_atCycle hat hk, decide_eq_true_eq] at hready
      rw [hready] at hat
      exact ⟨op, hop, U.answer hat⟩
  · obtain ⟨k, hk, hat⟩ : ∃ k ≤ U.latency op, U.AtCycle op (ι n).rs1 (ι n).rs2 k (σ n) := by
      rcases hserving with ⟨j, m, rfl, hj, hready, -⟩ | hcool | ⟨op', k, hk, hop', hat⟩
      · rw [opOf_eq_none (hclient.released m hready j hj)] at hop
        cases hop
      · exact ⟨0, Nat.zero_le _, (U.rest _).1 hcool op _ _⟩
      · rw [hop] at hop'
        cases hop'
        exact ⟨k, hk, hat⟩
    obtain ⟨m, hm, heq, hrun⟩ := answered_of_atCycle hσ hclient hk hop hat
    refine ⟨m, by omega, heq m (Nat.le_refl m), ?_, fun j hj => ?_, fun j hj h2 => ?_⟩
    · rw [U.ready_atCycle (hrun m (Nat.le_refl m)) (by omega), decide_eq_true hm]
    · rw [U.ready_atCycle (hrun j (Nat.le_of_lt hj)) (by omega), decide_eq_false (by omega)]
    · rw [U.wait_atCycle (hrun j hj) (by omega), decide_eq_true (by omega)]

/-- One request, held up to cycle `m`. -/
def once (req : PcpiReq) (m n : ℕ) : PcpiReq := if n ≤ m then req else ⟨false, 0, 0, 0⟩

theorem client_once (req : PcpiReq) {m : ℕ} {σ : ℕ → S}
    (hready : ∀ n ≤ m, (U.resp (σ n)).ready = decide (n = m)) : U.Client (once req m) σ where
  held n hop hn := by
    have hle : n ≤ m := by
      by_contra hgt
      have hvalid := U.valid_of_opOf _ hop
      rw [once, if_neg hgt] at hvalid
      cases hvalid
    rw [hready n hle, decide_eq_false_iff_not] at hn
    rw [once, once, if_pos hle, if_pos (by omega)]
  released n hn j _ := by
    have hge : m ≤ n := by
      by_contra hlt
      rw [hready n (by omega), decide_eq_true_eq] at hn
      omega
    rw [once, if_neg (by omega)]

end PcpiUnit

end SystolicSoc
