import Mathlib.Data.Nat.Notation
import Mathlib.Logic.Relation

/-!
# Clocked machines

A synchronous design is a reset state and a function that gives the registers after a clock edge
from the inputs and the registers before it.  Inputs are infinite sequences `ι : ℕ → I`, so cycle
`n` of a run has the state `A.runFrom s ι n` and the input `ι n`.

* `Clocked.runFrom`, `Clocked.run` : the state in each cycle, from any state and from reset.
* `Clocked.Reachable` : the states of the runs from reset; `Clocked.Reachable.invariant` is the
  induction over them.
* `Clocked.log` : the list of the events that occurred in the cycles before `n`.
* `Clocked.runFrom_proj`, `Clocked.log_proj` : a projection of the state that steps as a smaller
  machine does follows the smaller machine through the whole run, with the same events.
* `Clocked.runFrom_rel` : the induction for two runs side by side.
* `Clocked.runFrom_unwind` : two runs that look alike to an observer, whatever else their inputs do.
-/

namespace SystolicSoc

/-- A synchronous machine with inputs `I` and registers `S`. -/
structure Clocked (I S : Type*) where
  /-- The registers after reset. -/
  reset : S
  /-- The registers after a clock edge that samples the input `i` in the state `s`. -/
  edge : I → S → S

namespace Clocked

variable {I J S T α β : Type*} (A : Clocked I S)

/-- The state in cycle `n` of the run from `s` on the inputs `ι`. -/
def runFrom (s : S) (ι : ℕ → I) : ℕ → S
  | 0 => s
  | n + 1 => A.edge (ι n) (runFrom s ι n)

/-- The state in cycle `n` of the run from reset. -/
def run (ι : ℕ → I) (n : ℕ) : S := A.runFrom A.reset ι n

/-- `s` is the state of some cycle of some run from reset. -/
def Reachable (s : S) : Prop := Relation.ReflTransGen (fun s s' => ∃ i, s' = A.edge i s) A.reset s

/-- The events `e` of the cycles before `n`, in order. -/
def log (e : I → S → Option α) (s : S) (ι : ℕ → I) : ℕ → List α
  | 0 => []
  | n + 1 => log e s ι n ++ (e (ι n) (A.runFrom s ι n)).toList

variable {A}

@[simp] theorem runFrom_zero (s : S) (ι : ℕ → I) : A.runFrom s ι 0 = s := rfl

theorem runFrom_succ (s : S) (ι : ℕ → I) (n : ℕ) :
    A.runFrom s ι (n + 1) = A.edge (ι n) (A.runFrom s ι n) := rfl

@[simp] theorem run_zero (ι : ℕ → I) : A.run ι 0 = A.reset := rfl

theorem run_succ (ι : ℕ → I) (n : ℕ) : A.run ι (n + 1) = A.edge (ι n) (A.run ι n) := rfl

@[simp] theorem log_zero (e : I → S → Option α) (s : S) (ι : ℕ → I) : A.log e s ι 0 = [] := rfl

theorem log_succ (e : I → S → Option α) (s : S) (ι : ℕ → I) (n : ℕ) :
    A.log e s ι (n + 1) = A.log e s ι n ++ (e (ι n) (A.runFrom s ι n)).toList := rfl

theorem runFrom_add (s : S) (ι : ℕ → I) (m n : ℕ) :
    A.runFrom s ι (m + n) = A.runFrom (A.runFrom s ι m) (fun k => ι (m + k)) n := by
  induction n with
  | zero => rfl
  | succ n ih => rw [← Nat.add_assoc, runFrom_succ, runFrom_succ, ih]

theorem run_add (ι : ℕ → I) (m n : ℕ) :
    A.run ι (m + n) = A.runFrom (A.run ι m) (fun k => ι (m + k)) n :=
  runFrom_add A.reset ι m n

theorem runFrom_congr {s : S} {ι κ : ℕ → I} {n : ℕ} (h : ∀ k < n, ι k = κ k) :
    A.runFrom s ι n = A.runFrom s κ n := by
  induction n with
  | zero => rfl
  | succ n ih => rw [runFrom_succ, runFrom_succ, ih fun k hk => h k (by omega), h n (by omega)]

/-! ### Reachable states -/

theorem Reachable.reset : A.Reachable A.reset := Relation.ReflTransGen.refl

theorem Reachable.edge {s : S} (h : A.Reachable s) (i : I) : A.Reachable (A.edge i s) :=
  Relation.ReflTransGen.tail h ⟨i, rfl⟩

theorem Reachable.runFrom {s : S} (h : A.Reachable s) (ι : ℕ → I) (n : ℕ) :
    A.Reachable (A.runFrom s ι n) := by
  induction n with
  | zero => exact h
  | succ n ih => exact ih.edge (ι n)

theorem reachable_run (ι : ℕ → I) (n : ℕ) : A.Reachable (A.run ι n) :=
  Reachable.reset.runFrom ι n

/-- **The invariant rule**: what holds after reset and is kept by every edge holds in every
reachable state. -/
theorem Reachable.invariant {P : S → Prop} {s : S} (h : A.Reachable s) (h₀ : P A.reset)
    (hedge : ∀ i s, P s → P (A.edge i s)) : P s := by
  induction h with
  | refl => exact h₀
  | tail _ hst ih =>
    obtain ⟨i, rfl⟩ := hst
    exact hedge i _ ih

theorem runFrom_invariant {P : S → Prop} {s : S} {ι : ℕ → I} (h₀ : P s)
    (hedge : ∀ k, P (A.runFrom s ι k) → P (A.edge (ι k) (A.runFrom s ι k))) (n : ℕ) :
    P (A.runFrom s ι n) := by
  induction n with
  | zero => exact h₀
  | succ n ih => exact hedge n ih

/-! ### Projections and pairs of runs -/

/-- **Projection**: if `f` maps every edge of `A` to an edge of `B`, with the input `g i s`, it
maps the run of `A` to the run of `B` on the mapped inputs. -/
theorem runFrom_proj {B : Clocked J T} {f : S → T} {g : I → S → J}
    (h : ∀ i s, f (A.edge i s) = B.edge (g i s) (f s)) (s : S) (ι : ℕ → I) (n : ℕ) :
    f (A.runFrom s ι n) = B.runFrom (f s) (fun k => g (ι k) (A.runFrom s ι k)) n := by
  induction n with
  | zero => rfl
  | succ n ih => rw [runFrom_succ, runFrom_succ, h, ih]

theorem log_proj {B : Clocked J T} {f : S → T} {g : I → S → J}
    (h : ∀ i s, f (A.edge i s) = B.edge (g i s) (f s)) {e : I → S → Option α}
    {e' : J → T → Option β} {c : α → β} (he : ∀ i s, e' (g i s) (f s) = (e i s).map c) (s : S)
    (ι : ℕ → I) (n : ℕ) :
    B.log e' (f s) (fun k => g (ι k) (A.runFrom s ι k)) n = (A.log e s ι n).map c := by
  induction n with
  | zero => rfl
  | succ n ih =>
    rw [log_succ, log_succ, ih, ← runFrom_proj h, he, List.map_append]
    cases e (ι n) (A.runFrom s ι n) <;> rfl

theorem forall_mem_log {e : I → S → Option α} {P : α → Prop} {s : S} {ι : ℕ → I}
    (h : ∀ n, ∀ a ∈ e (ι n) (A.runFrom s ι n), P a) (n : ℕ) : ∀ a ∈ A.log e s ι n, P a := by
  induction n with
  | zero => simp
  | succ n ih =>
    intro a ha
    rw [log_succ, List.mem_append, Option.mem_toList] at ha
    rcases ha with ha | ha
    · exact ih a ha
    · exact h n a ha

theorem log_filterMap (e : I → S → Option α) (f : α → Option β) (s : S) (ι : ℕ → I) (n : ℕ) :
    A.log (fun i s => (e i s).bind f) s ι n = (A.log e s ι n).filterMap f := by
  induction n with
  | zero => rfl
  | succ n ih =>
    rw [log_succ, log_succ, List.filterMap_append, ih]
    cases h : e (ι n) (A.runFrom s ι n) with
    | none => simp
    | some a => cases hf : f a <;> simp [hf]

theorem log_length_congr {e : I → S → Option α} {e' : I → S → Option β}
    (h : ∀ i s, (e i s).isSome = (e' i s).isSome) (s : S) (ι : ℕ → I) (n : ℕ) :
    (A.log e s ι n).length = (A.log e' s ι n).length := by
  induction n with
  | zero => rfl
  | succ n ih =>
    have hn := h (ι n) (A.runFrom s ι n)
    rw [log_succ, log_succ, List.length_append, List.length_append, ih]
    revert hn
    cases e (ι n) (A.runFrom s ι n) <;> cases e' (ι n) (A.runFrom s ι n) <;> simp

/-- **Two runs side by side**: a relation that holds at the start and is kept whenever both
machines take an edge holds in every cycle. -/
theorem runFrom_rel {B : Clocked J T} {R : S → T → Prop} {s : S} {t : T} {ι : ℕ → I}
    {κ : ℕ → J} (h₀ : R s t)
    (hedge : ∀ k, R (A.runFrom s ι k) (B.runFrom t κ k) →
      R (A.edge (ι k) (A.runFrom s ι k)) (B.edge (κ k) (B.runFrom t κ k))) (n : ℕ) :
    R (A.runFrom s ι n) (B.runFrom t κ n) := by
  induction n with
  | zero => exact h₀
  | succ n ih => exact hedge n ih

/-- **Unwinding**: if equal observations `f` stay equal under inputs related by `R`, two runs on
related inputs have equal observations in every cycle. -/
theorem runFrom_unwind {f : S → T} {R : I → I → Prop}
    (hstep : ∀ i j s t, R i j → f s = f t → f (A.edge i s) = f (A.edge j t)) {s t : S}
    (hst : f s = f t) {ι κ : ℕ → I} {n : ℕ} (hικ : ∀ k < n, R (ι k) (κ k)) :
    f (A.runFrom s ι n) = f (A.runFrom t κ n) := by
  induction n with
  | zero => exact hst
  | succ n ih =>
    exact hstep _ _ _ _ (hικ n (by omega)) (ih fun k hk => hικ k (by omega))

end Clocked

end SystolicSoc
