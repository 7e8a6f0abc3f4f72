import SystolicSoc.Accel.Operation

/-!
# Reads do not disturb writes and operations

The write port, the controller and the array share one clocked process with the read port, but
neither side looks at the registers of the other, except that a read samples what it returns.

* `AccelRegs.unread` : the registers other than those of the read port.
* `AccelRegs.unread_next`, `AccelRegs.rValidQ_next` : what one edge of each side depends on.
* `polling_harmless` : **two runs that differ in their reads differ in the read port only, and two
  runs that differ in their writes raise their read responses in the same cycles.**
-/

namespace SystolicSoc

/-- The two requests agree on the `AW`, `W` and `B` inputs. -/
structure Req.SameWrites (req req' : Req) : Prop where
  aw : req.aw = req'.aw
  awValid : req.awValid = req'.awValid
  w : req.w = req'.w
  wValid : req.wValid = req'.wValid
  bReady : req.bReady = req'.bReady

/-- The two requests agree on `ar_valid` and `r_ready`. -/
structure Req.SameReads (req req' : Req) : Prop where
  arValid : req.arValid = req'.arValid
  rReady : req.rReady = req'.rReady

namespace AccelRegs

/-- The registers with those of the read port blanked. -/
def unread (s : AccelRegs) : AccelRegs := { s with rValidQ := false, rDataQ := 0#32 }

theorem unread_next (req : Req) (s : AccelRegs) :
    (next req s).unread = (next req s.unread).unread := by
  rw [next_eq, next_eq]
  rfl

theorem unread_next_congr {req req' : Req} (h : req.SameWrites req') (s : AccelRegs) :
    (next req s).unread = (next req' s).unread := by
  rw [next_eq, next_eq]
  simp only [unread, h.aw, h.awValid, h.w, h.wValid, h.bReady]

theorem rValidQ_next (req : Req) (s : AccelRegs) : (next req s).rValidQ =
    if s.rValidQ && req.rReady then false else s.rValidQ || (req.arValid && !s.rValidQ) := by
  rw [next_eq]
  rfl

end AccelRegs

open AccelRegs

/-- **Polling is harmless**, from any state.  Two runs with the same write inputs agree on all
registers but those of the read port in every cycle, whatever is read.  Two runs that drive
`ar_valid` and `r_ready` alike raise `r_valid` and `ar_ready` in the same cycles, whatever is
written and computed. -/
theorem polling_harmless (s : AccelRegs) (ι κ : ℕ → Req) :
    ((∀ n, (ι n).SameWrites (κ n)) →
      ∀ n, (accel.runFrom s ι n).unread = (accel.runFrom s κ n).unread) ∧
    ((∀ n, (ι n).SameReads (κ n)) →
      ∀ n, (accel.runFrom s ι n).respO.rValid = (accel.runFrom s κ n).respO.rValid ∧
        (accel.runFrom s ι n).respO.arReady = (accel.runFrom s κ n).respO.arReady) := by
  constructor
  · intro h n
    refine Clocked.runFrom_unwind (A := accel) (R := Req.SameWrites) ?_ rfl fun k _ => h k
    intro i j s t hij hst
    calc (next i s).unread = (next i s.unread).unread := unread_next i s
      _ = (next i t.unread).unread := by rw [hst]
      _ = (next i t).unread := (unread_next i t).symm
      _ = (next j t).unread := unread_next_congr hij t
  · intro h n
    have hv : (accel.runFrom s ι n).rValidQ = (accel.runFrom s κ n).rValidQ := by
      refine Clocked.runFrom_unwind (A := accel) (R := Req.SameReads) ?_ rfl fun k _ => h k
      intro i j s t hij hst
      change (next i s).rValidQ = (next j t).rValidQ
      rw [rValidQ_next, rValidQ_next, hst, hij.arValid, hij.rReady]
    exact ⟨hv, congrArg (!·) hv⟩

/-- The same traffic with a read of `STATUS` on the bus in every cycle. -/
def polled (ι : ℕ → Req) (n : ℕ) : Req :=
  { ι n with ar := ⟨0x10000004⟩, arValid := true, rReady := true }

/-- An operation that is polled computes what it computes otherwise, and the polls are answered as
those of an idle accelerator. -/
theorem polling_harmless_operation :
    (accel.runFrom accel.reset smallOperation 32).unread =
        (accel.runFrom accel.reset (polled smallOperation) 32).unread ∧
      (accel.runFrom accel.reset (polled smallOperation) 32).respO.rValid =
        (accel.runFrom accel.reset (polled fun _ => Req.idle) 32).respO.rValid :=
  ⟨(polling_harmless accel.reset smallOperation (polled smallOperation)).1
      (fun _ => ⟨rfl, rfl, rfl, rfl, rfl⟩) 32,
    ((polling_harmless accel.reset (polled smallOperation) (polled fun _ => Req.idle)).2
      (fun _ => ⟨rfl, rfl⟩) 32).1⟩

end SystolicSoc
