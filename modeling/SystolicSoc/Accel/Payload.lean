import SystolicSoc.Accel.Control
import SystolicSoc.Accel.Storage

/-!
# Strobes and payloads

The accelerator keeps the data of an accepted beat and not its strobes.  When the write executes,
`CTRL` takes the strobes that are then on the bus, the streams take none, and a start looks at the
data alone.  This file says what that costs.

* `StrobeLaw`, `honoursStrobes_iff` : **when a run honours the strobes of the accepted beats.**
* `Isolated`, `isolated_iff` : **when a run does not depend on what the master drives outside its
  handshakes.**
-/

namespace SystolicSoc

open AccelRegs

/-! ### The strobes of the accepted beat -/

/-- The last data beat accepted before cycle `n`. -/
def acceptedW (ι : ℕ → Req) (n : ℕ) : WChan :=
  lastHit some ⟨0, 0⟩ (accelSlave.history accelSlave.wBeat ι n)

theorem wDataQ_eq (ι : ℕ → Req) (n : ℕ) : (accel.run ι n).wDataQ = (acceptedW ι n).data := by
  have hnext : ∀ req s, (next req s).wDataQ =
      ((accelSlave.wBeat req s).bind fun w => some w.data).getD s.wDataQ := by
    intro req s
    have hbeat : accelSlave.wBeat req s =
        if req.wValid && s.respO.wReady then some req.w else none := rfl
    rw [next_eq, hbeat]
    dsimp only
    split_ifs <;> rfl
  have hrun := Clocked.runFrom_eq_lastHit (A := accel) (f := wDataQ) hnext accel.reset ι n
  exact hrun.trans (lastHit_some_comp WChan.data ⟨0, 0⟩ _)

/-- What the write that executes in cycle `n` has to do to the register `r`: it replaces exactly
the bytes whose strobe is set in the accepted beat, and starts an operation only by writing a one
into bit 0 of `CTRL`. -/
structure StrobeLaw (ι : ℕ → Req) (n : ℕ) (r : WriteReg) : Prop where
  bytes : ∀ b : Fin 4, byte (r.get (accel.run ι (n + 1))) b =
    if (acceptedW ι n).strb.getLsbD b then byte (acceptedW ι n).data b
    else byte (r.get (accel.run ι n)) b
  start : (accel.run ι (n + 1)).startPendingQ = 2#2 →
    r = .ctrl ∧ (acceptedW ι n).strb.getLsbD 0 = true ∧ (acceptedW ι n).data.getLsbD 0 = true

theorem startPendingQ_next_eq_two {s : AccelRegs} (hs : s.Inv) (he : s.executes = true)
    {r : WriteReg} (hr : low8 s.awAddrQ = r.offset) (req : Req) :
    (next req s).startPendingQ = 2#2 ↔ r = .ctrl ∧ s.wDataQ.getLsbD 0 = true := by
  have hp := hs.pending_of_executes he
  -- no clear is under way, so only a start can set the count
  have hctrl : s.writesCtrl = true ↔ r = .ctrl := by
    rw [writesCtrl, he, hr, Bool.true_and, beq_iff_eq]
    exact ⟨r.offset_injective .ctrl, fun h => by rw [h]; rfl⟩
  rw [next_startPendingQ, if_neg (not_not.2 hp), ← hctrl, ← Bool.and_eq_true, ← starts]
  split_ifs with hst <;> simp [hst, hp]

/-- One executed write: the strobes that the source applies have the effect of those of the beat,
and a start has its strobe set. -/
theorem strobeLaw_iff {ι : ℕ → Req} {n : ℕ} {r : WriteReg}
    (he : (accel.run ι n).executes = true) (hr : low8 (accel.run ι n).awAddrQ = r.offset) :
    StrobeLaw ι n r ↔
      (∀ b : Fin 4, (r.strbUsed (ι n)).getLsbD b ≠ (acceptedW ι n).strb.getLsbD b →
        byte (acceptedW ι n).data b = byte (r.get (accel.run ι n)) b) ∧
      (r = .ctrl → (acceptedW ι n).data.getLsbD 0 = true →
        (acceptedW ι n).strb.getLsbD 0 = true) := by
  have hinv := inv_of_reachable (accel.reachable_run ι n)
  have hget : r.get (accel.run ι (n + 1)) =
      strobedWrite (r.get (accel.run ι n)) (acceptedW ι n).data (r.strbUsed (ι n)) := by
    rw [Clocked.run_succ, ← wDataQ_eq]
    exact (r.get_next _ _).trans (if_pos ⟨he, hr⟩)
  have hstart : (accel.run ι (n + 1)).startPendingQ = 2#2 ↔
      r = .ctrl ∧ (acceptedW ι n).data.getLsbD 0 = true := by
    rw [← wDataQ_eq]
    exact startPendingQ_next_eq_two hinv he hr (ι n)
  rw [← strobedWrite_eq_iff, ← hget, eq_iff_bytes]
  simp only [strobedWrite_byte]
  constructor
  · rintro ⟨hbytes, hst⟩
    exact ⟨hbytes, fun hc hd => (hst (hstart.2 ⟨hc, hd⟩)).2.1⟩
  · rintro ⟨hbytes, hst⟩
    refine ⟨hbytes, ?_⟩
    intro h
    obtain ⟨hc, hd⟩ := hstart.1 h
    exact ⟨hc, hst hc hd, hd⟩

/-- Every write that the run executes honours the strobes of its beat. -/
def HonoursStrobes (ι : ℕ → Req) : Prop :=
  ∀ n r, (accel.run ι n).executes = true → low8 (accel.run ι n).awAddrQ = r.offset →
    StrobeLaw ι n r

/-- **A run honours the strobes exactly if** whenever a write executes, the strobes that the source
applies differ from those of the beat only in bytes that the data leave as they are, and a start
has its strobe set. -/
theorem honoursStrobes_iff (ι : ℕ → Req) : HonoursStrobes ι ↔
    ∀ n (r : WriteReg), (accel.run ι n).executes = true →
      low8 (accel.run ι n).awAddrQ = r.offset →
      (∀ b : Fin 4, (r.strbUsed (ι n)).getLsbD b ≠ (acceptedW ι n).strb.getLsbD b →
        byte (acceptedW ι n).data b = byte (r.get (accel.run ι n)) b) ∧
      (r = .ctrl → (acceptedW ι n).data.getLsbD 0 = true →
        (acceptedW ι n).strb.getLsbD 0 = true) := by
  refine forall₂_congr fun n r => ?_
  constructor
  · intro h he hr
    exact (strobeLaw_iff he hr).1 (h he hr)
  · intro h he hr
    exact (strobeLaw_iff he hr).2 (h he hr)

/-- A byte store to the lower half of `A_STREAM[0]`, whose payload the master never changes. -/
def byteStore (n : ℕ) : Req :=
  { Req.write 0x10000008 0xAABBCCDD 0x1 with awValid := n == 0, wValid := n == 0 }

/-- The byte store replaces the whole word. -/
theorem honoursStrobes_byteStore : ¬ ∀ ι : ℕ → Req, HonoursStrobes ι := by
  intro h
  have hbyte := (h byteStore 1 (.aHalf 0 false) (by decide +kernel) (by decide +kernel)).bytes 1
  revert hbyte
  decide +kernel

/-! ### The payload outside handshakes -/

/-- The two requests agree on all flags, and on the payload of every beat that the state `s`
accepts. -/
structure SameBeats (req req' : Req) (s : AccelRegs) : Prop where
  awValid : req.awValid = req'.awValid
  wValid : req.wValid = req'.wValid
  bReady : req.bReady = req'.bReady
  arValid : req.arValid = req'.arValid
  rReady : req.rReady = req'.rReady
  aw : (req.awValid && s.respO.awReady) = true → req.aw = req'.aw
  w : (req.wValid && s.respO.wReady) = true → req.w = req'.w
  ar : (req.arValid && s.respO.arReady) = true → req.ar = req'.ar

/-- The two runs have the same registers and the same outputs in every cycle. -/
def Isolated (ι κ : ℕ → Req) : Prop :=
  ∀ n, accel.run ι n = accel.run κ n ∧ (accel.run ι n).respO = (accel.run κ n).respO ∧
    (accel.run ι n).startO = (accel.run κ n).startO ∧
    (accel.run ι n).debugValueO = (accel.run κ n).debugValueO

/-- Requests with the same beats can differ in their effect on `CTRL` only. -/
theorem SameBeats.next_eq {req req' : Req} {s : AccelRegs} (h : SameBeats req req' s) :
    next req s = { next req' s with ctrlQ := (next req s).ctrlQ } := by
  have haw : (if req.awValid && s.respO.awReady then req.aw.addr else s.awAddrQ) =
      if req.awValid && s.respO.awReady then req'.aw.addr else s.awAddrQ := by
    split_ifs with hc
    · rw [h.aw hc]
    · rfl
  have hw : (if req.wValid && s.respO.wReady then req.w.data else s.wDataQ) =
      if req.wValid && s.respO.wReady then req'.w.data else s.wDataQ := by
    split_ifs with hc
    · rw [h.w hc]
    · rfl
  have har : (if req.arValid && s.respO.arReady then s.readMux req.ar.addr else s.rDataQ) =
      if req.arValid && s.respO.arReady then s.readMux req'.ar.addr else s.rDataQ := by
    split_ifs with hc
    · rw [h.ar hc]
    · rfl
  simp only [AccelRegs.next_eq, ← h.awValid, ← h.wValid, ← h.bReady, ← h.arValid, ← h.rReady,
    haw, hw, har]

/-- **The payload that one edge depends on**: the strobes on the bus, when `CTRL` is written. -/
theorem SameBeats.next_eq_iff {req req' : Req} {s : AccelRegs} (h : SameBeats req req' s) :
    next req s = next req' s ↔ (s.writesCtrl = true → ∀ b : Fin 4,
      req.w.strb.getLsbD b ≠ req'.w.strb.getLsbD b → byte s.wDataQ b = byte s.ctrlQ b) := by
  rw [← strobedWrite_eq_iff]
  have hctrl : next req s = next req' s ↔ (next req s).ctrlQ = (next req' s).ctrlQ := by
    constructor
    · intro heq
      rw [heq]
    · intro heq
      rw [h.next_eq, heq]
  rw [hctrl, AccelRegs.next_eq, AccelRegs.next_eq]
  dsimp only
  split_ifs with hc <;> simp [hc]

/-- **What a master drives after its beat has been accepted influences a run exactly if** it
changes the strobes on the bus in a cycle in which a `CTRL` write executes, at a byte that this
write changes. -/
theorem isolated_iff {ι κ : ℕ → Req} (h : ∀ n, SameBeats (ι n) (κ n) (accel.run ι n)) :
    Isolated ι κ ↔ ∀ n, (accel.run ι n).writesCtrl = true → ∀ b : Fin 4,
      (ι n).w.strb.getLsbD b ≠ (κ n).w.strb.getLsbD b →
        byte (accel.run ι n).wDataQ b = byte (accel.run ι n).ctrlQ b := by
  constructor
  · intro hiso n
    refine (h n).next_eq_iff.1 ?_
    have hn := (hiso (n + 1)).1
    rw [Clocked.run_succ, Clocked.run_succ, ← (hiso n).1] at hn
    exact hn
  · intro hstrb n
    -- the two runs stay in one state: no edge of theirs is a `CTRL` write that tells them apart
    have hrun : accel.run ι n = accel.run κ n := by
      refine Clocked.runFrom_rel (R := (· = ·)) rfl (fun k hk => ?_) n
      rw [← hk]
      exact (h k).next_eq_iff.2 (hstrb k)
    rw [hrun]
    exact ⟨rfl, rfl, rfl, rfl⟩

/-- A `CTRL` write whose data arrive before its address.  The master keeps the strobes on the bus
until the write has executed. -/
def lateAddress : ℕ → Req :=
  Req.script [(0, { Req.idle with w := ⟨2, 0xF⟩, wValid := true }),
    (2, { Req.idle with aw := ⟨0x10000000⟩, awValid := true }),
    (3, { Req.idle with w := ⟨2, 0xF⟩ })]

/-- The same write by a master that takes the strobes off the bus. -/
def lateAddressIdle : ℕ → Req := Function.update lateAddress 3 Req.idle

theorem sameBeats_update {ι : ℕ → Req} {m : ℕ} {req : Req}
    (h : SameBeats (ι m) req (accel.run ι m)) (n : ℕ) :
    SameBeats (ι n) (Function.update ι m req n) (accel.run ι n) := by
  by_cases hn : n = m
  · rw [hn, Function.update_self]
    exact h
  · rw [Function.update_of_ne hn]
    exact ⟨rfl, rfl, rfl, rfl, rfl, fun _ => rfl, fun _ => rfl, fun _ => rfl⟩

theorem lateAddress_sameBeats (n : ℕ) :
    SameBeats (lateAddress n) (lateAddressIdle n) (accel.run lateAddress n) :=
  sameBeats_update (by constructor <;> decide +kernel) n

theorem isolated_iff_lateAddress :
    Isolated lateAddress lateAddressIdle ↔ ∀ n, (accel.run lateAddress n).writesCtrl = true →
      ∀ b : Fin 4, (lateAddress n).w.strb.getLsbD b ≠ (lateAddressIdle n).w.strb.getLsbD b →
        byte (accel.run lateAddress n).wDataQ b = byte (accel.run lateAddress n).ctrlQ b :=
  isolated_iff lateAddress_sameBeats

/-- The second master's write is lost. -/
theorem isolated_lateAddress :
    ¬ ∀ ι κ : ℕ → Req, (∀ n, SameBeats (ι n) (κ n) (accel.run ι n)) → Isolated ι κ := by
  intro h
  have hctrl : (accel.run lateAddress 4).ctrlQ = (accel.run lateAddressIdle 4).ctrlQ := by
    rw [(h _ _ lateAddress_sameBeats 4).1]
  exact absurd hctrl (by decide +kernel)

end SystolicSoc
