import SystolicSoc.Bus.Slave

/-!
# A bus master with one access in flight

A master performs 32-bit stores and loads one at a time.  A store drives its address and its data
until each is accepted and completes with the write response; a load drives its address and
completes with the read data.  When the master drives a beat and when it takes a response is left
open, and so is the payload on the bus while it drives none.

* `drive`, `completes`, `InFlight.next` : the master.
* `Linked` : the master and the ports of the slave agree on the beats handed over.
* `Linked.store_next`, `Linked.load_next` : **what a cycle of an access does to the ports.**
-/

namespace SystolicSoc

/-- A full-word access. -/
inductive Access
  | store (addr data : BitVec 32)
  | load (addr : BitVec 32)
deriving DecidableEq, Repr

/-- The choices of one cycle: which beats to drive, which responses to take, and the payload of
the channels that carry no beat. -/
structure Delays where
  awGo : Bool
  wGo : Bool
  arGo : Bool
  bReady : Bool
  rReady : Bool
  aw : AwChan
  w : WChan
  ar : ArChan

/-- The beats of the current access that have been accepted. -/
structure InFlight where
  awSent : Bool
  wSent : Bool
  arSent : Bool
deriving DecidableEq, Repr

/-- No beat of the access has been accepted. -/
def InFlight.fresh : InFlight := ⟨false, false, false⟩

/-- What a master without a beat to drive drives. -/
def Delays.noBeat (e : Delays) : Req where
  aw := e.aw
  awValid := false
  w := e.w
  wValid := false
  bReady := e.bReady
  ar := e.ar
  arValid := false
  rReady := e.rReady

/-- What the master drives for its access. -/
def drive (acc : Option Access) (f : InFlight) (e : Delays) : Req :=
  match acc with
  | some (.store addr data) =>
    { e.noBeat with
      aw := if !f.awSent && e.awGo then ⟨addr⟩ else e.aw
      awValid := !f.awSent && e.awGo
      w := if !f.wSent && e.wGo then ⟨data, 0xF⟩ else e.w
      wValid := !f.wSent && e.wGo }
  | some (.load addr) =>
    { e.noBeat with
      ar := if !f.arSent && e.arGo then ⟨addr⟩ else e.ar
      arValid := !f.arSent && e.arGo }
  | none => e.noBeat

/-- The access completes in this cycle. -/
def completes (acc : Option Access) (e : Delays) (resp : Resp) : Bool :=
  match acc with
  | some (.store _ _) => resp.bValid && e.bReady
  | some (.load _) => resp.rValid && e.rReady
  | none => false

/-- The beats accepted after a cycle; a completed access makes room for the next. -/
def InFlight.next (acc : Option Access) (e : Delays) (resp : Resp) (f : InFlight) : InFlight :=
  if completes acc e resp then .fresh
  else
    { awSent := f.awSent || ((drive acc f e).awValid && resp.awReady)
      wSent := f.wSent || ((drive acc f e).wValid && resp.wReady)
      arSent := f.arSent || ((drive acc f e).arValid && resp.arReady) }

/-! ### The master and the ports of a slave -/

variable {S β : Type*}

/-- No beat is held by the slave and no response owed. -/
structure Slave.Clear (L : Slave S β) (s : S) : Prop where
  aw : (L.writePort s).awPending = false
  w : (L.writePort s).wPending = false
  b : (L.writePort s).bValid = false
  r : (L.readPort s).rValid = false

/-- A store in flight: the beats accepted are pending, or answered by the response. -/
structure Slave.Stores (L : Slave S β) (addr data : BitVec 32) (f : InFlight) (s : S) : Prop where
  awSent : f.awSent = ((L.writePort s).awPending || (L.writePort s).bValid)
  wSent : f.wSent = ((L.writePort s).wPending || (L.writePort s).bValid)
  arSent : f.arSent = false
  idle : (L.writePort s).Idle
  addr : (L.writePort s).awPending = true → (L.writePort s).addr = addr
  data : (L.writePort s).wPending = true → (L.writePort s).data = L.keep ⟨data, 0xF⟩
  r : (L.readPort s).rValid = false

/-- A load in flight: the address accepted is answered by the response. -/
structure Slave.Loads (L : Slave S β) (f : InFlight) (s : S) : Prop where
  awSent : f.awSent = false
  wSent : f.wSent = false
  arSent : f.arSent = (L.readPort s).rValid
  aw : (L.writePort s).awPending = false
  w : (L.writePort s).wPending = false
  b : (L.writePort s).bValid = false

/-- **The link**: the master and the ports agree on the beats of the access handed over. -/
def Slave.Linked (L : Slave S β) (acc : Option Access) (f : InFlight) (s : S) : Prop :=
  match acc with
  | some (.store addr data) => L.Stores addr data f s
  | some (.load _) => L.Loads f s
  | none => L.Clear s

namespace Slave

variable {L : Slave S β} {f : InFlight} {s : S} {e : Delays}

theorem Clear.linked (h : L.Clear s) (acc : Option Access) : L.Linked acc .fresh s := by
  obtain ⟨haw, hw, hb, hr⟩ := h
  match acc with
  | some (.store addr data) =>
    constructor <;> simp [InFlight.fresh, WritePort.Idle, haw, hw, hb, hr]
  | some (.load addr) => constructor <;> simp [InFlight.fresh, haw, hw, hb, hr]
  | none => exact ⟨haw, hw, hb, hr⟩

/-! ### One cycle of an access -/

theorem Stores.executes {addr data : BitVec 32} (h : L.Stores addr data f s)
    (he : (L.writePort s).executes = true) :
    (L.writePort s).addr = addr ∧ (L.writePort s).data = L.keep ⟨data, 0xF⟩ := by
  simp only [WritePort.executes, Bool.and_eq_true] at he
  exact ⟨h.addr he.1.1, h.data he.1.2⟩

theorem executes_eq_false (h : (L.writePort s).awPending = false ∨ (L.writePort s).bValid = true) :
    (L.writePort s).executes = false := by
  rcases h with h | h <;> simp [WritePort.executes, h]

theorem Stores.clear {addr data : BitVec 32} (h : L.Stores addr data f s)
    (hc : completes (some (.store addr data)) e (L.respO s) = true) :
    L.Clear (L.edge (drive (some (.store addr data)) f e) s) := by
  simp only [completes, L.bValid_eq, Bool.and_eq_true] at hc
  obtain ⟨haw, hw⟩ := h.idle hc.1
  constructor
  · rw [L.writePort_edge]
    simp [WritePort.next, WritePort.awReady, haw, hc.1]
  · rw [L.writePort_edge]
    simp [WritePort.next, WritePort.wReady, hw, hc.1]
  · rw [L.writePort_edge]
    simp [WritePort.next, drive, Delays.noBeat, hc.1, hc.2]
  · rw [L.readPort_edge]
    simp [ReadPort.next, drive, Delays.noBeat, h.r]

theorem Stores.advance {addr data : BitVec 32} (h : L.Stores addr data f s)
    (hc : completes (some (.store addr data)) e (L.respO s) = false) :
    L.Stores addr data (f.next (some (.store addr data)) e (L.respO s))
      (L.edge (drive (some (.store addr data)) f e) s) := by
  have hb : ((L.writePort s).bValid && e.bReady) = false := by
    simpa only [completes, L.bValid_eq] using hc
  -- a beat is sent when the port accepts it
  have hf : f.next (some (.store addr data)) e (L.respO s) =
      { awSent := f.awSent || (!f.awSent && e.awGo && (L.writePort s).awReady)
        wSent := f.wSent || (!f.wSent && e.wGo && (L.writePort s).wReady)
        arSent := false } := by
    rw [InFlight.next, hc, L.awReady_eq, L.wReady_eq]
    simp [drive, Delays.noBeat, h.arSent]
  rw [hf]
  constructor
  · rw [L.writePort_edge, WritePort.awTaken_next h.idle hb, ← h.awSent]
    rfl
  · rw [L.writePort_edge, WritePort.wTaken_next h.idle hb, ← h.wSent]
    rfl
  · rfl
  · rw [L.writePort_edge]
    exact WritePort.idle_next h.idle _
  · rw [L.writePort_edge]
    exact WritePort.addr_next h.addr fun hv => congrArg AwChan.addr (if_pos hv)
  · rw [L.writePort_edge]
    exact WritePort.data_next h.data fun hv => congrArg L.keep (if_pos hv)
  · rw [L.readPort_edge]
    simp [ReadPort.next, drive, Delays.noBeat, h.r]

theorem Loads.clear {addr : BitVec 32} (h : L.Loads f s)
    (hc : completes (some (.load addr)) e (L.respO s) = true) :
    L.Clear (L.edge (drive (some (.load addr)) f e) s) := by
  simp only [completes, L.rValid_eq, Bool.and_eq_true] at hc
  constructor
  · rw [L.writePort_edge]
    simp [WritePort.next, drive, Delays.noBeat, h.aw]
  · rw [L.writePort_edge]
    simp [WritePort.next, drive, Delays.noBeat, h.w]
  · rw [L.writePort_edge]
    simp [WritePort.next, WritePort.executes, h.aw, h.b]
  · rw [L.readPort_edge]
    simp [ReadPort.next, drive, Delays.noBeat, hc.1, hc.2]

theorem Loads.advance {addr : BitVec 32} (h : L.Loads f s)
    (hc : completes (some (.load addr)) e (L.respO s) = false) :
    L.Loads (f.next (some (.load addr)) e (L.respO s))
      (L.edge (drive (some (.load addr)) f e) s) := by
  obtain ⟨haws, hws, hars, haw, hw, hb⟩ := h
  have hr : ((L.readPort s).rValid && e.rReady) = false := by
    simpa only [completes, L.rValid_eq] using hc
  constructor
  · simp [InFlight.next, hc, haws, drive, Delays.noBeat]
  · simp [InFlight.next, hc, hws, drive, Delays.noBeat]
  · rw [L.readPort_edge, InFlight.next, hc, L.arReady_eq]
    generalize L.readPort s = q at hars hr
    obtain ⟨v, d⟩ := q
    cases v <;> simp_all [ReadPort.next, ReadPort.arReady, drive, Delays.noBeat]
  · rw [L.writePort_edge]
    simp [WritePort.next, drive, Delays.noBeat, haw]
  · rw [L.writePort_edge]
    simp [WritePort.next, drive, Delays.noBeat, hw]
  · rw [L.writePort_edge]
    simp [WritePort.next, WritePort.executes, haw, hb]

theorem Clear.rest (h : L.Clear s) (e : Delays) : L.Clear (L.edge (drive none f e) s) := by
  constructor
  · rw [L.writePort_edge]
    simp [WritePort.next, drive, Delays.noBeat, h.aw]
  · rw [L.writePort_edge]
    simp [WritePort.next, drive, Delays.noBeat, h.w]
  · rw [L.writePort_edge]
    simp [WritePort.next, WritePort.executes, h.aw, h.b]
  · rw [L.readPort_edge]
    simp [ReadPort.next, drive, Delays.noBeat, h.r]

/-- **Every cycle keeps the link**, whatever access follows a completed one. -/
theorem Linked.next {acc acc' : Option Access} (h : L.Linked acc f s)
    (hacc : completes acc e (L.respO s) = false → acc' = acc) :
    L.Linked acc' (f.next acc e (L.respO s)) (L.edge (drive acc f e) s) := by
  cases hc : completes acc e (L.respO s) with
  | true =>
    -- a completed access leaves nothing behind, so any access can follow
    have hclear : L.Clear (L.edge (drive acc f e) s) := by
      match acc, h with
      | some (.store addr data), h => exact Stores.clear h hc
      | some (.load addr), h => exact Loads.clear h hc
      | none, _ => cases hc
    rw [InFlight.next, if_pos hc]
    exact hclear.linked acc'
  | false =>
    rw [hacc hc]
    match acc, h with
    | some (.store addr data), h => exact Stores.advance h hc
    | some (.load addr), h => exact Loads.advance h hc
    | none, h => exact Clear.rest h e

end Slave

end SystolicSoc
