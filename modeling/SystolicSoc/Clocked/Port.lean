import SystolicSoc.Clocked.Basic
import Mathlib.Data.List.Basic

/-!
# Valid/ready ports

The two halves of a single-outstanding memory-mapped slave port, over arbitrary address, data and
answer types.

A **write port** accepts an address beat and a data beat on independent channels, in any order,
executes the write in the first cycle that holds both, and then owes a response.  A **read port**
accepts an address beat together with the answer the device gives in that cycle, and then owes
the answer.

* `WritePort.Idle` : a raised response excludes pending beats, in every cycle
  (`WritePort.idle_runFrom`).
* `WritePort.awLog_eq`, `WritePort.wLog_eq` : **conservation and pairing.**  The accepted
  addresses are those of the executed writes followed by the pending one, and likewise the
  accepted data: the `n`-th executed write carries the `n`-th accepted address and the `n`-th
  accepted data word.
* `WritePort.executedLog_length` : one response for every executed write.
* `ReadPort.arLog_eq` : the answers accepted are the answers delivered followed by the one owed.
* `WritePort.bValid_held`, `ReadPort.rValid_held` : a raised response stays up, and its data does
  not change, until its handshake.
-/

namespace SystolicSoc

/-- The registers of a write port. -/
@[ext] structure WritePort (α β : Type*) where
  /-- An address beat is held. -/
  awPending : Bool
  /-- A data beat is held. -/
  wPending : Bool
  /-- A response is owed. -/
  bValid : Bool
  /-- The address held. -/
  addr : α
  /-- The data held. -/
  data : β

namespace WritePort

variable {α β : Type*}

/-- The inputs of a write port. -/
structure Input (α β : Type*) where
  awValid : Bool
  aw : α
  wValid : Bool
  w : β
  bReady : Bool

/-- The port can accept an address beat. -/
def awReady (p : WritePort α β) : Bool := !p.awPending && !p.bValid

/-- The port can accept a data beat. -/
def wReady (p : WritePort α β) : Bool := !p.wPending && !p.bValid

/-- The port executes the write it holds in this cycle. -/
def executes (p : WritePort α β) : Bool := p.awPending && p.wPending && !p.bValid

/-- The registers after a clock edge. -/
def next (i : Input α β) (p : WritePort α β) : WritePort α β where
  awPending := if p.executes then false else p.awPending || (i.awValid && p.awReady)
  wPending := if p.executes then false else p.wPending || (i.wValid && p.wReady)
  bValid := if p.bValid && i.bReady then false else p.bValid || p.executes
  addr := if i.awValid && p.awReady then i.aw else p.addr
  data := if i.wValid && p.wReady then i.w else p.data

/-- The write port with idle registers holding `addr` and `data`. -/
def machine (addr : α) (data : β) : Clocked (Input α β) (WritePort α β) where
  reset := ⟨false, false, false, addr, data⟩
  edge := next

/-- The address beat accepted in this cycle. -/
def awBeat (i : Input α β) (p : WritePort α β) : Option α :=
  if i.awValid && p.awReady then some i.aw else none

/-- The data beat accepted in this cycle. -/
def wBeat (i : Input α β) (p : WritePort α β) : Option β :=
  if i.wValid && p.wReady then some i.w else none

/-- The write executed in this cycle. -/
def executed (_ : Input α β) (p : WritePort α β) : Option (α × β) :=
  if p.executes then some (p.addr, p.data) else none

/-- The response handed over in this cycle. -/
def bBeat (i : Input α β) (p : WritePort α β) : Option Unit :=
  if p.bValid && i.bReady then some () else none

/-- A raised response excludes pending beats. -/
def Idle (p : WritePort α β) : Prop := p.bValid = true → p.awPending = false ∧ p.wPending = false

/-- The address held for a write that has not executed. -/
def heldAddr (p : WritePort α β) : List α := if p.awPending then [p.addr] else []

/-- The data held for a write that has not executed. -/
def heldData (p : WritePort α β) : List β := if p.wPending then [p.data] else []

@[simp] theorem heldAddr_length (p : WritePort α β) : p.heldAddr.length = p.awPending.toNat := by
  rw [heldAddr]
  cases p.awPending <;> rfl

@[simp] theorem heldData_length (p : WritePort α β) : p.heldData.length = p.wPending.toNat := by
  rw [heldData]
  cases p.wPending <;> rfl

/-! ### One cycle -/

theorem idle_next {p : WritePort α β} (h : p.Idle) (i : Input α β) : (next i p).Idle := by
  obtain ⟨aw, w, b, a, d⟩ := p
  cases aw <;> cases w <;> cases b <;> simp_all [Idle, next, executes, awReady, wReady]

/-- An address beat is added behind the one held, which an execution removes. -/
theorem heldAddr_next {p : WritePort α β} (h : p.Idle) (i : Input α β) :
    p.heldAddr ++ (awBeat i p).toList =
      (executed i p).toList.map Prod.fst ++ (next i p).heldAddr := by
  obtain ⟨aw, w, b, a, d⟩ := p
  cases aw <;> cases w <;> cases b <;> cases hv : i.awValid <;>
    simp_all [Idle, heldAddr, awBeat, executed, next, executes, awReady]

theorem heldData_next {p : WritePort α β} (h : p.Idle) (i : Input α β) :
    p.heldData ++ (wBeat i p).toList =
      (executed i p).toList.map Prod.snd ++ (next i p).heldData := by
  obtain ⟨aw, w, b, a, d⟩ := p
  cases aw <;> cases w <;> cases b <;> cases hv : i.wValid <;>
    simp_all [Idle, heldData, wBeat, executed, next, executes, wReady]

theorem bValid_next (i : Input α β) (p : WritePort α β) :
    p.bValid.toNat + (executed i p).toList.length =
      (bBeat i p).toList.length + (next i p).bValid.toNat := by
  obtain ⟨aw, w, b, a, d⟩ := p
  cases aw <;> cases w <;> cases b <;> cases hr : i.bReady <;>
    simp [executed, bBeat, next, executes, hr]

theorem bValid_held {i : Input α β} {p : WritePort α β} (h : p.bValid = true)
    (hr : i.bReady = false) : (next i p).bValid = true := by
  simp [next, h, hr]

/-- Until its response is handed over, a write has its address taken once a beat is accepted. -/
theorem awTaken_next {p : WritePort α β} (h : p.Idle) {i : Input α β}
    (hb : (p.bValid && i.bReady) = false) :
    ((next i p).awPending || (next i p).bValid) =
      (p.awPending || p.bValid || (i.awValid && p.awReady)) := by
  obtain ⟨aw, w, b, a, d⟩ := p
  cases aw <;> cases w <;> cases b <;> simp_all [Idle, next, executes, awReady]

theorem wTaken_next {p : WritePort α β} (h : p.Idle) {i : Input α β}
    (hb : (p.bValid && i.bReady) = false) :
    ((next i p).wPending || (next i p).bValid) =
      (p.wPending || p.bValid || (i.wValid && p.wReady)) := by
  obtain ⟨aw, w, b, a, d⟩ := p
  cases aw <;> cases w <;> cases b <;> simp_all [Idle, next, executes, wReady]

theorem addr_next {p : WritePort α β} {i : Input α β} {x : α}
    (hp : p.awPending = true → p.addr = x) (hi : i.awValid = true → i.aw = x)
    (h : (next i p).awPending = true) : (next i p).addr = x := by
  simp only [next] at h ⊢
  split_ifs with hacc
  · exact hi (Bool.and_eq_true_iff.1 hacc).1
  · refine hp ?_
    split_ifs at h
    simpa [hacc] using h

theorem data_next {p : WritePort α β} {i : Input α β} {x : β}
    (hp : p.wPending = true → p.data = x) (hi : i.wValid = true → i.w = x)
    (h : (next i p).wPending = true) : (next i p).data = x := by
  simp only [next] at h ⊢
  split_ifs with hacc
  · exact hi (Bool.and_eq_true_iff.1 hacc).1
  · refine hp ?_
    split_ifs at h
    simpa [hacc] using h

/-! ### Whole runs -/

variable (a₀ : α) (d₀ : β)

theorem idle_runFrom {p : WritePort α β} (h : p.Idle) (ι : ℕ → Input α β) (n : ℕ) :
    ((machine a₀ d₀).runFrom p ι n).Idle :=
  Clocked.runFrom_invariant h (fun _ hk => idle_next hk _) n

/-- **Addresses are conserved**: every accepted address is executed once and in order, except
the one held. -/
theorem awLog_eq {p : WritePort α β} (h : p.Idle) (ι : ℕ → Input α β) (n : ℕ) :
    p.heldAddr ++ (machine a₀ d₀).log awBeat p ι n =
      ((machine a₀ d₀).log executed p ι n).map Prod.fst ++
        ((machine a₀ d₀).runFrom p ι n).heldAddr := by
  induction n with
  | zero => simp
  | succ n ih =>
    have hstep := heldAddr_next (idle_runFrom a₀ d₀ h ι n) (ι n)
    rw [Clocked.log_succ, Clocked.log_succ, ← List.append_assoc, ih, List.append_assoc, hstep,
      List.map_append, List.append_assoc]
    rfl

theorem wLog_eq {p : WritePort α β} (h : p.Idle) (ι : ℕ → Input α β) (n : ℕ) :
    p.heldData ++ (machine a₀ d₀).log wBeat p ι n =
      ((machine a₀ d₀).log executed p ι n).map Prod.snd ++
        ((machine a₀ d₀).runFrom p ι n).heldData := by
  induction n with
  | zero => simp
  | succ n ih =>
    have hstep := heldData_next (idle_runFrom a₀ d₀ h ι n) (ι n)
    rw [Clocked.log_succ, Clocked.log_succ, ← List.append_assoc, ih, List.append_assoc, hstep,
      List.map_append, List.append_assoc]
    rfl

/-- **Responses are conserved**: every executed write is answered once, except the one whose
response is owed. -/
theorem executedLog_length (p : WritePort α β) (ι : ℕ → Input α β) (n : ℕ) :
    p.bValid.toNat + ((machine a₀ d₀).log executed p ι n).length =
      ((machine a₀ d₀).log bBeat p ι n).length +
        ((machine a₀ d₀).runFrom p ι n).bValid.toNat := by
  induction n with
  | zero => simp
  | succ n ih =>
    have hstep := bValid_next (ι n) ((machine a₀ d₀).runFrom p ι n)
    rw [Clocked.log_succ, Clocked.log_succ, List.length_append, List.length_append,
      Clocked.runFrom_succ]
    change _ = _ + (next (ι n) ((machine a₀ d₀).runFrom p ι n)).bValid.toNat
    omega

end WritePort

/-- The registers of a read port. -/
@[ext] structure ReadPort (ρ : Type*) where
  /-- A response is owed. -/
  rValid : Bool
  /-- The answer owed. -/
  data : ρ

namespace ReadPort

variable {ρ : Type*}

/-- The inputs of a read port; `answer` is what the device answers in this cycle. -/
structure Input (ρ : Type*) where
  arValid : Bool
  answer : ρ
  rReady : Bool

/-- The port can accept an address beat. -/
def arReady (p : ReadPort ρ) : Bool := !p.rValid

/-- The registers after a clock edge. -/
def next (i : Input ρ) (p : ReadPort ρ) : ReadPort ρ where
  rValid := if p.rValid && i.rReady then false else p.rValid || (i.arValid && p.arReady)
  data := if i.arValid && p.arReady then i.answer else p.data

/-- The read port, idle after reset. -/
def machine (data : ρ) : Clocked (Input ρ) (ReadPort ρ) where
  reset := ⟨false, data⟩
  edge := next

/-- The answer of the address beat accepted in this cycle. -/
def arBeat (i : Input ρ) (p : ReadPort ρ) : Option ρ :=
  if i.arValid && p.arReady then some i.answer else none

/-- The answer handed over in this cycle. -/
def rBeat (i : Input ρ) (p : ReadPort ρ) : Option ρ :=
  if p.rValid && i.rReady then some p.data else none

/-- The answer owed. -/
def owed (p : ReadPort ρ) : List ρ := if p.rValid then [p.data] else []

@[simp] theorem owed_length (p : ReadPort ρ) : p.owed.length = p.rValid.toNat := by
  rw [owed]
  cases p.rValid <;> rfl

theorem owed_next (i : Input ρ) (p : ReadPort ρ) :
    p.owed ++ (arBeat i p).toList = (rBeat i p).toList ++ (next i p).owed := by
  obtain ⟨v, d⟩ := p
  cases v <;> cases hr : i.rReady <;> cases ha : i.arValid <;>
    simp [owed, arBeat, rBeat, next, arReady, hr, ha]

theorem rValid_held {i : Input ρ} {p : ReadPort ρ} (h : p.rValid = true)
    (hr : i.rReady = false) : next i p = p := by
  ext <;> simp [next, arReady, h, hr]

theorem data_next {i : Input ρ} {p : ReadPort ρ} {P : ρ → Prop}
    (hp : p.rValid = true → P p.data) (hi : i.arValid = true → P i.answer)
    (h : (next i p).rValid = true) : P (next i p).data := by
  simp only [next] at h ⊢
  split_ifs with hacc
  · exact hi (Bool.and_eq_true_iff.1 hacc).1
  · refine hp ?_
    split_ifs at h
    simpa [hacc] using h

/-- **Answers are conserved**: every accepted answer is delivered once and in order, except the
one owed. -/
theorem arLog_eq (d₀ : ρ) (p : ReadPort ρ) (ι : ℕ → Input ρ) (n : ℕ) :
    p.owed ++ (machine d₀).log arBeat p ι n =
      (machine d₀).log rBeat p ι n ++ ((machine d₀).runFrom p ι n).owed := by
  induction n with
  | zero => simp
  | succ n ih =>
    have hstep := owed_next (ι n) ((machine d₀).runFrom p ι n)
    rw [Clocked.log_succ, Clocked.log_succ, ← List.append_assoc, ih, List.append_assoc, hstep,
      List.append_assoc]
    rfl

/-- **Origin of an answer**: the answer owed is that of a read accepted earlier, with as many
reads accepted before it as answers delivered so far. -/
theorem rValid_origin (d₀ : ρ) {p : ReadPort ρ} (hp : p.rValid = false) (ι : ℕ → Input ρ) {n : ℕ}
    (h : ((machine d₀).runFrom p ι n).rValid = true) :
    ∃ k < n, arBeat (ι k) ((machine d₀).runFrom p ι k) =
        some ((machine d₀).runFrom p ι n).data ∧
      ((machine d₀).log arBeat p ι k).length = ((machine d₀).log rBeat p ι n).length := by
  induction n with
  | zero => simp [hp] at h
  | succ n ih =>
    have hcount := congrArg List.length (arLog_eq d₀ p ι n)
    rw [Clocked.runFrom_succ] at h ⊢
    rw [Clocked.log_succ]
    generalize hq : (machine d₀).runFrom p ι n = q at ih h hcount ⊢
    change (next (ι n) q).rValid = true at h
    cases hv : q.rValid with
    | true =>
      -- the answer was owed already and is not handed over
      have hr : (ι n).rReady = false := by simpa [next, hv] using h
      obtain ⟨k, hk, har, hlen⟩ := ih hv
      refine ⟨k, by omega, ?_, ?_⟩
      · change _ = some (next (ι n) q).data
        rw [har, rValid_held hv hr]
      · rw [hlen]
        simp [rBeat, hr]
    | false =>
      -- the answer is given in this cycle
      have ha : ((ι n).arValid && q.arReady) = true := by simpa [next, hv] using h
      refine ⟨n, by omega, ?_, ?_⟩
      · change _ = some (next (ι n) q).data
        simp only [hq, arBeat, next, ha, if_true]
      · simpa [rBeat, hv, hp, owed] using hcount

end ReadPort

end SystolicSoc
