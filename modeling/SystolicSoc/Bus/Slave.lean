import SystolicSoc.Bus.Types
import SystolicSoc.Clocked.Port

/-!
# Bus slaves

A slave of the SoC is a clocked machine on bus requests whose registers contain a write port and a
read port.  The structure carries the proofs that they step as the ports of
`SystolicSoc.Clocked.Port`, so what holds of the ports holds of every slave.

* `Slave` : a slave, with its ports.
* `Slave.awBeat`, `Slave.wBeat`, `Slave.bBeat`, `Slave.arBeat`, `Slave.rBeat` : the beats handed
  over in a cycle, `Slave.executed` the write executed.
* `Slave.ChangesByWrites` : the executed writes are what changes the storage of a slave.
* `Slave.Conserves`, `Slave.conserves` : **no transaction of a slave is lost, duplicated or mixed
  up with another.**
* `Slave.rHistory_prefix`, `Slave.readPort_of_answered`, `Slave.readPort_held` : reads are answered
  in order, and an answer stays up until it is taken.
-/

namespace SystolicSoc

/-- A bus slave with at most one write and one read in flight.  `keep` is what it keeps of a data
beat and `answer` what it answers to the read address on the bus. -/
structure Slave (S β : Type*) extends Clocked Req S where
  respO : S → Resp
  keep : WChan → β
  answer : Req → S → BitVec 32
  writePort : S → WritePort (BitVec 32) β
  readPort : S → ReadPort (BitVec 32)
  awReady_eq : ∀ s, (respO s).awReady = (writePort s).awReady
  wReady_eq : ∀ s, (respO s).wReady = (writePort s).wReady
  bValid_eq : ∀ s, (respO s).bValid = (writePort s).bValid
  arReady_eq : ∀ s, (respO s).arReady = (readPort s).arReady
  rValid_eq : ∀ s, (respO s).rValid = (readPort s).rValid
  rData_eq : ∀ s, (respO s).r.data = (readPort s).data
  writePort_reset : (writePort reset).awPending = false ∧ (writePort reset).wPending = false ∧
    (writePort reset).bValid = false
  readPort_reset : (readPort reset).rValid = false
  writePort_edge : ∀ req s, writePort (edge req s) =
    WritePort.next ⟨req.awValid, req.aw.addr, req.wValid, keep req.w, req.bReady⟩ (writePort s)
  readPort_edge : ∀ req s, readPort (edge req s) =
    ReadPort.next ⟨req.arValid, answer req s, req.rReady⟩ (readPort s)

namespace Slave

variable {S β : Type*} (L : Slave S β)

/-! ### Events -/

/-- The write address accepted in this cycle. -/
def awBeat (req : Req) (s : S) : Option (BitVec 32) :=
  if req.awValid && (L.respO s).awReady then some req.aw.addr else none

/-- The write data and strobes accepted in this cycle. -/
def wBeat (req : Req) (s : S) : Option WChan :=
  if req.wValid && (L.respO s).wReady then some req.w else none

/-- The write response handed over in this cycle. -/
def bBeat (req : Req) (s : S) : Option Unit :=
  if (L.respO s).bValid && req.bReady then some () else none

/-- The read address accepted in this cycle. -/
def arBeat (req : Req) (s : S) : Option (BitVec 32) :=
  if req.arValid && (L.respO s).arReady then some req.ar.addr else none

/-- The read data handed over in this cycle. -/
def rBeat (req : Req) (s : S) : Option (BitVec 32) :=
  if (L.respO s).rValid && req.rReady then some (L.respO s).r.data else none

/-- The answer to the read address accepted in this cycle. -/
def answered (req : Req) (s : S) : Option (BitVec 32) :=
  if req.arValid && (L.respO s).arReady then some (L.answer req s) else none

/-- The address and what was kept of the data of the write executed in this cycle. -/
def executed (_ : Req) (s : S) : Option (BitVec 32 × β) :=
  if (L.writePort s).executes then some ((L.writePort s).addr, (L.writePort s).data) else none

theorem eq_of_mem_awBeat {req : Req} {s : S} {a : BitVec 32} (h : a ∈ L.awBeat req s) :
    a = req.aw.addr := by
  unfold awBeat at h
  split_ifs at h
  · exact (Option.mem_some_iff.1 h).symm
  · cases h

theorem eq_of_mem_arBeat {req : Req} {s : S} {a : BitVec 32} (h : a ∈ L.arBeat req s) :
    a = req.ar.addr := by
  unfold arBeat at h
  split_ifs at h
  · exact (Option.mem_some_iff.1 h).symm
  · cases h

/-- The beats or writes of the run from reset, before cycle `n`. -/
def history {α : Type*} (e : Req → S → Option α) (ι : ℕ → Req) (n : ℕ) : List α :=
  L.log e L.reset ι n

/-- **Storage changes by executed writes only**: an edge leaves the cell `k` as it is, or executes a
write that does to it what `effect` says. -/
def ChangesByWrites {K γ : Type*} (cell : K → S → γ)
    (effect : K → Req → BitVec 32 × β → γ → γ) : Prop :=
  ∀ req s k, cell k (L.edge req s) =
    (L.executed req s).elim (cell k s) fun w => effect k req w (cell k s)

/-- **Conservation of transactions**, for every run from reset. -/
structure Conserves : Prop where
  /-- An accepted address is pending, or its write owes its response, or is answered. -/
  awCount : ∀ ι n, (L.history L.awBeat ι n).length = (L.history L.bBeat ι n).length +
    (L.writePort (L.run ι n)).awPending.toNat + (L.respO (L.run ι n)).bValid.toNat
  /-- Likewise for an accepted data beat. -/
  wCount : ∀ ι n, (L.history L.wBeat ι n).length = (L.history L.bBeat ι n).length +
    (L.writePort (L.run ι n)).wPending.toNat + (L.respO (L.run ι n)).bValid.toNat
  /-- An accepted read owes its response or is answered. -/
  arCount : ∀ ι n, (L.history L.arBeat ι n).length = (L.history L.rBeat ι n).length +
    (L.respO (L.run ι n)).rValid.toNat
  /-- A raised write response excludes pending beats. -/
  exclusive : ∀ ι n, (L.respO (L.run ι n)).bValid = true →
    (L.writePort (L.run ι n)).awPending = false ∧ (L.writePort (L.run ι n)).wPending = false
  /-- The `n`-th executed write carries the `n`-th accepted address and data. -/
  paired : ∀ ι n, L.history L.executed ι n <+:
    (L.history L.awBeat ι n).zip ((L.history L.wBeat ι n).map L.keep)
  /-- A write is executed once for every response. -/
  executedCount : ∀ ι n, (L.history L.executed ι n).length =
    (L.history L.bBeat ι n).length + (L.respO (L.run ι n)).bValid.toNat
  /-- A raised write response stays up until its handshake. -/
  bHeld : ∀ ι n, (L.respO (L.run ι n)).bValid = true → (ι n).bReady = false →
    (L.respO (L.run ι (n + 1))).bValid = true
  /-- A raised read response stays up until its handshake. -/
  rHeld : ∀ ι n, (L.respO (L.run ι n)).rValid = true → (ι n).rReady = false →
    (L.respO (L.run ι (n + 1))).rValid = true

/-! ### The ports of a run -/

/-- The inputs of the write port. -/
def writeIn (req : Req) : WritePort.Input (BitVec 32) β :=
  ⟨req.awValid, req.aw.addr, req.wValid, L.keep req.w, req.bReady⟩

/-- The inputs of the read port. -/
def readIn (req : Req) (s : S) : ReadPort.Input (BitVec 32) :=
  ⟨req.arValid, L.answer req s, req.rReady⟩

/-- The write port on its own, with the reset values of the slave. -/
def writeMachine : Clocked (WritePort.Input (BitVec 32) β) (WritePort (BitVec 32) β) :=
  WritePort.machine (L.writePort L.reset).addr (L.writePort L.reset).data

/-- The read port on its own, with the reset values of the slave. -/
def readMachine : Clocked (ReadPort.Input (BitVec 32)) (ReadPort (BitVec 32)) :=
  ReadPort.machine (L.readPort L.reset).data

theorem idle_reset : (L.writePort L.reset).Idle := by
  intro h
  rw [L.writePort_reset.2.2] at h
  cases h

theorem idle_run (ι : ℕ → Req) (n : ℕ) : (L.writePort (L.run ι n)).Idle :=
  Clocked.runFrom_invariant (P := fun s => (L.writePort s).Idle) L.idle_reset
    (fun k hk => by
      rw [L.writePort_edge]
      exact WritePort.idle_next hk _) n

theorem writePort_run (ι : ℕ → Req) (n : ℕ) : L.writePort (L.run ι n) =
    L.writeMachine.runFrom (L.writePort L.reset) (fun k => L.writeIn (ι k)) n :=
  Clocked.runFrom_proj (g := fun req _ => L.writeIn req) L.writePort_edge L.reset ι n

theorem readPort_run (ι : ℕ → Req) (n : ℕ) : L.readPort (L.run ι n) =
    L.readMachine.runFrom (L.readPort L.reset) (fun k => L.readIn (ι k) (L.run ι k)) n :=
  Clocked.runFrom_proj (g := L.readIn) L.readPort_edge L.reset ι n

theorem arBeat_eq (req : Req) (s : S) :
    ReadPort.arBeat (L.readIn req s) (L.readPort s) = L.answered req s := by
  simp [answered, ReadPort.arBeat, readIn, L.arReady_eq]

theorem rBeat_eq (req : Req) (s : S) :
    ReadPort.rBeat (L.readIn req s) (L.readPort s) = L.rBeat req s := by
  simp [rBeat, ReadPort.rBeat, readIn, L.rValid_eq, L.rData_eq]

theorem writeLog_eq {α γ : Type*} {e : Req → S → Option α} {c : α → γ}
    {e' : WritePort.Input (BitVec 32) β → WritePort (BitVec 32) β → Option γ}
    (he : ∀ req s, e' (L.writeIn req) (L.writePort s) = (e req s).map c) (ι : ℕ → Req) (n : ℕ) :
    L.writeMachine.log e' (L.writePort L.reset) (fun k => L.writeIn (ι k)) n =
      (L.history e ι n).map c :=
  Clocked.log_proj (g := fun req _ => L.writeIn req) L.writePort_edge he L.reset ι n

theorem readLog_eq {e : Req → S → Option (BitVec 32)}
    {e' : ReadPort.Input (BitVec 32) → ReadPort (BitVec 32) → Option (BitVec 32)}
    (he : ∀ req s, e' (L.readIn req s) (L.readPort s) = e req s) (ι : ℕ → Req) (n : ℕ) :
    L.readMachine.log e' (L.readPort L.reset) (fun k => L.readIn (ι k) (L.run ι k)) n =
      L.history e ι n := by
  have hlog := Clocked.log_proj (B := L.readMachine) (g := L.readIn) (c := id) L.readPort_edge
    (e := e) (fun req s => (he req s).trans Option.map_id'.symm) L.reset ι n
  rw [List.map_id] at hlog
  exact hlog

/-! ### Conservation -/

/-- The accepted addresses are those of the executed writes and the one pending. -/
theorem awHistory_eq (ι : ℕ → Req) (n : ℕ) : L.history L.awBeat ι n =
    (L.history L.executed ι n).map Prod.fst ++ (L.writePort (L.run ι n)).heldAddr := by
  have haw := WritePort.awLog_eq (L.writePort L.reset).addr (L.writePort L.reset).data
    L.idle_reset (fun k => L.writeIn (ι k)) n
  -- the law of the port on its own, read over the registers of the slave
  change _ ++ L.writeMachine.log _ _ _ n = (L.writeMachine.log _ _ _ n).map _ ++
    (L.writeMachine.runFrom _ _ n).heldAddr at haw
  rw [L.writeLog_eq (e := L.awBeat) (c := id) (fun req s => ?_),
    L.writeLog_eq (e := L.executed) (c := id) (fun req s => ?_), ← L.writePort_run,
    WritePort.heldAddr, L.writePort_reset.1] at haw
  · simpa using haw
  · simp [executed, WritePort.executed]
  · simp [awBeat, WritePort.awBeat, writeIn, L.awReady_eq]

theorem wHistory_eq (ι : ℕ → Req) (n : ℕ) : (L.history L.wBeat ι n).map L.keep =
    (L.history L.executed ι n).map Prod.snd ++ (L.writePort (L.run ι n)).heldData := by
  have hw := WritePort.wLog_eq (L.writePort L.reset).addr (L.writePort L.reset).data
    L.idle_reset (fun k => L.writeIn (ι k)) n
  change _ ++ L.writeMachine.log _ _ _ n = (L.writeMachine.log _ _ _ n).map _ ++
    (L.writeMachine.runFrom _ _ n).heldData at hw
  rw [L.writeLog_eq (e := L.wBeat) (c := L.keep) (fun req s => ?_),
    L.writeLog_eq (e := L.executed) (c := id) (fun req s => ?_), ← L.writePort_run,
    WritePort.heldData, L.writePort_reset.2.1] at hw
  · simpa using hw
  · simp [executed, WritePort.executed]
  · simp [wBeat, WritePort.wBeat, writeIn, L.wReady_eq]

theorem executedHistory_length (ι : ℕ → Req) (n : ℕ) : (L.history L.executed ι n).length =
    (L.history L.bBeat ι n).length + (L.respO (L.run ι n)).bValid.toNat := by
  have hb := WritePort.executedLog_length (L.writePort L.reset).addr (L.writePort L.reset).data
    (L.writePort L.reset) (fun k => L.writeIn (ι k)) n
  change _ + (L.writeMachine.log _ _ _ n).length = (L.writeMachine.log _ _ _ n).length +
    (L.writeMachine.runFrom _ _ n).bValid.toNat at hb
  rw [L.writeLog_eq (e := L.executed) (c := id) (fun req s => ?_),
    L.writeLog_eq (e := L.bBeat) (c := id) (fun req s => ?_), ← L.writePort_run,
    L.writePort_reset.2.2, ← L.bValid_eq] at hb
  · simpa using hb
  · simp [bBeat, WritePort.bBeat, writeIn, L.bValid_eq]
  · simp [executed, WritePort.executed]

theorem answeredHistory_eq (ι : ℕ → Req) (n : ℕ) : L.history L.answered ι n =
    L.history L.rBeat ι n ++ (L.readPort (L.run ι n)).owed := by
  have hr := ReadPort.arLog_eq (L.readPort L.reset).data (L.readPort L.reset)
    (fun k => L.readIn (ι k) (L.run ι k)) n
  change _ ++ L.readMachine.log _ _ _ n = L.readMachine.log _ _ _ n ++
    (L.readMachine.runFrom _ _ n).owed at hr
  rw [L.readLog_eq L.arBeat_eq, L.readLog_eq L.rBeat_eq, ← L.readPort_run, ReadPort.owed,
    L.readPort_reset] at hr
  exact hr

theorem arHistory_length (ι : ℕ → Req) (n : ℕ) :
    (L.history L.arBeat ι n).length = (L.history L.answered ι n).length :=
  Clocked.log_length_congr (fun req s => by unfold arBeat answered; split_ifs <;> rfl) _ ι n

/-- **Origin of the read data**: the data owed in cycle `n` answer the read accepted in an earlier
cycle `k`, with as many reads accepted before it as read data delivered so far. -/
theorem rValid_origin {ι : ℕ → Req} {n : ℕ} (h : (L.respO (L.run ι n)).rValid = true) :
    ∃ k < n, L.answered (ι k) (L.run ι k) = some (L.respO (L.run ι n)).r.data ∧
      (L.history L.arBeat ι k).length = (L.history L.rBeat ι n).length := by
  rw [L.rValid_eq, L.readPort_run] at h
  obtain ⟨k, hk, har, hlen⟩ := ReadPort.rValid_origin _ L.readPort_reset _ h
  change ReadPort.arBeat (L.readIn (ι k) (L.run ι k)) (L.readMachine.runFrom _ _ k) =
    some (L.readMachine.runFrom _ _ n).data at har
  change (L.readMachine.log _ _ _ k).length = (L.readMachine.log _ _ _ n).length at hlen
  rw [← L.readPort_run, ← L.readPort_run, L.arBeat_eq, ← L.rData_eq] at har
  rw [L.readLog_eq L.arBeat_eq, L.readLog_eq L.rBeat_eq, ← L.arHistory_length] at hlen
  exact ⟨k, hk, har, hlen⟩

theorem rHistory_prefix (ι : ℕ → Req) (n : ℕ) :
    L.history L.rBeat ι n <+: L.history L.answered ι n := by
  rw [L.answeredHistory_eq]
  exact List.prefix_append _ _

theorem readPort_of_answered {ι : ℕ → Req} {n : ℕ} {d : BitVec 32}
    (h : L.answered (ι n) (L.run ι n) = some d) : L.readPort (L.run ι (n + 1)) = ⟨true, d⟩ := by
  unfold answered at h
  split_ifs at h with hacc
  rw [L.arReady_eq] at hacc
  have hready : (L.readPort (L.run ι n)).rValid = false := by
    have := (Bool.and_eq_true_iff.1 hacc).2
    simpa [ReadPort.arReady] using this
  rw [Clocked.run_succ, L.readPort_edge, ← Option.some.inj h]
  ext <;> simp [ReadPort.next, hacc, hready]

theorem readPort_held {ι : ℕ → Req} {n : ℕ} (hv : (L.respO (L.run ι n)).rValid = true) {m : ℕ}
    (hr : ∀ j < m, (ι (n + j)).rReady = false) :
    L.readPort (L.run ι (n + m)) = L.readPort (L.run ι n) := by
  rw [L.rValid_eq] at hv
  induction m with
  | zero => rfl
  | succ m ih =>
    have hsame := ih fun j hj => hr j (by omega)
    rw [← Nat.add_assoc, Clocked.run_succ, L.readPort_edge, hsame]
    exact ReadPort.rValid_held hv (hr m (by omega))

/-- **Every slave conserves its transactions.** -/
theorem conserves : L.Conserves where
  awCount ι n := by
    have haw := congrArg List.length (L.awHistory_eq ι n)
    rw [List.length_append, List.length_map, L.executedHistory_length,
      WritePort.heldAddr_length] at haw
    omega
  wCount ι n := by
    have hw := congrArg List.length (L.wHistory_eq ι n)
    rw [List.length_append, List.length_map, List.length_map, L.executedHistory_length,
      WritePort.heldData_length] at hw
    omega
  arCount ι n := by
    have hr := congrArg List.length (L.answeredHistory_eq ι n)
    rw [L.arHistory_length, hr, List.length_append, ReadPort.owed_length, L.rValid_eq]
  exclusive ι n hb := L.idle_run ι n (by rw [← L.bValid_eq]; exact hb)
  paired ι n := by
    -- both histories begin with the executed writes
    rw [L.awHistory_eq, L.wHistory_eq, List.zip_append (by simp), List.zip_map', List.map_id']
    exact List.prefix_append _ _
  executedCount := L.executedHistory_length
  bHeld ι n hb hr := by
    rw [L.bValid_eq] at hb ⊢
    rw [Clocked.run_succ, L.writePort_edge]
    exact WritePort.bValid_held hb hr
  rHeld ι n hv hr := by
    rw [L.rValid_eq] at hv ⊢
    rw [Clocked.run_succ, L.readPort_edge, ReadPort.rValid_held hv hr]
    exact hv

end Slave

end SystolicSoc
