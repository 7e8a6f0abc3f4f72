import SystolicSoc.Ram.Port
import SystolicSoc.Clocked.History

/-!
# The memory refines a byte-addressed memory

A word write is an address with data and strobes; it assigns the bytes of the addressed word whose
strobe is set.  The abstract memory is the list of the writes executed so far: a byte holds what
the last write that hits it assigned.

* `writeHit a w` : what the write `w` assigns to the byte at address `a`.
* `byteAt m ws a` : the byte at address `a` after the writes `ws` on the contents `m`.
* `AxiLiteRam.byte_mem_run`, `ram_changes` : the words of the memory are those the executed writes
  left.
* `RefinesMemory`, `ram_refines` : **every read returns the bytes that the writes executed before
  it was accepted have left.**
-/

namespace SystolicSoc

/-! ### The abstract memory -/

/-- What a write assigns to the byte at address `a`. -/
def writeHit (a : ℕ) (w : BitVec 32 × WChan) : Option (BitVec 8) :=
  if w.1.toNat / 4 = a / 4 ∧ w.2.strb.getLsbD (a % 4) = true then
    some (byte w.2.data (Fin.ofNat 4 a))
  else none

/-- The byte at address `a` after the writes `ws` on the contents `m`. -/
def byteAt (m : ℕ → BitVec 8) (ws : List (BitVec 32 × WChan)) (a : ℕ) : BitVec 8 :=
  lastHit (writeHit a) (m a) ws

/-- The bytes of an array of words. -/
def bytesOf (mem : BitVec 14 → BitVec 32) (a : ℕ) : BitVec 8 :=
  byte (mem (BitVec.ofNat 14 (a / 4))) (Fin.ofNat 4 a)

/-- **Refinement of the abstract memory** by the run on the inputs `ι`. -/
structure RefinesMemory (mem : BitVec 14 → BitVec 32) (ι : ℕ → Req) : Prop where
  /-- The executed writes pair the accepted addresses with the accepted data and strobes. -/
  paired : ∀ n, (ramSlave mem).history (ramSlave mem).executed ι n <+:
    ((ramSlave mem).history (ramSlave mem).awBeat ι n).zip
      ((ramSlave mem).history (ramSlave mem).wBeat ι n)
  /-- The data handed over in cycle `n` are the bytes that the writes executed before cycle `k`
  have left, where the read was accepted in cycle `k`. -/
  read : ∀ n d, (ramSlave mem).rBeat (ι n) ((ram mem).run ι n) = some d →
    ∃ k < n, ∃ a, (ramSlave mem).arBeat (ι k) ((ram mem).run ι k) = some a ∧
      ((ramSlave mem).history (ramSlave mem).arBeat ι k).length =
        ((ramSlave mem).history (ramSlave mem).rBeat ι n).length ∧
      ∀ b : Fin 4, byte d b = byteAt (bytesOf mem)
        ((ramSlave mem).history (ramSlave mem).executed ι k) (4 * (a.toNat / 4) + b.val)
  /-- A write whose response is up has been executed. -/
  visible : ∀ n, ((ram mem).run ι n).respO.bValid = true →
    ((ramSlave mem).history (ramSlave mem).executed ι n).length =
      ((ramSlave mem).history (ramSlave mem).bBeat ι n).length + 1
  /-- Read data do not change while they are not taken. -/
  stable : ∀ n, ((ram mem).run ι n).respO.rValid = true → (ι n).rReady = false →
    ((ram mem).run ι (n + 1)).respO.rValid = true ∧
      ((ram mem).run ι (n + 1)).respO.r = ((ram mem).run ι n).respO.r
  /-- A byte that the write executed does not hit does not change. -/
  untouched : ∀ n, ∀ a < 0x10000, (∀ w ∈ (ramSlave mem).executed (ι n) ((ram mem).run ι n),
      writeHit a w = none) →
    bytesOf ((ram mem).run ι (n + 1)).mem a = bytesOf ((ram mem).run ι n).mem a

namespace AxiLiteRam

/-! ### The words of the memory -/

/-- What a write assigns to byte `b` of word `i`. -/
def wordHit (i : BitVec 14) (b : Fin 4) (w : BitVec 32 × WChan) : Option (BitVec 8) :=
  if wordIdx w.1 = i ∧ w.2.strb.getLsbD b = true then some (byte w.2.data b) else none

theorem byte_mem_next (mem₀ : BitVec 14 → BitVec 32) (req : Req) (s : AxiLiteRam) (i : BitVec 14)
    (b : Fin 4) : byte ((next req s).mem i) b =
      (((ramSlave mem₀).executed req s).bind (wordHit i b)).getD (byte (s.mem i) b) := by
  have hexec : (ramSlave mem₀).executed req s =
      if s.executes then some (s.awAddrQ, ⟨s.wDataQ, s.wStrbQ⟩) else none := rfl
  rw [next_eq, hexec]
  by_cases he : s.executes = true
  · by_cases hi : wordIdx s.awAddrQ = i
    · subst hi
      simp only [he, if_true, Function.update_self, strobedWrite_byte, Option.bind_some, wordHit,
        true_and]
      split_ifs <;> rfl
    · simp [he, wordHit, hi, Function.update_of_ne (Ne.symm hi)]
  · simp [he]

theorem byte_mem_run (mem : BitVec 14 → BitVec 32) (ι : ℕ → Req) (n : ℕ) (i : BitVec 14)
    (b : Fin 4) : byte (((ram mem).run ι n).mem i) b =
      lastHit (wordHit i b) (byte (mem i) b)
        ((ramSlave mem).history (ramSlave mem).executed ι n) :=
  Clocked.runFrom_eq_lastHit (A := ram mem) (f := fun s => byte (s.mem i) b)
    (fun req s => byte_mem_next mem req s i b) (reset mem) ι n

theorem wordIdx_eq (addr : BitVec 32) : wordIdx addr = BitVec.ofNat 14 (addr.toNat / 4) := by
  rw [← BitVec.toNat_inj]
  simp only [wordIdx, BitVec.extractLsb'_toNat, BitVec.toNat_ofNat, Nat.shiftRight_eq_div_pow]

theorem wordHit_eq_writeHit {a : ℕ} (ha : a < 0x10000) {w : BitVec 32 × WChan}
    (hw : w.1.toNat < 0x10000) :
    wordHit (BitVec.ofNat 14 (a / 4)) (Fin.ofNat 4 a) w = writeHit a w := by
  have hidx : wordIdx w.1 = BitVec.ofNat 14 (a / 4) ↔ w.1.toNat / 4 = a / 4 := by
    rw [wordIdx_eq, ← BitVec.toNat_inj, BitVec.toNat_ofNat, BitVec.toNat_ofNat]
    omega
  simp only [wordHit, writeHit, hidx]
  rfl

theorem bytesOf_word (mem : BitVec 14 → BitVec 32) (q : ℕ) (b : Fin 4) :
    bytesOf mem (4 * q + b.val) = byte (mem (BitVec.ofNat 14 q)) b := by
  have hb : Fin.ofNat 4 (4 * q + b.val) = b := by
    ext
    simp only [Fin.val_ofNat]
    omega
  rw [bytesOf, hb, show (4 * q + b.val) / 4 = q by omega]

theorem executed_addr_lt {mem : BitVec 14 → BitVec 32} {ι : ℕ → Req}
    (haw : ∀ n, ∀ a ∈ (ramSlave mem).awBeat (ι n) ((ram mem).run ι n), a.toNat < 0x10000) (n : ℕ) :
    ∀ w ∈ (ramSlave mem).history (ramSlave mem).executed ι n, w.1.toNat < 0x10000 := by
  have hall : ∀ a ∈ (ramSlave mem).history (ramSlave mem).awBeat ι n, a.toNat < 0x10000 :=
    Clocked.forall_mem_log haw n
  intro w hw
  refine hall w.1 ?_
  rw [(ramSlave mem).awHistory_eq]
  exact List.mem_append_left _ (List.mem_map_of_mem hw)

/-- **The bytes below `0x10000`** are those of the abstract memory. -/
theorem bytesOf_run {mem : BitVec 14 → BitVec 32} {ι : ℕ → Req}
    (haw : ∀ n, ∀ a ∈ (ramSlave mem).awBeat (ι n) ((ram mem).run ι n), a.toNat < 0x10000) (n : ℕ)
    {a : ℕ} (ha : a < 0x10000) : bytesOf ((ram mem).run ι n).mem a =
      byteAt (bytesOf mem) ((ramSlave mem).history (ramSlave mem).executed ι n) a := by
  rw [bytesOf, byte_mem_run, byteAt, ← bytesOf]
  exact lastHit_congr fun w hw => wordHit_eq_writeHit ha (executed_addr_lt haw n w hw)

end AxiLiteRam

open AxiLiteRam

/-- Byte `k.2` of word `k.1` changes only by an executed write that hits it. -/
theorem ram_changes (mem : BitVec 14 → BitVec 32) :
    (ramSlave mem).ChangesByWrites (fun (k : BitVec 14 × Fin 4) s => byte (s.mem k.1) k.2)
      fun k _ w x => (wordHit k.1 k.2 w).getD x := by
  intro req s k
  refine (byte_mem_next mem req s k.1 k.2).trans ?_
  cases (ramSlave mem).executed req s <;> rfl

/-- **The memory refines a byte-addressed memory**, for every traffic on addresses below
`0x10000` and all initial contents. -/
theorem ram_refines (mem : BitVec 14 → BitVec 32) (ι : ℕ → Req)
    (haw : ∀ n, ∀ a ∈ (ramSlave mem).awBeat (ι n) ((ram mem).run ι n), a.toNat < 0x10000)
    (har : ∀ n, ∀ a ∈ (ramSlave mem).arBeat (ι n) ((ram mem).run ι n), a.toNat < 0x10000) :
    RefinesMemory mem ι where
  paired n := by
    have hpair := (ramSlave mem).conserves.paired ι n
    rwa [show (ramSlave mem).keep = id from rfl, List.map_id] at hpair
  read n d hd := by
    obtain ⟨hv, hd⟩ : ((ram mem).run ι n).respO.rValid = true ∧
        ((ram mem).run ι n).respO.r.data = d := by
      unfold Slave.rBeat at hd
      split_ifs at hd with h
      exact ⟨(Bool.and_eq_true_iff.1 h).1, Option.some.inj hd⟩
    -- the read was accepted in an earlier cycle `k` and answered from the memory of that cycle
    obtain ⟨k, hk, hans, hlen⟩ := (ramSlave mem).rValid_origin hv
    unfold Slave.answered at hans
    split_ifs at hans with hacc
    have hbeat : (ramSlave mem).arBeat (ι k) ((ram mem).run ι k) = some (ι k).ar.addr :=
      if_pos hacc
    refine ⟨k, hk, _, hbeat, hlen, fun b => ?_⟩
    have ha := har k _ hbeat
    have hdata : ((ram mem).run ι k).mem (wordIdx (ι k).ar.addr) = d :=
      (Option.some.inj hans).trans hd
    rw [← bytesOf_run haw k (by omega), bytesOf_word, ← wordIdx_eq, hdata]
  visible n hb := by
    have hcount := (ramSlave mem).conserves.executedCount ι n
    rw [show ((ramSlave mem).respO ((ramSlave mem).run ι n)).bValid = true from hb] at hcount
    exact hcount
  stable n hv hr := by
    have hport : ((ram mem).run ι (n + 1)).readPort = ((ram mem).run ι n).readPort :=
      (readPort_next (ι n) _).trans (ReadPort.rValid_held hv hr)
    have hdata : ((ram mem).run ι (n + 1)).rDataQ = ((ram mem).run ι n).rDataQ :=
      congrArg ReadPort.data hport
    exact ⟨(congrArg ReadPort.rValid hport).trans hv, congrArg (RChan.mk · 0) hdata⟩
  untouched n a ha hw := by
    rw [bytesOf_run haw _ ha, bytesOf_run haw _ ha, byteAt, byteAt, Slave.history,
      Clocked.log_succ]
    change lastHit _ _ (_ ++ ((ramSlave mem).executed (ι n) ((ram mem).run ι n)).toList) = _
    cases he : (ramSlave mem).executed (ι n) ((ram mem).run ι n) with
    | none => rw [Option.toList_none, List.append_nil, Slave.history]
    | some w => rw [Option.toList_some, lastHit_concat, hw w he, Option.getD_none, Slave.history]

/-- A write of two bytes, its data accepted before its address, and a read of the word. -/
def halfWrite : ℕ → Req :=
  Req.script [(0, { Req.idle with w := ⟨0xAABBCCDD, 0x5⟩, wValid := true }),
    (3, { Req.idle with aw := ⟨0x104⟩, awValid := true }),
    (5, { Req.idle with ar := ⟨0x104⟩, arValid := true })]

theorem ram_refines_halfWrite : RefinesMemory (fun _ => 0x11223344) halfWrite :=
  ram_refines _ halfWrite
    (fun n a ha => by
      rw [(ramSlave _).eq_of_mem_awBeat ha]
      exact Req.forall_script (P := fun r => r.aw.addr.toNat < 0x10000) (by decide) (by decide) n)
    (fun n a ha => by
      rw [(ramSlave _).eq_of_mem_arBeat ha]
      exact Req.forall_script (P := fun r => r.ar.addr.toNat < 0x10000) (by decide) (by decide) n)

end SystolicSoc
