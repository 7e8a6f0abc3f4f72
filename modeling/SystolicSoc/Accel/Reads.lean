import SystolicSoc.Accel.Port

/-!
# What a read of the accelerator returns

Seen from the bus, the registers are words at byte offsets: `CTRL`, `STATUS`, and the sixteen words
of the result from `0x88` on.  A read returns the word its offset had in the cycle in which the
read was accepted.

* `AccelRegs.registerAt` : the word at an offset; `AccelRegs.readMux_eq` : the read decode returns
  it.
* `ReadLaw`, `reads_answered` : **reads are answered in order, each with the word its register had
  when the read was accepted, whatever happens before the answer is taken.**
-/

namespace SystolicSoc

namespace AccelRegs

/-- The word at a byte offset of the register window; offsets without a register read as zero. -/
def registerAt (s : AccelRegs) (off : ℕ) : BitVec 32 :=
  if off = 0x00 then s.ctrlQ
  else if off = 0x04 then s.statusQ
  else if 0x88 ≤ off ∧ off ≤ 0xC7 then s.resultQ.extractLsb' (32 * ((off - 0x88) / 4)) 32
  else 0#32

theorem inWindow_res0 : ∀ x : BitVec 8,
    (inWindow x res0Offset (16 * 4) = true ↔ 0x88 ≤ x.toNat ∧ x.toNat ≤ 0xC7) ∧
      (0x88 ≤ x.toNat → ((x.setWidth 32 - (low8 res0Offset).setWidth 32) >>> 2).toNat =
        (x.toNat - 0x88) / 4) := by
  decide +kernel

theorem readMux_eq (s : AccelRegs) (addr : BitVec 32) :
    s.readMux addr = s.registerAt (addr.toNat % 256) := by
  have hoff : addr.toNat % 256 = (low8 addr).toNat := by
    simp [low8, BitVec.extractLsb'_toNat]
  have hzero : low8 addr = 0x00#8 ↔ (low8 addr).toNat = 0x00 := by bv_omega
  have hfour : low8 addr = 0x04#8 ↔ (low8 addr).toNat = 0x04 := by bv_omega
  obtain ⟨hwin, hidx⟩ := inWindow_res0 (low8 addr)
  rw [hoff, readMux, registerAt]
  simp only [hzero, hfour, hwin]
  split_ifs with _ _ hres
  · rfl
  · rfl
  · rw [hidx hres.1]
  · rfl

end AccelRegs

open AccelRegs

/-- The word at the offset of the read accepted in this cycle. -/
def registerRead (req : Req) (s : AccelRegs) : Option (BitVec 32) :=
  (accelSlave.arBeat req s).map fun addr => s.registerAt (addr.toNat % 256)

theorem answered_eq_registerRead (req : Req) (s : AccelRegs) :
    accelSlave.answered req s = registerRead req s := by
  unfold Slave.answered registerRead Slave.arBeat
  split_ifs
  · exact congrArg some (readMux_eq s req.ar.addr)
  · rfl

/-- **The read law** of the run on the inputs `ι`. -/
structure ReadLaw (ι : ℕ → Req) : Prop where
  /-- The data delivered are, in order, the words of the reads accepted. -/
  ordered : ∀ n, accelSlave.history accelSlave.rBeat ι n <+: accelSlave.history registerRead ι n
  /-- An accepted read raises its response in the next cycle. -/
  raised : ∀ n d, registerRead (ι n) (accel.run ι n) = some d →
    (accel.run ι (n + 1)).respO.rValid = true ∧ (accel.run ι (n + 1)).respO.r.data = d
  /-- A raised response and its data stay for as long as they are not taken. -/
  held : ∀ n m, (accel.run ι n).respO.rValid = true → (∀ j < m, (ι (n + j)).rReady = false) →
    (accel.run ι (n + m)).respO.rValid = true ∧
      (accel.run ι (n + m)).respO.r = (accel.run ι n).respO.r

/-- **Every run obeys the read law.** -/
theorem reads_answered (ι : ℕ → Req) : ReadLaw ι where
  ordered n := by
    have heq : accelSlave.answered = registerRead := by
      funext req s
      exact answered_eq_registerRead req s
    rw [← heq]
    exact accelSlave.rHistory_prefix ι n
  raised n d h := by
    rw [← answered_eq_registerRead] at h
    have hport : (accel.run ι (n + 1)).readPort = ⟨true, d⟩ := accelSlave.readPort_of_answered h
    exact ⟨congrArg ReadPort.rValid hport, congrArg ReadPort.data hport⟩
  held n m hv hr := by
    have hport : (accel.run ι (n + m)).readPort = (accel.run ι n).readPort :=
      accelSlave.readPort_held hv hr
    exact ⟨(congrArg ReadPort.rValid hport).trans hv,
      congrArg (fun q : ReadPort (BitVec 32) => RChan.mk q.data 0) hport⟩

end SystolicSoc
