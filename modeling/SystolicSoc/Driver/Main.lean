import SystolicSoc.Accel.Port
import SystolicSoc.Bus.Master
import Mathlib.Data.Fin.VecNotation

/-!
# The firmware driver

`main` of `main.c` as the sequence of its volatile accesses.  The processor performs them in
program order through a bus master that completes each before the next, here directly on the bus of
the accelerator; `SystolicSoc.Soc.Firmware` puts the crossbar in between.  The two tables are
parameters of the program.

* `MainPc.access`, `MainState.complete` : the access at a program point, and what follows it.
* `MainState.step` : one cycle of the program.
* `System`, `system` : the program, its master and the accelerator, clocked together.
* `aStream`, `bStream` : the tables of `main.c`.
-/

namespace SystolicSoc

/-- `ACCEL_BASE`. -/
def accelBase : BitVec 32 := 0x10000000#32

/-- The address of `ACCEL_CTRL`. -/
def accelCtrl : BitVec 32 := accelBase + 0x00#32

/-- The address of `ACCEL_STATUS`. -/
def accelStatus : BitVec 32 := accelBase + 0x04#32

/-- `ACCEL_A_BASE`. -/
def accelABase : BitVec 32 := accelBase + 0x08#32

/-- `ACCEL_B_BASE`. -/
def accelBBase : BitVec 32 := accelBase + 0x48#32

/-- `ACCEL_RESULT_BASE`. -/
def accelResultBase : BitVec 32 := accelBase + 0x88#32

/-- The words of a stream table, `[8][2]`. -/
abbrev Table := Fin 8 → Fin 2 → BitVec 32

/-- The program points of `main`: an access, or the endless loop after the last one. -/
inductive MainPc
  | storeA (i : Fin 8) (j : Fin 2)
  | storeB (i : Fin 8) (j : Fin 2)
  | ctrl
  | poll
  | readResult (i : Fin 16)
  | halt
deriving DecidableEq, Repr

/-- The state of `main`: the program point, which holds the loop counters, and the array
`results`. -/
structure MainState where
  pc : MainPc
  results : Fin 16 → BitVec 32

/-- The access at a program point. -/
def MainPc.access (a b : Table) : MainPc → Option Access
  | storeA i j => some (.store (accelABase + BitVec.ofNat 32 (i.val * 8 + 4 * j.val)) (a i j))
  | storeB i j => some (.store (accelBBase + BitVec.ofNat 32 (i.val * 8 + 4 * j.val)) (b i j))
  | ctrl => some (.store accelCtrl 1)
  | poll => some (.load accelStatus)
  | readResult i => some (.load (accelResultBase + BitVec.ofNat 32 (i.val * 4)))
  | halt => none

/-- What follows the access, with the data a load returned. -/
def MainState.complete (rdata : BitVec 32) (m : MainState) : MainState :=
  match m.pc with
  -- one round of the first loop stores both words of row `i` of `a` and then of `b`
  | .storeA i j => { m with pc := if j = 0 then .storeA i 1 else .storeB i 0 }
  | .storeB i j =>
    { m with
      pc := if j = 0 then .storeB i 1
        else if h : i.val + 1 < 8 then .storeA ⟨i.val + 1, h⟩ 0
        else .ctrl }
  | .ctrl => { m with pc := .poll }
  -- the loop is left once bit 0 of the status is set
  | .poll => { m with pc := if rdata &&& 1 = 0 then .poll else .readResult 0 }
  | .readResult i =>
    { pc := if h : i.val + 1 < 16 then .readResult ⟨i.val + 1, h⟩ else .halt
      results := Function.update m.results i rdata }
  | .halt => m

/-- One cycle of the program: it goes on when its access completes. -/
def MainState.step (a b : Table) (e : Delays) (resp : Resp) (m : MainState) : MainState :=
  if completes (m.pc.access a b) e resp then m.complete resp.r.data else m

/-- The program, the access in flight, and the accelerator. -/
structure System where
  main : MainState
  inFlight : InFlight
  accel : AccelRegs

namespace System

/-- The access of the system. -/
def access (a b : Table) (σ : System) : Option Access := σ.main.pc.access a b

/-- One clock edge of the program and the accelerator. -/
def next (a b : Table) (e : Delays) (σ : System) : System where
  main := σ.main.step a b e σ.accel.respO
  inFlight := σ.inFlight.next (σ.access a b) e σ.accel.respO
  accel := σ.accel.next (drive (σ.access a b) σ.inFlight e)

/-- The program before its first access. -/
def start (s : AccelRegs) (results : Fin 16 → BitVec 32) : System :=
  ⟨⟨.storeA 0 0, results⟩, .fresh, s⟩

end System

/-- The program with the tables `a` and `b`, on the accelerator after reset. -/
def system (a b : Table) : Clocked Delays System :=
  ⟨.start .reset fun _ => 0, System.next a b⟩

/-- The table `a_stream` of `main.c`. -/
def aStream : Table :=
  ![![0x00000001, 0x00000000], ![0x00020005, 0x00000000], ![0x00060009, 0x00000003],
    ![0x000a000d, 0x00040007], ![0x000e0000, 0x0008000b], ![0x00000000, 0x000c000f],
    ![0x00000000, 0x00100000], ![0x00000000, 0x00000000]]

/-- The table `b_stream` of `main.c`. -/
def bStream : Table :=
  ![![0x00000001, 0x00000000], ![0x00050002, 0x00000000], ![0x00060003, 0x00000009],
    ![0x00070004, 0x000d000a], ![0x00080000, 0x000e000b], ![0x00000000, 0x000f000c],
    ![0x00000000, 0x00100000], ![0x00000000, 0x00000000]]

end SystolicSoc
