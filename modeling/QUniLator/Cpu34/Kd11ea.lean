import QUniLator.Cpu34.Kt11d
import QUniLator.Framework.Attempt

/-!
The KD11-EA: its state, its bus cycles, and how an instruction addresses its operands.
-/

namespace QUniLator.Cpu34

open Function

def pswPr : Word := 0o000340
def pswT : Word := 0o000020
def pswMask : Word := 0o170377

abbrev Cc := BitVec 4

def ccN : Cc := 0o10
def ccZ : Cc := 0o04
def ccV : Cc := 0o02
def ccC : Cc := 0o01

def pswMode (psw : Word) : Mode := psw.extractLsb' 14 2
def pswPrevMode (psw : Word) : Mode := psw.extractLsb' 12 2

def pswSp (psw : Word) : Space := modeSpace (pswMode psw)

/-- What the processor does that the bus sees. -/
inductive BusEvent where
  | dati (pa : Uint)
  | dato (pa : Uint) (w : Word)
  | datob (pa : Uint) (w : Word)
  | init
  | prioritylevelchange (level : Word)
  deriving DecidableEq

/-- The machine around the processor. What answers a cycle, and how, may depend on all that went
before; none or false is a timeout. -/
structure Bus where
  dati : List BusEvent → Uint → Option Word
  dato : List BusEvent → Uint → Word → Bool
  datob : List BusEvent → Uint → Word → Bool

inductive RunState where
  | halted | running | waiting
  deriving DecidableEq,Repr

/-- `KD11EA`. The last three fields are history that nothing depends on: the bus events, last first; what each mode's
stack pointer was last given; the register whose autoincrement the last failed reference took back. -/
structure State where
  r : BitVec 4 → Word
  ba : Word
  bdata : Word
  ir : Word
  psw : Word
  stackpointer : Space → Word
  trapStack : Bool
  trapPwr : Bool
  be : Nat
  state : RunState
  trapVector : Word
  autoincReg : Option (BitVec 4)
  autoincAmount : Word
  mmu : Kt11d
  externalIntr : Bool
  externalIntrvec : Word
  sw : Word
  log : List BusEvent
  sps : Space → Word
  undone : Option (BitVec 4)

def rSP : BitVec 4 := 6
def rPC : BitVec 4 := 7
def rSR : BitVec 4 := 8
def rDR : BitVec 4 := 9

namespace State

def isKernel (s : State) : Bool := pswMode s.psw=modeKernel

def cc (s : State) : Cc := s.psw.setWidth 4

def setCc (s : State) (cc : Cc) : State :=
  { s with psw := (s.psw &&& ~~~0o17) ||| cc.setWidth 16 }

def setR (s : State) (i : BitVec 4) (v : Word) : State :=
  { s with
    r := update s.r i v
    sps := if i=rSP then update s.sps (pswSp s.psw) v else s.sps }

def setStackpointer (s : State) (sp : Space) (v : Word) : State :=
  { s with
    stackpointer := update s.stackpointer sp v
    sps := update s.sps sp v }

def switchSp (s : State) (newpsw : Word) : State :=
  let oldsp := pswSp s.psw
  let newsp := pswSp newpsw
  if oldsp=newsp then s
  else
    { s with
      stackpointer := update s.stackpointer oldsp (s.r rSP)
      r := update s.r rSP (s.stackpointer newsp) }

/-- `kd11ea_set_psw`. -/
def setPsw (s : State) (newpsw : Word) : State :=
  let newpsw := newpsw &&& pswMask
  let s := s.switchSp newpsw
  { s with
    psw := newpsw
    mmu := s.mmu.setModes newpsw
    log := .prioritylevelchange ((newpsw >>> 5) &&& 7)::s.log }

/-- `kd11ea_reset`: the RESET opcode. -/
def reset (s : State) : State :=
  { s with trapStack := false,trapPwr := false,mmu := s.mmu.init }

/-- `kd11ea_power_reset`. Only the other mode's stack pointer is one the processor still has there. -/
def powerReset (s : State) : State :=
  let s := s.reset
  let other := if pswSp s.psw=.kernel then .user else .kernel
  let s :=
    { s with
      externalIntr := false,mmu := .reset,stackpointer := fun _ => 0
      sps := update s.sps other 0,trapVector := 4,autoincReg := none }
  s.setPsw 0

def setDestRef (s : State) (destRef : Bool) : State :=
  { s with mmu := { s.mmu with destRef := destRef } }

def spaceKernel (s : State) : State := { s with mmu := s.mmu.setAccess .kernel modeKernel }

def spacePrev (s : State) : State := { s with mmu := s.mmu.setAccess s.mmu.prevSpace s.mmu.prevMode }

def spaceRestore (s : State) : State := { s with mmu := s.mmu.setAccess s.mmu.space s.mmu.mode }

def autoincPending (s : State) (r : BitVec 4) (amount : Word) : State :=
  { s with autoincReg := some r,autoincAmount := amount }

def autoincCommit (s : State) : State := { s with autoincReg := none }

def autoincUndo (s : State) : State :=
  match s.autoincReg with
  | some r => { s.setR r (s.r r-s.autoincAmount) with autoincReg := none,undone := some r }
  | none => { s with undone := none }

def completed (s : State) : State := { s with be := 0 }.autoincCommit

def refused (s : State) (vector : Word) : State :=
  { s with trapVector := vector,be := s.be+1 }.autoincUndo

def readInternal (s : State) (pa : Uint) : Option Word :=
  if pa<0o760000 then none
  else
    match s.mmu.readReg (wordAddress pa) with
    | some w => some w
    | none =>
      if pa=0o777570 ∨ pa=0o777571 then some s.sw
      else if pa=0o777776 ∨ pa=0o777777 then some (s.psw &&& pswMask)
      else if pa=0o777547 then some 0
      else none

def writeInternal (s : State) (pa : Uint) (b : Bool) : Option State :=
  let mask : Word := if b then if pa.getLsbD 0 then 0o177400 else 0o377 else 0o177777
  if pa<0o760000 then none
  else
    match s.mmu.writeReg (wordAddress pa) s.bdata mask with
    | some mmu => some { s with mmu := mmu }
    | none =>
      if pa=0o777570 ∨ pa=0o777571 then some s
      else if pa=0o777776 ∨ pa=0o777777 then
        let mask := mask &&& ~~~pswT
        some (s.setPsw ((s.psw &&& ~~~mask) ||| (s.bdata &&& mask)))
      else none

end State

abbrev M := Attempt State

section
variable (bus : Bus)

/-- `dati`: it fails where the C function returns 1. -/
def dati (b : Bool) : M Unit := fun s =>
  if !b && s.ba.getLsbD 0 then (none,s.refused 4)
  else
    match s.mmu.relocate s.ba s.mmu.accessSpace .read with
    | (mmu,none) => (none,{ s with mmu := mmu }.refused abortVector)
    | (mmu,some pa) =>
      let s := { s with mmu := mmu }
      match s.readInternal pa with
      | some w => (some (),{ s with bdata := w }.completed)
      | none =>
        let answer := bus.dati s.log (wordAddress pa)
        let s := { s with log := .dati (wordAddress pa)::s.log }
        match answer with
        | none => (none,s.refused 4)
        | some w => (some (),{ s with bdata := w }.completed)

def dato (b : Bool) : M Unit := fun s =>
  if !b && s.ba.getLsbD 0 then (none,s.refused 4)
  else
    match s.mmu.relocate s.ba s.mmu.accessSpace .write with
    | (mmu,none) => (none,{ s with mmu := mmu }.refused abortVector)
    | (mmu,some pa) =>
      let s := { s with mmu := mmu }
      match s.writeInternal pa b with
      | some s => (some (),s.completed)
      | none =>
        let answered := if b then bus.datob s.log pa s.bdata else bus.dato s.log (wordAddress pa) s.bdata
        let event := if b then .datob pa s.bdata else .dato (wordAddress pa) s.bdata
        let s := { s with log := event::s.log }
        if answered then (some (),s.completed) else (none,s.refused 4)

end

end QUniLator.Cpu34
