import QUniLator.Framework.Run
import QUniLator.Framework.Docket

namespace QUniLator.Disks

inductive RfFunction
  | nop | write | read | writeCheck
  deriving DecidableEq,Repr

def RfFunction.ofBits : Nat → RfFunction
  | 0 => .nop
  | 1 => .write
  | 2 => .read
  | _ => .writeCheck

/-- `_dcs`, without the bits that nothing sets -/
structure Dcs where
  go : Bool
  fr : RfFunction
  ma : Bool
  xm : Nat
  ie : Bool
  rdy : Bool
  diskClear : Bool
  ned : Bool
  wce : Bool
  frz : Bool
  err : Bool
  deriving DecidableEq,Repr

def Dcs.write (d : Dcs) (value : Nat) : Dcs :=
  { d with go := value%2=1,fr := .ofBits (value/2%4),ma := value/8%2=1,xm := value/0x10%4,
           ie := value/0x40%2=1,diskClear := value/0x100%2=1 }

/-- `_dae`, without the bits that nothing sets -/
structure Dae where
  ta : Nat
  da : Nat
  da14 : Bool
  drl : Bool
  cmaInh : Bool
  nem : Bool
  deriving DecidableEq,Repr

def Dae.write (d : Dae) (value : Nat) : Dae :=
  { d with ta := value%4,da := value/4%8,da14 := value/0x20%2=1,drl := value/0x80%2=1,
           cmaInh := value/0x100%2=1 }

def Dcs.zero : Dcs := ⟨false,.nop,false,0,false,false,false,false,false,false,false⟩

def Dcs.reset : Dcs := { Dcs.zero with rdy := true }

def Dae.zero : Dae := ⟨0,0,false,false,false,false⟩

inductive RfFlag
  | ned | nem | wce
  deriving DecidableEq,Repr

structure RfCommand where
  function : RfFunction
  wc : Nat
  cma : Nat
  xm : Nat
  dar : Nat
  ta : Nat
  da : Nat
  deriving DecidableEq,Repr

namespace RfCommand

variable (c : RfCommand)

def count : Nat := 0x10000-c.wc%0x10000

def address : Nat := c.cma+c.xm*0x10000

def disk : Nat := c.dar+c.ta*0x10000+c.da*0x40000

end RfCommand

inductive RfEffect
  | fromDisk (disk : Nat) (words : List UInt16)
  | toMemory (address : Nat) (words : List UInt16)
  | fromMemory (address : Nat) (words : List UInt16)
  | toDisk (disk : Nat) (words : List UInt16)
  | raised (f : RfFlag)
  | interrupt
  deriving DecidableEq,Repr

/-- The accesses of `update_DCS` and of `update_DAE`, with what was read for a store -/
inductive RfUpdate
  | nem | frz (v : Bool) | errs | err (v : Bool) | value | store (v : Dcs)
  | daeValue | daeStore (v : Dae)
  deriving DecidableEq,Repr

inductive RfPc
  | idle
  | readWc | readCma | readXm | readDar | readTa | readDa
  | testRead | testCheck | diskRead | testAgain | memoryWrite | memoryCheck | memoryRead | diskWrite
  | raise (f : RfFlag)
  | dbr | testInhibit | xm | updateXm (u : RfUpdate) | ta | da | updateDa (u : RfUpdate) | wc | wait | finish
  | finishDae (u : RfUpdate) | finishDcs (u : RfUpdate) | testIe | interrupt
  deriving DecidableEq,Repr

namespace RfPc

def working : RfPc → Bool
  | .idle | .finishDae _ | .finishDcs _ | .testIe | .interrupt => false
  | .readWc | .readCma | .readXm | .readDar | .readTa | .readDa | .testRead | .testCheck | .diskRead
  | .testAgain | .memoryWrite | .memoryCheck | .memoryRead | .diskWrite | .raise _ | .dbr | .testInhibit
  | .xm | .updateXm _ | .ta | .da | .updateDa _ | .wc | .wait | .finish => true

def late : RfPc → Bool
  | .dbr | .testInhibit | .xm | .updateXm _ | .ta | .da | .updateDa _ | .wc | .wait | .finish => true
  | .idle | .finishDae _ | .finishDcs _ | .testIe | .interrupt | .readWc | .readCma | .readXm | .readDar
  | .readTa | .readDa | .testRead | .testCheck | .diskRead | .testAgain | .memoryWrite | .memoryCheck
  | .memoryRead | .diskWrite | .raise _ => false

/-- `Worker_Finish` from where it has the mutex on -/
def holdsMutex : RfPc → Bool
  | .finishDae _ | .finishDcs _ | .testIe | .interrupt => true
  | .idle | .readWc | .readCma | .readXm | .readDar | .readTa | .readDa | .testRead | .testCheck | .diskRead
  | .testAgain | .memoryWrite | .memoryCheck | .memoryRead | .diskWrite | .raise _ | .dbr | .testInhibit
  | .xm | .updateXm _ | .ta | .da | .updateDa _ | .wc | .wait | .finish => false

/-- How many of WC, CMA, XM, DAR, TA and DA it has read; the function is last tested at 9. -/
def order : RfPc → Nat
  | .idle | .readWc => 0
  | .readCma => 1
  | .readXm => 2
  | .readDar => 3
  | .readTa => 4
  | .readDa => 5
  | .testRead => 6
  | .testCheck => 7
  | .diskRead => 8
  | .testAgain => 9
  | .memoryWrite | .memoryCheck | .memoryRead | .diskWrite | .raise _ | .dbr | .testInhibit | .xm
  | .updateXm _ | .ta | .da | .updateDa _ | .wc | .wait | .finish | .finishDae _ | .finishDcs _ | .testIe
  | .interrupt => 10

end RfPc

/-- Where the register thread is. A reset goes on with the test of GO when DCS was written. -/
inductive RfReg
  | idle
  | testClear | resetRegisters (go : Bool) | resetDcs (go : Bool) | resetRdy (go : Bool) | resetDae (go : Bool)
  | testGo | lock | clearGo | clearWce | testRdy | testFunction | clearRdy | clearErr
  | update (u : RfUpdate)
  deriving DecidableEq,Repr

def RfReg.holdsMutex : RfReg → Bool
  | .clearGo | .clearWce | .testRdy | .testFunction | .clearRdy | .clearErr => true
  | .idle | .testClear | .resetRegisters _ | .resetDcs _ | .resetRdy _ | .resetDae _ | .testGo | .lock
  | .update _ => false

/-- Between the reset of the registers and that of `_dcs` and `_dae` -/
def RfReg.resets : RfReg → Bool
  | .resetDcs _ | .resetRdy _ | .resetDae _ => true
  | .idle | .testClear | .resetRegisters _ | .testGo | .lock | .clearGo | .clearWce | .testRdy | .testFunction
  | .clearRdy | .clearErr | .update _ => false

/-- The bits of DCS and DAE that only the host sets -/
structure RfWritten where
  fr : RfFunction
  ma : Bool
  ie : Bool
  da14 : Bool
  drl : Bool
  cmaInh : Bool
  deriving DecidableEq,Repr

/-- The controller, the drum and the two threads. `dcsReg` and `daeReg` are what the host reads; `written` and
`raised` what it wrote and the worker raised since the last reset. -/
structure RfSeat where
  dcs : Dcs
  dae : Dae
  dcsReg : Dcs
  daeReg : Dae
  wcReg : Nat
  cmaReg : Nat
  darReg : Nat
  dbrReg : UInt16
  drum : Nat → UInt16
  newCommandReady : Bool
  newId : Nat
  reg : RfReg
  pc : RfPc
  id : Nat
  wc : Nat
  cma : Nat
  xm : Nat
  dar : Nat
  ta : Nat
  da : Nat
  buffer : List UInt16
  commands : Nat
  written : RfWritten
  raised : List RfFlag
  docket : Docket RfCommand RfEffect

/-- `worker` is a step of the worker: `words` is what a DMA moved, `ok` its success. `reg` is one of the register
thread, which begins with a write or with INIT. -/
inductive RfEvent
  | worker (words : List UInt16) (ok : Bool)
  | reg
  | dcs (value : Nat)
  | dae (value : Nat)
  | wc (value : Nat)
  | cma (value : Nat)
  | dar (value : Nat)
  | init

namespace RfSeat

variable (s : RfSeat)

def wordCount : Nat := 0x10000-s.wc%0x10000

def currentAddress : Nat := s.cma+s.xm*0x10000

def currentDiskAddress : Nat := s.dar+s.ta*0x10000+s.da*0x40000

def update : RfUpdate → RfSeat × Option RfUpdate
  | .nem => (s,some (.frz s.dae.nem))
  | .frz v => ({ s with dcs := { s.dcs with frz := v } },some .errs)
  | .errs => (s,some (.err (s.dcs.frz || s.dcs.wce || s.dcs.ned)))
  | .err v => ({ s with dcs := { s.dcs with err := v } },some .value)
  | .value => (s,some (.store s.dcs))
  | .store v => ({ s with dcsReg := v },none)
  | .daeValue => (s,some (.daeStore s.dae))
  | .daeStore v => ({ s with daeReg := v },none)

def cancelled : Docket RfCommand RfEffect :=
  (if s.newCommandReady then [.cancelled s.newId] else []) ++
    ((if s.pc.working then [.cancelled s.id] else [])++s.docket)

/-- `reset_unibus_registers` -/
def resetRegisters : RfSeat :=
  { s with dcsReg := .reset,daeReg := .zero,wcReg := 0,cmaReg := 0,darReg := 0,dbrReg := 0 }

def standing : RfCommand :=
  ⟨s.dcs.fr,s.wcReg,s.cmaReg,s.dcs.xm,s.darReg,s.dae.ta,s.dae.da⟩

def accept : RfSeat :=
  { s with dcs := { s.dcs with err := false },newCommandReady := true,newId := s.commands,
           commands := s.commands+1,reg := .update .nem,
           docket := .accepted s.commands s.standing ::
             ((if s.newCommandReady then [.cancelled s.newId] else [])++s.docket) }

/-- A step of `on_after_register_access` or of `on_init_changed` -/
def regStep : Option RfSeat :=
  match s.reg with
  | .idle => none
  | .testClear => some { s with reg := if s.dcs.diskClear then .resetRegisters true else .testGo }
  | .resetRegisters go => some { s.resetRegisters with reg := .resetDcs go }
  | .resetDcs go =>
    some { s with dcs := .zero,reg := .resetRdy go,raised := s.raised.filter (·=.nem),
                  written := { s.written with fr := .nop,ma := false,ie := false },docket := s.cancelled }
  | .resetRdy go => some { s with dcs := { s.dcs with rdy := true },reg := .resetDae go }
  | .resetDae go =>
    some { s with dae := .zero,reg := if go then .testGo else .idle,raised := s.raised.filter (· ≠ .nem),
                  written := { s.written with da14 := false,drl := false,cmaInh := false } }
  | .testGo => some { s with reg := if s.dcs.go then .lock else .update .nem }
  | .lock => if s.pc.holdsMutex then none else some { s with reg := .clearGo }
  | .clearGo => some { s with dcs := { s.dcs with go := false },reg := .clearWce }
  | .clearWce =>
    some { s with dcs := { s.dcs with wce := false },reg := .testRdy,raised := s.raised.filter (· ≠ .wce) }
  | .testRdy => some { s with reg := if s.dcs.rdy then .testFunction else .update .nem }
  | .testFunction => some { s with reg := if s.dcs.fr=.nop then .update .nem else .clearRdy }
  | .clearRdy => some { s with dcs := { s.dcs with rdy := false },reg := .clearErr }
  | .clearErr => some s.accept
  | .update u => some { (s.update u).1 with reg := ((s.update u).2.map RfReg.update).getD .idle }

def note (e : RfEffect) : RfSeat := { s with docket := .did s.id e::s.docket }

def clipped : Nat := min s.wordCount (0x200000-s.currentDiskAddress)

def drumWords : List UInt16 := (List.range s.wordCount).map fun i => s.drum (s.currentDiskAddress+i)

/-- `words` as `wordCount` words -/
def fit (words : List UInt16) : List UInt16 :=
  words.take s.wordCount++List.replicate (s.wordCount-words.length) 0

/-- `_drive->read` -/
def diskRead : RfSeat :=
  if s.clipped=s.wordCount then
    note { s with buffer := s.drumWords,pc := .testAgain } (.fromDisk s.currentDiskAddress s.drumWords)
  else { s with buffer := s.drumWords.take s.clipped,pc := .raise .ned }

/-- `_drive->write` -/
def diskWrite : RfSeat :=
  note { s with drum := fun a =>
                  if s.currentDiskAddress≤a ∧ a<s.currentDiskAddress+s.clipped then
                    s.buffer.getD (a-s.currentDiskAddress) 0
                  else s.drum a,
                pc := if s.clipped=s.wordCount then .dbr else .raise .ned }
    (.toDisk s.currentDiskAddress (s.buffer.take s.clipped))

def DmaFails (addrSpace : Nat) (ok : Bool) : Prop :=
  s.currentAddress+s.wordCount*2 > addrSpace ∨ ok=false

instance (addrSpace : Nat) (ok : Bool) : Decidable (s.DmaFails addrSpace ok) :=
  inferInstanceAs (Decidable (_ ∨ _))

/-- `dma_write`, which moves some words when it fails on the bus -/
def memoryWrite (addrSpace : Nat) (words : List UInt16) (ok : Bool) : RfSeat :=
  if s.currentAddress+s.wordCount*2 > addrSpace then { s with pc := .raise .nem }
  else if ok then note { s with pc := .dbr } (.toMemory s.currentAddress s.buffer)
  else note { s with pc := .raise .nem } (.toMemory s.currentAddress (s.buffer.take words.length))

def memoryCheck (addrSpace : Nat) (words : List UInt16) (ok : Bool) : RfSeat :=
  if s.DmaFails addrSpace ok then { s with pc := .raise .nem }
  else note { s with pc := if s.fit words=s.buffer then .dbr else .raise .wce }
    (.fromMemory s.currentAddress (s.fit words))

def memoryRead (addrSpace : Nat) (words : List UInt16) (ok : Bool) : RfSeat :=
  if s.DmaFails addrSpace ok then { s with buffer := s.fit words,pc := .raise .nem }
  else note { s with buffer := s.fit words,pc := .diskWrite } (.fromMemory s.currentAddress (s.fit words))

def raise (f : RfFlag) : RfSeat :=
  note { s with dcs := { s.dcs with ned := s.dcs.ned || decide (f=.ned),
                                    wce := s.dcs.wce || decide (f=.wce) },
                dae := { s.dae with nem := s.dae.nem || decide (f=.nem) },
                raised := f::s.raised,pc := .dbr } (.raised f)

/-- One access of an update of the worker, which goes on at `done` behind it -/
def workerUpdate (u : RfUpdate) (go : RfUpdate → RfPc) (done : RfPc) : RfSeat :=
  { (s.update u).1 with pc := ((s.update u).2.map go).getD done }

def workerStep (addrSpace : Nat) (words : List UInt16) (ok : Bool) : Option RfSeat :=
  match s.pc with
  | .idle =>
    if s.newCommandReady ∧ s.reg.holdsMutex=false then
      some { s with newCommandReady := false,id := s.newId,pc := .readWc }
    else none
  | .readWc => some { s with wc := s.wcReg,pc := .readCma }
  | .readCma => some { s with cma := s.cmaReg,pc := .readXm }
  | .readXm => some { s with xm := s.dcs.xm,pc := .readDar }
  | .readDar => some { s with dar := s.darReg,pc := .readTa }
  | .readTa => some { s with ta := s.dae.ta,pc := .readDa }
  | .readDa => some { s with da := s.dae.da,pc := .testRead }
  | .testRead => some { s with pc := if s.dcs.fr=.read then .diskRead else .testCheck }
  | .testCheck => some { s with pc := if s.dcs.fr=.writeCheck then .diskRead else .memoryRead }
  | .diskRead => some s.diskRead
  | .testAgain => some { s with pc := if s.dcs.fr=.read then .memoryWrite else .memoryCheck }
  | .memoryWrite => some (s.memoryWrite addrSpace words ok)
  | .memoryCheck => some (s.memoryCheck addrSpace words ok)
  | .memoryRead => some (s.memoryRead addrSpace words ok)
  | .diskWrite => some s.diskWrite
  | .raise f => some (s.raise f)
  | .dbr => some { s with dbrReg := s.buffer.getD (s.wordCount-1) 0,pc := .testInhibit }
  | .testInhibit => some { s with pc := if s.dae.cmaInh then .ta else .xm }
  | .xm =>
    let a := s.currentAddress+s.wordCount*2
    some { s with dcs := { s.dcs with xm := a/0x10000%4 },cmaReg := a%0x10000,pc := .updateXm .nem }
  | .updateXm u => some (s.workerUpdate u .updateXm .ta)
  | .ta =>
    some { s with dae := { s.dae with ta := (s.currentDiskAddress+s.wordCount)/0x10000%4 },pc := .da }
  | .da =>
    some { s with dae := { s.dae with da := (s.currentDiskAddress+s.wordCount)/0x40000%8 },
                  pc := .updateDa .daeValue }
  | .updateDa u => some (s.workerUpdate u .updateDa .wc)
  | .wc =>
    some { s with darReg := (s.currentDiskAddress+s.wordCount)%0x10000,wcReg := 0,pc := .wait }
  | .wait => some { s with pc := .finish }
  | .finish =>
    if s.reg.holdsMutex then none
    else some { s with dcs := { s.dcs with rdy := true },pc := .finishDae .daeValue,
                       docket := .finished s.id::s.docket }
  | .finishDae u => some (s.workerUpdate u .finishDae (.finishDcs .nem))
  | .finishDcs u => some (s.workerUpdate u .finishDcs .testIe)
  | .testIe => some { s with pc := if s.dcs.ie then .interrupt else .idle }
  | .interrupt => some (note { s with pc := .idle } .interrupt)

def step (addrSpace : Nat) : RfEvent → Option RfSeat
  | .worker words ok => s.workerStep addrSpace words ok
  | .reg => s.regStep
  | .dcs value =>
    if s.reg=.idle then
      let d := s.dcs.write value
      some { s with dcs := d,reg := .testClear,written := { s.written with fr := d.fr,ma := d.ma,ie := d.ie } }
    else none
  | .dae value =>
    if s.reg=.idle then
      let d := s.dae.write value
      some { s with dae := d,reg := .update .daeValue,
                    written := { s.written with da14 := d.da14,drl := d.drl,cmaInh := d.cmaInh } }
    else none
  | .wc value => if s.reg=.idle then some { s with wcReg := value%0x10000 } else none
  | .cma value => if s.reg=.idle then some { s with cmaReg := value%0x10000 } else none
  | .dar value => if s.reg=.idle then some { s with darReg := value%0x10000 } else none
  | .init => if s.reg=.idle then some { s with reg := .resetRegisters false } else none

def start (drum : Nat → UInt16) : RfSeat :=
  ⟨.reset,.zero,.reset,.zero,0,0,0,0,drum,false,0,.idle,.idle,0,0,0,0,0,0,0,[],0,
    ⟨.nop,false,false,false,false,false⟩,[],[]⟩

def Fits (c : RfCommand) : RfEffect → Prop
  | .fromDisk d ws => (c.function=.read ∨ c.function=.writeCheck) ∧ d=c.disk ∧ ws.length=c.count
  | .toMemory a ws => c.function=.read ∧ a=c.address ∧ ws.length ≤ c.count
  | .fromMemory a ws => (c.function=.write ∨ c.function=.writeCheck) ∧ a=c.address ∧ ws.length=c.count
  | .toDisk d ws => c.function=.write ∧ d=c.disk ∧ ws.length ≤ c.count
  | .raised _ | .interrupt => True

def Complete (l : Docket RfCommand RfEffect) (i : Nat) (c : RfCommand) : Prop :=
  match c.function with
  | .read => ∃ ws,ws.length=c.count ∧ .did i (.fromDisk c.disk ws)∈l ∧ .did i (.toMemory c.address ws)∈l
  | .write => ∃ ws,ws.length=c.count ∧ .did i (.fromMemory c.address ws)∈l ∧ .did i (.toDisk c.disk ws)∈l
  | .writeCheck => ∃ ws vs,ws.length=c.count ∧ vs.length=c.count ∧
      .did i (.fromDisk c.disk ws)∈l ∧ .did i (.fromMemory c.address vs)∈l
  | .nop => False

def Reported (l : Docket RfCommand RfEffect) (i : Nat) : Prop :=
  .did i (.raised .ned)∈l ∨ .did i (.raised .nem)∈l

def Shows : RfFlag → Prop
  | .ned => s.dcs.ned=true
  | .nem => s.dae.nem=true
  | .wce => s.dcs.wce=true

def hostBits : RfWritten := ⟨s.dcs.fr,s.dcs.ma,s.dcs.ie,s.dae.da14,s.dae.drl,s.dae.cmaInh⟩

/-- Nothing is done for a cancelled command, none is finished twice; what is done fits its command; a finished one was
carried out or reported an error; RDY is clear up to the completion; flags and host bits stand; at rest the host reads
what the controller has. -/
structure Safe : Prop where
  orderly : s.docket.Orderly
  fits : ∀ i c e,.accepted i c∈s.docket → .did i e∈s.docket → Fits c e
  complete : ∀ i c,.accepted i c∈s.docket → .finished i∈s.docket →
    .cancelled i∈s.docket ∨ Reported s.docket i ∨ Complete s.docket i c
  busy : (∃ i c,s.docket.Open i c) → s.dcs.rdy=false
  raised : ∀ f∈s.raised,s.Shows f
  written : s.hostBits=s.written
  shown : s.reg=.idle → s.pc=.idle → s.dcsReg=s.dcs ∧ s.daeReg=s.dae ∧ s.dcs.frz=s.dae.nem ∧
    s.dcs.err=(s.dcs.frz || s.dcs.wce || s.dcs.ned)

def Unread (k : Nat) : Prop := (s.newCommandReady=true ∨ s.pc≠.idle) ∧ s.pc.order≤k

def MayReset : Prop := s.newCommandReady=false ∧ (s.pc=.idle ∨ s.pc.late=true ∨
  s.pc.holdsMutex=true ∧ s.pc≠.interrupt)

def Current : RfUpdate → Prop
  | .frz v => v=s.dae.nem
  | .err v => v=(s.dcs.frz || s.dcs.wce || s.dcs.ned)
  | .store v => v=s.dcs
  | .daeStore v => v=s.dae
  | .nem | .errs | .value | .daeValue => True

def WorkerCareful : RfPc → Prop
  | .updateXm u | .updateDa u | .finishDae u | .finishDcs u => s.Current u
  | .idle | .readWc | .readCma | .readXm | .readDar | .readTa | .readDa | .testRead | .testCheck | .diskRead
  | .testAgain | .memoryWrite | .memoryCheck | .memoryRead | .diskWrite | .raise _ | .dbr | .testInhibit
  | .xm | .ta | .da | .wc | .wait | .finish | .testIe | .interrupt => True

def RegCareful : RfReg → Prop
  | .update u => s.Current u
  | .testRdy => s.dcs.rdy=true → s.pc.working=false
  | .idle | .testClear | .resetRegisters _ | .resetDcs _ | .resetRdy _ | .resetDae _ | .testGo | .lock
  | .clearGo | .clearWce | .testFunction | .clearRdy | .clearErr => True

/-- What an update stores is still what was read; the worker does nothing in a reset; no register changes that it has
still to read for a command; a reset comes with no command under way or its transfer done; until the worker is through
with one overtaken no GO is accepted and IE is not set. -/
def Careful : RfEvent → Prop
  | .worker _ _ => s.WorkerCareful s.pc ∧ (s.reg.resets=true → s.pc=.idle)
  | .reg => s.RegCareful s.reg
  | .dcs value => (s.Unread 2 → (s.dcs.write value).xm=s.dcs.xm) ∧ (s.Unread 9 → (s.dcs.write value).fr=s.dcs.fr) ∧
      ((s.dcs.write value).diskClear=true → s.MayReset) ∧
      (s.pc≠.idle → .cancelled s.id∈s.docket → (s.dcs.write value).ie=false)
  | .dae value => (s.Unread 4 → (s.dae.write value).ta=s.dae.ta) ∧ (s.Unread 5 → (s.dae.write value).da=s.dae.da)
  | .wc value => s.Unread 0 → value%0x10000=s.wcReg
  | .cma value => s.Unread 1 → value%0x10000=s.cmaReg
  | .dar value => s.Unread 3 → value%0x10000=s.darReg
  | .init => s.MayReset

end RfSeat

end QUniLator.Disks
