import QUniLator.Framework.Run
import QUniLator.Framework.Docket

namespace QUniLator.Disks

inductive RkOperation
  | controlReset | write | read | writeCheck | seek | readCheck | driveReset | writeLock
  deriving DecidableEq,Repr

def RkOperation.ofBits : Nat → RkOperation
  | 0 => .controlReset
  | 1 => .write
  | 2 => .read
  | 3 => .writeCheck
  | 4 => .seek
  | 5 => .readCheck
  | 6 => .driveReset
  | _ => .writeLock

structure RkAddress where
  drive : Nat
  cyl : Nat
  surface : Nat
  sector : Nat
  deriving DecidableEq,Repr

namespace RkAddress

def index (a : RkAddress) : Nat := (a.cyl*2+a.surface)*12+a.sector

def ofWord (w : Nat) : RkAddress := ⟨w/0x2000%8,w/0x20%0x100,w/0x10%2,w%0x10⟩

/-- `increment_RKDA` -/
def next (a : RkAddress) : RkAddress :=
  if a.sector+1 > 11 then
    if a.surface+1 > 1 then { a with sector := 0,surface := 0,cyl := a.cyl+1 }
    else { a with sector := 0,surface := a.surface+1 }
  else { a with sector := a.sector+1 }

end RkAddress

inductive RkError
  | wce | nxs | nxc | nxd | nxm | pge | wlo | ovr | dre | he | err
  deriving DecidableEq,Repr

structure RkDrive where
  present : Bool
  ready : Bool
  writeProtect : Bool

/-- `id` numbers the commands that were accepted. -/
structure RkCommand where
  id : Nat
  address : Nat
  drive : Nat
  function : RkOperation
  interrupt : Bool
  stopOnSoftError : Bool
  format : Bool
  iba : Bool

/-- What a command does to the packs, the bus and the error bits. With a sector goes what RKWC counted when
the transfer began. -/
inductive RkEffect
  | sector (words : Int) (at_ : RkAddress)
  | memory
  | error
  | interrupt
  deriving DecidableEq,Repr

/-- Where the worker is. In `interrupt` and `raise` it holds the mutex. -/
inductive RkPc
  | idle | clearGo | execute | loop | validate | dma | sector | advance | readCheck | finish | interrupt
  | raise
  deriving DecidableEq,Repr

namespace RkPc

def working : RkPc → Bool
  | .clearGo | .execute | .loop | .validate | .dma | .sector | .advance | .readCheck | .finish => true
  | .idle | .interrupt | .raise => false

def holdsMutex : RkPc → Bool
  | .interrupt | .raise => true
  | .idle | .clearGo | .execute | .loop | .validate | .dma | .sector | .advance | .readCheck
  | .finish => false

end RkPc

/-- The controller, its worker and the packs. `accepting` is a register access that waits for the mutex. -/
structure RkSeat where
  isRkv11 : Bool
  go : Bool
  function : RkOperation
  mex : Nat
  ide : Bool
  rdy : Bool
  sse : Bool
  exb : Bool
  fmt : Bool
  iba : Bool
  scp : Bool
  errors : List RkError
  rkwc : Nat
  rkba : Nat
  rkdb : UInt16
  rkda : RkAddress
  drives : Nat → RkDrive
  pack : Nat → Nat → List UInt16
  interrupts : Nat
  newCommand : RkCommand
  newCommandReady : Bool
  accepting : Bool
  pc : RkPc
  command : RkCommand
  doInterrupt : Bool
  currentAddress : Nat
  currentCount : Int
  words : Int
  abort : Bool
  buffer : List UInt16
  commands : Nat
  docket : Docket (RkOperation × RkAddress) RkEffect

/-- `worker` is a step of the worker; `words` and `timeout` are what a DMA brings. `accept` ends a register
access that waits for the mutex. -/
inductive RkEvent
  | worker (words : List UInt16) (timeout : Bool)
  | rkcs (value : Nat)
  | accept
  | rkda (value : Nat)
  | rkwc (value : Nat)
  | rkba (value : Nat)
  | init
  | drive (n : Nat) (d : RkDrive)

namespace RkSeat

variable (s : RkSeat)

def selectedDrive : RkDrive := s.drives s.rkda.drive

def invokeInterrupt : RkSeat := if s.ide then { s with interrupts := s.interrupts+1 } else s

def cancelled : Docket (RkOperation × RkAddress) RkEffect :=
  (if s.newCommandReady then [.cancelled s.newCommand.id] else []) ++
    ((if s.pc=.idle then [] else [.cancelled s.command.id])++s.docket)

def resetController : RkSeat :=
  { s with go := false,function := .controlReset,mex := 0,ide := false,rdy := true,sse := false,
           exb := false,fmt := false,iba := false,scp := false,errors := [],rkda := ⟨0,0,0,0⟩,
           rkwc := 0,rkba := 0,rkdb := 0,docket := s.cancelled }

def refuse (e : RkError) : RkSeat :=
  invokeInterrupt { s with errors := e :: .he :: .err::s.errors,scp := false,go := false }

def writeRkcs (value : Nat) : RkSeat :=
  let s := { s with go := value%2=1,function := RkOperation.ofBits (value/2%8),mex := value/0x10%4,
                    ide := value/0x40%2=1,sse := value/0x100%2=1,exb := value/0x200%2=1,
                    fmt := value/0x400%2=1,iba := value/0x800%2=1 }
  if s.go then
    if s.fmt ∧ s.function≠.read ∧ s.function≠.write ∧ s.function≠.controlReset then
      { s with errors := .pge :: .he :: .err::s.errors,go := false }
    else if s.function=.controlReset then s.resetController
    else if s.function=.writeLock then
      { s with drives := fun n => if n=s.rkda.drive then { s.drives n with writeProtect := true }
                                  else s.drives n,scp := false }
    else if !s.selectedDrive.present then s.refuse .nxd
    else if s.function≠.driveReset ∧ !s.selectedDrive.ready then s.refuse .dre
    else if s.function=.write ∧ s.selectedDrive.writeProtect then s.refuse .wlo
    else { s with accepting := true }
  else if s.rdy then s.invokeInterrupt
  else s

def accept : RkSeat :=
  { s with accepting := false,rdy := false,scp := false,newCommandReady := true,
           newCommand := ⟨s.commands,if s.isRkv11 then s.rkba else s.rkba+s.mex*0x10000,s.rkda.drive,
             s.function,s.ide,s.sse,s.fmt,s.iba⟩,
           commands := s.commands+1,
           docket := .accepted s.commands (s.function,s.rkda) ::
             ((if s.newCommandReady then [.cancelled s.newCommand.id] else [])++s.docket) }

def writeRkda (value : Nat) : RkSeat :=
  if s.rdy then { s with rkda := .ofWord value } else s

def init : RkSeat :=
  let s := s.resetController
  { s with drives := fun n => { s.drives n with writeProtect := false } }

def note (e : RkEffect) : RkSeat := { s with docket := .did s.command.id e::s.docket }

def fail (es : List RkError) : RkSeat := note { s with errors := es++s.errors } .error

/-- What `validate_seek` finds wrong -/
def seekErrors : List RkError :=
  (if s.rkda.sector > 11 then [.nxs] else [])++((if s.rkda.cyl > 202 then [.nxc] else []) ++
    (if s.selectedDrive.present then [] else [.nxd]))

/-- `-(int16_t) RKWC` as `int16_t` -/
def startCount : Int := (-Int.bmod s.rkwc 0x10000).bmod 0x10000

def execute : RkSeat :=
  match s.command.function with
  | .write | .read | .writeCheck =>
    { s with currentAddress := s.command.address,currentCount := s.startCount,words := s.startCount,
             abort := false,pc := .loop }
  | .readCheck =>
    { s with currentAddress := s.command.address,currentCount := s.startCount,pc := .readCheck }
  | .seek =>
    if s.seekErrors=[] then { s with pc := .finish }
    else { s.fail (s.seekErrors++[.he,.err]) with doInterrupt := false,pc := .finish }
  | .driveReset =>
    if s.selectedDrive.present then { s with pc := .finish }
    else { s with doInterrupt := false,pc := .finish }
  | .controlReset | .writeLock => { s with pc := .finish }

def loop : RkSeat :=
  if 0<s.currentCount ∧ !s.abort then
    if s.newCommandReady then { s with abort := true } else { s with pc := .validate }
  else { s with pc := .finish }

def validate : RkSeat :=
  if s.seekErrors=[] then { s with pc := .dma }
  else
    let ovr := if s.rkda.cyl > 202 then [.ovr] else []
    { s.fail (s.seekErrors++([.he,.err]++ovr)) with abort := true,pc := .loop }

/-- `request.count` -/
def count : Nat :=
  if s.command.function=.read && s.command.format then 1 else min 256 s.currentCount.toNat

/-- What follows the DMA of a sector, up to the write to the pack. `data` is the sector on the pack. -/
def dmaDone (data words : List UInt16) (timeout : Bool) : RkSeat :=
  if timeout then { s.fail [.nxm,.he,.err] with abort := true,pc := .advance }
  else match s.command.function with
  | .write =>
    { s with buffer := words.take s.count++List.replicate (256-s.count) 0,pc := .sector }
  | .writeCheck =>
    let s := if words.take s.count=data.take s.count then s else s.fail [.wce,.err]
    { s with abort := s.abort || decide (.wce∈s.errors) && s.sse,pc := .advance }
  | _ =>
    let buffer := if s.command.format then UInt16.ofNat (s.rkda.cyl*32)::List.replicate 255 0 else data
    { s with rkdb := buffer.getD (s.count-1) 0,pc := .advance }

/-- The DMA of a sector. A Read writes to memory, whether it is cut short or not. -/
def dma (words : List UInt16) (timeout : Bool) : RkSeat :=
  let data := s.pack s.rkda.drive s.rkda.index
  if s.command.function=.read then (s.note .memory).dmaDone data words timeout
  else s.dmaDone data words timeout

def writeSector : RkSeat :=
  note { s with pack := fun n i => if n=s.rkda.drive ∧ i=s.rkda.index then s.buffer else s.pack n i,
                pc := .advance } (.sector s.words s.rkda)

def advance : RkSeat :=
  let left := s.currentCount-s.count
  let addr := s.currentAddress+s.count*2
  let s := { s with currentCount := left,rkwc := (-left%0x10000).toNat,rkda := s.rkda.next,pc := .loop }
  if s.command.iba then s
  else { s with currentAddress := addr,rkba := addr%0x10000,mex := addr/0x10000%4 }

def readCheck : RkSeat :=
  if 0<s.currentCount then
    if s.seekErrors=[] then
      let left := s.currentCount-256
      let addr := s.currentAddress+512
      let s := { s with currentCount := left,rkda := s.rkda.next }
      if s.command.iba then s
      else { s with currentAddress := addr,rkwc := (-left%0x10000).toNat,mex := addr/0x10000%4 }
    else { s.fail (s.seekErrors++[.he,.err]) with pc := .finish }
  else { s with pc := .finish }

def workerStep (words : List UInt16) (timeout : Bool) : RkSeat :=
  match s.pc with
  | .idle =>
    if s.newCommandReady then { s with command := s.newCommand,newCommandReady := false,pc := .clearGo }
    else s
  | .clearGo => { s with go := false,doInterrupt := true,pc := .execute }
  | .execute => s.execute
  | .loop => s.loop
  | .validate => s.validate
  | .dma => s.dma words timeout
  | .sector => s.writeSector
  | .advance => s.advance
  | .readCheck => s.readCheck
  | .finish => { s with rdy := true,pc := .interrupt,docket := .finished s.command.id::s.docket }
  | .interrupt => { s with pc := if s.doInterrupt ∧ s.ide then .raise else .idle }
  | .raise => { s.note .interrupt with interrupts := s.interrupts+1,pc := .idle }

def step : RkEvent → Option RkSeat
  | .worker words timeout => some (s.workerStep words timeout)
  | .rkcs value => if s.accepting then none else some (s.writeRkcs value)
  | .accept => if s.accepting ∧ !s.pc.holdsMutex then some s.accept else none
  | .rkda value => if s.accepting then none else some (s.writeRkda value)
  | .rkwc value => if s.accepting then none else some { s with rkwc := value%0x10000 }
  | .rkba value => if s.accepting then none else some { s with rkba := value%0x10000 }
  | .init => if s.accepting then none else some s.init
  | .drive n d => some { s with drives := fun i => if i=n then d else s.drives i }

def start (isRkv11 : Bool) (drives : Nat → RkDrive) (pack : Nat → Nat → List UInt16) : RkSeat where
  isRkv11 := isRkv11
  go := false
  function := .controlReset
  mex := 0
  ide := false
  rdy := true
  sse := false
  exb := false
  fmt := false
  iba := false
  scp := false
  errors := []
  rkwc := 0
  rkba := 0
  rkdb := 0
  rkda := ⟨0,0,0,0⟩
  drives := drives
  pack := pack
  interrupts := 0
  newCommand := ⟨0,0,0,.controlReset,false,false,false,false⟩
  newCommandReady := false
  accepting := false
  pc := .idle
  command := ⟨0,0,0,.controlReset,false,false,false,false⟩
  doInterrupt := true
  currentAddress := 0
  currentCount := 0
  words := 0
  abort := false
  buffer := []
  commands := 0
  docket := []

/-- The sectors from `start` on that hold `words` words -/
def InRun (start : RkAddress) (words : Int) (a : RkAddress) : Prop :=
  a.drive=start.drive ∧ start.index≤a.index ∧ 256*((a.index : Int)-start.index)<words

/-- Every sector that a command writes is one that its drive and RKDA named; a cancelled command has no effect any
more, and none is finished twice; while one is neither finished nor cancelled, RDY is clear. -/
structure Safe : Prop where
  sectors : ∀ i n a,.did i (.sector n a)∈s.docket →
    ∃ start,.accepted i (.write,start)∈s.docket ∧ InRun start n a
  orderly : s.docket.Orderly
  busy : ∀ i c,s.docket.Open i c → s.rdy=false

def AtRest : Prop :=
  s.pc=.idle ∧ s.newCommandReady=false ∨ s.pc=.finish ∨ s.pc=.interrupt

def isReset (value : Nat) : Bool := value%2=1 && value/2%8=0

/-- The controller is reset only with no command under way or RDY being set for one, IDE stays clear until RDY is set
for one overtaken so, and no command is accepted while the worker has one. -/
def Careful : RkEvent → Prop
  | .rkcs value => (isReset value=true → s.AtRest) ∧ (.cancelled s.command.id∈s.docket → s.pc≠.idle → value/0x40%2=0)
  | .init => s.AtRest
  | .accept => s.pc=.idle
  | .worker _ _ | .rkda _ | .rkwc _ | .rkba _ | .drive _ _ => True

end RkSeat

end QUniLator.Disks
