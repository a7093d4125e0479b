import QUniLator.Framework.Run
import QUniLator.Framework.Docket

namespace QUniLator.Disks

inductive RlCommand
  | noop | writeCheck | getStatus | seek | readHeader | writeData | readData | readWithoutHeaderCheck
  deriving DecidableEq,Repr

namespace RlCommand

def ofBits : Nat → RlCommand
  | 0 => .noop
  | 1 => .writeCheck
  | 2 => .getStatus
  | 3 => .seek
  | 4 => .readHeader
  | 5 => .writeData
  | 6 => .readData
  | _ => .readWithoutHeaderCheck

/-- What `state_readwrite()` asserts -/
def isTransfer : RlCommand → Bool
  | .writeCheck | .writeData | .readData | .readWithoutHeaderCheck => true
  | .noop | .getStatus | .seek | .readHeader => false

end RlCommand

inductive RlActivity
  | ready | busy | seekInit | rwInit | rwDisk
  deriving DecidableEq,Repr

/-- What a command does: it is begun, moves a sector, sets an error bit or interrupts. -/
inductive RlEffect
  | began | transfer | error | interrupt
  deriving DecidableEq,Repr

/-- Where the worker is. It holds the mutex everywhere but in `start` and `waiting`. -/
inductive RlPc
  | start | waiting | woken | reason | power | driveWait | dispatch | enter (next : RlActivity) | loop
  | seek | rwWait | rw | opi | opiWait (epoch : Nat) | opiSet | done | raising | readying | intr
  deriving DecidableEq,Repr

/-- Where the event thread is: a write to CS that waits for the mutex, or a reset that has cleared the
registers, has counted up, and has cleared the errors -/
inductive RlHost
  | idle | blocked (value : Nat) | resetRegisters | resetEpoch | resetErrors
  deriving DecidableEq,Repr

/-- The worker waits in `do_operation_incomplete()`. -/
def RlPc.inTimeout : RlPc → Bool
  | .opiWait _ => true
  | .start | .waiting | .woken | .reason | .power | .driveWait | .dispatch | .enter _ | .loop | .seek
  | .rwWait | .rw | .opi | .opiSet | .done | .raising | .readying | .intr => false

def RlPc.taking : RlPc → Bool
  | .woken | .reason | .power | .driveWait | .dispatch => true
  | .start | .waiting | .enter _ | .loop | .seek | .rwWait | .rw | .opi | .opiWait _ | .opiSet | .done
  | .raising | .readying | .intr => false

def RlHost.value : RlHost → Nat
  | .blocked value => value
  | .idle | .resetRegisters | .resetEpoch | .resetErrors => 0

/-- What a look at the platter brings -/
inductive RlSector
  | elsewhere | offTrack | timeout | moved (differs : Bool)
  deriving DecidableEq,Repr

/-- What the worker finds: the drive without power, the drive ready, and the sector -/
structure RlAnswer where
  poweredOff : Bool
  ready : Bool
  sector : RlSector
  deriving DecidableEq,Repr

/-- The controller, its worker and the event thread. `current` numbers the command that was accepted last,
`sinceReset` says that it was before the last reset. -/
structure RlSeat where
  state : RlActivity
  function : RlCommand
  interruptEnable : Bool
  reason : Bool
  epoch : Nat
  dmaTimeout : Bool
  operationIncomplete : Bool
  writecheck : Bool
  headerNotFound : Bool
  wordcount : Nat
  cmdWordcount : Nat
  initAsserted : Bool
  signalled : Bool
  pc : RlPc
  host : RlHost
  failed : Bool
  interrupts : Nat
  current : Nat
  sinceReset : Bool
  docket : Docket Bool RlEffect
  deriving DecidableEq,Repr

/-- `spurious` wakes the worker without a signal. `acquire` ends a write to CS that waits for the mutex: a ready drive
seeks at once, one that is there answers Get Status. `reset` ends INIT or a power cycle, `resetStep` is a further step
of it. -/
inductive RlEvent
  | worker (a : RlAnswer)
  | spurious
  | writeCs (value : Nat)
  | acquire (seeks answers : Bool)
  | writeMp (words : Nat)
  | init
  | reset (init : Bool)
  | resetStep
  deriving DecidableEq,Repr

namespace RlSeat

variable (s : RlSeat)

def clearErrors : RlSeat :=
  { s with dmaTimeout := false,operationIncomplete := false,writecheck := false,headerNotFound := false }

def noErrors : Bool := !(s.dmaTimeout || s.operationIncomplete || s.writecheck || s.headerNotFound)

def note (e : RlEffect) : RlSeat := { s with docket := .did s.current e::s.docket }

/-- `do_command_done()` in the register access -/
def doneAtOnce : RlSeat :=
  let s := note s .began
  let s := { s with state := .ready,docket := .finished s.current::s.docket }
  if s.interruptEnable then { s.note .interrupt with interrupts := s.interrupts+1 } else s

/-- The command is left to the worker. A signal is lost before the worker waits for the first time. -/
def delay : RlSeat := { s with signalled := s.signalled || s.pc=.waiting }

def isGo (value : Nat) : Bool := value/0x80%2=0

def isDelayed (value : Nat) (seeks answers : Bool) : Bool :=
  match RlCommand.ofBits (value/2%8) with
  | .noop => false
  | .seek => !seeks
  | .getStatus => !answers
  | .writeCheck | .readHeader | .writeData | .readData | .readWithoutHeaderCheck => true

def writeCs (value : Nat) (seeks answers : Bool) : RlSeat :=
  let s := { s with host := .idle,failed := s.failed || s.state≠.ready,
                    function := RlCommand.ofBits (value/2%8),interruptEnable := value/0x40%2=1 }
  if isGo value then
    let answers := answers && !s.reason
    let s := { clearErrors s with state := .busy,current := s.current+1,sinceReset := false,
                                  docket := .accepted (s.current+1) s.interruptEnable::s.docket }
    if isDelayed value seeks answers then
      delay { s with reason := s.reason || s.function=.getStatus }
    else s.doneAtOnce
  else s

/-- `reset()` begins, at the end of INIT or in a power cycle. What was accepted and is not finished is
cancelled. -/
def resetBegin (init : Bool) : RlSeat :=
  { s with function := .noop,interruptEnable := false,reason := false,
           initAsserted := s.initAsserted && !init,host := .resetRegisters,
           docket := if .finished s.current∈s.docket then s.docket
             else .cancelled s.current::s.docket }

def afterSector (count : Nat) : RlPc := if count≤128 then .done else .enter .rwDisk

def sectorMoved (differs : Bool) : RlSeat :=
  let s := { s.note .transfer with dmaTimeout := false,wordcount := s.cmdWordcount-128,
                                   pc := afterSector s.cmdWordcount }
  if s.function=.writeCheck then
    if differs then { s.note .error with writecheck := true } else { s with writecheck := false }
  else s

/-- `state_readwrite()` behind the wait for the drive -/
def readwrite (found : RlSector) : RlSeat :=
  match s.state with
  | .rwInit => { clearErrors s with pc := if s.cmdWordcount=0 then .done else .enter .rwDisk }
  | .rwDisk =>
    if s.cmdWordcount=0 then { s with failed := true }
    else match found with
    | .elsewhere => { s with pc := .loop }
    | .offTrack => { s.note .error with headerNotFound := true,pc := .opi }
    | .timeout => { (s.note .transfer).note .error with dmaTimeout := true,pc := .opi }
    | .moved differs => s.sectorMoved differs
  | .ready | .busy | .seekInit => { s with pc := .loop }

/-- A step of the worker. While it waits it does nothing until it is signalled. -/
def workerStep (a : RlAnswer) : RlSeat :=
  match s.pc with
  | .start => { s with pc := .waiting }
  | .waiting => if s.signalled then { s with signalled := false,pc := .woken } else s
  | .woken => if s.initAsserted then { s with pc := .waiting } else { clearErrors s with pc := .reason }
  | .reason => if s.reason then { s.note .began with reason := false,pc := .opi } else { s with pc := .power }
  | .power => if a.poweredOff then { s.note .began with pc := .opi } else { s with pc := .driveWait }
  | .driveWait => { s with pc := .dispatch }
  | .dispatch =>
    match s.function with
    | .writeCheck | .writeData | .readData | .readWithoutHeaderCheck =>
      { s.note .began with pc := .enter .rwInit }
    | .seek => { s.note .began with pc := .enter .seekInit }
    | .readHeader => { s.note .began with pc := .done }
    | .noop | .getStatus => { s with pc := .loop }
  | .enter next => { s with state := next,pc := .loop }
  | .loop =>
    match s.state with
    | .ready => { s with pc := .waiting }
    | .busy => s
    | .seekInit => { s with pc := .seek }
    | .rwInit | .rwDisk =>
      { s with failed := s.failed || !s.function.isTransfer,cmdWordcount := s.wordcount,pc := .rwWait }
  | .seek => { s with pc := if a.ready then .done else .opi }
  | .rwWait => { s with pc := if a.ready then .rw else .opi }
  | .rw => s.readwrite a.sector
  | .opi => { s with pc := .opiWait s.epoch }
  -- a reset in the wait drops the timeout
  | .opiWait epoch => { s with pc := if epoch=s.epoch then .opiSet else .loop }
  | .opiSet => { s.note .error with operationIncomplete := true,pc := .done }
  | .done => { s with pc := if s.interruptEnable ∧ s.state≠.ready then .raising else .readying }
  | .raising => { s with state := .ready,docket := .finished s.current::s.docket,pc := .intr }
  | .readying =>
    { s with state := .ready,pc := .loop,
             docket := if s.state=.ready then s.docket else .finished s.current::s.docket }
  | .intr =>
    { s.note .interrupt with interrupts := s.interrupts+1,pc := .loop,
                             failed := s.failed || !s.interruptEnable || s.state≠.ready }

def mutexFree : Bool := s.pc=.start || s.pc=.waiting

def step : RlEvent → Option RlSeat
  | .worker a => some (s.workerStep a)
  | .spurious => if s.pc=.waiting then some { s with pc := .woken } else none
  | .writeCs value =>
    if s.host=.idle then some (if s.state=.ready then { s with host := .blocked value } else s) else none
  | .acquire seeks answers =>
    match s.host with
    | .blocked value => if s.mutexFree then some (s.writeCs value seeks answers) else none
    | .idle | .resetRegisters | .resetEpoch | .resetErrors => none
  | .writeMp words => if s.host=.idle then some { s with wordcount := words } else none
  | .init => if s.host=.idle then some { s with initAsserted := true } else none
  | .reset init => if s.host=.idle then some (s.resetBegin init) else none
  | .resetStep =>
    match s.host with
    | .resetRegisters => some { s with epoch := s.epoch+1,host := .resetEpoch }
    | .resetEpoch => some { clearErrors s with host := .resetErrors }
    | .resetErrors => some { s with state := .ready,host := .idle,sinceReset := true }
    | .idle | .blocked _ => none

def start : RlSeat :=
  ⟨.ready,.noop,false,false,0,false,false,false,false,0,0,false,false,.start,.idle,false,0,0,true,[]⟩

def Once (e : RlEffect) (l : Docket Bool RlEffect) : Prop :=
  l.Pairwise fun new old => ∀ i,new=.did i e → old≠.did i e

/-- What was cancelled has no effect any more, nothing is finished or begun or interrupts twice, a command accepted
with IE interrupts when finished, after a reset the controller is ready without an error bit until it accepts a
command, and no assertion fails. -/
structure Safe : Prop where
  orderly : s.docket.Orderly
  begun : Once .began s.docket
  once : Once .interrupt s.docket
  interrupts : ∀ i ie,.accepted i ie∈s.docket → .finished i∈s.docket → ¬(s.pc=.intr ∧ i=s.current) →
    (.did i .interrupt∈s.docket ↔ ie=true)
  after : ∀ i,.did i .interrupt∈s.docket → .finished i∈s.docket
  quiet : s.sinceReset=true → s.state=.ready ∧ s.noErrors=true
  asserts : s.failed=false

/-- The worker has not begun with a command, waits for it in a timeout that a reset ends, or is done. -/
def AtRest : Prop :=
  match s.pc with
  | .start | .waiting | .woken | .reason | .power | .driveWait | .dispatch | .opiWait _ => True
  | .loop => s.state=.ready
  | .enter _ | .seek | .rwWait | .rw | .opi | .opiSet | .done | .raising | .readying | .intr => False

def Transferring : Prop :=
  s.state=.rwDisk ∨ s.pc=.enter .rwDisk ∨ s.state=.rwInit ∧ (s.pc=.rwWait ∨ s.pc=.rw)

/-- No wakeup is spurious; a reset begins with the worker at rest; with a command overtaken the worker finds no drive
without power and ends no timeout before the reset is through; until its signal only another such is accepted, and
none before its first wait; the word count is not cleared in a transfer. -/
def Careful : RlEvent → Prop
  | .worker a => .cancelled s.current∈s.docket →
      (s.pc=.power → a.poweredOff=false) ∧ (s.pc.inTimeout=true → s.state=.ready)
  | .spurious => False
  | .acquire seeks answers =>
      (s.pc=.start → isGo s.host.value=true → isDelayed s.host.value seeks answers=false) ∧
      (s.signalled=true → isGo s.host.value=true ∧ isDelayed s.host.value seeks answers=true)
  | .writeMp words => 0<words ∨ ¬s.Transferring
  | .reset _ => s.AtRest
  | .writeCs _ | .init | .resetStep => True

end RlSeat

end QUniLator.Disks
