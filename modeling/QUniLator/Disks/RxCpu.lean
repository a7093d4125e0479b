import QUniLator.Framework.Run

namespace QUniLator.Disks.Rx

/-- `program_steps`, without `step_none` and `step_error`, which no program has -/
inductive Step
  | transferBufferWrite | transferBufferRead | seek | headSettle | sectorWrite | sectorRead | seekNext
  | formatTrack | initDone | doneReadErrorCode | done
  deriving DecidableEq,Repr

def Step.transfers : Step → Bool
  | .transferBufferWrite | .transferBufferRead => true
  | _ => false

def Step.final : Step → Bool
  | .initDone | .doneReadErrorCode | .done => true
  | _ => false

/-- `signal_function_code` -/
inductive Function
  | fillBuffer | emptyBuffer | writeSector | readSector | setMediaDensity | readStatus
  | writeSectorWithDeletedData | readErrorCode
  deriving DecidableEq,Repr

/-- Where the worker is: in or behind the wait of its loop, at its head, in a step, in the wait of a transfer step,
behind a step, or about to end on an error. -/
inductive Pc
  | idle | check | top | step (st : Step) | waiting | after | failing
  deriving DecidableEq,Repr

/-- What `go` finds in the controller and the drive -/
structure Command where
  function : Function
  doubleDensity : Bool
  rx2wc : Nat
  imageIsOpen : Bool
  deriving DecidableEq,Repr

def sectorCount : Nat := 26

def cylinderCount : Nat := 77

/-- `get_transfer_byte_count` -/
def transferByteCount (isRx02 : Bool) (f : Function) (doubleDensity : Bool) : Nat :=
  match f with
  | .fillBuffer | .emptyBuffer => if isRx02 && doubleDensity then 256 else 128
  | .readSector | .writeSector | .writeSectorWithDeletedData => 2
  | .setMediaDensity => if isRx02 then 1 else 0
  | .readErrorCode => if isRx02 then 8 else 0
  | .readStatus => 0

namespace Command

variable (c : Command)

def byteCount (isRx02 : Bool) : Nat :=
  match c.function with
  | .fillBuffer | .emptyBuffer => if isRx02 then 2*c.rx2wc else 128
  | f => transferByteCount isRx02 f c.doubleDensity

/-- The steps that `go` pushes -/
def program (isRx02 : Bool) : List Step :=
  match c.function with
  | .fillBuffer => [.transferBufferWrite,.done]
  | .emptyBuffer => [.transferBufferRead,.done]
  | .readSector => [.transferBufferWrite,.seek,.headSettle,.sectorRead,.done]
  | .writeSector | .writeSectorWithDeletedData => [.transferBufferWrite,.seek,.headSettle,.sectorWrite,.done]
  | .setMediaDensity =>
    if !isRx02 then []
    else if !c.imageIsOpen then [.done]
    else
      [.transferBufferWrite,.seek,.formatTrack] ++
        (List.replicate (cylinderCount-1) [Step.seekNext,.formatTrack]).flatten++[.done]
  | .readStatus => [.done]
  | .readErrorCode => if isRx02 then [.transferBufferRead,.doneReadErrorCode] else [.doneReadErrorCode]

end Command

/-- `RX0102uCPU_c`. Recorded are the program installed last and its steps begun, whether it ended on an error, whether
the transfer a step waits for is complete, whether one went on before, and how often DONE rose for the command.
`installing` is an `init` without its program yet. -/
structure Cpu where
  isRx02 : Bool
  power : Bool
  programSteps : List Step
  programCounter : Nat
  functionCode : Function
  signalDone : Bool
  signalError : Bool
  transferRequest : Bool
  byteCount : Nat
  byteIdx : Nat
  pc : Pc
  installing : Bool
  installed : List Step
  ran : List Step
  failed : Bool
  complete : Bool
  early : Bool
  rises : Nat
  deriving DecidableEq,Repr

/-- Calls of the controller, the switch and the worker. `work ok` is what the worker does next, with the drive's
answer where it asks for one. -/
inductive Event
  | go (c : Command)
  | initBegin | initInstall
  | powerOn | powerOff
  | rxdbRead | rxdbWrite (w : Nat)
  | wake
  | work (ok : Bool)
  deriving DecidableEq,Repr

namespace Cpu

variable (s : Cpu)

/-- `step_current`, none for `step_none` -/
def stepCurrent : Option Step := s.programSteps[s.programCounter]?

def programComplete : Bool := s.stepCurrent.isNone

def programClear : Cpu := { s with programSteps := [],programCounter := 0 }

def stepNext : Cpu := if s.programComplete then s else { s with programCounter := s.programCounter+1 }

/-- `signal_done` is set. -/
def raiseDone : Cpu := { s with signalDone := true,rises := if s.signalDone then s.rises else s.rises+1 }

def install (steps : List Step) : Cpu :=
  { s.programClear with programSteps := steps,installed := steps,ran := [],failed := false,installing := false }

/-- `step_done` and its kin -/
def stepDone : Cpu := { s.raiseDone with transferRequest := false }

/-- `step_execute`, up to the wait of a transfer step -/
def stepExecute (st : Step) (ok : Bool) : Cpu :=
  match st with
  | .transferBufferWrite | .transferBufferRead =>
    { s with byteIdx := 0,transferRequest := true,complete := false,pc := .waiting }
  | .seek | .headSettle | .seekNext => { s with pc := .after }
  | .sectorWrite | .sectorRead => { s with signalError := !ok,pc := .after }
  | .formatTrack => { s with signalError := s.signalError || !ok,pc := .after }
  | .initDone | .doneReadErrorCode | .done => { s.stepDone with pc := .after }

/-- `worker`, to its next place -/
def work (ok : Bool) : Cpu :=
  match s.pc with
  | .idle => if s.programComplete then s else { s with pc := .check }
  | .check => if s.signalError then { s.programClear with failed := true,pc := .failing } else { s with pc := .top }
  | .top =>
    match s.stepCurrent with
    | none => { s with pc := .idle }
    | some st => { s with ran := s.ran++[st],pc := .step st }
  | .step st => s.stepExecute st ok
  | .waiting => if s.complete then { s with pc := .after } else s
  | .after => { s.stepNext with pc := .check }
  | .failing => { s.stepDone with pc := .top }

def wake : Option Cpu :=
  match s.pc with
  | .idle => some { s with pc := .check }
  | .waiting => some { s with pc := .after,early := s.early || !(s.complete || s.ran.isEmpty) }
  | _ => none

def mutexFree : Bool := s.pc == .idle || s.pc == .waiting

def go (c : Command) : Cpu :=
  let s := { s with functionCode := c.function,signalDone := false,signalError := false,transferRequest := false,
                    byteCount := c.byteCount s.isRx02,rises := 0 }
  let s := s.install (c.program s.isRx02)
  match c.function with
  | .setMediaDensity => if s.isRx02 then { s with signalError := !c.imageIsOpen } else s.stepDone
  | _ => s

/-- The part of `init` that needs no mutex -/
def initBegin : Cpu :=
  { s with signalDone := false,signalError := false,transferRequest := false,rises := 0,installing := true }

/-- `set_powerless` -/
def powerOff : Cpu := { s.raiseDone with power := false,signalError := true,transferRequest := false }

def transferComplete : Cpu := { s with transferRequest := false,complete := true }

def rxdbAfterRead : Cpu :=
  if s.programComplete ∨ s.byteIdx ≥ s.byteCount then s
  else
    match s.functionCode with
    | .emptyBuffer | .readErrorCode =>
      if s.byteIdx+1<s.byteCount then { s with byteIdx := s.byteIdx+1 }
      else { s with byteIdx := s.byteIdx+1 }.transferComplete
    | _ => s

def rxdbAfterWrite (w : Nat) : Cpu :=
  if s.programComplete ∨ s.byteIdx ≥ s.byteCount then s
  else
    match s.functionCode with
    | .fillBuffer =>
      let s := { s with byteIdx := s.byteIdx+1 }
      if s.byteIdx ≥ s.byteCount then s.transferComplete else s
    | .readSector | .writeSector | .writeSectorWithDeletedData =>
      if s.byteIdx=0 then
        { s with signalError := s.signalError || decide (w%0x20<1 ∨ w%0x20 > sectorCount),byteIdx := 1 }
      else if s.byteIdx=1 then
        { s with signalError := s.signalError || decide (w%0x80 ≥ cylinderCount),byteIdx := 2 }.transferComplete
      else { s with byteIdx := s.byteIdx+1 }
    | .setMediaDensity =>
      if s.byteIdx=0 then { s with signalError := s.signalError || decide (w≠0x49) }.transferComplete else s
    | _ => s

def step (e : Event) : Option Cpu :=
  match e with
  | .go c => if s.mutexFree ∧ s.power then some (s.go c) else none
  | .initBegin => if s.power ∧ !s.installing then some s.initBegin else none
  | .initInstall => if s.installing ∧ s.mutexFree then some (s.install [.seek,.sectorRead,.initDone]) else none
  | .powerOn => some { s with power := true }
  | .powerOff => some s.powerOff
  | .rxdbRead => some s.rxdbAfterRead
  | .rxdbWrite w => some (s.rxdbAfterWrite w)
  | .wake => s.wake
  | .work ok => some (s.work ok)

def start (isRx02 : Bool) : Cpu :=
  ⟨isRx02,false,[],0,.readStatus,true,true,false,0,0,.idle,false,[],[],false,false,false,1⟩

/-- The steps begun are those of the program installed last, from its first on, each once; no transfer step goes on
early; DONE rises once for a command. -/
structure Right : Prop where
  order : s.ran <+: s.installed
  waits : s.early=false
  once : s.rises≤1
  ends : s.pc=.idle → s.programComplete=true → s.installing=false →
    s.rises=1 ∧ s.signalDone=true ∧ (s.ran=s.installed ∨ s.failed=true)

/-- The worker has nothing to do until it is called: no program, or a transfer that others do. -/
def Quiet : Prop :=
  (s.pc=.idle ∧ s.programComplete=true) ∨ (s.pc=.waiting ∧ s.complete=false ∧ s.byteIdx<s.byteCount)

/-- A program finds the worker in the wait of its loop, with the command before at its end, and for INIT with DONE as
`init` left it; a transfer has bytes, in it only; and a transfer step is woken by its end. -/
def Careful : Event → Prop
  | .go c => s.pc=.idle ∧ s.programComplete=true ∧ s.installing=false ∧
      ((c.program s.isRx02).any Step.transfers=true → 0<c.byteCount s.isRx02)
  | .initInstall => s.pc=.idle ∧ s.signalDone=false
  | .rxdbRead | .rxdbWrite _ =>
    s.transferRequest=true ∨ s.programComplete=true ∨ s.byteIdx ≥ s.byteCount
  | .wake => s.pc=.waiting → s.complete=true
  | .initBegin | .powerOn | .powerOff | .work _ => True

end Cpu

end QUniLator.Disks.Rx
