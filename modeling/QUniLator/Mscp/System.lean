import QUniLator.Mscp.Port

namespace QUniLator.Mscp

/-! ### The threads of a controller

The adapter's thread, the port worker and the server's polling thread share the
port and the server. A program counter names what a thread does next; every access to what another writes, every
critical section and every DMA is a step. -/

inductive PollingState
  | wait | run | initRestart | initRun
  deriving DecidableEq,Repr

/-- The adapter's thread, in `on_after_register_access`. -/
inductive BusPc
  | idle
  | ipZeroed
  | doorbell
  | saTaken (value : Nat) (step : InitStep)
  | saNext (nextStep : InitStep)
  | saGo
  deriving DecidableEq,Repr

/-- The port worker. `waiting` is the wait in the server's `Reset`, `woken` its end. -/
inductive WorkerPc
  | wait
  | take
  | clearSA (generation : Nat)
  | reset (generation : Nat)
  | waiting (generation : Nat)
  | woken (generation : Nat)
  | clear (generation : Nat)
  | chain (generation : Nat)
  | check (step : InitStep) (generation : Nat)
  | commArea (generation : Nat)
  | publish (step : InitStep) (generation : Nat)
  | interrupt (step : InitStep) (generation : Nat)
  deriving DecidableEq,Repr

/-- The locals of a pass: the queue of commands and `msgCount`. -/
structure Queue where
  messages : List Message
  msgCount : Nat
  deriving DecidableEq

/-- What the polling thread goes on with after a port error. -/
inductive AfterError
  | fetch (msgCount : Nat)
  | post (q : Queue) (response : Message)
  | pending (waited : Nat)
  deriving DecidableEq

/-- The polling thread: the head of `Poll`, `GetNextCommand`, the execution, `PostResponse`,
`LingerForNextCommand` and the end of the pass. -/
inductive PollerPc
  | top
  | blocked
  | ring (q : Queue)
  | readDescriptor (q : Queue)
  | readLength (q : Queue) (address : Nat) (d : Descriptor)
  | readMessage (q : Queue) (address : Nat) (d : Descriptor) (messageLength : Nat)
  | giveBack (q : Queue) (address : Nat) (d : Descriptor) (m : Message)
  | advance (q : Queue) (flag : Bool) (m : Message)
  | markCommand (q : Queue) (m : Message)
  | interruptCommand (q : Queue) (m : Message)
  | exec (q : Queue)
  | serve (q : Queue) (m : Message)
  | postDescriptor (q : Queue) (r : Message)
  | postLength (q : Queue) (r : Message) (address : Nat) (d : Descriptor)
  | postMessage (q : Queue) (r : Message) (address : Nat) (d : Descriptor)
  | postGiveBack (q : Queue) (r : Message) (address : Nat) (d : Descriptor)
  | markResponse (q : Queue)
  | interruptResponse (q : Queue)
  | postAdvance (q : Queue)
  | hold (q : Queue) (r : Message)
  | holdRunning (q : Queue) (r : Message)
  | linger (waited : Nat)
  | pendingBase (waited : Nat)
  | pendingRunning (waited : Nat)
  | pendingRead (waited : Nat)
  | settle (waited : Nat)
  | doze (waited : Nat)
  | errorSA (code : Nat) (k : AfterError)
  | errorReset (code : Nat) (k : AfterError)
  | endPass (moreWork : Bool)
  deriving DecidableEq

/-- What the host did with its rings: the commands handed over, how many of them when it last rang, the responses
taken, and the response descriptors given back. -/
structure Host where
  handed : List Message
  rung : Nat
  taken : List Message
  returned : Nat

/-- What the polling thread did: the commands it executed and the responses it gave the host. -/
structure Log where
  executed : List Message
  posted : List Message

structure State (δ : Type) where
  port : Port
  pollState : PollingState
  server : Server δ
  mem : Memory
  bus : BusPc
  worker : WorkerPc
  poller : PollerPc
  host : Host
  log : Log

/-- What may happen next. `ok` tells whether the DMA of the step succeeds. The guest accesses a register, writes its
memory, or moves its rings on; `wakeWorker` and `wakePoller` come from nobody. -/
inductive Action
  | ipWrite
  | ipRead
  | saWrite (value : Nat)
  | init
  | bus
  | worker (ok : Bool)
  | poll (ok : Bool)
  | wakeWorker
  | wakePoller
  | writeDescriptor (address : Nat) (d : Descriptor)
  | writePacket (envelope : Nat) (packet : Message)
  | command (envelope : Nat) (flag : Bool)
  | collect
  | giveBack (envelope : Nat) (flag : Bool)
  deriving DecidableEq

namespace State

variable {δ : Type}

/-- `pthread_cond_broadcast(&polling_cond)` -/
def broadcast (s : State δ) : State δ :=
  { s with
    poller := if s.poller=.blocked then .top else s.poller
    worker := match s.worker with
      | .waiting generation => .woken generation
      | w => w }

/-- `InitPolling`. The host has rung for all it handed over. -/
def initPolling (s : State δ) : State δ :=
  { s with pollState := .initRun,host := { s.host with rung := s.host.handed.length } }.broadcast

def writeSA (s : State δ) (value : Nat) : InitStep → State δ
  | .uninitialized | .step1 =>
    if Port.wrapBit value then { s with port := s.port.updateSA value,bus := .idle }
    else { s with port := s.port.writeStep1 value,bus := .saNext .step2 }
  | .step2 => { s with port := s.port.writeStep2 value,bus := .saNext .step3 }
  | .step3 => { s with port := s.port.writeStep3 value,bus := .saNext .step4 }
  | .step4 => { s with bus := if value &&& 0x1 != 0 then .saNext .complete else .idle }
  | .complete => { s with bus := .idle }

def busStep (s : State δ) : Option (State δ) :=
  match s.bus with
  | .idle => none
  | .ipZeroed => some { s with port := s.port.stateTransition .uninitialized,bus := .idle }
  | .doorbell => some { s.initPolling with bus := .idle }
  | .saTaken value step => some (s.writeSA value step)
  | .saNext nextStep => some { s with
      port := s.port.stateTransition nextStep
      bus := if nextStep=.complete then .saGo else .idle }
  | .saGo => some { s with port := s.port.updateSA 0,bus := .idle }

/-- `Reset` of the server, up to its wait. -/
def serverReset (s : State δ) (generation : Nat) : State δ :=
  if s.pollState=.wait then { s with worker := .clear generation }
  else { { s with pollState := .initRestart }.broadcast with worker := .waiting generation }

def workerStep (c : Controller δ) (ok : Bool) (s : State δ) : Option (State δ) :=
  match s.worker with
  | .wait =>
    if s.port.nextStep then
      some { s with port := { s.port with nextStep := false },worker := .take }
    else none
  | .take =>
    let generation := s.port.stepGeneration
    some { s with worker := match s.port.initStep with
      | .uninitialized => .clearSA generation
      | .complete => .wait
      | step => .check step generation }
  | .clearSA generation =>
    some { s with port := s.port.updateSA 0,worker := .reset generation }
  | .reset generation => some (s.serverReset generation)
  | .waiting _ => none
  | .woken generation =>
    some { s with
      worker := if s.pollState=.wait then .clear generation else .waiting generation }
  | .clear generation =>
    some { s with
      server := ⟨initCredits,c.resetDrives s.server.drives⟩
      port := s.port.reset
      worker := .chain generation }
  | .chain generation =>
    some { s with port := s.port.chainTransition generation .step1,worker := .wait }
  | .check step generation =>
    some { s with worker :=
      if s.port.stepCurrent generation then
        if step=.step4 then .commArea generation else .publish step generation
      else .wait }
  | .commArea generation =>
    some { s with
      mem := if ok then s.mem.clearCommArea s.port else s.mem
      worker := .publish .step4 generation }
  | .publish step generation =>
    some { s with
      port := s.port.updateSA
        (s.port.stepCode c.capabilityFlags c.microcodeId c.twentyTwoBitDMA step)
      worker := if step=.step1 then .wait else .interrupt step generation }
  | .interrupt _ _ => some { s with port := s.port.interrupt,worker := .wait }

def portErrorAt (s : State δ) (code : Nat) (k : AfterError) : State δ :=
  { s with poller := .errorSA code k }

/-- How often `LingerForNextCommand` looks: `POLL_LINGER_TOTAL_US/POLL_LINGER_INTERVAL_US`. -/
def lingerRounds : Nat := 3000000/5000

def getNextCommand (ok : Bool) (s : State δ) (q : Queue) : State δ :=
  let address := s.port.commandDescriptorAddress s.port.commandRingPointer
  let d := s.mem.desc address
  if !ok then s.portErrorAt portErrorPacketRead (.fetch q.msgCount)
  else if d.owner then { s with poller := .readLength q address d }
  else { s with poller := .exec q }

def postResponse (ok : Bool) (s : State δ) (q : Queue) (r : Message) : State δ :=
  let address := s.port.responseDescriptorAddress s.port.responseRingPointer
  let d := s.mem.desc address
  if !ok then s.portErrorAt portErrorPacketRead (.post q r)
  else if d.owner then { s with poller := .postLength q r address d }
  else { s with poller := .hold q r }

def afterError : AfterError → PollerPc
  | .fetch msgCount => .exec ⟨[],msgCount⟩
  | .post q r => .hold q r
  | .pending waited => .settle waited

def endOfPass (s : State δ) (moreWork : Bool) : State δ :=
  match s.pollState with
  | .initRestart => { { s with pollState := .wait }.broadcast with poller := .top }
  | .initRun => { s with pollState := .run,poller := .top }
  | _ => { s with pollState := if moreWork then .run else .wait,poller := .top }

def pollStep (c : Controller δ) (ok : Bool) (s : State δ) : Option (State δ) :=
  match s.poller with
  | .blocked => none
  | .top =>
    some (if s.pollState=.wait then { s with poller := .blocked }
      else { s with
        pollState := if s.pollState=.initRun then .run else s.pollState
        poller := .ring ⟨[],0⟩ })
  | .ring q =>
    some { s with
      poller := if s.pollState=.initRestart then .exec q else .readDescriptor q }
  | .readDescriptor q => some (s.getNextCommand ok q)
  | .readLength q address d =>
    let messageLength := (s.mem.mail d.envelope).messageLength
    some (if !ok || messageLength == 0 || maxMessageLength ≤ messageLength
      then s.portErrorAt portErrorRingRead (.fetch q.msgCount)
      else { s with poller := .readMessage q address d messageLength })
  | .readMessage q address d messageLength =>
    -- a transfer of an odd length is refused
    some (if !ok || messageLength%2 != 0 then s.portErrorAt portErrorRingRead (.fetch q.msgCount)
      else { s with poller := .giveBack q address d (s.mem.mail d.envelope) })
  | .giveBack q address d m =>
    some (if !ok then s.portErrorAt portErrorRingWrite (.fetch q.msgCount)
      else { s with mem := s.mem.putDescriptor address d.back,poller := .advance q d.flag m })
  | .advance q flag m =>
    some { s with
      port := { s.port with
        commandRingPointer := (s.port.commandRingPointer+1)%s.port.commandRingLength }
      poller := if flag then .markCommand q m else .ring ⟨q.messages++[m],q.msgCount+1⟩ }
  | .markCommand q m =>
    some { s with
      mem := if ok then { s.mem with commandTransition := true } else s.mem
      poller := .interruptCommand q m }
  | .interruptCommand q m =>
    some { s with port := s.port.interrupt,poller := .ring ⟨q.messages++[m],q.msgCount+1⟩ }
  | .exec q =>
    some { s with poller :=
      match q.messages with
      | [] => if 0<q.msgCount then .linger 0 else .endPass false
      | m::ms =>
        if s.pollState=.initRestart then
          if 0<q.msgCount then .linger 0 else .endPass false
        else .serve ⟨ms,q.msgCount⟩ m }
  | .serve q m =>
    let r := execute c s.server m
    some { s with
      server := r.1
      log := { s.log with executed := s.log.executed++[m] }
      poller := .postDescriptor q r.2 }
  | .postDescriptor q r => some (s.postResponse ok q r)
  | .postLength q r address d => some { s with poller := .postMessage q r address d }
  | .postMessage q r address d =>
    some { s with
      mem := if ok then s.mem.putPacket d.envelope r.transferred else s.mem
      poller := .postGiveBack q r address d }
  | .postGiveBack q r address d =>
    some { s with
      mem := if ok then s.mem.putDescriptor address d.back else s.mem
      log := { s.log with posted := s.log.posted++[r.transferred] }
      poller := if d.flag then .markResponse q else .postAdvance q }
  | .markResponse q =>
    some { s with
      mem := if ok then { s.mem with responseTransition := true } else s.mem
      poller := .interruptResponse q }
  | .interruptResponse q => some { s with port := s.port.interrupt,poller := .postAdvance q }
  | .postAdvance q =>
    some { s with
      port := { s.port with
        responseRingPointer := (s.port.responseRingPointer+1)%s.port.responseRingLength }
      poller := .exec q }
  | .hold q r =>
    some { s with poller := if s.pollState=.initRestart then .exec q else .holdRunning q r }
  | .holdRunning q r =>
    some { s with poller := if s.port.isRunning then .postDescriptor q r else .exec q }
  | .linger waited =>
    some { s with poller :=
      if waited<lingerRounds ∧ s.pollState=.run then .pendingBase waited
      else .endPass false }
  | .pendingBase waited =>
    some { s with poller := if s.port.ringBase=0 then .settle waited else .pendingRunning waited }
  | .pendingRunning waited =>
    some { s with poller := if s.port.isRunning then .pendingRead waited else .settle waited }
  | .pendingRead waited =>
    let address := s.port.commandDescriptorAddress s.port.commandRingPointer
    some (if !ok then s.portErrorAt portErrorPacketRead (.pending waited)
      else { s with poller := if (s.mem.desc address).owner then .endPass true else .settle waited })
  | .settle waited =>
    some { s with poller := if s.pollState=.run then .doze waited else .linger (waited+1) }
  | .doze waited => some { s with poller := .linger (waited+1) }
  | .errorSA code k =>
    some { s with port := s.port.updateSA (portError ||| code),poller := .errorReset code k }
  | .errorReset _ k =>
    some { s with port := s.port.stateTransition .uninitialized,poller := afterError k }
  | .endPass moreWork => some (s.endOfPass moreWork)

/-- Where the host fills in its next command, and where it takes and gives back its next response. -/
def commandAddress (s : State δ) : Nat :=
  s.port.commandDescriptorAddress (s.host.handed.length%s.port.commandRingLength)

def responseAddress (s : State δ) : Nat :=
  s.port.responseDescriptorAddress (s.host.taken.length%s.port.responseRingLength)

def returnAddress (s : State δ) : Nat :=
  s.port.responseDescriptorAddress (s.host.returned%s.port.responseRingLength)

def access (s : State δ) (t : State δ) : Option (State δ) :=
  if s.bus=.idle then some t else none

def step (c : Controller δ) (s : State δ) : Action → Option (State δ)
  | .ipWrite => s.access { s with port := s.port.updateSA 0,bus := .ipZeroed }
  | .ipRead => s.access { s with bus := if s.port.isRunning then .doorbell else .idle }
  | .saWrite value => s.access { s with bus := .saTaken value s.port.initStep }
  | .init => s.access { s with port := s.port.stateTransition .uninitialized }
  | .bus => s.busStep
  | .worker ok => s.workerStep c ok
  | .poll ok => s.pollStep c ok
  | .wakeWorker =>
    match s.worker with
    | .waiting generation => some { s with worker := .woken generation }
    | _ => none
  | .wakePoller => if s.poller=.blocked then some { s with poller := .top } else none
  | .writeDescriptor address d => some { s with mem := s.mem.putDescriptor address d }
  | .writePacket envelope packet => some { s with mem := s.mem.putPacket envelope packet }
  | .command envelope flag =>
    some { s with
      mem := s.mem.putDescriptor s.commandAddress ⟨envelope,flag,true⟩
      host := { s.host with handed := s.host.handed++[s.mem.mail envelope] } }
  | .collect =>
    let d := s.mem.desc s.responseAddress
    some { s with host := { s.host with taken := s.host.taken++[s.mem.mail d.envelope] } }
  | .giveBack envelope flag =>
    some { s with
      mem := s.mem.putDescriptor s.returnAddress ⟨envelope,flag,true⟩
      host := { s.host with returned := s.host.returned+1 } }

end State

def State.start {δ : Type} (drives : δ) (mem : Memory) : State δ where
  port := .start
  pollState := .wait
  server := ⟨initCredits,drives⟩
  mem := mem
  bus := .idle
  worker := .wait
  poller := .top
  host := ⟨[],0,[],0⟩
  log := ⟨[],[]⟩

def Memory.blank : Memory where
  desc _ := ⟨0,false,false⟩
  mail _ := ⟨0,0,0,0,0,0,0,0,0,0,[]⟩
  commandTransition := false
  responseTransition := false

end QUniLator.Mscp
