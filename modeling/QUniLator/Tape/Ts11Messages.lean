import QUniLator.Framework.Run

namespace QUniLator.Tape.Ts

inductive Tc
  | normal | attention | tapeStatusAlert | functionReject | recoverableOneRecord | recoverableNoMotion
  | unrecoverable
  deriving DecidableEq,Repr

inductive MessageType
  | endMessage | fail | error | attention
  deriving DecidableEq,Repr

/-- The type and class of a message, and where and how long it was written -/
structure Message where
  type : MessageType
  classCode : Nat
  ack : Bool
  addr : Nat
  bytes : Nat
  deriving DecidableEq,Repr

/-- The five bits of a command code -/
inductive Code
  | read | writeCharacteristics | write | writeSubsystemMem | position | format | control | driveInit
  | getStatus | other
  deriving DecidableEq,Repr

def Code.ofBits : Nat → Code
  | 0o01 => .read
  | 0o04 => .writeCharacteristics
  | 0o05 => .write
  | 0o06 => .writeSubsystemMem
  | 0o10 => .position
  | 0o11 => .format
  | 0o12 => .control
  | 0o13 => .driveInit
  | 0o17 => .getStatus
  | _ => .other

def commandModeLegal (code : Code) (mode : Nat) : Bool :=
  match code with
  | .read => mode≤3
  | .write => mode == 0 || mode == 2
  | .position => mode≤4
  | .format => mode≤2
  | .control => mode≤2 || mode == 4
  | .writeCharacteristics | .writeSubsystemMem | .driveInit | .getStatus => mode == 0
  | .other => false

structure Packet where
  header : Nat
  low : Nat
  high : Nat
  count : Nat
  deriving DecidableEq,Repr

namespace Packet

variable (p : Packet)

def ack : Bool := p.header/0x8000%2=1

def cvc : Bool := p.header/0x4000%2=1

def mode : Nat := p.header/0x100%16

def format : Nat := p.header/0x20%8

def code : Code := .ofBits (p.header%0x20)

def enables : Bool := p.format/4%2=1

def namesTheBuffer : Bool := p.code == .writeCharacteristics || p.code == .writeSubsystemMem

def motion : Bool := p.code == .read || p.code == .write || p.code == .position || p.code == .format

end Packet

/-- What a command finds: its packet and the words of the characteristics, none where the DMA fails; whether the
transport is on-line, and whether going off-line is noticed at once. -/
structure Found where
  packet : Option Packet
  chars : Option (Nat × Nat × Nat × Nat × Nat)
  online : Bool
  noticed : Bool
  deriving DecidableEq,Repr

/-- `ts11_c`. Recorded are the messages written, last first; address and extent of the last accepted write
characteristics; how many packets came with ACK; and how many conditions were raised, neither reported nor cleared. -/
structure Ts11 where
  extended : Bool
  ssr : Bool
  rmr : Bool
  nba : Bool
  tc : Tc
  commandPointer : Nat
  msgbufAddr : Nat
  msgbufLen : Nat
  ess : Bool
  enb : Bool
  eai : Bool
  eri : Bool
  interruptEnable : Bool
  msgbufOwned : Bool
  attnPending : Bool
  attnClass : Nat
  volumeCheck : Bool
  unitSelect : Nat
  initAsserted : Bool
  pendingCommand : Bool
  pendingAttention : Bool
  resetGeneration : Nat
  commandGeneration : Nat
  moving : Bool
  sent : List Message
  named : Option (Nat × Nat)
  acks : Nat
  unreported : Nat
  deriving DecidableEq,Repr

/-- The host writes a command pointer or initializes the subsystem; INIT changes; a condition of the transport comes
up; the worker answers an attention, takes a command, drops what is pending under INIT, or ends a command that moved
the tape. It may notice a change of the transport first. -/
inductive Event
  | write (pointer : Nat)
  | reset
  | init (asserted : Bool)
  | transportStatus
  | attend (noticed : Bool)
  | command (noticed : Bool) (f : Found)
  | dropped
  | motionEnds (tc : Tc) (refused : Bool)
  deriving DecidableEq,Repr

def Event.conditions : Event → Nat
  | .transportStatus => 1
  | .attend noticed | .command noticed _ => noticed.toNat
  | _ => 0

namespace Ts11

variable (s : Ts11)

def packetAddress (low high : Nat) : Option Nat :=
  if s.extended then if high/0x40%0x400≠0 then none else some (low+high%0x40*0x10000)
  else if high/4%0x4000≠0 then none else some (low+high%4*0x10000)

def sendMessage (type : MessageType) (classCode : Nat) (ack : Bool) : Ts11 :=
  { s with sent := ⟨type,classCode,ack,s.msgbufAddr,if s.extended && decide (s.msgbufLen ≥ 16) then 16 else 14⟩
                     :: s.sent }

def sendAttention : Ts11 :=
  { { s with attnPending := false,unreported := 0,tc := .attention }.sendMessage .attention s.attnClass false with
    msgbufOwned := false,ssr := true }

def endMessage (tc : Tc) (refused : Bool) : MessageType × Nat :=
  match tc with
  | .normal | .tapeStatusAlert => (.endMessage,0)
  | .attention => (.attention,0)
  | .functionReject => (.fail,if refused then 2 else 1)
  | _ => (.error,0)

def deposit (tc : Tc) (refused suppress : Bool) : Ts11 :=
  if s.msgbufOwned && !s.nba && !suppress then
    s.sendMessage (endMessage tc refused).1 (endMessage tc refused).2 true
  else s

def giveBack (suppress : Bool) : Ts11 :=
  if s.msgbufOwned && !suppress then { s with msgbufOwned := false } else s

/-- `terminate`; `refused` is a write lock error or a nonexecutable function. -/
def terminate (tc : Tc) (refused suppress : Bool) : Ts11 :=
  if s.resetGeneration≠s.commandGeneration then s
  else { ({ s with tc := tc }.deposit tc refused suppress).giveBack suppress with ssr := true }

def raiseAttention (classCode : Nat) : Ts11 :=
  if !s.eai then s
  else
    let s := { s with attnPending := true,attnClass := classCode }
    if !s.msgbufOwned || s.nba || !s.ssr then s else { s with pendingAttention := true }

/-- `check_transport_status`, where the transport changed -/
def checkTransportStatus : Ts11 :=
  { s with volumeCheck := true,unreported := if s.eai then s.unreported+1 else s.unreported }.raiseAttention 0

def resetSubsystem : Ts11 :=
  { s with
    ssr := true,nba := true,rmr := false,tc := .normal,msgbufAddr := 0,msgbufLen := 0
    ess := false,enb := false,eai := false,eri := false,interruptEnable := false
    msgbufOwned := false,attnPending := false,attnClass := 0,volumeCheck := true,unitSelect := 0
    pendingCommand := false,pendingAttention := false,commandPointer := 0
    resetGeneration := s.resetGeneration+1,unreported := 0 }

def setModes (count w : Nat) : Ts11 :=
  if count<7 then s
  else
    { s with
      ess := w/0x80%2=1,enb := w/0x40%2=1,eai := w/0x20%2=1,eri := w/0x10%2=1
      attnPending := s.attnPending && decide (w/0x20%2=1)
      unreported := if w/0x20%2=1 then s.unreported else 0 }

def setUnit (count w : Nat) : Ts11 :=
  if s.extended && decide (count ≥ 10) then { s with unitSelect := w%8 } else s

def clearNba : Ts11 := { s with nba := false }

def commandWriteCharacteristics (p : Packet) (chars : Option (Nat × Nat × Nat × Nat × Nat)) : Ts11 :=
  match if p.low%2=1 then none else s.packetAddress p.low p.high with
  | none => { s with nba := true }.terminate .functionReject false true
  | some _ =>
    if p.count<6 then { s with nba := true }.terminate .functionReject false false
    else
      match chars with
      | none => { s with nba := true }.terminate .recoverableNoMotion false false
      | some (w0,w1,w2,w3,w4) =>
        match if w0%2=1 then none else s.packetAddress w0 w1 with
        | none => { s with nba := true }.terminate .functionReject false false
        | some msgbuf =>
          if w2<14 then { s with nba := true }.terminate .functionReject false false
          else
            ((({ s with msgbufAddr := msgbuf,msgbufLen := w2,named := some (msgbuf,w2) }.setModes p.count
              w3).setUnit p.count w4).clearNba).terminate .normal false false

def releaseBuffer : Ts11 :=
  if s.attnPending && s.msgbufOwned && !s.nba then s.raiseAttention s.attnClass else s

def notice (noticed : Bool) : Ts11 :=
  if noticed then s.checkTransportStatus else s

def commandControl (mode : Nat) (noticed : Bool) : Ts11 :=
  match mode with
  | 0 => { s with tc := .normal,ssr := true }.releaseBuffer
  | 1 => (s.notice noticed).terminate .normal false false
  | 2 => s.terminate .normal false false
  | 4 => if s.extended then s.terminate .normal false false else s.terminate .functionReject false false
  | _ => s.terminate .functionReject false false

def transferData (p : Packet) : Ts11 :=
  match s.packetAddress p.low p.high with
  | none => s.terminate .functionReject false false
  | some _ => { s with moving := true }

def perform (p : Packet) (f : Found) : Ts11 :=
  match p.code with
  | .getStatus => s.terminate .normal false false
  | .driveInit => { s with unitSelect := 0 }.terminate .normal false false
  | .read | .write => s.transferData p
  | .writeCharacteristics => s.commandWriteCharacteristics p f.chars
  | .position | .format => { s with moving := true }
  | .control => s.commandControl p.mode f.noticed
  | .writeSubsystemMem | .other => s.terminate .functionReject false false

def decode (p : Packet) (f : Found) : Ts11 :=
  if p.format%4≠0 then s.terminate .functionReject false false
  else if s.nba && !(p.code == .writeCharacteristics) then s.terminate .functionReject true false
  else if p.motion && (decide (s.unitSelect≠0) || !f.online || s.volumeCheck) then
    s.terminate .functionReject true false
  else if !commandModeLegal p.code p.mode then s.terminate .functionReject false false
  else s.perform p f

def takeBuffer (ack : Bool) : Ts11 :=
  if ack then { s with msgbufOwned := true,acks := s.acks+1 } else s

def executePacket (p : Packet) (f : Found) : Ts11 :=
  if s.attnPending && s.eai && s.msgbufOwned && !s.nba && !p.namesTheBuffer then s.sendAttention
  else { s with interruptEnable := p.enables,volumeCheck := s.volumeCheck && !p.cvc }.decode p f

/-- `execute_command`, up to the motion of the tape -/
def executeCommand (f : Found) : Ts11 :=
  match f.packet with
  | none => s.terminate .recoverableNoMotion false false
  | some p => (s.takeBuffer p.ack).executePacket p f

def takePending (noticed : Bool) : Ts11 :=
  { { s with pendingCommand := false,pendingAttention := false }.notice noticed with
    commandGeneration := s.resetGeneration }

def attend : Ts11 :=
  if s.attnPending && s.msgbufOwned && !s.nba then { s with ssr := false }.sendAttention else s

def step (e : Event) : Option Ts11 :=
  match e with
  | .write pointer =>
    if s.ssr then some { s with rmr := false,commandPointer := pointer,ssr := false,pendingCommand := true }
    else some { s with rmr := true }
  | .reset => some s.resetSubsystem
  | .init asserted =>
    some (if asserted then { s with initAsserted := true } else { s with initAsserted := false }.resetSubsystem)
  | .transportStatus => some s.checkTransportStatus
  | .attend noticed =>
    if s.initAsserted ∨ s.moving ∨ s.pendingCommand ∨ !s.pendingAttention then none
    else some (s.takePending noticed).attend
  | .command noticed f =>
    if s.initAsserted ∨ s.moving ∨ !s.pendingCommand then none
    else some ((s.takePending noticed).executeCommand f)
  | .dropped =>
    if s.initAsserted ∧ !s.moving then some { s with pendingCommand := false,pendingAttention := false } else none
  | .motionEnds tc refused =>
    -- no motion ends with an attention
    if s.moving ∧ tc≠.attention then some ({ s with moving := false }.terminate tc refused false) else none

def start (extended : Bool) : Ts11 :=
  ⟨extended,true,false,true,.normal,0,0,0,false,false,false,false,false,false,false,0,true,0,false,false,false,0,0,
    false,[],none,0,0⟩

/-- A step writes no message, or one, with the buffer owned and NBA clear, at the place of the last accepted write
characteristics, and gives the buffer back. -/
def Writes (s t : Ts11) (owned : Prop) : Prop :=
  t.sent=s.sent ∨ ∃ m,t.sent=m::s.sent ∧ owned ∧ t.nba=false ∧ t.msgbufOwned=false ∧
    ∃ addr extent,t.named=some (addr,extent) ∧ m.addr=addr ∧ (m.bytes=14 ∨ m.bytes=16) ∧
      m.bytes≤extent

/-- The controller has the buffer, by a command before or by the packet that it takes. -/
def Owns (s : Ts11) (e : Event) : Prop :=
  s.msgbufOwned=true ∨ ∃ noticed f p,e=.command noticed f ∧ f.packet=some p ∧ p.ack=true

def standing (s : Ts11) (e : Event) : Nat :=
  s.unreported+if s.eai then e.conditions else 0

/-- A step reports the conditions that stand, by one message; or it writes no attention message, and they stand
on or are cleared with EAI. -/
def Reports (s t : Ts11) (standing : Nat) : Prop :=
  (0<standing ∧ t.unreported=0 ∧ ∃ m,t.sent=m::s.sent ∧ m.type=.attention) ∨
  ((t.sent=s.sent ∨ ∃ m,t.sent=m::s.sent ∧ m.type≠.attention) ∧
    (standing≤t.unreported ∨ t.eai=false))

/-- The worker, or a command whose packet is fetched and does not name the buffer, answers with the attention if
the controller owns the buffer. -/
def Answers (s t : Ts11) (e : Event) : Prop :=
  0<s.standing e → s.nba=false →
    (∀ noticed,e=.attend noticed → s.msgbufOwned=true → t.unreported=0 ∧ t.msgbufOwned=false) ∧
    ∀ noticed f p,e=.command noticed f → f.packet=some p → p.namesTheBuffer=false →
      (s.msgbufOwned=true ∨ p.ack=true) → t.unreported=0 ∧ t.msgbufOwned=false

/-- Every message had an ACK of its own, and so has the buffer that is owned; a condition is pending as long as
it stands, and only with EAI; where the controller owns the buffer and is ready it goes out next. -/
structure Right : Prop where
  owned : s.sent.length+s.msgbufOwned.toNat ≤ s.acks
  pending : s.attnPending=true ↔ 0<s.unreported
  enabled : s.attnPending=true → s.eai=true
  ready : s.initAsserted=false → s.attnPending=true → s.msgbufOwned=true → s.nba=false → s.ssr=true →
    s.pendingAttention=true

end Ts11

end QUniLator.Tape.Ts
