import QUniLator.Framework.Run
import QUniLator.Web.KermitPacket

namespace QUniLator.Web.Kermit

/-- A packet on the line, as the characters that stand for it. `number` counts the packets from the Send-Init
on, where the packet itself has it modulo 64. -/
structure Frame where
  number : Nat
  packet : Packet
  chars : List Nat
  deriving Repr

inductive SendPhase
  | init | header | data | eof | brk | done | failed
  deriving DecidableEq,Repr

/-- `sendKermit`, which waits for the answer to a packet -/
structure Sender where
  name : List Nat
  bytes : List UInt8
  startTries : Nat
  eol : Nat
  npad : Nat
  padc : Nat
  maxl : Int
  qbin : Bool
  seq : Nat
  rest : List UInt8
  tries : Nat
  phase : SendPhase
  deriving Repr

/-- Longest packet, timeout, padding, its character, end of line, the prefixes, check and repeat counts -/
def initData : List Nat := [tochar 94,tochar 10,tochar 0,ctl 0,tochar 13,0x23,0x26,0x31,0x20]

def cancelled : List Nat := [0x43,0x61,0x6e,0x63,0x65,0x6c,0x6c,0x65,0x64]

def fill (qbin : Bool) (room len : Nat) : List UInt8 → List Nat × List UInt8
  | [] => ([],[])
  | b::bs =>
    let enc := kermitEncode b.toNat qbin
    if len+enc.length > room then ([],b::bs)
    else (enc++(fill qbin room (len+enc.length) bs).1,(fill qbin room (len+enc.length) bs).2)

namespace Sender

variable (s : Sender)

def chunk : List Nat × List UInt8 := fill s.qbin (s.maxl-3).toNat 0 s.rest

def packet : Packet :=
  match s.phase with
  | .init => ⟨s.seq,'S',initData⟩
  | .header => ⟨s.seq,'F',(kermitName s.name).flatMap (kermitEncode · s.qbin)⟩
  | .data => ⟨s.seq,'D',s.chunk.1⟩
  | .eof => ⟨s.seq,'Z',[]⟩
  | .brk => ⟨s.seq,'B',[]⟩
  | .done | .failed => ⟨s.seq,'E',cancelled⟩

def frame (number : Nat) : Frame :=
  ⟨number,s.packet,kermitPacket s.seq s.packet.type s.packet.data s.eol s.npad s.padc⟩

def maxTries : Nat := if s.phase=.init then s.startTries else 10

def negotiate (p : List Nat) : Sender :=
  { s with
    maxl := match p[0]? with
      | some c => min 94 (max 20 (unchar c))
      | none => s.maxl
    npad := match p[2]? with
      | some c => (unchar c).toNat
      | none => s.npad
    padc := match p[3]? with
      | some c => ctl c
      | none => s.padc
    eol := match p[4]? with
      | some c => if unchar c > 0 then (unchar c).toNat else s.eol
      | none => s.eol
    qbin := p[6]? == some 0x59 || p[6]? == some 0x26 }

/-- The packet is acknowledged, by a packet with `data`. -/
def accept (data : List Nat) : Sender :=
  let s := { s with seq := (s.seq+1) % 64,tries := 0 }
  match s.phase with
  | .init =>
    let s := s.negotiate data
    if !s.qbin && s.bytes.any (128 ≤ ·) then { s with phase := .failed } else { s with phase := .header }
  | .header => { s with rest := s.bytes,phase := if s.bytes=[] then .eof else .data }
  | .data => { s with rest := s.chunk.2,phase := if s.chunk.2=[] then .eof else .data }
  | .eof => { s with phase := .brk }
  | .brk => { s with phase := .done }
  | .done | .failed => s

end Sender

structure ReceivedFile where
  name : List Nat
  data : List UInt8
  deriving DecidableEq,Repr

/-- The files and the file that is coming -/
structure Contents where
  prefixes : Prefixes
  files : List ReceivedFile
  name : List Nat
  chunks : List Nat
  deriving DecidableEq,Repr

/-- `receiveKermit`'s switch on the type of a packet -/
def Contents.take (lf : Bool) (c : Contents) (p : Packet) : Contents :=
  if p.type = 'F' then { c with name := receivedName c.prefixes p.data,chunks := [] }
  else if p.type = 'D' then { c with chunks := c.chunks++decode c.prefixes p.data }
  else if p.type = 'Z' then
    if p.data[0]? = some 0x44 then c
    else
      let data := c.chunks.map UInt8.ofNat
      { c with files := c.files++[⟨c.name,if lf then textToLf data else data⟩] }
  else c

inductive ReceivePhase
  | waiting | running | done | failed
  deriving DecidableEq,Repr

structure Receiver where
  lf : Bool
  eol : Nat
  npad : Nat
  padc : Nat
  contents : Contents
  ours : List Nat
  seq : Nat
  last : Option Frame
  tries : Nat
  phase : ReceivePhase
  deriving Repr

/-- The prefixes the sender's parameters settle, and the answers to the two it asks for -/
def prefixesOf (sp : List Nat) : Prefixes × Nat × Nat :=
  let qctl := match sp[5]? with
    | some c => if c≠0x20 then c else 0x23
    | none => 0x23
  let offered := sp.getD 6 0x4e
  let (qbin,qbinAnswer) :=
    if offered=0x59 then (0x26,0x26)
    else if (33≤offered ∧ offered≤62) ∨ (96≤offered ∧ offered≤126) then (offered,0x59)
    else (0,0x4e)
  let (rept,reptAnswer) := match sp[8]? with
    | some c => if c≠0x20 ∧ c≠qctl ∧ c≠qbin then (c,c) else (0,0x20)
    | none => (0,0x20)
  (⟨qctl,qbin,rept⟩,qbinAnswer,reptAnswer)

namespace Receiver

variable (r : Receiver)

def negotiate (sp : List Nat) : Receiver :=
  { r with
    npad := match sp[2]? with
      | some c => (unchar c).toNat
      | none => r.npad
    padc := match sp[3]? with
      | some c => ctl c
      | none => r.padc
    eol := match sp[4]? with
      | some c => if unchar c > 0 then (unchar c).toNat else r.eol
      | none => r.eol
    contents := { r.contents with prefixes := (prefixesOf sp).1 }
    ours := [tochar 94,tochar 10,tochar 0,ctl 0,tochar 13,(prefixesOf sp).1.qctl,(prefixesOf sp).2.1,0x31,
      (prefixesOf sp).2.2] }

def frame (number seq : Nat) (type : Char) (data : List Nat) : Frame :=
  ⟨number,⟨seq,type,data⟩,kermitPacket seq type data r.eol r.npad r.padc⟩

def replyData (p : Packet) : List Nat := if p.type = 'S' then r.ours else []

end Receiver

/-- The sender and the receiver, what was ever sent each way, and the packets counted: those sent, found acknowledged
by the sender, and taken by the receiver. -/
structure Link where
  sender : Sender
  receiver : Receiver
  sent : List Frame
  answered : List Frame
  script : List Packet
  acked : Nat
  taken : Nat
  deriving Repr

/-- What one of the two finds on the line until the packet, or the timeout, that it waits for; or its user
cancels. -/
inductive Event
  | sender (chars : List Nat)
  | senderCancel
  | receiver (chars : List Nat)
  | receiverCancel
  deriving Repr

namespace Link

variable (l : Link)

def senderFails : Link :=
  let s := { l.sender with phase := .failed }
  { l with sender := s,sent := s.frame l.acked::l.sent }

/-- `exchange`, the next try -/
def retry : Link :=
  if l.sender.tries+1<l.sender.maxTries then
    { l with sender := { l.sender with tries := l.sender.tries+1 },sent := l.sender.frame l.acked::l.sent }
  else l.senderFails

def acknowledged (data : List Nat) : Link :=
  let s := l.sender.accept data
  let l := { l with sender := s,acked := l.acked+1 }
  if s.phase=.done then l
  else if s.phase=.failed then { l with sent := s.frame l.acked::l.sent }
  else { l with sent := s.frame l.acked::l.sent,script := l.script++[s.packet] }

def answer : Option Packet → Link
  | none => l.retry
  | some p =>
    if p.type = 'E' then { l with sender := { l.sender with phase := .failed } }
    else if (p.type = 'Y' ∧ p.seq=l.sender.seq) ∨ (p.type = 'N' ∧ p.seq=((l.sender.seq+1) % 64 : Nat)) then
      l.acknowledged p.data
    else if p.type = 'N' then l.retry
    else l

def reply (number seq : Nat) (type : Char) (data : List Nat) : Link :=
  let f := l.receiver.frame number seq type data
  { l with receiver := { l.receiver with last := some f },answered := f::l.answered }

def resend : Link :=
  match l.receiver.last with
  | some f => { l with answered := f::l.answered }
  | none => l.reply l.taken l.receiver.seq 'N' []

def await : Option Packet → Link
  | some p =>
    if p.type = 'S' then
      let r := l.receiver.negotiate p.data
      let seq := (p.seq % 64).toNat
      let f := r.frame l.taken seq 'Y' r.ours
      { l with
        receiver := { r with last := some f,seq := (seq+1) % 64,phase := .running }
        answered := f::l.answered
        taken := l.taken+1 }
    else if p.type = 'E' then { l with receiver := { l.receiver with phase := .failed } }
    else { l with answered := l.receiver.frame 0 0 'N' []::l.answered }
  | none => { l with answered := l.receiver.frame 0 0 'N' []::l.answered }

def take (p : Packet) : Link :=
  let r := l.receiver
  let f := r.frame l.taken r.seq 'Y' (r.replyData p)
  { l with
    receiver := { r with contents := r.contents.take r.lf p,last := some f,seq := (r.seq+1) % 64,
                         phase := if p.type = 'B' then .done else r.phase }
    answered := f::l.answered
    taken := l.taken+1 }

def receive : Option Packet → Link
  | none =>
    if l.receiver.tries+1 > 10 then { l with receiver := { l.receiver with phase := .failed } }
    else { l with receiver := { l.receiver with tries := l.receiver.tries+1 } }.resend
  | some p =>
    let l := { l with receiver := { l.receiver with tries := 0 } }
    if p.type = 'E' then { l with receiver := { l.receiver with phase := .failed } }
    else if p.seq=((l.receiver.seq+63) % 64 : Nat) then l.resend
    else if p.seq≠l.receiver.seq then l
    else l.take p

def step (e : Event) : Option Link :=
  match e with
  | .sender chars =>
    if l.sender.phase=.done ∨ l.sender.phase=.failed then none
    else some (l.answer (kermitReceive chars))
  | .senderCancel =>
    if l.sender.phase=.done ∨ l.sender.phase=.failed then none else some l.senderFails
  | .receiver chars =>
    match l.receiver.phase with
    | .waiting => some (l.await (kermitReceive chars))
    | .running => some (l.receive (kermitReceive chars))
    | .done | .failed => none
  | .receiverCancel =>
    match l.receiver.phase with
    | .waiting | .running =>
      some { l with receiver := { l.receiver with phase := .failed },
                    answered := l.receiver.frame l.taken l.receiver.seq 'E' cancelled::l.answered }
    | .done | .failed => none

def start (name : List Nat) (data : List UInt8) (text : Bool) (startTimeoutMs : Nat) (lf : Bool) : Link :=
  let s : Sender := ⟨name,if text then kermitText data else data,max 1 ((startTimeoutMs+4999)/5000),0x0d,0,0,80,
    false,0,[],0,.init⟩
  ⟨s,⟨lf,0x0d,0,0,⟨⟨0x23,0,0⟩,[],[],[]⟩,[],0,none,0,.waiting⟩,[s.frame 0],[],[s.packet],0,0⟩

/-- A packet that is found good is one that was sent, and none that is more than 63 before the one which its
reader is at. -/
def Detected : Event → Prop
  | .sender chars => ∀ p∈kermitReceive chars,∃ f∈l.answered,f.packet=p ∧ l.acked≤f.number+63
  | .receiver chars => ∀ p∈kermitReceive chars,∃ f∈l.sent,f.packet=p ∧ l.taken≤f.number+63
  | .senderCancel | .receiverCancel => True

def replay (lf : Bool) : List Packet → Contents
  | [] => ⟨⟨0x23,0,0⟩,[],[],[]⟩
  | p::ps => ps.foldl (Contents.take lf) ⟨(prefixesOf p.data).1,[],[],[]⟩

def result : List ReceivedFile := if l.receiver.phase=.done then l.receiver.contents.files else []

/-- The receiver has what the first packets make, each taken once and in order; its files are those that an EOF
packet closed; and where the sender is done, the one file it recorded is the one sent. -/
structure Right (bytes : List UInt8) : Prop where
  once : l.receiver.contents=replay l.receiver.lf (l.script.take l.taken)
  closed : l.receiver.contents.files.length≤((l.script.take l.taken).filter (·.type = 'Z')).length
  failed : l.receiver.phase=.failed → l.result=[]
  exact : l.sender.phase=.done → ∃ name,
    l.receiver.contents.files=[⟨name,if l.receiver.lf then textToLf bytes else bytes⟩]

end Link

end QUniLator.Web.Kermit
