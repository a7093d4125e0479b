import QUniLator.Framework.Run
import Mathlib.Data.List.Sort

namespace QUniLator.Web

def esc : UInt8 := 0x1b

def isFinal (b : UInt8) : Bool := 0x40≤b && b≤0x7e

/-- How long the query is that begins here: DECID, Device Attributes or Device Status Report. 0 where none
does. -/
def queryLength : List UInt8 → Nat
  | c::c1::s =>
    if c=esc then
      if c1=0x5a then 2 else if c1=0x5b then
        match s.find? isFinal with
        | some f => if f=0x63 ∨ f=0x6e then s.findIdx isFinal+3 else 0
        | none => 0 else 0 else 0
  | _ => 0

/-- `strip_query_escapes`, with `n` bytes of a query still to skip -/
def stripQueryEscapes : Nat → List UInt8 → List UInt8
  | _,[] => []
  | 0,c::s =>
    if queryLength (c::s)=0 then c::stripQueryEscapes 0 s else stripQueryEscapes (queryLength (c::s)-1) s
  | n+1,_::s => stripQueryEscapes n s

/-- What a send callback answers -/
inductive Sent
  | sent | behind | dead
  deriving DecidableEq,Repr

/-- The control frames whose answer the channel looks at -/
inductive Notice
  | answerer | live
  deriving DecidableEq,Repr

/-- The answers of the send callbacks during one call -/
structure Sink (κ : Type*) where
  send : κ → Sent
  tell : κ → Notice → Sent

/-- `clients` is in the order of the set, `recorder` what the recorder was given, where there is one, and
`offered` what `send_` was called with for a client since it was last added. -/
structure Channel (κ : Type*) where
  cap : Nat
  designateAnswerer : Bool
  sendsText : Bool
  ring : List UInt8
  clients : List κ
  recorder : Option (List UInt8)
  answerer : Option κ
  transfer : Option κ
  offered : κ → List UInt8

/-- The calls, each under the channel's lock -/
inductive ChannelCall (κ : Type*)
  | append (k : Sink κ) (data : List UInt8)
  | addClient (k : Sink κ) (client : κ)
  | removeClient (k : Sink κ) (client : κ)
  | setTransfer (client : κ) (on : Bool)
  | clearRing
  | clearClients

namespace Channel

variable {κ : Type*}

def start (cap : Nat) (designateAnswerer sendsText recording : Bool) : Channel κ :=
  ⟨cap,designateAnswerer,sendsText,[],[],if recording then some [] else none,none,none,fun _ => []⟩

variable [LinearOrder κ] (s : Channel κ) (k : Sink κ)

/-- `trim_locked` -/
def trim : Channel κ := { s with ring := s.ring.drop (s.ring.length-s.cap) }

/-- `send_` is called for the clients in `cs`. -/
def offer (cs : List κ) (data : List UInt8) : Channel κ :=
  { s with offered := fun c => if c∈cs then s.offered c++data else s.offered c }

/-- `set_answerer_locked` -/
def setAnswerer (c : κ) : Channel κ :=
  if s.designateAnswerer=false ∨ s.sendsText=false then s
  else if k.tell c .answerer=.sent then { s with answerer := some c } else s

def append (data : List UInt8) : Channel κ :=
  if data=[] then s
  else match s.transfer with
    | some h =>
      if k.send h=.dead then { s.offer [h] data with clients := s.clients.erase h,transfer := none }
      else s.offer [h] data
    | none =>
      let s := trim { s with recorder := s.recorder.map (· ++ data),ring := s.ring++data }
      { s.offer s.clients data with clients := s.clients.filter fun c => k.send c≠.dead }

def giveUp (c : κ) : Channel κ := if s.answerer=some c then { s with answerer := none } else s

def nameFirst (c : κ) : Channel κ := if s.answerer=none then s.setAnswerer k c else s

def replay (c : κ) : Channel κ :=
  if stripQueryEscapes 0 s.ring=[] then s else s.offer [c] (stripQueryEscapes 0 s.ring)

/-- The client joins, unless it dies on the history or on the frame that ends it. -/
def join (c : κ) : Channel κ :=
  if stripQueryEscapes 0 s.ring≠[] ∧ k.send c=.dead then s.giveUp c
  else if s.sendsText=true ∧ k.tell c .live=.dead then s.giveUp c
  else { s with clients := if c∈s.clients then s.clients else s.clients.orderedInsert (· ≤ ·) c }

def greet (c : κ) : Channel κ := { s with offered := Function.update s.offered c [] }

def addClient (c : κ) : Channel κ := (((s.greet c).nameFirst k c).replay c).join k c

def promote (s : Channel κ) : List κ → Channel κ
  | [] => s
  | c::cs => if (s.setAnswerer k c).answerer=none then promote s cs else s.setAnswerer k c

def removeClient (c : κ) : Channel κ :=
  let s := { s with clients := s.clients.erase c,
                    transfer := if s.transfer=some c then none else s.transfer }
  if s.answerer=some c then promote k { s with answerer := none } s.clients else s

def setTransfer (c : κ) (on : Bool) : Channel κ :=
  if on then { s with transfer := some c }
  else if s.transfer=some c then { s with transfer := none }
  else s

def step : ChannelCall κ → Channel κ
  | .append k data => s.append k data
  | .addClient k c => s.addClient k c
  | .removeClient k c => s.removeClient k c
  | .setTransfer c on => s.setTransfer c on
  | .clearRing => { s with ring := [] }
  | .clearClients => { s with clients := [] }

def Fails (c : κ) : Prop :=
  stripQueryEscapes 0 s.ring≠[] ∧ k.send c=.dead ∨ s.sendsText=true ∧ k.tell c .live=.dead

instance (c : κ) : Decidable (s.Fails k c) := inferInstanceAs (Decidable (_ ∧ _ ∨ _ ∧ _))

end Channel

/-- What a channel owes: `line` is what the line has emitted outside transfers, `cleared` its length when the history
was last forgotten, `due` what a client is to be offered, `shown` how much of that is history; `away` is a client that
went and has not come again. -/
structure Account (κ : Type*) where
  line : List UInt8
  cleared : Nat
  due : κ → List UInt8
  shown : κ → Nat
  away : κ → Bool

namespace Account

variable {κ : Type*}

def start : Account κ := ⟨[],0,fun _ => [],fun _ => 0,fun _ => false⟩

variable [LinearOrder κ] (a : Account κ) (s : Channel κ)

/-- The history: the last `cap` bytes since it was forgotten -/
def retained (cap : Nat) : List UInt8 := (a.line.drop a.cleared).drop ((a.line.drop a.cleared).length-cap)

/-- Bytes for everyone, and for the clients `cs` as they come -/
def emit (cs : List κ) (data : List UInt8) : Account κ :=
  { a with line := a.line++data,due := fun c => if c∈cs then a.due c++data else a.due c }

/-- Bytes of the line, in the channel `s` -/
def append (k : Sink κ) (data : List UInt8) : Account κ :=
  if data=[] then a
  else match s.transfer with
    | some h =>
      -- the transfer is over with the bytes that find its client dead
      if k.send h=.dead then
        { a.emit (h::s.clients) data with away := Function.update a.away h true }
      else { a with due := Function.update a.due h (a.due h++data) }
    | none => { a.emit s.clients data with away := fun c => a.away c || k.send c=.dead && c∈s.clients }

/-- Before the call the channel is `s`. -/
def step : ChannelCall κ → Account κ
  | .append k data => a.append s k data
  | .addClient k c =>
    { a with due := Function.update a.due c (stripQueryEscapes 0 (a.retained s.cap)),
             shown := Function.update a.shown c (stripQueryEscapes 0 (a.retained s.cap)).length,
             away := Function.update a.away c (decide (s.Fails k c)) }
  | .removeClient _ c => { a with away := Function.update a.away c true }
  | .setTransfer c on => if on then { a with away := Function.update a.away c false } else a
  | .clearRing => { a with cleared := a.line.length }
  | .clearClients => { a with away := fun c => a.away c || c∈s.clients }

end Account

end QUniLator.Web
