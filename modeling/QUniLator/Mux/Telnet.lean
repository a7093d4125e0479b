import QUniLator.Framework.Run
import QUniLator.Mux.Dhv11

namespace QUniLator.Mux

open Function

/-- What is negotiated about an option -/
inductive Verb
  | will | wont | do_ | dont
  deriving DecidableEq,Repr

def Verb.code : Verb → Byte
  | .will => 251
  | .wont => 252
  | .do_ => 253
  | .dont => 254

/-- What goes into the output queue in one piece: a character, a negotiation, the reply to a COM-PORT
command -/
inductive Item
  | char (c : Byte)
  | option (v : Verb) (opt : Byte)
  | comPort (cmd : Byte) (value : List Byte)
  deriving DecidableEq,Repr

def escape (c : Byte) : List Byte := if c=255 then [255,255] else [c]

def Item.encode : Item → List Byte
  | .char c => escape c
  | .option v opt => [255,v.code,opt]
  | .comPort cmd value => [255,250,44,cmd]++(value.flatMap escape++[255,240])

/-- `line_params_t` -/
structure LineParams where
  baud : BitVec 32
  datasize : Byte
  parity : Byte
  stopsize : Byte
  deriving DecidableEq,Repr

/-- `tstate_t` -/
inductive TState
  | data | iac | will | wont | do_ | dont | sb | sbIac
  deriving DecidableEq,Repr

/-- The inbound parser of `serial_tcp_line_c`, with what it remembers of the negotiation: 0 not sent, 1 WILL
or DO, 2 WONT or DONT -/
structure Telnet where
  tstate : TState
  sbBuf : List Byte
  willState : Byte → Nat
  doState : Byte → Nat
  params : LineParams

/-- `option_supported`: BINARY, SGA, COMPORT -/
def optionSupported (opt : Byte) : Bool := opt=0 || opt=3 || opt=44

/-- `server_performs`: those, and ECHO -/
def serverPerforms (opt : Byte) : Bool := optionSupported opt || opt=1

namespace Telnet

/-- `send_will`, `send_wont`, `send_do`, `send_dont`: what was sent last is not sent again. -/
def sendOption (v : Verb) (opt : Byte) (t : Telnet) : Telnet × List Item :=
  match v with
  | .will =>
    if t.willState opt=1 then (t,[])
    else ({ t with willState := update t.willState opt 1 },[.option .will opt])
  | .wont =>
    if t.willState opt=2 then (t,[])
    else ({ t with willState := update t.willState opt 2 },[.option .wont opt])
  | .do_ =>
    if t.doState opt=1 then (t,[])
    else ({ t with doState := update t.doState opt 1 },[.option .do_ opt])
  | .dont =>
    if t.doState opt=2 then (t,[])
    else ({ t with doState := update t.doState opt 2 },[.option .dont opt])

def setByte (body : List Byte) (old : Byte) : Byte :=
  match body with
  | _::v::_ => if v≠0 then v else old
  | _ => old

def setBaud (body : List Byte) (old : BitVec 32) : BitVec 32 :=
  match body with
  | _::a::b::c::d::_ =>
    let v := (a.setWidth 32 <<< 24) ||| (b.setWidth 32 <<< 16) ||| (c.setWidth 32 <<< 8) |||
      d.setWidth 32
    if v≠0 then v else old
  | _ => old

def baudBytes (v : BitVec 32) : List Byte :=
  [(v >>> 24).setWidth 8,(v >>> 16).setWidth 8,(v >>> 8).setWidth 8,v.setWidth 8]

/-- `handle_com_port_subneg` -/
def handleComPort (body : List Byte) (t : Telnet) : Telnet × List Item :=
  match body with
  | [] => (t,[])
  | cmd::_ =>
    if cmd=1 then
      let baud := setBaud body t.params.baud
      ({ t with params := { t.params with baud := baud } },[.comPort 101 (baudBytes baud)])
    else if cmd=2 then
      let v := setByte body t.params.datasize
      ({ t with params := { t.params with datasize := v } },[.comPort 102 [v]])
    else if cmd=3 then
      let v := setByte body t.params.parity
      ({ t with params := { t.params with parity := v } },[.comPort 103 [v]])
    else if cmd=4 then
      let v := setByte body t.params.stopsize
      ({ t with params := { t.params with stopsize := v } },[.comPort 104 [v]])
    else (t,[])

def handleSubneg (t : Telnet) : Telnet × List Item :=
  match t.sbBuf with
  | [] => (t,[])
  | opt::body => if opt=44 then t.handleComPort body else (t,[])

def answer (v : Verb) (opt : Byte) : Verb :=
  match v with
  | .will => if optionSupported opt then .do_ else .dont
  | .wont => .dont
  | .do_ => if serverPerforms opt then .will else .wont
  | .dont => .wont

def negotiate (v : Verb) (opt : Byte) (t : Telnet) : Telnet × List Item :=
  ({ t with tstate := .data } : Telnet).sendOption (answer v opt) opt

/-- A byte in the loop of `feed_inbound`: the parser after it, the data byte it gives, what it queues -/
def byte (b : Byte) (t : Telnet) : Telnet × List Byte × List Item :=
  match t.tstate with
  | .data => if b=255 then ({ t with tstate := .iac },[],[]) else (t,[b],[])
  | .iac =>
    if b=255 then ({ t with tstate := .data },[255],[])
    else if b=251 then ({ t with tstate := .will },[],[])
    else if b=252 then ({ t with tstate := .wont },[],[])
    else if b=253 then ({ t with tstate := .do_ },[],[])
    else if b=254 then ({ t with tstate := .dont },[],[])
    else if b=250 then ({ t with tstate := .sb,sbBuf := [] },[],[])
    else ({ t with tstate := .data },[],[])
  | .will => ((t.negotiate .will b).1,[],(t.negotiate .will b).2)
  | .wont => ((t.negotiate .wont b).1,[],(t.negotiate .wont b).2)
  | .do_ => ((t.negotiate .do_ b).1,[],(t.negotiate .do_ b).2)
  | .dont => ((t.negotiate .dont b).1,[],(t.negotiate .dont b).2)
  | .sb =>
    if b=255 then ({ t with tstate := .sbIac },[],[])
    else ({ t with sbBuf := t.sbBuf++[b] },[],[])
  | .sbIac =>
    if b=240 then ({ t.handleSubneg.1 with tstate := .data },[],t.handleSubneg.2)
    else ({ t with sbBuf := t.sbBuf++[b],tstate := .sb },[],[])

end Telnet

/-- `feed_inbound` at work: the bytes in `out`, those put into `rx_data_`, the blocks given to `data_tap`,
and what was queued -/
structure Fed where
  line : Telnet
  out : List Byte
  rx : List Byte
  tap : List (List Byte)
  replies : List Item

def Fed.byte (f : Fed) (b : Byte) : Fed :=
  let r := f.line.byte b
  let out := f.out++r.2.1
  if out.length=1024 then ⟨r.1,[],f.rx++out,f.tap++[out],f.replies++r.2.2⟩
  else ⟨r.1,out,f.rx,f.tap,f.replies++r.2.2⟩

def Fed.flush (f : Fed) : Fed :=
  if 0<f.out.length then { f with out := [],rx := f.rx++f.out,tap := f.tap++[f.out] } else f

def feedInbound (t : Telnet) (data : List Byte) : Fed := (data.foldl Fed.byte ⟨t,[],[],[],[]⟩).flush

/-- `feed_inbound` for one chunk after the other -/
def feedChunks (t : Telnet) : List (List Byte) → Fed
  | [] => ⟨t,[],[],[],[]⟩
  | c::cs =>
    let f := feedInbound t c
    let g := feedChunks f.line cs
    ⟨g.line,g.out,f.rx++g.rx,f.tap++g.tap,f.replies++g.replies⟩

/-- What `on_new_connection` offers: ECHO, BINARY, SGA, COMPORT -/
def offers : List (Verb × Byte) :=
  [(.will,1),(.will,0),(.do_,0),(.will,3),(.do_,3),(.will,44)]

/-- A line that is connected. `begun` and `offers` tell how far `on_new_connection` is; `taken` is off `tx_raw_`, not
yet written. Ledgers: `queued` was put into the queue, `sent` passed to `send()`, `emitted` written to the socket,
`rx` received. -/
structure Line where
  line : Telnet
  begun : Bool
  offers : List (Verb × Byte)
  tx : List Byte
  taken : Option (List Byte)
  queued : List Item
  sent : List Byte
  emitted : List Byte
  rx : List Byte

/-- What happens to a line. `written none` is a `send()` of the socket that could not take anything. -/
inductive LineEvent
  | newConnection
  | offer
  | send (c : Byte)
  | take
  | written (w : Option Nat)
  | byte (b : Byte)
  deriving DecidableEq,Repr

namespace Line

/-- `queue_raw_out` -/
def queue (is : List Item) (s : Line) : Line :=
  { s with tx := s.tx++is.flatMap Item.encode,queued := s.queued++is }

/-- The I/O thread reads and writes only after `on_new_connection`. -/
def ready (s : Line) : Bool := s.begun && s.offers.isEmpty && s.taken.isNone

def step (s : Line) : LineEvent → Option Line
  | .newConnection =>
    if s.begun then none else some { s with
      begun := true,offers := Mux.offers
      line := { s.line with
        tstate := .data,sbBuf := [],willState := fun _ => 0,doState := fun _ => 0 } }
  | .offer =>
    match s.offers with
    | [] => none
    | (v,opt)::rest =>
      let r := s.line.sendOption v opt
      some (({ s with line := r.1,offers := rest } : Line).queue r.2)
  | .send c => some { s.queue [.char c] with sent := s.sent++[c] }
  | .take =>
    if s.ready && !s.tx.isEmpty then
      some { s with taken := some (s.tx.take 1024),tx := s.tx.drop 1024 }
    else none
  | .written w =>
    match s.taken with
    | none => none
    | some buf =>
      if w.getD 0≤buf.length then
        some { s with
          taken := none,emitted := s.emitted++buf.take (w.getD 0)
          tx := buf.drop (w.getD 0)++s.tx }
      else none
  | .byte b =>
    if s.ready then
      let r := s.line.byte b
      some (({ s with line := r.1,rx := s.rx++r.2.1 } : Line).queue r.2.2)
    else none

/-- The line when a connection is made: `connected_` is set, `on_new_connection` is still to come, and the
parser may be anywhere. -/
def start (t : Telnet) : Line := ⟨t,false,[],[],none,[],[],[],[]⟩

end Line

end QUniLator.Mux
