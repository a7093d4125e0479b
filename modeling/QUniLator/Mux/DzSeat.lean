import QUniLator.Framework.Run
import QUniLator.Mux.Dzv11

namespace QUniLator.Mux

/-- What a DATO and a DATOB write of a register -/
inductive Access
  | word | low | high
  deriving DecidableEq,Repr

/-- `DZ_LINE_BITS` -/
def DzBoard.lineBits (b : DzBoard) : Word := BitVec.ofNat 16 (2^b.lineCount-1)

def DzReg.writableBits (b : DzBoard) : DzReg → Word
  | .csr => 0o050170
  | .rbufLpr => 0o017777
  | .tcr => b.lineBits ||| (b.lineBits <<< 8)
  | .msrTdr => 0o377 ||| (b.lineBits <<< 8)

/-- `active_dato_flipflops` after a write. A DATOB takes the other byte from what they held. -/
def merge (b : DzBoard) (r : DzReg) (a : Access) (data latch : Word) : Word :=
  let data := data &&& r.writableBits b
  match a with
  | .word => data
  | .low => (latch &&& 0xff00) ||| (data &&& 0x00ff)
  | .high => (latch &&& 0x00ff) ||| (data &&& 0xff00)

/-- What Master Clear makes of the flipflops: those of CSR are cleared, those of TCR keep DTR. -/
def clearLatch (b : DzBoard) (latch : DzReg → Word) : DzReg → Word
  | .csr => 0
  | .tcr => latch .tcr &&& (b.lineBits <<< 8)
  | .rbufLpr => latch .rbufLpr
  | .msrTdr => latch .msrTdr

def nextLatch (b : DzBoard) (r : DzReg) (v : Word) (latch : DzReg → Word) : DzReg → Word :=
  let latch := Function.update latch r v
  if r=.csr ∧ v &&& 0o20≠0 then clearLatch b latch else latch

inductive Post
  | none | posted | granted
  deriving DecidableEq,Repr

/-- How often a level fell while it came from `old` to `new`. It rose once for each call of `INTR()`. -/
def IntrRequest.falls (old new : IntrRequest) : Nat :=
  new.raised-old.raised+old.signalLevel.toNat-new.signalLevel.toNat

/-- What the calls of an operation leave of a request. Each fall has called `cancel_INTR()`. `INTR()` does
nothing while INIT is asserted. -/
def Post.after (init : Bool) (old new : IntrRequest) (p : Post) : Post :=
  if old.raised<new.raised && new.signalLevel && !init then .posted
  else if 0<old.falls new then .none
  else p

/-- A reset forgets the level and cancels nothing. The adapter drops every request itself when INIT or
DCLO comes. -/
def Post.reset (cancelAll : Bool) (p : Post) : Post :=
  if p=.posted ∧ !cancelAll then .posted else .none

def Post.grant (p : Post) : Post := if p=.posted then .granted else p

/-- `line_INIT`. `reset()` follows its assertion on the adapter's thread. -/
inductive InitLine
  | negated | asserted | done
  deriving DecidableEq,Repr

structure Frame where
  line : Nat
  ch : Byte
  deriving DecidableEq,Repr

/-- Where `worker_xmt` is: at rest, with a character that it has taken and sends without the lock, or on
its way back to the scan -/
inductive Xmt
  | resting
  | sending (f : Frame)
  | sent
  deriving DecidableEq,Repr

/-- The DZV11 on the bus, with what the adapter has of its requests. Ledgers: how often the conditions of the
interrupts arose, the characters loaded, due on a line, and sent, each with whether its line was open, how often TRDY
passed a line over. -/
structure DzSeat where
  board : Dzv11
  latch : DzReg → Word
  init : InitLine
  rcv : Post
  xmt : Post
  worker : Xmt
  rcvRises : Nat
  xmtRises : Nat
  loaded : List Frame
  due : List Frame
  out : List (Frame × Bool)
  passed : Nat → Nat

inductive DzOp
  | write (r : DzReg) (v : Word)
  | read (r : DzReg)
  | receive (line : Nat) (ch : Byte)
  | transmit
  | reset
  deriving DecidableEq,Repr

namespace Dzv11

def rcvCond (s : Dzv11) : Bool := s.csrRie && !s.silo.isEmpty

def xmtCond (s : Dzv11) : Bool := s.csrTie && s.csrTrdy && !s.rcvCond

def eval (b : DzBoard) (r : DzReg) (v : Word) (s : Dzv11) : Dzv11 :=
  match r with
  | .csr => s.evalCsrDato v
  | .rbufLpr => s.evalLprDato b v
  | .tcr => s.evalTcrDato v
  | .msrTdr => s.evalTdrDato b v

def op (b : DzBoard) (s : Dzv11) : DzOp → Dzv11
  | .write r v => s.onWrite b r v
  | .read r => s.onRead b r
  | .receive line ch => s.receive b line ch
  | .transmit => s.transmit b
  | .reset => s.reset b

/-- The flags without a TRDY that does not stand any more: the scanner is off, or the line is -/
def settle (s : Dzv11) : Dzv11 :=
  { s with csrTrdy := s.csrTrdy && s.csrMse && (s.tdrPending || s.txEnabled s.csrTline) }

def settled (b : DzBoard) (s : Dzv11) : DzOp → Dzv11
  | .write r v => (s.eval b r v).settle
  | .transmit => s.settle
  | .read r => s.op b (.read r)
  | .receive line ch => s.op b (.receive line ch)
  | .reset => s.op b .reset

/-- How often a condition arises in an operation: before TRDY is presented, and after -/
def rises (cond : Dzv11 → Bool) (b : DzBoard) (s : Dzv11) (o : DzOp) : Nat :=
  (!cond s && cond (s.settled b o)).toNat + (!cond (s.settled b o) && cond (s.op b o)).toNat

def presents (b : DzBoard) (s : Dzv11) (o : DzOp) : Bool :=
  !(s.settled b o).csrTrdy && (s.op b o).csrTrdy

def loads (s : Dzv11) (r : DzReg) (a : Access) : Bool :=
  r=.msrTdr && a≠.high && !s.csrMaint

def waiting (s : Dzv11) : List Frame := if s.tdrPending then [⟨s.tdrLine,s.tdrChar⟩] else []

end Dzv11

def shownTrdy (v : Word) : Bool := v.getLsbD 15

def shownLine (v : Word) : Nat := ((v >>> 8) &&& 7).toNat

def Xmt.held : Xmt → List Frame
  | .sending f => [f]
  | .resting | .sent => []

inductive DzEvent
  | write (r : DzReg) (a : Access) (data : Word)
  | readRbuf
  | receive (line : Nat) (ch : Byte)
  | scan
  | send (isOpen : Bool)
  | grantRcv
  | grantXmt
  | power (dcloRaising : Bool)
  | initAssert
  | initReset
  | initNegate
  deriving DecidableEq,Repr

namespace DzSeat

def nextPassed (b : DzBoard) (s : DzSeat) (o : DzOp) (i : Nat) : Nat :=
  let t := s.board.op b o
  if !t.txEnabled i then 0
  else if s.board.presents b o then (if i=t.csrTline then 0 else s.passed i+1)
  else s.passed i

def perform (b : DzBoard) (s : DzSeat) (o : DzOp) : DzSeat :=
  let t := s.board.op b o
  { s with
    board := t
    rcv := s.rcv.after (s.init≠.negated) s.board.rcvintr t.rcvintr
    xmt := s.xmt.after (s.init≠.negated) s.board.xmtintr t.xmtintr
    rcvRises := s.rcvRises+s.board.rises Dzv11.rcvCond b o
    xmtRises := s.xmtRises+s.board.rises Dzv11.xmtCond b o
    passed := s.nextPassed b o }

/-- The character that a write loads goes to the line that CSR shows. Master Clear takes back the one that
waits. -/
def load (s : DzSeat) (r : DzReg) (a : Access) (v : Word) : DzSeat :=
  let f : Frame := ⟨shownLine s.board.csr,v.setWidth 8⟩
  { s with
    loaded := if r=.msrTdr ∧ a≠.high then s.loaded++[f] else s.loaded
    due :=
      if s.board.loads r a then s.due++[f]
      else if r=.csr ∧ v &&& 0o20≠0 ∧ s.board.tdrPending then s.due.dropLast
      else s.due }

/-- `reset()`, and what the adapter does about the requests -/
def resetAll (b : DzBoard) (cancelAll : Bool) (s : DzSeat) : DzSeat :=
  { s with
    board := s.board.reset b,latch := fun _ => 0
    rcv := s.rcv.reset cancelAll,xmt := s.xmt.reset cancelAll
    due := if s.board.tdrPending then s.due.dropLast else s.due
    passed := s.nextPassed b .reset }

def step (b : DzBoard) (s : DzSeat) : DzEvent → Option DzSeat
  | .write r a data =>
    if s.init=.negated then
      let v := merge b r a data (s.latch r)
      some { (s.load r a v).perform b (.write r v) with latch := nextLatch b r v s.latch }
    else none
  | .readRbuf => if s.init=.negated then some (s.perform b (.read .rbufLpr)) else none
  | .receive line ch =>
    if line<b.lineCount then some (s.perform b (.receive line ch)) else none
  | .scan =>
    match s.worker with
    | .sending _ => none
    | .resting | .sent =>
      let taken := (s.board.scanTxTrdy b).tdrPending
      some { s.perform b .transmit with
        worker := if taken then .sending ⟨s.board.tdrLine,s.board.tdrChar⟩ else .resting }
  | .send isOpen =>
    match s.worker with
    | .sending f => some { s with out := s.out++[(f,isOpen)],worker := .sent }
    | .resting | .sent => none
  | .grantRcv => some { s with rcv := s.rcv.grant }
  | .grantXmt => some { s with xmt := s.xmt.grant }
  | .power dcloRaising => some (s.resetAll b dcloRaising)
  | .initAssert => if s.init=.negated then some { s with init := .asserted } else none
  | .initReset => if s.init=.asserted then some { s.resetAll b true with init := .done } else none
  | .initNegate => if s.init=.done then some { s with init := .negated } else none

def start : DzSeat where
  board :=
    { csrTie := false,csrSae := false,csrSa := false,csrRie := false,csrMse := false
      csrMaint := false,csrTline := 0,csrTrdy := false,rxEnabled := fun _ => false
      txEnabled := fun _ => false,parityEnable := fun _ => false,oddParity := fun _ => false
      txBreak := 0,silo := [],siloAlarmCount := 0,tdrPending := false,tdrChar := 0,tdrLine := 0
      csr := 0,rbuf := 0,rcvintr := ⟨false,0⟩,xmtintr := ⟨false,0⟩ }
  latch := fun _ => 0
  init := .negated
  rcv := .none
  xmt := .none
  worker := .resting
  rcvRises := 0
  xmtRises := 0
  loaded := []
  due := []
  out := []
  passed := fun _ => 0

end DzSeat

end QUniLator.Mux
