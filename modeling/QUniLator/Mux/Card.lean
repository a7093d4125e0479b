import QUniLator.Framework.Run
import QUniLator.Mux.Dzv11

namespace QUniLator.Mux

/-- A serial card: its registers with their callbacks, and the moves of its workers. `isOpen` tells a
reset which lines have a connection. -/
structure Card where
  State : Type
  Reg : Type
  Move : Type
  initial : State
  activeOnDati : Reg → Bool
  value : Reg → State → Word
  onRead : Reg → State → State
  onWrite : Reg → Word → State → Option State
  reset : (Nat → Bool) → State → State
  move : Move → State → Option State

/-- What happens to a card. A read of an active register is two events. -/
inductive Card.Event (c : Card)
  | cycle (r : c.Reg)
  | callback
  | write (r : c.Reg) (v : Word)
  | move (m : c.Move)
  | power (isOpen : Nat → Bool)
  | initAssert (isOpen : Nat → Bool)
  | initNegate

/-- A card in the backplane, with the read whose bus cycle is over and whose callback is not: the
register, and the value that the cycle returned -/
structure Card.Seat (c : Card) where
  state : c.State
  lineInit : Bool
  access : Option (c.Reg × Word)

namespace Card

variable {c : Card}

def start (c : Card) : c.Seat := ⟨c.initial,false,none⟩

/-- No bus cycle begins while a callback is due, nor while INIT is asserted. Callbacks do nothing while
it is. -/
def Seat.step (s : c.Seat) : c.Event → Option c.Seat
  | .cycle r =>
    if c.activeOnDati r && !s.lineInit && s.access.isNone then
      some { s with access := some (r,c.value r s.state) } else none
  | .callback => s.access.map fun a =>
    ⟨if s.lineInit then s.state else c.onRead a.1 s.state,s.lineInit,none⟩
  | .write r v =>
    if !s.lineInit && s.access.isNone then
      (c.onWrite r v s.state).map fun t => { s with state := t }
    else none
  | .move m => (c.move m s.state).map fun t => { s with state := t }
  | .power isOpen => some { s with state := c.reset isOpen s.state }
  | .initAssert isOpen => some { s with state := c.reset isOpen s.state,lineInit := true }
  | .initNegate => some { s with lineInit := false }

end Card

inductive DhvMove
  | tick
  | receive (line : Nat) (ch : Byte)
  | xmtStart
  | xmtEnd (ok : Bool) (bytes : List Byte)

def Dhv11.initial : Dhv11 where
  csrRxIe := false
  csrTxIe := false
  csrTxAct := false
  csrMasterReset := false
  csrDiagFail := false
  csrTxLine := 0
  csrChannel := 0
  selftestPending := false
  selftestSkip := false
  selftestPolls := 0
  selftestTarget := selftestPollCount
  selftestTicks := 0
  pollActiveTicks := 0
  chan := fun _ => ⟨false,0,0,0,0,0,0,0,false⟩
  rxFifo := []
  csr := 0
  rbuf := 0
  rcvintr := ⟨false,0⟩
  xmtintr := ⟨false,0⟩
  xmt := none

def Dhv11.move (s : Dhv11) : DhvMove → Option Dhv11
  | .tick => some s.tick
  | .receive line ch => if line<8 then some (s.receive line ch) else none
  | .xmtStart => if s.xmt.isNone then s.xmtStart else none
  | .xmtEnd ok bytes => s.xmtEnd ok bytes

def dhv11 : Card where
  State := Dhv11
  Reg := DhvReg
  Move := DhvMove
  initial := Dhv11.initial
  activeOnDati := fun r => r=.csr ∨ r=.rbuf
  value := fun r s => if r=.csr then s.csr else s.rbuf
  onRead := Dhv11.onRead
  onWrite := Dhv11.onWrite
  reset := Dhv11.reset
  move := fun m s => s.move m

inductive DzMove
  | receive (line : Nat) (ch : Byte)
  | transmit

def Dzv11.initial : Dzv11 where
  csrTie := false
  csrSae := false
  csrSa := false
  csrRie := false
  csrMse := false
  csrMaint := false
  csrTline := 0
  csrTrdy := false
  rxEnabled := fun _ => false
  txEnabled := fun _ => false
  parityEnable := fun _ => false
  oddParity := fun _ => false
  txBreak := 0
  silo := []
  siloAlarmCount := 0
  tdrPending := false
  tdrChar := 0
  tdrLine := 0
  csr := 0
  rbuf := 0
  rcvintr := ⟨false,0⟩
  xmtintr := ⟨false,0⟩

def Dzv11.move (b : DzBoard) (s : Dzv11) : DzMove → Option Dzv11
  | .receive line ch => if line<b.lineCount then some (s.receive b line ch) else none
  | .transmit => some (s.transmit b)

def dzv11 (b : DzBoard) : Card where
  State := Dzv11
  Reg := DzReg
  Move := DzMove
  initial := Dzv11.initial
  activeOnDati := fun r => r=.rbufLpr
  value := fun r s => if r=.csr then s.csr else s.rbuf
  onRead := Dzv11.onRead b
  onWrite := fun r v s => some (s.onWrite b r v)
  reset := fun _ s => s.reset b
  move := fun m s => s.move b m

end QUniLator.Mux
