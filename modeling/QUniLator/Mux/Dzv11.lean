import QUniLator.Mux.Dhv11

namespace QUniLator.Mux

open Function

/-- The boards: the eight lines of the UNIBUS, and the four of the QBUS -/
inductive DzBoard
  | dz11 | dzv11
  deriving DecidableEq,Repr

/-- `DZ_LINE_COUNT` -/
def DzBoard.lineCount : DzBoard → Nat
  | .dz11 => 8
  | .dzv11 => 4

def dzRbufValid : Word := 0o100000

def dzRbufOvr : Word := 0o040000

/-- What the silo holds for a character of a line. `DZ_LINE_MASK` cuts the line. -/
def dzWord (b : DzBoard) (errBits : Word) (line : Nat) (ch : Byte) : Word :=
  dzRbufValid ||| (BitVec.ofNat 16 (line%b.lineCount) <<< 8) ||| errBits ||| ch.setWidth 16

/-- `dzv11_c`. `csr` and `rbuf` are what a bus cycle reads from these registers. -/
structure Dzv11 where
  csrTie : Bool
  csrSae : Bool
  csrSa : Bool
  csrRie : Bool
  csrMse : Bool
  csrMaint : Bool
  csrTline : Nat
  csrTrdy : Bool
  rxEnabled : Nat → Bool
  txEnabled : Nat → Bool
  parityEnable : Nat → Bool
  oddParity : Nat → Bool
  txBreak : Byte
  silo : List Word
  siloAlarmCount : Nat
  tdrPending : Bool
  tdrChar : Byte
  tdrLine : Nat
  csr : Word
  rbuf : Word
  rcvintr : IntrRequest
  xmtintr : IntrRequest

/-- The registers, each with a read and a write meaning -/
inductive DzReg
  | csr | rbufLpr | tcr | msrTdr
  deriving DecidableEq,Repr

namespace Dzv11

def csrValue (b : DzBoard) (s : Dzv11) : Word :=
  flag s.csrTrdy 0o100000 ||| flag s.csrTie 0o040000 ||| flag s.csrSa 0o020000 |||
    flag s.csrSae 0o010000 ||| (BitVec.ofNat 16 (s.csrTline%b.lineCount) <<< 8) |||
    flag (!s.silo.isEmpty) 0o000200 ||| flag s.csrRie 0o000100 ||| flag s.csrMse 0o000040 |||
    flag s.csrMaint 0o000010

/-- `update_csr_and_INTR`. The transmitter's interrupt waits while the receiver's stands. -/
def updateCsrAndIntr (b : DzBoard) (s : Dzv11) : Dzv11 :=
  let rcvLevel := s.csrRie && !s.silo.isEmpty
  { s with
    csr := s.csrValue b,rcvintr := s.rcvintr.update rcvLevel
    xmtintr := s.xmtintr.update (s.csrTie && s.csrTrdy && !rcvLevel) }

def setRbufDati (s : Dzv11) : Dzv11 := { s with rbuf := s.silo.head?.getD 0 }

def countAlarm (s : Dzv11) : Dzv11 :=
  if 16 ≤ s.siloAlarmCount+1 then { s with siloAlarmCount := 0,csrSa := s.csrSa || s.csrSae }
  else { s with siloAlarmCount := s.siloAlarmCount+1 }

def siloPush (b : DzBoard) (line : Nat) (ch : Byte) (errBits : Word) (s : Dzv11) : Dzv11 :=
  let entry := dzWord b errBits line ch
  (if 64 ≤ s.silo.length then { s with silo := s.silo.dropLast++[entry ||| dzRbufOvr] }
  else { s with silo := s.silo++[entry] }).countAlarm.setRbufDati

/-- The CLR bit of `eval_csr_dato` -/
def masterClear (s : Dzv11) : Dzv11 :=
  ({ s with
    csrTie := false,csrSae := false,csrRie := false,csrMaint := false,csrMse := false
    csrSa := false,csrTrdy := false,csrTline := 0,tdrPending := false,silo := []
    siloAlarmCount := 0,txEnabled := fun _ => false,txBreak := 0 } : Dzv11).setRbufDati

def scanOff (s : Dzv11) : Dzv11 :=
  ({ s with silo := [],siloAlarmCount := 0,csrSa := false } : Dzv11).setRbufDati

def evalCsrDato (v : Word) (s : Dzv11) : Dzv11 :=
  if v &&& 0o20≠0 then s.masterClear
  else
    let t := { s with
      csrTie := v &&& 0o40000≠0,csrSae := v &&& 0o10000≠0,csrRie := v &&& 0o100≠0
      csrMaint := v &&& 0o10≠0,csrMse := v &&& 0o40≠0 }
    if s.csrMse && !t.csrMse then t.scanOff else t

def evalLprDato (b : DzBoard) (v : Word) (s : Dzv11) : Dzv11 :=
  let line := (v &&& 0o7).toNat
  if line<b.lineCount then
    { s with
      rxEnabled := update s.rxEnabled line (v &&& 0o10000≠0)
      parityEnable := update s.parityEnable line (v &&& 0o100≠0)
      oddParity := update s.oddParity line (v &&& 0o200≠0) }
  else s

/-- `eval_tcr_dato`. What it does with the DTR byte concerns the modem status only. -/
def evalTcrDato (v : Word) (s : Dzv11) : Dzv11 := { s with txEnabled := fun i => v.getLsbD i }

/-- The error bits of a break that line `i` receives -/
def breakError (s : Dzv11) (i : Nat) : Word :=
  if s.parityEnable i && s.oddParity i then 0o030000 else 0o020000

def breaking (b : DzBoard) (rising : Byte) (s : Dzv11) : List Nat :=
  (List.range b.lineCount).filter fun i => rising.getLsbD i && s.rxEnabled i

def newBreak (b : DzBoard) (v : Word) : Byte :=
  (v >>> 8).setWidth 8 &&& BitVec.ofNat 8 (2^b.lineCount-1)

def rising (b : DzBoard) (v : Word) (s : Dzv11) : Byte := newBreak b v &&& ~~~s.txBreak

/-- `eval_tdr_dato`. A maintenance wrap gives the character back at once. -/
def evalTdrDato (b : DzBoard) (v : Word) (s : Dzv11) : Dzv11 :=
  let ch : Byte := v.setWidth 8
  let line := s.csrTline%b.lineCount
  let rising := s.rising b v
  let s := { s with txBreak := newBreak b v }
  if s.csrMaint then
    if rising≠0 then
      (s.breaking b rising).foldl (fun t i => t.siloPush b i 0 (s.breakError i)) s
    else
      { if s.rxEnabled line then s.siloPush b line ch 0 else s with csrTrdy := false }
  else { s with tdrChar := ch,tdrLine := line,tdrPending := true,csrTrdy := false }

def selectNextTxLine (b : DzBoard) (s : Dzv11) : Option Nat :=
  ((List.range b.lineCount).map fun n => (s.csrTline+1+n)%b.lineCount).find? s.txEnabled

def dropTrdy (b : DzBoard) (s : Dzv11) : Dzv11 :=
  if s.csrTrdy && !s.tdrPending && !s.txEnabled s.csrTline then
    ({ s with csrTrdy := false } : Dzv11).updateCsrAndIntr b
  else s

def presentTrdy (b : DzBoard) (s : Dzv11) : Dzv11 :=
  if !s.csrTrdy && !s.tdrPending then
    match s.selectNextTxLine b with
    | some i => ({ s with csrTline := i,csrTrdy := true } : Dzv11).updateCsrAndIntr b
    | none => s
  else s

def scanTxTrdy (b : DzBoard) (s : Dzv11) : Dzv11 :=
  if !s.csrMse then
    if s.csrTrdy then ({ s with csrTrdy := false } : Dzv11).updateCsrAndIntr b else s
  else (s.dropTrdy b).presentTrdy b

def readRbuf (b : DzBoard) (s : Dzv11) : Dzv11 :=
  ({ s with silo := s.silo.tail,csrSa := false,siloAlarmCount := 0 } : Dzv11).setRbufDati
    |>.updateCsrAndIntr b

/-- `on_after_register_access` of a DATO -/
def onWrite (b : DzBoard) (r : DzReg) (v : Word) (s : Dzv11) : Dzv11 :=
  match r with
  | .csr => ((s.evalCsrDato v).scanTxTrdy b).updateCsrAndIntr b
  | .rbufLpr => s.evalLprDato b v
  | .tcr => (s.evalTcrDato v).scanTxTrdy b
  | .msrTdr => ((s.evalTdrDato b v).scanTxTrdy b).updateCsrAndIntr b

/-- `on_after_register_access` of a DATI. RBUF alone has one. -/
def onRead (b : DzBoard) (r : DzReg) (s : Dzv11) : Dzv11 :=
  match r with
  | .rbufLpr => s.readRbuf b
  | .csr | .tcr | .msrTdr => s

/-- `reset`, on INIT or a power event -/
def reset (b : DzBoard) (s : Dzv11) : Dzv11 :=
  ({ s with
    csrTie := false,csrSae := false,csrSa := false,csrRie := false,csrMse := false
    csrMaint := false,csrTline := 0,csrTrdy := false,rxEnabled := fun _ => false
    txEnabled := fun _ => false,parityEnable := fun _ => false,oddParity := fun _ => false
    txBreak := 0,silo := [],siloAlarmCount := 0,tdrPending := false
    rcvintr := s.rcvintr.edgeDetectReset,xmtintr := s.xmtintr.edgeDetectReset } :
      Dzv11).setRbufDati.updateCsrAndIntr b

/-- A character that `worker_rcv` has polled from a line -/
def receive (b : DzBoard) (line : Nat) (ch : Byte) (s : Dzv11) : Dzv11 :=
  (s.siloPush b line ch 0).updateCsrAndIntr b

/-- A round of `worker_xmt`: it takes the character that waits, and sends it. -/
def transmit (b : DzBoard) (s : Dzv11) : Dzv11 :=
  let s := s.scanTxTrdy b
  if s.tdrPending then
    ({ s with tdrPending := false,csrTrdy := false } : Dzv11).updateCsrAndIntr b
  else s

end Dzv11

end QUniLator.Mux
