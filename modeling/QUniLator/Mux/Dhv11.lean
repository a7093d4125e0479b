import Mathlib.Data.BitVec

namespace QUniLator.Mux

abbrev Word := BitVec 16

abbrev Byte := BitVec 8

/-- `intr_request_c` as a device uses it: the level that edges are detected of, and the `INTR()` calls -/
structure IntrRequest where
  signalLevel : Bool
  raised : Nat
  deriving DecidableEq,Repr

/-- `edge_detect`, with the call of `INTR()` or `cancel_INTR()` after it -/
def IntrRequest.update (level : Bool) (r : IntrRequest) : IntrRequest :=
  if r.signalLevel=level then r
  else { signalLevel := level,raised := if level then r.raised+1 else r.raised }

def IntrRequest.edgeDetectReset (r : IntrRequest) : IntrRequest := { r with signalLevel := false }

def flag (b : Bool) (mask : Word) : Word := if b then mask else 0

/-- `DHV_RBUF_DATA_VALID` -/
def rbufDataValid : Word := 0o100000

/-- `DHV_RBUF_OVERRUN` -/
def rbufOverrun : Word := 0o040000

/-- `DHV_RBUF_DIAG` -/
def rbufDiag : Word := 0o070000

def rbufWord (marker : Word) (line : Nat) (ch : Byte) : Word :=
  rbufDataValid ||| marker ||| (BitVec.ofNat 16 (line%8) <<< 8) ||| ch.setWidth 16

/-- `tx_channel_t` -/
structure Channel where
  isOpen : Bool
  lpr : Word
  lnctrl : Word
  tbuffad1 : Word
  tbuffad2 : Word
  tbuffct : Word
  dmaAddr : Nat
  dmaCount : Nat
  dmaPending : Bool

namespace Channel

/-- `set_channel_defaults` -/
def setDefaults (c : Channel) : Channel :=
  { c with
    lpr := 0o156430,lnctrl := 0,tbuffad1 := 0,tbuffad2 := 0o100000,tbuffct := 0
    dmaAddr := 0,dmaCount := 0,dmaPending := false }

def rxEnabled (c : Channel) : Bool := c.lnctrl &&& 0o4≠0

/-- `DHV_LNCTRL_MAINT_MASK`: 0 normal, 1 echo, 2 local, 3 remote -/
def maint (c : Channel) : Nat := ((c.lnctrl &&& 0o300) >>> 6).toNat

def txEna (c : Channel) : Bool := c.tbuffad2 &&& 0o100000≠0

/-- A maintenance mode that wraps a programmed character back. The local one asks for the transmitter
only, the others for the receiver. -/
def wraps (c : Channel) : Bool :=
  c.maint≠0 && if c.maint=2 then c.txEna else c.rxEnabled

end Channel

/-- A transfer that `worker_xmt` has taken and runs without the lock -/
structure XmtDma where
  line : Nat
  addr : Nat
  count : Nat
  isOpen : Bool
  maint : Nat
  rxEna : Bool

namespace XmtDma

def size (x : XmtDma) : Nat := min x.count (min ((x.count+1)/2) 4096*2)

/-- The maintenance modes that wrap the characters back. The remote one needs the receiver enabled. -/
def wraps (x : XmtDma) (ok : Bool) : Bool := ok && (x.maint=2 || x.maint=3 && x.rxEna)

end XmtDma

/-- `dhv11_c`. `csr` and `rbuf` are what a bus cycle reads from these registers. -/
structure Dhv11 where
  csrRxIe : Bool
  csrTxIe : Bool
  csrTxAct : Bool
  csrMasterReset : Bool
  csrDiagFail : Bool
  csrTxLine : Nat
  csrChannel : Nat
  selftestPending : Bool
  selftestSkip : Bool
  selftestPolls : Nat
  selftestTarget : Nat
  selftestTicks : Int
  pollActiveTicks : Nat
  chan : Nat → Channel
  rxFifo : List Word
  csr : Word
  rbuf : Word
  rcvintr : IntrRequest
  xmtintr : IntrRequest
  xmt : Option XmtDma

/-- The registers that the callback acts on -/
inductive DhvReg
  | csr | rbuf | lpr | lnctrl | tbuffad1 | tbuffad2 | tbuffct
  deriving DecidableEq,Repr

def selftestPollCount : Nat := 800*220

def skipPolls : Nat := 12*220

def selftestSkipPattern : Word := 0o052525

namespace Dhv11

def csrValue (s : Dhv11) : Word :=
  flag s.csrTxAct 0o100000 ||| flag s.csrTxIe 0o040000 ||| flag s.csrDiagFail 0o020000 |||
    ((BitVec.ofNat 16 s.csrTxLine <<< 8) &&& 0o007400) ||| flag (!s.rxFifo.isEmpty) 0o000200 |||
    flag s.csrRxIe 0o000100 ||| flag s.csrMasterReset 0o000040 |||
    (BitVec.ofNat 16 s.csrChannel &&& 0o17)

def updateCsrAndIntr (s : Dhv11) : Dhv11 :=
  { s with
    csr := s.csrValue,rcvintr := s.rcvintr.update (s.csrRxIe && !s.rxFifo.isEmpty)
    xmtintr := s.xmtintr.update (s.csrTxIe && s.csrTxAct) }

def setRbufDati (s : Dhv11) : Dhv11 := { s with rbuf := s.rxFifo.head?.getD 0 }

def rxFifoPush (entry : Word) (s : Dhv11) : Dhv11 :=
  (if 256 ≤ s.rxFifo.length then
    { s with rxFifo := s.rxFifo.dropLast++[entry ||| rbufOverrun] }
  else { s with rxFifo := s.rxFifo++[entry] }).setRbufDati

def txReport (line : Nat) (s : Dhv11) : Dhv11 :=
  { s with csrTxLine := line%8,csrTxAct := true }

def setChannel (c : Nat) (f : Channel → Channel) (s : Dhv11) : Dhv11 :=
  { s with chan := Function.update s.chan c (f (s.chan c)) }

def setDefaults (s : Dhv11) : Dhv11 := { s with chan := fun c => (s.chan c).setDefaults }

/-- The codes of `load_selftest_codes` -/
def selftestCodes (skip : Bool) : List Word :=
  let filler : Byte := if skip then 0o203 else 0o201
  [rbufWord rbufDiag 0 filler,rbufWord rbufDiag 1 filler,rbufWord rbufDiag 2 filler,
    rbufWord rbufDiag 3 filler,rbufWord rbufDiag 4 filler,rbufWord rbufDiag 5 filler,
    rbufWord rbufDiag 6 0o3,rbufWord rbufDiag 7 0o1]

def loadSelftestCodes (s : Dhv11) : Dhv11 :=
  ({ s with rxFifo := selftestCodes s.selftestSkip } : Dhv11).setRbufDati

def completeSelftest (s : Dhv11) : Dhv11 :=
  if s.csrMasterReset then
    { s.setDefaults.loadSelftestCodes with
      csrDiagFail := false,csrMasterReset := false,selftestPending := false }
  else s

def masterReset (s : Dhv11) : Dhv11 :=
  ({ s.setDefaults with
    csrMasterReset := true,csrDiagFail := true,csrTxAct := false,csrTxLine := 0,rxFifo := []
    selftestPolls := 0,selftestTarget := selftestPollCount,selftestTicks := 5000
    pollActiveTicks := 0,selftestPending := true,selftestSkip := false } : Dhv11).setRbufDati

/-- Any access during a master reset freezes the fallback; the skip pattern shortens the self-test. -/
def noteAccess (r : DhvReg) (write : Option Word) (s : Dhv11) : Dhv11 :=
  if s.csrMasterReset then
    let s := { s with pollActiveTicks := 4 }
    if write=some selftestSkipPattern ∧ r≠.csr ∧ !s.selftestSkip then
      { s with
        selftestSkip := true,selftestTarget := skipPolls
        selftestTicks := min s.selftestTicks 40 }
    else s
  else s

def writeCsr (v : Word) (s : Dhv11) : Dhv11 :=
  let s := { s with
    csrRxIe := v &&& 0o100≠0,csrTxIe := v &&& 0o40000≠0,csrChannel := (v &&& 0o17).toNat }
  (if v &&& 0o40≠0 ∧ !s.csrMasterReset then s.masterReset else s).updateCsrAndIntr

/-- A read of CSR during a master reset is a poll of the self-test, and may complete it. -/
def pollSelftest (s : Dhv11) : Dhv11 :=
  if s.csrMasterReset then
    let s := { s with selftestPolls := s.selftestPolls+1 }
    if s.selftestTarget ≤ s.selftestPolls then s.completeSelftest.updateCsrAndIntr else s
  else s

def clearTxAct (s : Dhv11) : Dhv11 :=
  if s.csrTxAct then ({ s with csrTxAct := false } : Dhv11).updateCsrAndIntr else s

def readCsr (s : Dhv11) : Dhv11 := s.pollSelftest.clearTxAct

/-- A DATO of TXCHAR for channel `c` -/
def writeTxchar (c : Nat) (v : Word) (s : Dhv11) : Dhv11 :=
  if v &&& 0o100000=0 then s
  else
    let s := if (s.chan c).wraps then s.rxFifoPush (rbufWord 0 c (v.setWidth 8)) else s
    (s.txReport c).updateCsrAndIntr

def readRbuf (s : Dhv11) : Dhv11 :=
  ({ s with rxFifo := s.rxFifo.tail } : Dhv11).setRbufDati.updateCsrAndIntr

def writeLpr (c : Nat) (v : Word) (s : Dhv11) : Dhv11 :=
  if v &&& 0o6=0o2 then
    ((s.rxFifoPush (rbufWord rbufDiag c 0o305)).updateCsrAndIntr).setChannel c
      fun x => { x with lpr := v &&& ~~~0o6 }
  else s.setChannel c fun x => { x with lpr := v }

def writeTbuffad2 (c : Nat) (v : Word) (s : Dhv11) : Dhv11 :=
  s.setChannel c fun x =>
    let x := { x with tbuffad2 := v &&& ~~~0o200 }
    if v &&& 0o200≠0 ∧ v &&& 0o100000≠0 ∧ x.tbuffct≠0 then
      { x with
        dmaAddr := (v &&& 0o77).toNat*2^16+x.tbuffad1.toNat,dmaCount := x.tbuffct.toNat
        dmaPending := true }
    else x

/-- `on_after_register_access` of a DATO, on the eight channels that there are -/
def onWrite (r : DhvReg) (v : Word) (s : Dhv11) : Option Dhv11 :=
  let c := s.csrChannel
  let s := s.noteAccess r (some v)
  if r=.csr then some (s.writeCsr v)
  -- the array of channels ends here
  else if 8 ≤ c then none
  else
    match r with
    | .csr => some s
    | .rbuf => some (s.writeTxchar c v)
    | .lpr => some (s.writeLpr c v)
    | .lnctrl => some (s.setChannel c fun x => { x with lnctrl := v })
    | .tbuffad1 => some (s.setChannel c fun x => { x with tbuffad1 := v })
    | .tbuffad2 => some (s.writeTbuffad2 c v)
    | .tbuffct => some (s.setChannel c fun x => { x with tbuffct := v })

/-- `on_after_register_access` of a DATI of CSR or RBUF -/
def onRead (r : DhvReg) (s : Dhv11) : Dhv11 :=
  let s := s.noteAccess r none
  match r with
  | .csr => s.readCsr
  | .rbuf => s.readRbuf
  | .lpr | .lnctrl | .tbuffad1 | .tbuffad2 | .tbuffct => s

/-- `reset`, on INIT or a power event. `isOpen` tells which lines have a connection. -/
def reset (isOpen : Nat → Bool) (s : Dhv11) : Dhv11 :=
  let s := { s with
    csrRxIe := false,csrTxIe := false,csrTxAct := false,csrMasterReset := false
    csrDiagFail := false,csrTxLine := 0,csrChannel := 0,selftestPending := false
    selftestSkip := false,selftestTicks := 0,selftestPolls := 0
    selftestTarget := selftestPollCount,pollActiveTicks := 0
    chan := fun c => { (s.chan c).setDefaults with isOpen := isOpen c } }
  ({ s.loadSelftestCodes with
    rcvintr := s.rcvintr.edgeDetectReset,xmtintr := s.xmtintr.edgeDetectReset } :
      Dhv11).updateCsrAndIntr

/-- A round of `worker_rcv`: the fallback of the self-test -/
def tick (s : Dhv11) : Dhv11 :=
  if ¬s.selftestPending then s
  else if 0<s.pollActiveTicks then { s with pollActiveTicks := s.pollActiveTicks-1 }
  else
    let s := { s with selftestTicks := s.selftestTicks-1 }
    if s.selftestTicks≤0 then s.completeSelftest.updateCsrAndIntr else s

/-- A character that `worker_rcv` has polled from a line -/
def receive (line : Nat) (ch : Byte) (s : Dhv11) : Dhv11 :=
  (s.rxFifoPush (rbufWord 0 line ch)).updateCsrAndIntr

/-- `worker_xmt` takes the pending transfer of the first channel that has one. -/
def xmtStart (s : Dhv11) : Option Dhv11 := do
  let line ← (List.range 8).find? fun i => (s.chan i).dmaPending && 0<(s.chan i).dmaCount
  let c := s.chan line
  pure { s.setChannel line fun x => { x with dmaPending := false } with
    xmt := some ⟨line,c.dmaAddr,c.dmaCount,c.isOpen,c.maint,c.rxEnabled⟩ }

/-- The end of a transfer. `bytes` is what the DMA read, at most one burst of 4096 words. -/
def xmtEnd (ok : Bool) (bytes : List Byte) (s : Dhv11) : Option Dhv11 := do
  let x ← s.xmt
  let s :=
    if x.wraps ok then
      (bytes.take x.size).foldl (fun s b => s.rxFifoPush (rbufWord 0 x.line b)) s
    else s
  let s := s.setChannel x.line fun c => { c with
    dmaCount := 0,tbuffct := 0,dmaAddr := (x.addr+x.count)%2^22 }
  pure { (s.txReport x.line).updateCsrAndIntr with xmt := none }

end Dhv11

end QUniLator.Mux
