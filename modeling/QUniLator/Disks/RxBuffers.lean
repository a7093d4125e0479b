import QUniLator.Disks.RxCpu

namespace QUniLator.Disks.Rx

open List

def Function.ofCode : Nat → Function
  | 0 => .fillBuffer
  | 1 => .emptyBuffer
  | 2 => .writeSector
  | 3 => .readSector
  | 4 => .setMediaDensity
  | 5 => .readStatus
  | 6 => .writeSectorWithDeletedData
  | _ => .readErrorCode

def Function.buffers : Function → Bool
  | .fillBuffer | .emptyBuffer | .readErrorCode => true
  | _ => false

def Function.addresses : Function → Bool
  | .readSector | .writeSector | .writeSectorWithDeletedData => true
  | _ => false

/-- `state` -/
inductive Stage
  | base | waitRx2wc | waitRx2ba | waitRx2baExt | dmaBusy
  deriving DecidableEq,Repr

/-- The worker of the RX211 waits, or has its lock and is at a transfer, with the words that its DMA read. -/
inductive Worker
  | idle | pumping (words : List Nat)
  deriving DecidableEq,Repr

/-- What drive and bus answer to a step of the micro-CPU: success, the bytes of a sector, and RXES. -/
structure Answer where
  ok : Bool
  data : List Nat
  rxes : Nat
  deriving DecidableEq,Repr

/-- `RX211_c` and its `RX0102uCPU_c`, the memory of the host by words, and whether an access fell outside its array or
an assertion failed. `waiting` is the wait of a transfer step, `woken` its signal. -/
structure Rx211 where
  mxv22 : Bool
  functionSelect : Function
  functionDensity : Bool
  q22Mode : Bool
  extendedAddress : Nat
  rx2ba : Nat
  rx2wc : Nat
  dmaWords : Nat
  stage : Stage
  nxm : Bool
  worker : Worker
  unit : Bool
  density0 : Bool
  density1 : Bool
  cylinder0 : Nat
  cylinder1 : Nat
  programSteps : List Step
  waiting : Bool
  woken : Bool
  functionCode : Function
  programDensity : Bool
  signalDone : Bool
  signalError : Bool
  wordCountOverflow : Bool
  transferRequest : Bool
  byteCount : Nat
  byteIdx : Nat
  rxdb : Nat
  rxsa : Nat
  rxta : Nat
  sectorBuffer : List Nat
  extendedStatus : List Nat
  memory : Nat → Nat
  failed : Bool

/-- The host writes RX2CS or RX2DB; the worker of the RX211 takes a transfer, and pumps the bytes; the micro-CPU goes
on by a step. A DMA reaches `reached`, leaves `rest` in the word count; `stale` was in the DMA buffer. -/
inductive Access
  | writeCs (w : Nat) (imageIsOpen : Bool)
  | writeDb (w : Nat)
  | take (reached rxes : Nat)
  | pump (reached rest : Nat) (stale : List Nat)
  | work (a : Answer)

namespace Rx211

variable (s : Rx211)

def assert (b : Bool) : Rx211 := if b then s else { s with failed := true }

/-- `double_density` of the selected drive -/
def driveDensity (unit : Bool) : Bool := if unit then s.density1 else s.density0

/-- `sector_buffer[i] = b` -/
def putSector (i b : Nat) : Rx211 :=
  if i<s.sectorBuffer.length then { s with sectorBuffer := s.sectorBuffer.set i b } else { s with failed := true }

/-- `extended_status[i] = b` -/
def putStatus (i b : Nat) : Rx211 :=
  if i<s.extendedStatus.length then { s with extendedStatus := s.extendedStatus.set i b }
  else { s with failed := true }

def transferBuffer : List Nat :=
  match s.functionCode with
  | .fillBuffer | .emptyBuffer => s.sectorBuffer
  | .readErrorCode => s.extendedStatus
  | _ => []

/-- `rxdb = transfer_buffer[i]` -/
def loadRxdb (i : Nat) : Rx211 :=
  match s.transferBuffer[i]? with
  | some b => { s with rxdb := b }
  | none => { s with failed := true }

/-- `pthread_cond_signal` to the micro-CPU; it is lost unless that waits. -/
def signalWorker : Rx211 := { s with woken := s.waiting }

def completeErrorCodes : Rx211 :=
  let word6 := Nat.lor (Nat.land (s.extendedStatus.getD 6 0) 0x2F)
    ((if s.unit then 0x80 else 0)+(if s.density1 then 0x40 else 0)+(if s.density0 then 0x10 else 0))
  (((s.putStatus 2 s.cylinder0).putStatus 3 s.cylinder1).putStatus 6 word6).putStatus 7
    (if s.unit then s.cylinder1 else s.cylinder0)

/-- `step_done`, `step_init_done` and `step_done_read_error_code` -/
def stepDone (rxes : Nat) : Rx211 :=
  { s.completeErrorCodes with signalDone := true,transferRequest := false,rxdb := rxes }

def transferComplete : Rx211 := { s with transferRequest := false }.signalWorker

def rxdbAfterRead : Rx211 :=
  if s.programSteps.isEmpty || decide (s.byteCount ≤ s.byteIdx) then s
  else
    match s.functionCode with
    | .emptyBuffer | .readErrorCode =>
      if s.byteIdx+1<s.byteCount then { s with byteIdx := s.byteIdx+1 }.loadRxdb (s.byteIdx+1)
      else { s with byteIdx := s.byteIdx+1 }.transferComplete
    | _ => s

def fault (code : Nat) : Rx211 := { s with signalError := true }.putStatus 0 code

def fillByte (w : Nat) : Rx211 :=
  let t := { s.putSector s.byteIdx (w%256) with byteIdx := s.byteIdx+1 }
  if s.byteCount ≤ s.byteIdx+1 then t.transferComplete else t

def diskAddress (w : Nat) : Rx211 :=
  if s.byteIdx=0 then
    let t := { s.putStatus 5 (w%0x20) with rxsa := w%0x20,byteIdx := 1 }
    if w%0x20<1 ∨ sectorCount<w%0x20 then t.fault 0o070 else t
  else if s.byteIdx=1 then
    let t := { s.putStatus 4 (w%0x80) with rxta := w%0x80,byteIdx := 2 }
    (if cylinderCount≤w%0x80 then t.fault 0o040 else t).transferComplete
  else { s with byteIdx := s.byteIdx+1 }

def keyWord (w : Nat) : Rx211 :=
  if s.byteIdx=0 then (if w≠0x49 then s.fault 0o250 else s).transferComplete else s

def rxdbAfterWrite (w : Nat) : Rx211 :=
  if s.programSteps.isEmpty then { s with rxdb := Nat.land w 0o173767 }
  else if s.byteCount ≤ s.byteIdx then s
  else
    match s.functionCode with
    | .fillBuffer => s.fillByte w
    | .readSector | .writeSector | .writeSectorWithDeletedData => s.diskAddress w
    | .setMediaDensity => s.keyWord w
    | _ => s

def init : Rx211 :=
  { s with
    programDensity := s.driveDensity s.unit,signalDone := false,signalError := false,transferRequest := false
    rxdb := 0,extendedStatus := replicate 8 0,cylinder0 := 0,cylinder1 := 0,rxta := 1,rxsa := 1
    unit := false,programSteps := [.seek,.sectorRead,.initDone] }.signalWorker

def prepare (f : Function) (doubleDensity imageIsOpen : Bool) : Rx211 :=
  match f with
  | .fillBuffer =>
    { s with sectorBuffer := replicate 256 0
             extendedStatus := (replicate 8 0).set 1 (s.rx2wc%256) }
  | .emptyBuffer => { s with extendedStatus := (replicate 8 0).set 1 (s.rx2wc%256) }
  | .setMediaDensity =>
    if imageIsOpen then
      { s with extendedStatus := replicate 8 0,rxta := 0
               density0 := if s.unit then s.density0 else doubleDensity
               density1 := if s.unit then doubleDensity else s.density1 }
    else { s with extendedStatus := replicate 8 0,signalError := true }
  | .readSector | .writeSector | .writeSectorWithDeletedData => { s with extendedStatus := replicate 8 0 }
  | .readStatus | .readErrorCode => s

def go (f : Function) (doubleDensity imageIsOpen : Bool) : Rx211 :=
  let c : Command := ⟨f,doubleDensity,s.rx2wc,imageIsOpen⟩
  { s with
    functionCode := f,programDensity := doubleDensity,signalDone := false,signalError := false
    wordCountOverflow := false,transferRequest := false,byteCount := c.byteCount true
    programSteps := c.program true }.prepare f doubleDensity imageIsOpen |>.signalWorker

/-- `step_execute` for a step that does not wait -/
def stepExecute (st : Step) (a : Answer) : Rx211 :=
  match st with
  | .seek =>
    let t := s.assert (decide (s.rxta<cylinderCount))
    if s.unit then { t with cylinder1 := s.rxta } else { t with cylinder0 := s.rxta }
  | .headSettle => s.putStatus 6 (Nat.lor (s.extendedStatus.getD 6 0) 0x20)
  | .sectorWrite =>
    if s.driveDensity s.unit≠s.programDensity then s.fault 0o240
    else if a.ok then { s with signalError := false } else s.fault 0o110
  | .sectorRead =>
    if s.driveDensity s.unit≠s.programDensity then s.fault 0o240
    else if a.ok then
      let size := if s.driveDensity s.unit then 256 else 128
      { s.assert (decide (size ≤ s.sectorBuffer.length)) with
        signalError := false
        sectorBuffer := (range size).map (fun i => a.data.getD i 0%256)++s.sectorBuffer.drop size }
    else s.fault 0o110
  | .seekNext => if s.unit then { s with cylinder1 := s.cylinder1+1 } else { s with cylinder0 := s.cylinder0+1 }
  | .formatTrack =>
    let t := s.assert (s.driveDensity s.unit == s.programDensity)
    if a.ok then t else t.fault 0o110
  | .initDone | .doneReadErrorCode | .done => s.stepDone a.rxes
  | .transferBufferWrite | .transferBufferRead => s

def enterTransfer (st : Step) : Rx211 :=
  let t := { s with byteIdx := 0,transferRequest := true,waiting := true,woken := false }
  if st=.transferBufferRead then
    (t.assert (s.functionCode == .emptyBuffer || s.functionCode == .readErrorCode)).loadRxdb 0
  else t

/-- `step_next`, and the end of a program on an error -/
def stepNext (rxes : Nat) : Rx211 :=
  let t := { s with programSteps := s.programSteps.tail }
  if t.signalError then { t with programSteps := [] }.stepDone rxes else t

/-- `rx2wc_overflow_error`: the word count against the byte count -/
def rx2wcOverflowError : Bool := decide (s.rx2wc > transferByteCount true s.functionSelect s.functionDensity)

def busAddr : Nat := s.extendedAddress*0x10000+s.rx2ba

def dmaRead (reached : Nat) : List Nat :=
  (range s.dmaWords).map fun i => if i < reached then s.memory (s.busAddr+2*i) else 0

def store (memory : Nat → Nat) (addr : Nat) (words : List Nat) : Nat → Nat := fun a =>
  if addr≤a ∧ (a-addr)%2=0 then words.getD ((a-addr)/2) (memory a) else memory a

/-- The worker takes a transfer that was not refused; its DMA buffer has 256 words. -/
def start (reached : Nat) : Rx211 :=
  let t := (s.assert (decide (s.dmaWords≤256))).go s.functionSelect s.functionDensity true
  if s.functionSelect=.fillBuffer then
    { t with worker := .pumping (s.dmaRead reached),nxm := decide (reached<s.dmaWords) }
  else { t with worker := .pumping [] }

def takeTransfer (reached rxes : Nat) : Rx211 :=
  match s.functionSelect with
  | .fillBuffer | .emptyBuffer =>
    if s.rx2wcOverflowError then
      { ({ s with wordCountOverflow := true }.fault 0o230).stepDone rxes with stage := .base }
    else s.start reached
  | .readErrorCode => s.start reached
  | _ => { s with failed := true }

/-- `worker_transfer_DMA2uCPU`: the bytes of the words -/
def pumpIn : Rx211 → List Nat → Rx211
  | s,[] => s
  | s,w::ws =>
    if s.transferRequest then
      let t := s.rxdbAfterWrite (w%256)
      pumpIn ((t.assert t.transferRequest).rxdbAfterWrite (w/256)) ws
    else s

/-- `worker_transfer_uCPU2DMA`: the words of the bytes -/
def pumpOut : Rx211 → Nat → Rx211 × List Nat
  | s,0 => (s,[])
  | s,n+1 =>
    if s.transferRequest then
      let t := s.rxdbAfterRead
      let r := pumpOut (t.assert t.transferRequest).rxdbAfterRead n
      (r.1,(s.rxdb+0x100*t.rxdb)::r.2)
    else (s,[])

def transfer (words : List Nat) (reached rest : Nat) (stale : List Nat) : Rx211 :=
  if s.functionSelect=.fillBuffer then
    { (s.pumpIn words).putStatus 1 (rest%256) with rx2wc := rest,stage := .base,worker := .idle }
  else
    let r := s.pumpOut s.dmaWords
    let buffer := (r.2++stale.drop r.2.length).take s.dmaWords
    let t := { r.1 with
      memory := store s.memory s.busAddr (buffer.take reached),nxm := decide (reached<s.dmaWords)
      stage := .base,worker := .idle }
    if s.functionSelect=.readErrorCode then t else { t.putStatus 1 (rest%256) with rx2wc := rest }

/-- GO: the buffer functions wait for word count and address, READ ERROR CODE does not touch the count. -/
def begin (imageIsOpen : Bool) : Rx211 :=
  match s.functionSelect with
  | .fillBuffer | .emptyBuffer => { s with nxm := false,stage := .waitRx2wc }
  | .readErrorCode => { s with nxm := false,dmaWords := 4,stage := .waitRx2ba }
  | f => s.go f s.functionDensity imageIsOpen

def writeCs (w : Nat) (imageIsOpen : Bool) : Rx211 :=
  let t := { s with
    unit := w/0x10%2=1,functionSelect := .ofCode (w/2%8),functionDensity := w/0x100%2=1
    extendedAddress := w/0x1000%4,q22Mode := s.mxv22 && decide (w/0x400%2=1),rxdb := Nat.land w 0o366 }
  if w/0x4000%2=1 then t.init
  else if s.signalDone && decide (w%2=1) then t.begin imageIsOpen
  else t

def writeDb (w : Nat) : Rx211 :=
  match s.stage with
  | .base => s.rxdbAfterWrite w
  | .waitRx2wc => { s.putStatus 1 (w%256) with dmaWords := w%256,rx2wc := w%256,stage := .waitRx2ba }
  | .waitRx2ba => { s with rx2ba := w%0x10000,stage := if s.q22Mode then .waitRx2baExt else .dmaBusy }
  | .waitRx2baExt => { s with extendedAddress := w%0x40,stage := .dmaBusy }
  | .dmaBusy => { s with failed := true }

def step (e : Access) : Option Rx211 :=
  match e with
  | .writeCs w imageIsOpen => if s.worker=.idle then some (s.writeCs w imageIsOpen) else none
  | .writeDb w => some (s.writeDb w)
  | .take reached rxes =>
    if s.worker=.idle ∧ s.stage=.dmaBusy then some (s.takeTransfer reached rxes) else none
  | .pump reached rest stale =>
    match s.worker with
    | .idle => none
    | .pumping words => some (s.transfer words reached rest stale)
  | .work a =>
    if s.waiting then
      if s.woken then some ({ s with waiting := false,woken := false }.stepNext a.rxes) else none
    else
      match s.programSteps with
      | [] => none
      | st::_ => some (if st.transfers then s.enterTransfer st else (s.stepExecute st a).stepNext a.rxes)

end Rx211

end QUniLator.Disks.Rx
