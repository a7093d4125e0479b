import QUniLator.Adapter.UnibusArbitration

namespace QUniLator.Adapter.Unibus

abbrev Addr := BitVec 32

abbrev AddrLines := BitVec 18

def onLines (addr : Addr) : AddrLines := addr.setWidth 18

def controlOf : Buscycle → BitVec 2
  | .dati => 0
  | .dato => 2
  | .datob => 3

/-- The lines that this card drives besides the requests, SACK and BBSY -/
structure Drive where
  addr : AddrLines
  control : BitVec 2
  msyn : Bool
  ssyn : Bool
  data : Word
  intr : Bool
  deriving DecidableEq,Repr

def Drive.released : Drive := ⟨0,0,false,false,0,false⟩

/-- A word that its slave took or gave, at the address that was on the lines with its overlay, and an address that
nothing answered -/
inductive WordCycle
  | word (overlay : Addr) (addr : AddrLines) (data : Word)
  | silent (overlay : Addr) (addr : AddrLines)
  deriving DecidableEq,Repr

/-- The mailbox at the signal of a DMA, with the block that was asked for and what was on the bus -/
structure DmaEnd where
  status : DmaStatus
  startaddr : Addr
  buscycle : Buscycle
  block : List Word
  words : List Word
  curAddr : Addr
  cycles : List WordCycle
  deriving DecidableEq,Repr

inductive Completion
  | dma (mailbox : DmaEnd)
  | intr (levelIndex : Nat)
  deriving DecidableEq,Repr

/-- What a pass reads: `ssynHeld` before the data of a write comes on the bus, and the data that a slave gives or
that stands on the lines. -/
structure BusLines where
  lines : Lines
  ssynHeld : Bool
  data : Word
  deriving Repr

/-- What the ARM writes into the mailbox -/
inductive Order
  | dma (cpuAccess : Bool) (startaddr : Addr) (buscycle : Buscycle) (words : List Word)
  | dmaCancel
  | intr (level : Fin 4) (vector : Word)
  | intrCancel (bits : Mask)
  | grantIntrRequests
  | addressOverlay (overlay : Addr)
  deriving DecidableEq,Repr

/-- The arbitration with `mailbox.dma`, `mailbox.intr`, `sm_dma` and `sm_intr_master`. `block` is what the ARM asked
for, `cycles` what the DMA did, `completions` what was signalled. -/
structure Card where
  pru : Pru
  startaddr : Addr
  buscycle : Buscycle
  words : List Word
  curAddr : Addr
  dataptr : Nat
  addressOverlay : Addr
  vectors : Nat → Word
  vector : Word
  levelIndex : Nat
  drive : Drive
  block : List Word
  cycles : List WordCycle
  completions : List Completion

namespace Card

variable (s : Card)

def busAddr : Addr := s.curAddr ||| s.addressOverlay

/-- `*sm_dma.dataptr` -/
def word : Word := s.words.getD s.dataptr 0

def store (data : Word) : Card := { s with words := s.words.set s.dataptr data }

def note (c : WordCycle) : Card := { s with cycles := s.cycles++[c] }

def passed (i : BusLines) : Word := if s.buscycle.isDato then s.word else i.data

def place (msyn : Bool) : Card :=
  { s with drive := ⟨onLines s.busAddr,controlOf s.buscycle,msyn,false,
             if s.buscycle.isDato then s.word else s.drive.data,s.drive.intr⟩ }

def wordDone (i : BusLines) (drives : Bool) (c : WordCycle) : Card :=
  { (if s.buscycle.isDato then s else s.store i.data).note c with
      drive := { s.drive with msyn := false,data := if drives then 0 else s.drive.data } }

def dropSack : Card := { s with pru := { s.pru with sack := s.pru.sack && decide (s.pru.wordsLeft≠1) } }

def stepPru (i : BusLines) : Card := { s with pru := s.pru.masterStep i.lines }

/-- `sm_dma_state_1`. A write waits for SSYN to go; an internal slave answers at once. -/
def dmaAddress (i : BusLines) : Card :=
  if s.pru.status≠.running ∨ s.pru.wordcount=0 then s.stepPru i
  else if s.buscycle.isDato && i.ssynHeld then (s.place false).dropSack
  else if i.lines.internal then
    ((s.place false).wordDone i true (.word s.addressOverlay (onLines s.busAddr) (s.passed i))).stepPru i
  else (s.place true).stepPru i

/-- `sm_dma_state_11` and `sm_dma_state_21` -/
def dmaWait (i : BusLines) : Card :=
  if i.lines.dmaTimeout || i.lines.ssyn then
    (s.wordDone i s.buscycle.isDato (if i.lines.ssyn then .word s.addressOverlay s.drive.addr (s.passed i)
      else .silent s.addressOverlay s.drive.addr)).stepPru i
  else s.stepPru i

def dmaEnd (i : BusLines) (status : DmaStatus) : Card :=
  { s.stepPru i with
      drive := { s.drive with addr := 0,control := 0,msyn := false,ssyn := false }
      completions := s.completions ++
        [.dma ⟨status,s.startaddr,s.buscycle,s.block,s.words,s.curAddr,s.cycles⟩] }

/-- `sm_dma_state_99` after a word -/
def dmaNext (i : BusLines) : Card :=
  if s.pru.wordsLeft-1=0 then s.dmaEnd i .ready
  else if i.lines.init then s.dmaEnd i .initStop
  else { s.stepPru i with dataptr := s.dataptr+1,curAddr := s.curAddr+2 }

/-- `sm_intr_master_release` -/
def intrRelease : Card := { s with drive := { s.drive with data := 0,intr := false } }

/-- `sm_intr_master_state_2` -/
def intrWait (i : BusLines) : Card :=
  if i.lines.ssyn then
    if i.lines.intrAcked then
      { s.intrRelease.stepPru i with completions := s.completions++[.intr s.levelIndex] }
    else s.stepPru i
  else if i.lines.init then s.intrRelease.stepPru i
  else s.stepPru i

def master (i : BusLines) : Card :=
  match s.pru.master with
  | .idle => s
  | .dmaStart => { s.stepPru i with curAddr := s.startaddr,dataptr := 0,cycles := [] }
  | .dmaAddress => s.dmaAddress i
  | .dmaWait => s.dmaWait i
  | .dmaStop => s.dmaEnd i .timeoutStop
  | .dmaNext => s.dmaNext i
  | .intrStart => s.stepPru i
  | .intrVector => { s.stepPru i with drive := { s.drive with data := s.vector,intr := true } }
  | .intrWait => s.intrWait i

/-- `PRIORITY_ARBITRATION_INTR_BIT2IDX` -/
def intrIndex (granted : Mask) : Nat := (granted &&& intrMask).toNat.log2

/-- A pass in which nothing is mastered. The vector is that of the level that was granted. -/
def slave (i : BusLines) : Card :=
  let t : Card := { s with pru := s.pru.slave i.lines }
  if t.pru.master=.intrStart then
    { t with vector := s.vectors (intrIndex s.pru.waitGrantMask),levelIndex := intrIndex s.pru.waitGrantMask }
  else t

def advance (i : BusLines) : Card := if s.pru.master=.idle then s.slave i else s.master i

def order : Order → Card
  | .dma cpuAccess startaddr buscycle words =>
    { s with pru := s.pru.command (.dma cpuAccess words.length),startaddr := startaddr,buscycle := buscycle,
             words := words,block := words }
  | .dmaCancel => { s with pru := s.pru.command .dmaCancel }
  | .intr level vector =>
    { s with pru := s.pru.command (.intr level),vectors := fun l => if l=level.val then vector else s.vectors l }
  | .intrCancel bits => { s with pru := s.pru.command (.intrCancel bits) }
  | .grantIntrRequests => { s with pru := s.pru.command .grantIntrRequests }
  | .addressOverlay overlay =>
    { s with addressOverlay := overlay,drive := { s.drive with addr := onLines overlay } }

def pass (i : BusLines) : Option Order → Card
  | none => s.advance i
  | some o => (s.advance i).order o

def start (emulateCpu : Bool) : Card :=
  ⟨.start emulateCpu,0,.dati,[],0,0,0,fun _ => 0,0,0,.released,[],[],[]⟩

end Card

def wordAddr (startaddr : Addr) (k : Nat) : Addr := startaddr+BitVec.ofNat 32 (2*k)

def Transferred (startaddr : Addr) (words : List Word) (n : Nat) (cycles : List WordCycle) : Prop :=
  cycles.length=n ∧ ∀ k<n,∃ overlay,
    cycles[k]? = some (.word overlay (onLines (wordAddr startaddr k ||| overlay)) (words.getD k 0))

def DmaEnd.Moved (x : DmaEnd) : DmaStatus → Prop
  | .ready => Transferred x.startaddr x.words x.block.length x.cycles
  | .timeoutStop => ∃ n<x.block.length,∃ cycles overlay,Transferred x.startaddr x.words n cycles ∧
    x.cycles=cycles++[.silent overlay (onLines (x.curAddr ||| overlay))] ∧ x.curAddr=wordAddr x.startaddr n
  | .initStop => ∃ n<x.block.length,Transferred x.startaddr x.words n x.cycles
  | .arbitrating | .running | .canceled => False

/-- What a completion of a DMA says is what was on the bus, and a write has left the block. -/
structure DmaEnd.Right (x : DmaEnd) : Prop where
  length : x.words.length=x.block.length
  written : x.buscycle.isDato=true → x.words=x.block
  moved : x.Moved x.status

namespace Card

variable (s : Card)

def CarefulPass (i : BusLines) : Prop :=
  s.pru.master=.dmaWait → ¬(i.lines.dmaTimeout=true ∧ i.lines.ssyn=true)

/-- A DMA has words, and the one before is over; the overlay is left while a cycle is on the bus. -/
def CarefulOrder : Order → Prop
  | .dma _ _ _ words => words≠[] ∧ s.pru.status≠.arbitrating ∧ s.pru.status≠.running
  | .addressOverlay _ => s.pru.master≠.dmaWait
  | .dmaCancel | .intr _ _ | .intrCancel _ | .grantIntrRequests => True

def Careful (e : BusLines × Option Order) : Prop :=
  s.CarefulPass e.1 ∧ ∀ o∈e.2,(s.advance e.1).CarefulOrder o

def Ends (i : BusLines) : Prop := s.pru.master≠.idle ∧ (s.advance i).pru.master=.idle

def Completes (i : BusLines) : Prop :=
  if s.pru.master=.intrWait then
    (i.lines.ssyn=true ∧ (s.advance i).completions=s.completions++[.intr s.levelIndex]) ∨
    (i.lines.ssyn=false ∧ i.lines.init=true ∧ (s.advance i).completions=s.completions)
  else
    ∃ x : DmaEnd,(s.advance i).completions=s.completions++[.dma x] ∧ x.Right ∧
      x.status=(s.advance i).pru.status ∧ x.startaddr=s.startaddr ∧ x.block=s.block ∧
      x.cycles=(s.advance i).cycles

/-- A transfer that ends leaves no line, but for an address pattern that the ARM put there before an interrupt, and it
completes; nothing else does. -/
structure Delivers (i : BusLines) : Prop where
  goesOn : ¬s.Ends i → (s.advance i).completions=s.completions
  drive : s.Ends i →
    (s.advance i).drive={ Drive.released with addr := if s.pru.master=.intrWait then s.drive.addr else 0 }
  lines : s.Ends i → (s.advance i).pru.bbsy=false ∧ (s.advance i).pru.sack=false
  completes : s.Ends i → s.Completes i

def DmaAlive : Prop :=
  s.pru.cpuRequest=true ∨ s.pru.deviceRequestMask.getLsbD 4=true ∨ s.pru.waitGrantMask.getLsbD 4=true ∨
    s.pru.master∈[.dmaStart,.dmaAddress,.dmaWait,.dmaStop,.dmaNext]

/-- What a canceled DMA leaves: no pass goes on with it, NPR is off the bus when the requests are put there next, and
SACK is another request's. -/
structure Quiet : Prop where
  dead : ¬s.DmaAlive
  cycles : ∀ i,(s.advance i).cycles=s.cycles ∧ (s.advance i).pru.status=.canceled
  npr : ∀ i : BusLines,s.pru.master=.idle → i.lines.acked=true →
    (s.advance i).pru.requestLines.getLsbD 4=false
  sack : s.pru.sack=true → s.pru.waitGrantMask≠0 ∨ s.pru.master=.intrStart ∨ s.pru.master=.intrVector

def runOn (env : Nat → BusLines × Option Order) : Nat → Card
  | 0 => s
  | n+1 => (runOn env n).pass (env n).1 (env n).2

/-- SSYN falls before a write, a wait for SSYN finds it or the timeout, and a vector that waits finds SSYN and the
last completion taken, or INIT. -/
structure Fair (env : Nat → BusLines × Option Order) : Prop where
  falls : ∀ n,∃ m ≥ n,(env m).1.ssynHeld=false
  answered : ∀ n,∃ m ≥ n,(env m).1.lines.dmaTimeout=true ∨ (env m).1.lines.ssyn=true
  fielded : ∀ n,∃ m ≥ n,((env m).1.lines.ssyn=true ∧ (env m).1.lines.intrAcked=true) ∨
    ((env m).1.lines.ssyn=false ∧ (env m).1.lines.init=true)

end Card

end QUniLator.Adapter.Unibus
