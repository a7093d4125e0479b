import QUniLator.Framework.Run
import QUniLator.Adapter.Mailbox

namespace QUniLator.Adapter.Unibus

/-- `dma.cur_status` -/
inductive DmaStatus
  | ready | arbitrating | running | canceled | timeoutStop | initStop
  deriving DecidableEq,Repr

/-- `sm_data_master_state` -/
inductive Master
  | idle
  | dmaStart | dmaAddress | dmaWait | dmaStop | dmaNext
  | intrStart | intrVector | intrWait
  deriving DecidableEq,Repr

/-- What a pass reads. Each read of a latch has lines of its own: those of the others on the bus, to which
come what the PRU drives. -/
structure Lines where
  grants : Mask
  init : Bool
  acked : Bool
  arbRequests : Mask
  arbSack : Bool
  priorityLevel : Nat
  sackTimeout : Bool
  cpuRequests : Mask
  cpuSack : Bool
  cpuBbsy : Bool
  bbsy : Bool
  ssyn : Bool
  internal : Bool
  dmaTimeout : Bool
  intrAcked : Bool
  deriving Repr

inductive Command
  | dma (cpuAccess : Bool) (wordcount : Nat)
  | dmaCancel
  | intr (level : Fin 4)
  | intrCancel (bits : Mask)
  | grantIntrRequests
  deriving DecidableEq,Repr

/-- A rise of BBSY: what was seen in the pass before, and the grant that was taken, 0 for the emulated CPU. -/
structure Rise where
  taken : Mask
  grants : Mask
  requests : Mask
  sack : Bool
  bbsy : Bool
  ssyn : Bool
  deriving DecidableEq,Repr

/-- BBSY may rise: a grant of ours was taken, and it, BBSY and SSYN were seen clear, or, for the emulated
CPU, SACK, BBSY and NPR. -/
def Rise.Proper (r : Rise) : Prop :=
  (r.taken≠0 ∧ r.grants=0 ∧ r.bbsy=false ∧ r.ssyn=false) ∨
    (r.taken=0 ∧ r.sack=false ∧ r.bbsy=false ∧ r.requests &&& bitNp=0)

/-- `sm_arb`, the requests of the mailbox and the lines driven. `grantIn`, `passed` and `answered`: the grants last
seen, and those passed on or answered with SACK since they appeared; `seen` and `rises` record what BBSY rises on. -/
structure Pru where
  emulateCpu : Bool
  deviceRequestMask : Mask
  deviceRequestSignalledMask : Mask
  deviceForwardedGrantMask : Mask
  waitGrantMask : Mask
  cpuRequest : Bool
  arbitratorGrantMask : Mask
  arbitrationPending : Bool
  grantOut : Mask
  requestLines : Mask
  sack : Bool
  bbsy : Bool
  master : Master
  cpuAccess : Bool
  wordcount : Nat
  wordsLeft : Nat
  status : DmaStatus
  grantIn : Mask
  passed : Mask
  answered : Mask
  seen : Option Rise
  rises : List Rise

namespace Pru

variable (s : Pru)

/-- `do_event_initializationsignals` -/
def initSignal (i : Lines) : Pru :=
  if i.init then
    if s.waitGrantMask≠0 then { s with deviceRequestMask := 0,waitGrantMask := 0,sack := false }
    else { s with deviceRequestMask := 0 }
  else s

def forward (i : Lines) : Pru :=
  if s.emulateCpu then s
  else
    let f := i.grants &&& (~~~s.deviceRequestSignalledMask ||| s.deviceForwardedGrantMask)
    { s with deviceForwardedGrantMask := f,grantOut := f,grantIn := i.grants,
             passed := (s.passed ||| f) &&& i.grants,answered := s.answered &&& i.grants }

def level (m : Mask) : Nat := m.toNat.log2+4

/-- The grant that `sm_arb_worker_cpu` gives -/
def arbitrate (i : Lines) : Mask :=
  let requests := i.arbRequests ||| s.requestLines
  if i.arbSack || s.sack then 0
  else if requests &&& bitNp≠0 then
    if s.arbitratorGrantMask=0 then bitNp else s.arbitratorGrantMask
  else if s.arbitrationPending ∧ requests &&& intrMask≠0 then
    if s.arbitratorGrantMask=0 ∧ level (requests &&& intrMask) > i.priorityLevel then
      levelBit (level (requests &&& intrMask)-4)
    else s.arbitratorGrantMask
  else if i.sackTimeout then 0
  else s.arbitratorGrantMask

/-- `sm_arb_worker_cpu` -/
def workerCpu (i : Lines) : Pru :=
  let g := s.arbitrate i
  { s with arbitratorGrantMask := g,grantOut := g,arbitrationPending := false,grantIn := g,
           passed := (s.passed ||| g) &&& g,answered := s.answered &&& g }

def CpuGranted (i : Lines) : Prop :=
  ((i.cpuRequests ||| s.requestLines) &&& bitNp=0 ∧ (i.cpuBbsy || s.bbsy)=false ∧
    (i.cpuSack || s.sack)=false) ∧
  ((i.cpuRequests ||| s.requestLines) &&& intrMask=0 ∨ s.arbitrationPending=false)

instance (i : Lines) : Decidable (s.CpuGranted i) :=
  inferInstanceAs (Decidable ((_ ∧ _ ∧ _) ∧ (_ ∨ _)))

def look (i : Lines) (taken grants : Mask) : Rise :=
  ⟨taken,grants,i.cpuRequests ||| s.requestLines,i.cpuSack || s.sack,
    if taken=0 then i.cpuBbsy || s.bbsy else i.bbsy || s.bbsy,i.ssyn⟩

def takeGrants (grants : Mask) : Pru :=
  let g := grants &&& s.deviceRequestMask &&& ~~~s.deviceForwardedGrantMask
  if g=0 then s
  else { s with requestLines := s.deviceRequestMask &&& ~~~g,sack := true,
                deviceRequestMask := s.deviceRequestMask &&& ~~~g,waitGrantMask := g,
                answered := s.answered ||| g }

/-- `sm_arb_worker_device`, with the request that has the bus -/
def workerDevice (i : Lines) (grants : Mask) : Pru × Mask :=
  if s.cpuRequest ∧ s.CpuGranted i then ({ s with cpuRequest := false,seen := some (s.look i 0 0) },bitNp)
  else
    let s := { s with requestLines := s.deviceRequestMask,deviceRequestSignalledMask := s.deviceRequestMask }
    if s.waitGrantMask=0 then (s.takeGrants grants,0)
    else if grants &&& s.waitGrantMask≠0 ∨ (i.bbsy || s.bbsy) ∨ i.ssyn then (s,0)
    else
      ({ s with waitGrantMask := 0,
                seen := some (s.look i s.waitGrantMask (grants &&& s.waitGrantMask)) },s.waitGrantMask)

def startMaster (granted : Mask) : Pru :=
  if granted &&& bitNp≠0 then { s with master := .dmaStart }
  else if granted &&& intrMask≠0 then { s with master := .intrStart }
  else s

def slave (i : Lines) : Pru :=
  let s := (s.initSignal i).forward i
  if i.acked then
    let t := if s.emulateCpu then s.workerCpu i else s
    let r := t.workerDevice i (if s.emulateCpu then t.arbitratorGrantMask else i.grants)
    r.1.startMaster r.2
  else s

def rise : Pru := { s with bbsy := true,seen := none,rises := s.seen.toList++s.rises }

def dmaEnd (status : DmaStatus) : Pru := { s with bbsy := false,status := status,master := .idle }

def masterStep (i : Lines) : Pru :=
  match s.master with
  | .idle => s
  | .dmaStart => { s.rise with wordsLeft := s.wordcount,status := .running,master := .dmaAddress }
  | .dmaAddress =>
    if s.status≠.running ∨ s.wordcount=0 then { s with master := .idle }
    else { s with sack := s.sack && decide (s.wordsLeft≠1),
                  master := if i.internal then .dmaNext else .dmaWait }
  | .dmaWait =>
    if i.dmaTimeout then { s with master := .dmaStop }
    else if i.ssyn then { s with master := .dmaNext }
    else s
  | .dmaStop => { s with sack := false }.dmaEnd .timeoutStop
  | .dmaNext =>
    let s := { s with wordsLeft := s.wordsLeft-1 }
    if s.wordsLeft=0 then s.dmaEnd .ready
    else if i.init then { s with sack := false }.dmaEnd .initStop
    else { s with master := .dmaAddress }
  | .intrStart => { s.rise with master := .intrVector }
  | .intrVector => { s with sack := false,master := .intrWait }
  | .intrWait =>
    if i.ssyn then if i.intrAcked then { s with bbsy := false,master := .idle } else s
    else if i.init then { s with bbsy := false,master := .idle }
    else s

def command : Command → Pru
  | .dma cpu n =>
    if cpu then { s with cpuRequest := true,cpuAccess := true,wordcount := n,status := .arbitrating }
    else { s with deviceRequestMask := s.deviceRequestMask ||| bitNp,cpuAccess := false,wordcount := n,
                  status := .arbitrating }
  | .dmaCancel =>
    if s.master=.idle ∧ s.status=.arbitrating then
      if s.cpuAccess then { s with cpuRequest := false,status := .canceled }
      else if s.waitGrantMask &&& bitNp≠0 then
        { s with deviceRequestMask := s.deviceRequestMask &&& ~~~bitNp,waitGrantMask := 0,sack := false,
                 status := .canceled }
      else { s with deviceRequestMask := s.deviceRequestMask &&& ~~~bitNp,status := .canceled }
    else s
  | .intr level => { s with deviceRequestMask := s.deviceRequestMask ||| levelBit level }
  | .intrCancel bits => { s with deviceRequestMask := s.deviceRequestMask &&& ~~~bits }
  | .grantIntrRequests => if s.emulateCpu then { s with arbitrationPending := true } else s

def pass (i : Lines) (c : Option Command) : Pru :=
  let t := if s.master=.idle then s.slave i else s.masterStep i
  match c with
  | none => t
  | some c => t.command c

def start (emulateCpu : Bool) : Pru :=
  ⟨emulateCpu,0,0,0,0,false,0,false,0,0,false,false,.idle,false,0,0,.ready,0,0,0,none,[]⟩

def OneLine (m : Mask) : Prop := ∀ j k : Fin 8,m.getLsbD j=true → m.getLsbD k=true → j=k

instance (m : Mask) : Decidable (OneLine m) := inferInstanceAs (Decidable (∀ _ _,_ → _ → _))

/-- No grant was both passed on and answered, and each that is seen is one of both; one request at most holds
SACK; and BBSY rose properly. -/
structure Right : Prop where
  exclusive : s.passed &&& s.answered=0
  out : s.grantOut &&& s.answered=0
  either : s.emulateCpu=false → s.passed ||| s.answered=s.grantIn
  one : OneLine s.waitGrantMask ∧ (s.master≠.idle → s.waitGrantMask=0)
  bbsy : ∀ r∈s.rises,r.Proper

def forUs (i : Lines) : Mask :=
  i.grants &&& s.deviceRequestSignalledMask &&& ~~~s.deviceForwardedGrantMask &&& ~~~s.answered

/-- A grant for us finds the request not withdrawn, no register event open, no INIT and no other grant that
waits for the bus. -/
def Taken (i : Lines) : Prop :=
  s.forUs i=0 ∨
    (i.acked=true ∧ i.init=false ∧ s.waitGrantMask=0 ∧ ¬(s.cpuRequest=true ∧ s.CpuGranted i) ∧
      s.forUs i &&& ~~~s.deviceRequestMask=0)

instance (i : Lines) : Decidable (s.Taken i) := inferInstanceAs (Decidable (_ ∨ (_ ∧ _ ∧ _ ∧ _ ∧ _)))

/-- A physical CPU gives one grant at a time, and takes it back before the request that it answered has gone
from the lines a pass ago. -/
def CarefulPhysical (i : Lines) : Prop :=
  s.emulateCpu=false →
    OneLine i.grants ∧ s.answered &&& i.grants &&& ~~~s.deviceRequestSignalledMask=0 ∧ s.Taken i

instance (i : Lines) : Decidable (s.CarefulPhysical i) := inferInstanceAs (Decidable (_ → _ ∧ _ ∧ _))

def CarefulEmulated (i : Lines) : Prop :=
  s.emulateCpu=true → i.init=false → i.arbSack=false → s.sack=false →
    s.arbitratorGrantMask &&& s.deviceRequestMask=0 ∧ s.deviceRequestMask &&& bitNp=0 ∧
    (s.arbitrationPending=true → s.deviceRequestMask &&& intrMask=0)

instance (i : Lines) : Decidable (s.CarefulEmulated i) :=
  inferInstanceAs (Decidable (_ → _ → _ → _ → _ ∧ _ ∧ (_ → _)))

def Careful (i : Lines) : Prop := s.master=.idle → s.CarefulPhysical i ∧ s.CarefulEmulated i

instance (i : Lines) : Decidable (s.Careful i) := inferInstanceAs (Decidable (_ → _ ∧ _))

end Pru

end QUniLator.Adapter.Unibus
