import QUniLator.Adapter.IntrTables
import QUniLator.Adapter.PruMain
import QUniLator.Framework.Run

namespace QUniLator.Adapter

open Function

/-- Where the adapter worker is. It holds `requests_mutex` while it retires a request or clears the
tables. -/
inductive IntrWorker
  | idle
  | retiring (level : Fin 4)
  | acking (level : Fin 4)
  | initRaised
  | clearing
  | cleared
  | initLowered
  deriving DecidableEq

/-- What has become of a request that `INTR()` accepted -/
inductive Fate
  | pending | withdrawn | retired
  deriving DecidableEq

/-- A request that `INTR()` accepted: its object, the vector it was handed to the PRU with, and the
vectors that acknowledges drove for it. -/
structure Raised (ι : Type) where
  request : ι
  handed : Option Word
  answers : List Word
  fate : Fate

/-- The adapter and the PRU. `todo` are the commands of the operation under way, `put` that the mailbox has the first.
The rest is the past: the requests accepted, the one an object stands for, those last given to the PRU, acknowledged,
and signalled but not dispatched, and whether an event retired another. -/
structure IntrSystem (ι : Type) where
  arm : IntrTables ι
  todo : List IntrCommand
  put : Bool
  pru : Pru
  worker : IntrWorker
  raised : Nat → Raised ι
  count : Nat
  current : ι → Nat
  onPru : Fin 4 → Option Nat
  ending : Option Nat
  event : Fin 4 → Option Nat
  mismatch : Bool

/-- What may happen next: a device calls, a pass of the PRU takes the command of the mailbox or not,
and the worker goes on. -/
inductive IntrAction (ι δ : Type)
  | intr (r : ι) (register : Option (IntrRegister δ)) (blocking : Bool)
  | setVector (r : ι) (vector : Word)
  | cancelIntr (r : ι)
  | putCommand
  | pass (i : PassLines) (take : Bool)
  | dmaPass (i : PassLines) (cancel : Bool)
  | putDma (dma : MailboxDma)
  | dispatch (level : Fin 4)
  | ackIntr
  | initSeen
  | cancelAll
  | goOn

def OneLine (m : Mask) : Prop := m∈[0x00#8,0x01#8,0x02#8,0x04#8,0x08#8,0x10#8]

instance (m : Mask) : Decidable (OneLine m) := inferInstanceAs (Decidable (m∈_))

namespace SmArb

def Vectoring (level : Fin 4) (s : SmArb) : Prop :=
  s.state=.intrVector ∧ s.deviceGrantMask.getLsbD level=true

def Ending (level : Fin 4) (s : SmArb) : Prop :=
  s.state=.intrComplete ∧ s.intrLevelIndex=level

def requests (s : SmArb) (level : Fin 4) : Bool := s.deviceRequestMask.getLsbD level

instance (level : Fin 4) (s : SmArb) : Decidable (s.Vectoring level) :=
  inferInstanceAs (Decidable (_ ∧ _))

instance (level : Fin 4) (s : SmArb) : Decidable (s.Ending level) :=
  inferInstanceAs (Decidable (_ ∧ _))

end SmArb

namespace Pru

def Acknowledging (level : Fin 4) (p : Pru) : Prop := p.arb.Vectoring level ∨ p.arb.Ending level

instance (level : Fin 4) (p : Pru) : Decidable (p.Acknowledging level) :=
  inferInstanceAs (Decidable (_ ∨ _))

/-- The processor reads a vector in a pass that reaches the arbitration worker. -/
def Answers (i : PassLines) (p : Pru) : Prop :=
  p.data.func=none ∧ i.deviceregisterAcked ∧ i.arb.riaki ∧ i.arb.din

instance (i : PassLines) (p : Pru) : Decidable (p.Answers i) :=
  inferInstanceAs (Decidable (_ ∧ _ ∧ _ ∧ _))

def Completes (i : PassLines) (p : Pru) : Prop :=
  p.data.func=none ∧ i.deviceregisterAcked ∧ ¬i.arb.riaki

instance (i : PassLines) (p : Pru) : Decidable (p.Completes i) :=
  inferInstanceAs (Decidable (_ ∧ _ ∧ _))

def loop (i : PassLines) (p : Pru) : Pru :=
  if p.data.func=none then p.slavePass i else p.masterPass i

end Pru

namespace IntrSystem

variable {ρ ι δ : Type} [DecidableEq ι] [DecidableEq δ]

/-- `requests_mutex` is free. -/
def Unlocked (s : IntrSystem ι) : Prop :=
  s.todo=[] ∧ (∀ level,s.worker≠.retiring level) ∧ s.worker≠.clearing

instance (s : IntrSystem ι) : Decidable s.Unlocked :=
  inferInstanceAs (Decidable (_ ∧ _ ∧ _))

def busInitActive (s : IntrSystem ι) : Bool :=
  s.worker=.initRaised || s.worker=.clearing || s.worker=.cleared

def handlingInit (s : IntrSystem ι) : Bool :=
  s.worker=.clearing || s.worker=.cleared || s.worker=.initLowered

def InitOwed (s : IntrSystem ι) : Prop :=
  s.pru.initEvent.signaled≠if s.handlingInit then s.pru.initEvent.acked+1
    else s.pru.initEvent.acked

instance (s : IntrSystem ι) : Decidable s.InitOwed :=
  inferInstanceAs (Decidable (_≠_))

def setRaised (n : Nat) (x : Raised ι) (s : IntrSystem ι) : IntrSystem ι :=
  { s with raised := update s.raised n x }

/-- `INTR()` accepted a request. -/
def accepted (r : ι) (s : IntrSystem ι) : IntrSystem ι :=
  { s.setRaised s.count ⟨r,none,[],.pending⟩ with
    current := update s.current r s.count,count := s.count+1 }

def withdrawn (n : Nat) (s : IntrSystem ι) : IntrSystem ι :=
  s.setRaised n { s.raised n with fate := .withdrawn }

def retired (n : Nat) (s : IntrSystem ι) : IntrSystem ι :=
  s.setRaised n { s.raised n with fate := .retired }

def answered (level : Fin 4) (vector : Word) (s : IntrSystem ι) : IntrSystem ι :=
  match s.onPru level with
  | none => s
  | some n => s.setRaised n { s.raised n with answers := vector::(s.raised n).answers }

def withArm (s : IntrSystem ι) (x : IntrTables ι × List IntrCommand) : IntrSystem ι :=
  { s with arm := x.1,todo := x.2,put := false }

def intr (b : Board ρ ι δ) (r : ι) (register : Option (IntrRegister δ)) (blocking : Bool)
    (s : IntrSystem ι) : Option (IntrSystem ι) :=
  let free := (s.arm.br (b.intrLevel r)).slotRequest (b.intrSlot r)=none
  (s.arm.intr b r register s.busInitActive blocking).map fun x =>
    if s.busInitActive=false ∧ free then (s.withArm x).accepted r else s.withArm x

def cancelIntr (b : Board ρ ι δ) (r : ι) (s : IntrSystem ι) : Option (IntrSystem ι) :=
  (s.arm.cancelIntr b r).map fun x =>
    if (s.arm.br (b.intrLevel r)).slotRequest (b.intrSlot r)=some r then
      (s.withArm x).withdrawn (s.current r)
    else s.withArm x

def putCommand (s : IntrSystem ι) : IntrSystem ι :=
  match s.todo with
  | [] => s
  | .cancel bits::_ => { s with pru := s.pru.putIntrCancel bits,put := true }
  | .intr level vector handle value::_ =>
    let s := { s with pru := s.pru.putIntr level vector handle value,put := true }
    match (s.arm.br level).active with
    | none => s
    | some r =>
      let n := s.current r
      { s.setRaised n { s.raised n with handed := some vector } with
        onPru := update s.onPru level (some n) }

def Rescues (i : PassLines) (level : Fin 4) (p : Pru) : Prop :=
  p.Answers i ∧ p.arb.state=.orphanVector ∧ p.arb.intrLevelIndex=level

instance (i : PassLines) (level : Fin 4) (p : Pru) : Decidable (Rescues i level p) :=
  inferInstanceAs (Decidable (_ ∧ _ ∧ _))

/-- What becomes known of a level in a pass: its vector is driven for the request it was handed, by the
request's own acknowledge or a rescue, or the event of its acknowledge is signalled. -/
def note (i : PassLines) (s : IntrSystem ι) (level : Fin 4) : IntrSystem ι :=
  if s.pru.Answers i ∧ s.pru.arb.Vectoring level then
    { s.answered level (s.pru.intr.vector level) with ending := s.onPru level }
  else if Rescues i level s.pru then s.answered level (s.pru.intr.vector level)
  else if s.pru.Completes i ∧ s.pru.arb.Ending level then
    { s with event := update s.event level s.ending,ending := none }
  else s

def worked (i : PassLines) (s : IntrSystem ι) : IntrSystem ι :=
  { (List.finRange 4).foldl (note i) s with pru := s.pru.loop i }

def taken (s : IntrSystem ι) : IntrSystem ι :=
  match s.todo with
  | [] => s
  | .cancel _::todo => { s with pru := s.pru.cancelIntr,todo := todo,put := false }
  | .intr ..::todo => { s with pru := s.pru.takeIntr,todo := todo,put := false }

/-- `worker_intr_complete_event` for a signalled event -/
def dispatch (b : Board ρ ι δ) (level : Fin 4) (s : IntrSystem ι) : Option (IntrSystem ι) :=
  (s.arm.completeEvent b level).map fun x =>
    let t := { s.withArm x with
      worker := .retiring level,event := update s.event level none }
    match (s.arm.br level).active with
    | none => { t with mismatch := true }
    | some r =>
      { t.retired (s.current r) with
        mismatch := s.mismatch || s.event level≠some (s.current r) }

/-- `requests_cancel_all` -/
def cancelAll (b : Board ρ ι δ) (s : IntrSystem ι) : IntrSystem ι :=
  { s.withArm (s.arm.cancelAll b) with
    worker := .clearing
    raised := fun n =>
      if n<s.count ∧ (s.raised n).fate=.pending then { s.raised n with fate := .withdrawn }
      else s.raised n }

def goOn (s : IntrSystem ι) : Option (IntrSystem ι) :=
  match s.worker with
  | .retiring level => if s.todo=[] then some { s with worker := .acking level } else none
  | .clearing => if s.todo=[] then some { s with worker := .cleared } else none
  | .cleared => some { s with worker := .initLowered }
  | .initLowered =>
    some { s with worker := .idle,pru := { s.pru with initEvent := s.pru.initEvent.ack } }
  | _ => none

/-- `EVENT_ACK(*mailbox, intr_master[level_index])` -/
def ackIntr (level : Fin 4) (s : IntrSystem ι) : IntrSystem ι :=
  { s with
    worker := .idle
    pru := { s.pru with arb := { s.pru.arb with
      intrMaster := update s.pru.arb.intrMaster level (s.pru.arb.intrMaster level).ack } } }

def step (b : Board ρ ι δ) (s : IntrSystem ι) : IntrAction ι δ → Option (IntrSystem ι)
  | .intr r register blocking => if s.Unlocked then s.intr b r register blocking else none
  | .setVector r vector => (s.arm.setVector r vector).map fun arm => { s with arm := arm }
  | .cancelIntr r => if s.Unlocked then s.cancelIntr b r else none
  | .putCommand => if s.put then none else some s.putCommand
  | .pass i take =>
    if take then if s.put then some (s.worked i).taken else none else some (s.worked i)
  | .dmaPass i cancel =>
    if s.Unlocked then
      let t := s.worked i
      some { t with pru := if cancel then t.pru.cancelDma else t.pru.takeDma }
    else none
  | .putDma dma => if s.Unlocked then some { s with pru := s.pru.putDma dma } else none
  | .dispatch level =>
    if s.Unlocked ∧ s.worker=.idle ∧ ¬(s.pru.arb.intrMaster level).isAcked then
      s.dispatch b level
    else none
  | .ackIntr =>
    match s.worker with
    | .acking level => some (s.ackIntr level)
    | _ => none
  | .initSeen =>
    if s.worker=.idle ∧ ¬s.pru.initEvent.isAcked then some { s with worker := .initRaised }
    else none
  | .cancelAll => if s.Unlocked ∧ s.worker=.initRaised then some (s.cancelAll b) else none
  | .goOn => s.goOn

end IntrSystem

end QUniLator.Adapter
