import QUniLator.Adapter.Arbitration
import QUniLator.Adapter.DmaCycle

namespace QUniLator.Adapter

open Function

/-- `sm_initialization.state` -/
inductive InitState
  | idle | initAsserted
  deriving DecidableEq,Repr

/-- The PRU with its part of the mailbox. The data state machine of `data` runs where its `func` is
not `none`. -/
structure Pru where
  arb : SmArb
  data : SmDma
  intr : MailboxIntr
  initState : InitState
  initEvent : Event

/-- What one pass reads: the lines of the bus, INIT among them, whether the register access under way
is acknowledged, and the bus timeouts. -/
structure PassLines where
  arb : ArbLines
  data : DmaLines
  init : Bool
  deviceregisterAcked : Bool
  initTimeout : Bool

/-- `ARM2PRU_*`, the commands on requests -/
inductive Command
  | dma | dmaCancel | intr | intrCancel
  deriving DecidableEq,Repr

namespace Pru

/-- The part of `sm_initialization_func` on INIT. -/
def initialization (i : PassLines) (s : Pru) : Pru :=
  let s := if i.init then { s with arb := { s.arb with deviceRequestMask := 0 } } else s
  match s.initState with
  | .idle =>
    if i.init then { s with initEvent := s.initEvent.signal,initState := .initAsserted } else s
  | .initAsserted =>
    if (s.initEvent.isAcked ∨ i.initTimeout) ∧ ¬i.init then { s with initState := .idle } else s

/-- The arbitration worker, and the start of the data state machine on a DMA grant. -/
def arbitrate (i : PassLines) (s : Pru) : Pru :=
  let (arb,granted) := s.arb.workerDevice i.arb s.intr.vector
  let s := { s with arb := arb }
  if granted &&& bitNp≠0 then { s with data := { s.data with func := some .start } } else s

def slavePass (i : PassLines) (s : Pru) : Pru :=
  let s := s.initialization i
  let s := { s with arb := s.arb.forwardGrants i.arb }
  if i.deviceregisterAcked then s.arbitrate i else s

/-- A pass as master, one state of the data state machine. SACK is negated at the end of it. -/
def masterPass (i : PassLines) (s : Pru) : Pru :=
  let data := s.data.step i.data
  { s with
    data := data
    arb :=
      if data.func=none then { s.arb with driven := { s.arb.driven with sack := false } }
      else s.arb }

/-- `ARM2PRU_DMA` -/
def takeDma (s : Pru) : Pru :=
  { s with
    arb :=
      if s.data.dma.cpuAccess then { s.arb with cpuRequest := true }
      else { s.arb with deviceRequestMask := s.arb.deviceRequestMask ||| bitNp }
    data := { s.data with dma := { s.data.dma with curStatus := .arbitrating } } }

/-- What `ARM2PRU_DMA_CANCEL` can still take back -/
def Cancelable (s : Pru) : Prop :=
  s.data.func=none ∧ s.data.dma.curStatus=.arbitrating

instance (s : Pru) : Decidable s.Cancelable :=
  inferInstanceAs (Decidable (_ ∧ _))

/-- `ARM2PRU_DMA_CANCEL` -/
def cancelDma (s : Pru) : Pru :=
  if s.Cancelable then
    { s with
      arb :=
        if s.data.dma.cpuAccess then { s.arb with cpuRequest := false }
        else
          { s.arb with
            deviceRequestMask := s.arb.deviceRequestMask &&& ~~~bitNp
            deviceGrantMask := s.arb.deviceGrantMask &&& ~~~bitNp
            dmrCommitted := false
            state :=
              if s.arb.state=.dmaGrantRplySyncWait then .grantCheck else s.arb.state }
      data := { s.data with dma := { s.data.dma with curStatus := .canceled } } }
  else s

/-- `ARM2PRU_INTR` -/
def takeIntr (s : Pru) : Pru :=
  let bit := s.intr.priorityArbitrationBit
  let level := s.intr.levelIndex
  { s with
    arb := { s.arb with
      deviceRequestMask := s.arb.deviceRequestMask ||| bit
      canceledRequestMask := s.arb.canceledRequestMask &&& ~~~bit
      pendingIntrRegisterHandle :=
        update s.arb.pendingIntrRegisterHandle level s.intr.iopageRegisterHandle
      pendingIntrRegisterValue :=
        update s.arb.pendingIntrRegisterValue level s.intr.iopageRegisterValue } }

/-- `ARM2PRU_INTR_CANCEL` -/
def cancelIntr (s : Pru) : Pru :=
  let bits := s.intr.priorityArbitrationBit
  { s with
    arb := { s.arb with
      canceledRequestMask := s.arb.canceledRequestMask |||
        (s.arb.deviceRequestSignalledMask &&& bits &&& intrMask)
      deviceRequestMask := s.arb.deviceRequestMask &&& ~~~bits } }

def command (c : Command) (s : Pru) : Pru :=
  match c with
  | .dma => s.takeDma
  | .dmaCancel => s.cancelDma
  | .intr => s.takeIntr
  | .intrCancel => s.cancelIntr

def putDma (dma : MailboxDma) (s : Pru) : Pru :=
  { s with data := { s.data with dma := dma } }

/-- The fields of `mailbox->intr` for an INTR of a level -/
def putIntr (level : Nat) (vector : Word) (handle : Nat) (value : Word) (s : Pru) : Pru :=
  { s with intr := {
      vector := update s.intr.vector level vector
      priorityArbitrationBit := levelBit level
      levelIndex := level
      iopageRegisterValue := value
      iopageRegisterHandle := handle } }

/-- The levels that an `ARM2PRU_INTR_CANCEL` is about to withdraw -/
def putIntrCancel (bits : Mask) (s : Pru) : Pru :=
  { s with intr := { s.intr with priorityArbitrationBit := bits } }

/-- One pass of the main loop, with the command of the ARM that stands at its end. -/
def pass (i : PassLines) (c : Option Command) (s : Pru) : Pru :=
  let s := if s.data.func=none then s.slavePass i else s.masterPass i
  match c with
  | some c => s.command c
  | none => s

end Pru

end QUniLator.Adapter
