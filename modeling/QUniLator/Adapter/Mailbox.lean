import Mathlib.Data.BitVec

namespace QUniLator.Adapter

abbrev Word := BitVec 16

/-- A set of the five request or grant lines, `PRIORITY_ARBITRATION_BIT_*`. -/
abbrev Mask := BitVec 8

def bitNp : Mask := 0x10

def intrMask : Mask := 0x0f

/-- `priority_level_idx_to_arbitration_bit` -/
def levelBit (level : Nat) : Mask := 1 <<< level

inductive DmaState
  | ready | arbitrating | running | timeoutstop | initstop | canceled
  deriving DecidableEq,Repr

/-- `QUNIBUS_CYCLE_*` of a transfer -/
inductive Buscycle
  | dati | dato | datob
  deriving DecidableEq,Repr

def Buscycle.isDato : Buscycle → Bool
  | .dati => false
  | .dato | .datob => true

/-- An event source. Both counters are bytes and wrap around. -/
structure Event where
  signaled : BitVec 8
  acked : BitVec 8
  deriving DecidableEq,Repr

namespace Event

def signal (e : Event) : Event := { e with signaled := e.signaled+1 }

def ack (e : Event) : Event := { e with acked := e.acked+1 }

/-- `EVENT_IS_ACKED` -/
def isAcked (e : Event) : Bool := e.signaled=e.acked

end Event

/-- `mailbox_dma_t` -/
structure MailboxDma where
  curStatus : DmaState
  buscycle : Buscycle
  wordcount : Nat
  cpuAccess : Bool
  curAddr : Nat
  startaddr : Nat
  words : Nat → Word

/-- `mailbox_intr_t` -/
structure MailboxIntr where
  vector : Nat → Word
  priorityArbitrationBit : Mask
  levelIndex : Nat
  iopageRegisterValue : Word
  iopageRegisterHandle : Nat

/-- `PRU_MAX_DMA_WORDCOUNT` -/
def maxDmaWordcount : Nat := 8*512

/-- `QUNIBUS_IOPAGE_ADDR_BITMASK` -/
def iopageAddrBitmask : Nat := 2^22

end QUniLator.Adapter
