import QUniLator.Adapter.Mailbox

namespace QUniLator.Adapter

open Function

/-- `state_arbitration_*` -/
inductive ArbState
  | grantCheck | dmaGrantRplySyncWait | intrVector | intrComplete | orphanVector | orphanComplete
  | noop
  deriving DecidableEq,Repr

/-- What the arbitration drives: the request lines and SACK of latch 6, RPLY, and a vector on the
DAL lines. `deviceForwardedGrantMask` of `SmArb` is what stands on the grant out lines. -/
structure Driven where
  requests : Mask
  sack : Bool
  rply : Bool
  dal : Word

/-- `sm_arb`, with the lines it drives, the registers it sets, and the `intr_master` events. -/
structure SmArb where
  state : ArbState
  deviceRequestMask : Mask
  deviceRequestSignalledMask : Mask
  canceledRequestMask : Mask
  dmrHoldoffStart : BitVec 32
  dmrHoldoffActive : Bool
  dmrCommitted : Bool
  deviceForwardedGrantMask : Mask
  deviceGrantMask : Mask
  intrLevelIndex : Nat
  cpuRequest : Bool
  cpuBusInhibitDmr : Bool
  pendingIntrRegisterHandle : Nat → Nat
  pendingIntrRegisterValue : Nat → Word
  driven : Driven
  registers : Nat → Word
  intrMaster : Nat → Event

/-- What one pass reads of the bus: the grant lines of latch 7, RIAKI (twice where the rescue of an
orphan asks again), RDMGI, SYNC, RPLY and DIN, and the timer. -/
structure ArbLines where
  grants : Mask
  riaki : Bool
  riakiRescue : Bool
  rdmgi : Bool
  sync : Bool
  rply : Bool
  din : Bool
  now : BitVec 32

/-- `ARB_IAK_DMR_HOLDOFF_TICKS` -/
def holdoffTicks : BitVec 32 := 10000

/-- `PRIORITY_ARBITRATION_INTR_BIT2IDX`, the number of the leftmost bit -/
def bit2idx (m : Mask) : Nat := m.toNat.log2

def arbLinePattern (requestMask : Mask) : Mask :=
  if requestMask &&& 0x0e≠0 then
    if requestMask &&& 0x08≠0 then requestMask ||| 0x01 ||| 0x04 else requestMask ||| 0x01
  else requestMask

namespace SmArb

/-- The hold-off of DMR around an acknowledge: armed while one runs, over after `holdoffTicks`. -/
def holdoff (i : ArbLines) (s : SmArb) : SmArb :=
  let s :=
    if i.riaki then
      { s with dmrHoldoffStart := i.now,dmrHoldoffActive := true,dmrCommitted := false }
    else s
  if s.dmrHoldoffActive ∧ holdoffTicks ≤ i.now-s.dmrHoldoffStart then
    { s with dmrHoldoffActive := false }
  else s

def commit (s : SmArb) : SmArb :=
  { s with
    dmrCommitted := s.deviceRequestMask &&& bitNp≠0 && (s.dmrCommitted || !s.dmrHoldoffActive) }

/-- The request lines, written on every pass of `grant_check`. -/
def driveRequests (s : SmArb) : SmArb :=
  let lines := arbLinePattern s.deviceRequestMask
  let lines :=
    if s.deviceRequestMask &&& bitNp≠0 ∧ ¬s.dmrCommitted then lines &&& ~~~bitNp else lines
  let lines := if s.cpuBusInhibitDmr then lines ||| bitNp else lines
  { s with driven := { s.driven with requests := lines } }

def setRegister (s : SmArb) (level : Nat) : SmArb :=
  if s.pendingIntrRegisterHandle level≠0 ∧ s.deviceRequestMask &&& levelBit level≠0 then
    { s with
      registers := update s.registers (s.pendingIntrRegisterHandle level)
        (s.pendingIntrRegisterValue level)
      pendingIntrRegisterHandle := update s.pendingIntrRegisterHandle level 0 }
  else s

/-- The grants taken: those of a signalled request that were not passed on. A DMA grant is taken for a
committed request only. -/
def takeGrants (i : ArbLines) (s : SmArb) : SmArb :=
  let mask := i.grants &&& s.deviceRequestMask &&& ~~~s.deviceForwardedGrantMask
  { s with
    deviceRequestSignalledMask := s.deviceRequestMask
    deviceGrantMask := if s.dmrCommitted then mask else mask &&& ~~~bitNp }

def rescue (i : ArbLines) (s : SmArb) : SmArb :=
  let decoded := i.grants &&& intrMask
  let mask :=
    if decoded≠0 then decoded &&& ~~~s.deviceForwardedGrantMask
    else s.canceledRequestMask &&& intrMask
  if i.riakiRescue ∧ mask≠0 then
    { s with
      intrLevelIndex := bit2idx mask
      canceledRequestMask := s.canceledRequestMask &&& ~~~levelBit (bit2idx mask)
      state := .orphanVector }
  else s

def answerGrants (i : ArbLines) (s : SmArb) : SmArb :=
  if s.deviceGrantMask &&& intrMask≠0 then { s with state := .intrVector }
  else if s.deviceGrantMask &&& bitNp≠0 then { s with state := .dmaGrantRplySyncWait }
  else s.rescue i

/-- `state_arbitration_grant_check` -/
def grantCheck (i : ArbLines) (s : SmArb) : SmArb :=
  let s := (s.holdoff i).commit.driveRequests
  let s := ([0,1,2,3] : List Nat).foldl setRegister s
  (s.takeGrants i).answerGrants i

/-- `state_arbitration_dma_grant_rply_sync_wait` -/
def dmaGrantWait (i : ArbLines) (s : SmArb) : SmArb × Mask :=
  if ¬i.rdmgi then ({ s with state := .grantCheck },0)
  else if i.sync ∨ i.rply then (s,0)
  else
    ({ s with
      driven := { s.driven with requests := s.driven.requests &&& ~~~bitNp,sack := true }
      deviceRequestMask := s.deviceRequestMask &&& ~~~bitNp
      dmrCommitted := false
      state := .grantCheck },bitNp)

/-- `state_arbitration_intr_vector` -/
def intrVector (i : ArbLines) (vector : Nat → Word) (s : SmArb) : SmArb :=
  if ¬i.riaki then { s with state := .grantCheck }
  else if ¬i.din then s
  else
    let mask := s.deviceRequestMask &&& ~~~s.deviceGrantMask
    { s with
      deviceRequestMask := mask
      dmrCommitted := false
      driven := { s.driven with
        requests := arbLinePattern mask &&& intrMask
        rply := true
        dal := vector (bit2idx s.deviceGrantMask) }
      intrLevelIndex := bit2idx s.deviceGrantMask
      state := .intrComplete }

/-- `state_arbitration_intr_complete` -/
def intrComplete (i : ArbLines) (s : SmArb) : SmArb × Mask :=
  if i.riaki then (s,0)
  else
    ({ s with
      driven := { s.driven with rply := false,dal := 0 }
      dmrHoldoffStart := i.now
      dmrHoldoffActive := true
      intrMaster := update s.intrMaster s.intrLevelIndex
        (s.intrMaster s.intrLevelIndex).signal
      state := .grantCheck },s.deviceRequestSignalledMask &&& intrMask)

/-- `state_arbitration_orphan_vector` -/
def orphanVector (i : ArbLines) (vector : Nat → Word) (s : SmArb) : SmArb :=
  if ¬i.riaki then { s with state := .grantCheck }
  else if ¬i.din then s
  else
    { s with
      driven := { s.driven with rply := true,dal := vector s.intrLevelIndex }
      state := .orphanComplete }

/-- `state_arbitration_orphan_complete` -/
def orphanComplete (i : ArbLines) (s : SmArb) : SmArb :=
  if i.riaki then s
  else
    { s with
      driven := { s.driven with rply := false,dal := 0 }
      dmrHoldoffStart := i.now
      dmrHoldoffActive := true
      state := .grantCheck }

/-- `state_arbitration_noop` -/
def noop (i : ArbLines) (s : SmArb) : SmArb × Mask :=
  let lines := if s.cpuBusInhibitDmr then s.driven.requests ||| bitNp
    else s.driven.requests &&& ~~~bitNp
  let s := { s with
    deviceForwardedGrantMask := i.grants,driven := { s.driven with requests := lines } }
  if s.deviceRequestMask &&& bitNp≠0 then
    ({ s with deviceRequestMask := s.deviceRequestMask &&& ~~~bitNp },bitNp)
  else (s,0)

/-- `sm_arb_worker_device`, with the requests it was granted -/
def workerDevice (i : ArbLines) (vector : Nat → Word) (s : SmArb) : SmArb × Mask :=
  match s.state with
  | .grantCheck => (s.grantCheck i,0)
  | .dmaGrantRplySyncWait => s.dmaGrantWait i
  | .intrVector => (s.intrVector i vector,0)
  | .intrComplete => s.intrComplete i
  | .orphanVector => (s.orphanVector i vector,0)
  | .orphanComplete => (s.orphanComplete i,0)
  | .noop => s.noop i

def forwardGrants (i : ArbLines) (s : SmArb) : SmArb :=
  { s with deviceForwardedGrantMask := i.grants &&& ~~~s.deviceRequestSignalledMask }

end SmArb

end QUniLator.Adapter
