import QUniLator.Adapter.Slots
import QUniLator.Adapter.Chunks

namespace QUniLator.Adapter

open Function

/-- Who has `mailbox->dma`: nobody, or the PRU, from the command up to the moment its completion is
taken. -/
inductive PruDma
  | free | arbitrating | running | ended
  deriving DecidableEq,Repr

/-- The request objects, with what does not change in them -/
structure Board (ρ ι δ : Type) where
  dmaSlot : ρ → Slot
  isCpuAccess : ρ → Bool
  /-- `cpu_DATA_transfer` sets the slot of its request. -/
  cpu_slot : ∀ r,isCpuAccess r → dmaSlot r=31
  intrSlot : ι → Slot
  intrLevel : ι → Fin 4
  device : ι → δ

/-- The tables of the NPR level with its requests, `mailbox->dma` and who has it. `clash` tells of an
`ARM2PRU_DMA` given while the PRU had the mailbox. -/
structure DmaTables (ρ : Type) where
  npr : Level ρ
  executing : ρ → Bool
  complete : ρ → Bool
  request : ρ → DmaRequest
  orphanOnPru : Bool
  mailbox : MailboxDma
  pru : PruDma
  clash : Bool

namespace DmaTables

variable {ρ ι δ : Type} [DecidableEq ρ]

def setRequest (r : ρ) (q : DmaRequest) (s : DmaTables ρ) : DmaTables ρ :=
  { s with request := update s.request r q }

def setExecuting (r : ρ) (x : Bool) (s : DmaTables ρ) : DmaTables ρ :=
  { s with executing := update s.executing r x }

def setComplete (r : ρ) (s : DmaTables ρ) : DmaTables ρ :=
  { s with complete := update s.complete r true }

/-- `request_execute_active_on_PRU(PRIORITY_LEVEL_INDEX_NPR)` -/
def executeActive (w : AddrWidth) (s : DmaTables ρ) : Option (DmaTables ρ) :=
  match s.npr.active with
  | none => none
  | some r =>
    if s.orphanOnPru then pure s
    else do
      let (q,mb) ← (s.request r).pushChunk w s.mailbox
      pure { (s.setRequest r q).setExecuting r true with
        mailbox := { mb with curStatus := .arbitrating }
        clash := s.clash || s.pru≠.free
        pru := .arbitrating }

/-- `request_activate_lowest_slot`, and the request executed if there is one -/
def activateNext (w : AddrWidth) (s : DmaTables ρ) : Option (DmaTables ρ) := do
  let npr ← s.npr.activateLowest
  let s := { s with npr := npr }
  if npr.active.isSome then s.executeActive w else pure s

/-- `request_activate_lowest_slot` and `request_execute_active_on_PRU` -/
def activateExecute (w : AddrWidth) (s : DmaTables ρ) : Option (DmaTables ρ) := do
  let npr ← s.npr.activateLowest
  { s with npr := npr }.executeActive w

def runQueued (w : AddrWidth) (s : DmaTables ρ) : Option (DmaTables ρ) :=
  if s.npr.active.isNone ∧ s.npr.slotRequestMask≠0 then s.activateExecute w else pure s

/-- `dma_cancel_on_pru`. `answers` tells whether the PRU takes the command in time. -/
def cancelOnPru (answers : Bool) (s : DmaTables ρ) : DmaTables ρ × Bool :=
  if answers then
    let s :=
      if s.pru=.arbitrating then
        { s with pru := .free,mailbox := { s.mailbox with curStatus := .canceled } }
      else s
    (s,s.mailbox.curStatus=.canceled)
  else (s,false)

/-- A transfer `DMA()` does not start -/
def refuse (r : ρ) (addr : Nat) (s : DmaTables ρ) : DmaTables ρ :=
  (s.setRequest r ((s.request r).refuse addr)).setComplete r

/-- `request_schedule` of a DMA request -/
def schedule (b : Board ρ ι δ) (r : ρ) (s : DmaTables ρ) : Option (DmaTables ρ) :=
  if (s.npr.slotRequest (b.dmaSlot r)).isSome then none
  else pure { s with npr := s.npr.put (b.dmaSlot r) r }

/-- `DMA()`, up to the wait for its end. `answered` tells of a processor that answers the transfer
itself. -/
def dma (w : AddrWidth) (b : Board ρ ι δ) (r : ρ) (control : Buscycle) (addr : Nat)
    (buffer : Nat → Word) (wordcount : Nat) (initActive answered : Bool) (s : DmaTables ρ) :
    Option (DmaTables ρ) := do
  assert (!b.isCpuAccess r || b.dmaSlot r=31)
  if wordcount=0 ∨ w.addrSpaceByteCount<addr+2*wordcount then pure (s.refuse r addr)
  else if initActive then pure (s.refuse r addr)
  else if !b.isCpuAccess r && answered then
    pure ((s.setRequest r ((s.request r).answeredAt addr wordcount)).setComplete r)
  else if (s.npr.slotRequest (b.dmaSlot r)).isSome then pure (s.refuse r addr)
  else do
    let q := (s.request r).setup control addr buffer wordcount (b.isCpuAccess r)
    let s := { (s.setRequest r q) with
      executing := update s.executing r false
      complete := update s.complete r false }
    let s ← s.schedule b r
    if s.npr.active.isNone then s.activateExecute w else pure s

def preempt (s : DmaTables ρ) : DmaTables ρ :=
  { s with npr := { s.npr with active := none } }

/-- `worker_device_dma_chunk_complete_event` -/
def chunkCompleteEvent (w : AddrWidth) (b : Board ρ ι δ) (s : DmaTables ρ) : Option (DmaTables ρ) :=
  if s.orphanOnPru then
    let s := { s with orphanOnPru := false }
    if s.npr.active.isSome then s.executeActive w else pure s
  else
    match s.npr.active with
    | none => pure s
    | some r => do
      let (q,more) ← (s.request r).chunkComplete s.mailbox
      let s := { (s.setRequest r q) with mailbox := { s.mailbox with
        startaddr := clearIopage s.mailbox.startaddr,curAddr := clearIopage s.mailbox.curAddr } }
      if more then s.preempt.activateExecute w
      else do
        let (npr,_) ← s.npr.activeComplete b.dmaSlot
        let s := { (s.setExecuting r false) with npr := npr }
        (if b.isCpuAccess r then s else s.setComplete r).activateNext w

/-- `dma_request_abandon` -/
def abandon (w : AddrWidth) (b : Board ρ ι δ) (r : ρ) (answers : Bool) (s : DmaTables ρ) : Option (DmaTables ρ) :=
  if s.complete r ∨ s.npr.slotRequest (b.dmaSlot r)≠some r then pure s
  else
    let (s,taken) := if s.executing r then s.cancelOnPru answers else (s,true)
    if ¬taken then pure s
    else do
      let npr := s.npr.clear (b.dmaSlot r)
      let npr := if npr.active=some r then { npr with active := none } else npr
      let s ← { (s.setExecuting r false) with npr := npr }.runQueued w
      pure (s.setComplete r)

def spinGiveUp (w : AddrWidth) (b : Board ρ ι δ) (r : ρ) (s : DmaTables ρ) : Option (DmaTables ρ) :=
  if s.orphanOnPru ∧ s.npr.slotRequest (b.dmaSlot r)=some r then do
    let npr := s.npr.clear (b.dmaSlot r)
    let npr := if npr.active=some r then { npr with active := none } else npr
    let s ← { (s.setExecuting r false) with npr := npr }.runQueued w
    pure (s.setComplete r)
  else pure s

/-- One slot of the loop of `requests_cancel_scheduled` -/
def cancelSlot (answers : Slot → Bool) (s : DmaTables ρ) (slot : Slot) : DmaTables ρ :=
  match s.npr.slotRequest slot with
  | none => s
  | some r =>
    let s :=
      if s.executing r then
        let (s,taken) := s.cancelOnPru (answers slot)
        if taken then s else { s with orphanOnPru := true }
      else s
    let npr := { s.npr with slotRequest := update s.npr.slotRequest slot none }
    let s := s.setRequest r { s.request r with success := false }
    { (s.setExecuting r false) with npr := npr }.setComplete r

/-- The DMA part of `requests_cancel_scheduled` and `requests_init`. `expired` tells whether the latch
on an orphan has stood for longer than `dma_orphan_wait_ns`. -/
def cancelScheduled (expired : Bool) (answers : Slot → Bool) (s : DmaTables ρ) : DmaTables ρ :=
  let s := if s.orphanOnPru ∧ expired then { s with orphanOnPru := false } else s
  let s := { s with npr := { s.npr with slotRequestMask := 0,active := none } }
  { (List.finRange 32).foldl (cancelSlot answers) s with npr := .init }

def pruStarts (s : DmaTables ρ) : DmaTables ρ :=
  if s.pru=.arbitrating then
    { s with pru := .running,mailbox := { s.mailbox with curStatus := .running } }
  else s

def pruEnds (status : DmaState) (addr : Nat) (s : DmaTables ρ) : DmaTables ρ :=
  if s.pru=.running ∧ (status=.ready ∨ status=.timeoutstop ∨ status=.initstop) then
    { s with
      pru := .ended
      mailbox := { s.mailbox with
        curStatus := status
        curAddr := if status=.ready then s.mailbox.startaddr+2*(s.mailbox.wordcount-1) else addr } }
  else s

def dispatch (w : AddrWidth) (b : Board ρ ι δ) (s : DmaTables ρ) : Option (DmaTables ρ) :=
  if s.pru=.ended then { s with pru := .free }.chunkCompleteEvent w b else pure s

end DmaTables

end QUniLator.Adapter
