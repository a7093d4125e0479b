import QUniLator.Ethernet.Delqa
import QUniLator.Framework.Segments

namespace QUniLator.Ethernet

open Bool (and_eq_true not_eq_true' or_eq_true)

open List Option

abbrev Byte := BitVec 8

def csrEl : Word := 0x0200

def csrRe : Word := 0x0001

/-! The bits of a descriptor -/

def dscV : Word := 0x8000

def dscC : Word := 0x4000

def dscL : Word := 0x0080

def dscH : Word := 0x0040

/-! The bits of the receive status -/

def rstLastnot : Word := 0xC000

def rstLasterr : Word := 0x4000

def rstEsetup : Word := 0x2000

def rstRunt : Word := 0x4800

def rstOverflow : Word := 0x0001

def ethMinPacket : Nat := 60

def ethMaxPacket : Nat := 1518

def maxRcvPacket : Nat := 1600

def longPacket : Nat := 0x0600

def maxDescriptors : Nat := 256

def readQueueMax : Nat := 32

inductive PacketType | setup | loopback | normal | bootrom
  deriving DecidableEq,Repr

/-- The runt padding and the giant trim of `process_rbdl` -/
def PacketType.legal (data : List Byte) : PacketType → List Byte
  | .normal =>
    let padded := data++replicate (ethMinPacket-data.length) 0
    padded.take maxRcvPacket
  | .setup | .loopback | .bootrom => data

/-- `packet_c`. `id` and `arrived` say which packet it is, and as what it came; nothing reads them. -/
structure Packet where
  type : PacketType
  data : List Byte
  used : Nat
  id : Nat
  arrived : List Byte
  deriving DecidableEq,Repr

def Packet.isNormal (p : Packet) : Bool := p.type=.normal

structure Descriptor where
  bits : Word
  low : Word
  length : Word
  deriving DecidableEq,Repr

namespace Descriptor

def address (d : Descriptor) : BitVec 32 :=
  let address := ((d.bits &&& 0x3f).setWidth 32 <<< 16) ||| d.low.setWidth 32
  if d.bits &&& dscH≠0 then address+1 else address

/-- `b_length` -/
def room (d : Descriptor) : BitVec 32 :=
  let words := (~~~d.length+1).setWidth 32*2
  let odd := if d.bits &&& dscH≠0 then words-1 else words
  if d.bits &&& dscL≠0 then odd-1 else odd

end Descriptor

/-- What is copied of the packet at the queue head, with what stands in the controller then -/
structure Taken where
  address : BitVec 32
  room : Nat
  id : Nat
  type : PacketType
  segment : List Byte
  packetLen : Nat
  used : Nat
  loss : Bool
  csr : Word
  recognised : Bool
  deriving DecidableEq,Repr

namespace Taken

def rbl (g : Taken) : Nat :=
  match g.type with
  | .setup | .bootrom => g.segment.length
  | .loopback => g.packetLen
  | .normal => g.packetLen-ethMinPacket

def more (g : Taken) : Bool := g.used<g.packetLen

def status1 (g : Taken) : Word :=
  let len := BitVec.ofNat 16 g.rbl
  let own : Word :=
    match g.type with
    | .setup => 0x2700
    | .loopback =>
      ((len &&& 0x0700) ||| 0x0080) |||
        ((if g.csr &&& csrRe≠0 ∧ g.packetLen<ethMinPacket ∧ g.recognised=false then rstRunt
          else 0) |||
        (if g.csr &&& csrEl≠0 then rstEsetup else 0))
    | .normal => (len &&& 0x0700) ||| 0x00f8
    | .bootrom => 0x8000 ||| (len &&& 0x0700)
  let whole := g.rbl+(if g.type=.normal then ethMinPacket else 0)
  if g.more ∧ g.type≠.bootrom then 0xffff
  else
    own ||| (if g.more then rstLastnot else 0) ||| (if g.loss then rstOverflow else 0) |||
      (if (g.csr &&& csrEl=0 ∧ ethMaxPacket<whole) ∨
          (g.csr &&& csrEl≠0 ∧ g.type=.loopback ∧ longPacket≤g.rbl) then rstLasterr
        else 0)

def status2 (g : Taken) : Word :=
  let len := BitVec.ofNat 16 g.rbl &&& 0xff
  if g.more ∧ g.type≠.bootrom then 0xffff
  else (len <<< 8) ||| len ||| (if g.more then rstLastnot else 0)

def owed (g : Taken) : Bool := g.packetLen≤g.used

end Taken

/-- `start_ba`, `dcount`, `ri_pending` and `rl_reached` of `process_rbdl` -/
structure Walk where
  startBa : BitVec 32
  dcount : Nat
  riPending : Bool
  rlReached : Bool
  deriving DecidableEq,Repr

/-- Where the worker is in `process_rbdl`: before a descriptor, the look at the queue, the other words, the taking of
the head, the DMA of the segment or of the status words, the end of the round or of the walk. `fault` took or dropped
the front of an empty queue. -/
inductive RbdlPhase
  | idle
  | head (w : Walk)
  | test (w : Walk) (bits : Word)
  | words (w : Walk) (bits : Word)
  | front (w : Walk) (d : Descriptor)
  | data (w : Walk) (g : Taken)
  | status (w : Walk) (g : Taken)
  | pop (w : Walk) (g : Taken)
  | finish (w : Walk)
  | fault
  deriving DecidableEq,Repr

/-- `delqa_c`, what the reception depends on. `nextId` names the next packet, and `reports` has the status
words that have been written, with the place of their descriptor. -/
structure Receiver where
  readQueue : List Packet
  readQueueLoss : Nat
  csr : Word
  rbdlBa : BitVec 32
  phase : RbdlPhase
  nextId : Nat
  reports : List (BitVec 32 × Word × Word)
  deriving DecidableEq,Repr

/-- What happens: the sections of `process_rbdl`, with what the DMA reads, whether it succeeds, and whether the filter
knows the frame; `dispatch_rbdl`; `enqueue_packet`; `software_reset`; and any change of CSR. -/
inductive RbdlEvent
  | dispatch (ba : BitVec 32)
  | begin
  | descriptor (read : Option Word) (marked : Bool) (chain : Option Word)
  | test
  | words (read : Option (Word × Word))
  | front (recognised : Bool)
  | data (success : Bool)
  | status (success : Bool)
  | pop
  | finish
  | enqueue (type : PacketType) (data : List Byte)
  | softwareReset
  | csr (w : Word)
  deriving DecidableEq,Repr

namespace Receiver

def nxmError (s : Receiver) : Receiver :=
  { s with csr := s.csr ||| (csrNi ||| csrXi ||| csrXl ||| csrRl),phase := .idle }

/-- `process_rbdl` up to its loop -/
def begin (s : Receiver) : Receiver :=
  if s.csr &&& csrRl≠0 then s else { s with phase := .head ⟨s.rbdlBa,0,false,false⟩ }

def descriptor (s : Receiver) (w : Walk) (read : Option Word) (marked : Bool) (chain : Option Word) : Receiver :=
  match read with
  | none => s.nxmError
  | some bits =>
    if w.dcount≠0 ∧ s.rbdlBa=w.startBa then { s with phase := .finish w }
    else if maxDescriptors<w.dcount then { s with phase := .finish { w with rlReached := true } }
    else
      let w := { w with dcount := w.dcount+1 }
      if marked=false then s.nxmError
      else if bits &&& dscV=0 then { s with phase := .finish { w with rlReached := true } }
      else if bits &&& dscC≠0 then
        match chain with
        | none => s.nxmError
        | some low =>
          { s with rbdlBa := ((bits &&& 0x3f).setWidth 32 <<< 16) ||| low.setWidth 32,phase := .head w }
      else { s with phase := .test w bits }

/-- The packet at the queue head, as it stands after the segment has been taken -/
def takePacket (p : Packet) (room : Nat) : Packet :=
  let data := if p.used=0 then p.type.legal p.data else p.data
  { p with data := data,used := p.used+min (data.length-p.used) room }

def taken (s : Receiver) (p : Packet) (d : Descriptor) (recognised : Bool) : Taken :=
  let q := takePacket p d.room.toNat
  ⟨d.address,d.room.toNat,p.id,p.type,(q.data.drop p.used).take (q.used-p.used),q.data.length,q.used,
    s.readQueueLoss≠0,s.csr,recognised⟩

def front (s : Receiver) (w : Walk) (d : Descriptor) (recognised : Bool) : Receiver :=
  match s.readQueue with
  | [] => { s with phase := .fault }
  | p::rest =>
    { s with readQueue := takePacket p d.room.toNat::rest,readQueueLoss := 0,
             phase := .data w (s.taken p d recognised) }

def pop (s : Receiver) (w : Walk) (g : Taken) : Receiver :=
  let w := { w with riPending := true }
  if g.owed then
    match s.readQueue with
    | [] => { s with phase := .fault }
    | _::rest => { s with readQueue := rest,rbdlBa := s.rbdlBa+12,phase := .head w }
  else { s with rbdlBa := s.rbdlBa+12,phase := .head w }

def finish (s : Receiver) (w : Walk) : Receiver :=
  { s with csr := s.csr ||| (if w.rlReached then csrRl else 0) ||| (if w.riPending then csrRi else 0),
           phase := .idle }

end Receiver

def handful (type : PacketType) (q : List Packet) : Bool := type=.normal && 4≤q.countP Packet.isNormal

def dropNormal (q : List Packet) : List Packet := q.eraseP Packet.isNormal

/-- The queue after the first part of `enqueue_packet` -/
def afterHandful (type : PacketType) (q : List Packet) : List Packet :=
  if handful type q then dropNormal q else q

def isFull (q : List Packet) : Bool := readQueueMax≤q.length

namespace Receiver

def enqueuePacket (s : Receiver) (type : PacketType) (data : List Byte) : Receiver :=
  let q := afterHandful type s.readQueue
  let new : Packet := ⟨type,data,0,s.nextId,data⟩
  if isFull q then
    let q' := dropNormal q
    { s with readQueue := if isFull q' then q' else q'++[new],readQueueLoss := s.readQueueLoss+1,
             nextId := s.nextId+1 }
  else { s with readQueue := q++[new],nextId := s.nextId+1 }

def softwareReset (s : Receiver) : Receiver :=
  { s with readQueue := (s.readQueue.filter Packet.isNormal).map fun p => { p with used := 0 },
           readQueueLoss := 0 }

def step (s : Receiver) : RbdlEvent → Option Receiver
  | .dispatch ba => if s.phase=.idle then some { s with rbdlBa := ba } else none
  | .begin => if s.phase=.idle then some s.begin else none
  | .descriptor read marked chain =>
    match s.phase with
    | .head w => some (s.descriptor w read marked chain)
    | _ => none
  | .test =>
    match s.phase with
    | .test w bits => some { s with phase := if s.readQueue=[] then .finish w else .words w bits }
    | _ => none
  | .words read =>
    match s.phase with
    | .words w bits =>
      some (match read with
        | none => s.nxmError
        | some x => { s with phase := .front w ⟨bits,x.1,x.2⟩ })
    | _ => none
  | .front recognised =>
    match s.phase with
    | .front w d => some (s.front w d recognised)
    | _ => none
  | .data success =>
    match s.phase with
    -- nothing is transferred for an empty segment
    | .data w g => some (if success ∨ g.segment=[] then { s with phase := .status w g } else s.nxmError)
    | _ => none
  | .status success =>
    match s.phase with
    | .status w g =>
      some (if success then
          { s with phase := .pop w g,reports := s.reports++[(s.rbdlBa,g.status1,g.status2)] }
        else s.nxmError)
    | _ => none
  | .pop =>
    match s.phase with
    | .pop w g => some (s.pop w g)
    | _ => none
  | .finish =>
    match s.phase with
    | .finish w => some (s.finish w)
    | _ => none
  | .enqueue type data =>
    -- what is not from the wire is queued by the worker itself
    if type=.normal ∨ s.phase=.idle then some (s.enqueuePacket type data) else none
  | .softwareReset => some s.softwareReset
  | .csr w => some { s with csr := w }

def start : Receiver := ⟨[],0,csrRl ||| csrXl,0,.idle,0,[]⟩

end Receiver

/-! What becomes of the packets -/

/-- How a packet has left the queue: popped, with the segments written till then, dropped, with or without
being counted in `read_queue_loss`, or erased by a reset -/
inductive Gone
  | popped (p : Packet) (written : List (Segment Nat Byte))
  | counted (p : Packet)
  | uncounted (p : Packet)
  | reset (p : Packet)
  deriving DecidableEq,Repr

/-- A packet popped is that of the segment written last, and its bytes, padded or trimmed, were written once, in
order, each buffer being filled before the next. No packet is dropped uncounted. -/
def Gone.Good : Gone → Prop
  | .popped p written => p.data=p.type.legal p.arrived ∧ Delivered written p.id p.data
  | .counted _ | .reset _ => True
  | .uncounted _ => False

/-- The segments written and the packets that have left the queue -/
structure RbdlLedger where
  written : List (Segment Nat Byte)
  gone : List Gone
  deriving DecidableEq,Repr

abbrev Receiving := Receiver × RbdlLedger

namespace Receiver

def ledgerAfter (s : Receiver) (l : RbdlLedger) : RbdlEvent → RbdlLedger
  | .data success =>
    match s.phase with
    | .data _ g =>
      if success ∨ g.segment=[] then { l with written := l.written++[⟨g.id,g.room,g.segment⟩] } else l
    | _ => l
  | .pop =>
    match s.phase with
    | .pop _ g =>
      if g.owed then { l with gone := l.gone++(s.readQueue.head?.map (.popped · l.written)).toList }
      else l
    | _ => l
  | .enqueue type _ =>
    let first := if handful type s.readQueue then s.readQueue.find? Packet.isNormal else none
    let q := afterHandful type s.readQueue
    let second := if isFull q then q.find? Packet.isNormal else none
    { l with gone := l.gone++(first.map Gone.uncounted).toList++(second.map Gone.counted).toList }
  | .softwareReset =>
    { l with gone := l.gone++(s.readQueue.filter fun p => !p.isNormal).map Gone.reset }
  | .dispatch _ | .begin | .descriptor _ _ _ | .test | .words _ | .front _ | .status _ | .finish | .csr _ => l

def stepReceiving (x : Receiving) (e : RbdlEvent) : Option Receiving :=
  (x.1.step e).map fun t => (t,x.1.ledgerAfter x.2 e)

def held (s : Receiver) : Option Taken :=
  match s.phase with
  | .data _ g | .status _ g | .pop _ g => some g
  | .idle | .head _ | .test _ _ | .words _ _ | .front _ _ | .finish _ | .fault => none

def expects (s : Receiver) : Bool :=
  match s.phase with
  | .words _ _ | .front _ _ => true
  | .idle | .head _ | .test _ _ | .data _ _ | .status _ _ | .pop _ _ | .finish _ | .fault => false

/-- The last segment of a packet has been taken, and the packet has not been popped yet. -/
def owes (s : Receiver) : Bool := s.held.any Taken.owed

def headWhole (s : Receiver) : Bool :=
  s.readQueue.head?.all fun p => !p.isNormal || p.used=0

/-- No wire frame is dropped for being the fifth, no frame for want of room between the taking of its last segment and
its pop; a reset finds none delivered in part, wire frames only where the last segment is taken, and one where the
queue was found not empty; no DMA fails of a segment whose packet is queued, or of the last status words after a
reset. -/
def keeps (s : Receiver) : RbdlEvent → Bool
  | .enqueue type _ =>
    !handful type s.readQueue && (!isFull s.readQueue || !s.owes || !s.readQueue.head?.any Packet.isNormal)
  | .softwareReset =>
    (if s.owes then s.readQueue.head?.any Packet.isNormal else s.headWhole) &&
      (!s.expects || s.readQueue.any Packet.isNormal)
  | .data success =>
    success || s.held.all fun g => g.segment=[] || !s.readQueue.any fun p => p.id=g.id
  | .status success =>
    success || s.held.all fun g => !g.owed || s.readQueue.head?.all fun p => p.used=g.used
  | .dispatch _ | .begin | .descriptor _ _ _ | .test | .words _ | .front _ | .pop | .finish | .csr _ => true

/-- The worker never takes or drops the front of an empty queue, and what leaves the queue leaves it as it
should. -/
structure Right (s : Receiver) (l : RbdlLedger) : Prop where
  front : s.phase≠.fault
  gone : ∀ g∈l.gone,g.Good

end Receiver

theorem legal_legal (type : PacketType) (data : List Byte) : type.legal (type.legal data)=type.legal data := by
  cases type with
  | setup | loopback | bootrom => rfl
  | normal =>
    have hmin : ethMinPacket-(PacketType.legal data .normal).length=0 := by
      simp only [PacketType.legal,ethMinPacket,maxRcvPacket,length_take,length_append,length_replicate]
      omega
    have hmax : (PacketType.legal data .normal).length ≤ maxRcvPacket := by
      simp only [PacketType.legal,length_take]
      exact Nat.min_le_left _ _
    rw [PacketType.legal,hmin,replicate_zero,append_nil]
    exact take_of_length_le hmax

/-! What the queue holds between the sections -/

/-- The packet is as it came, and nothing of it has been written. -/
structure Fresh (log : List (Segment Nat Byte)) (p : Packet) : Prop where
  data : p.data=p.arrived
  used : p.used=0
  log : ∀ w∈log,w.tag≠p.id

/-- The packet has been at the queue head, and `used` bytes of it have been written. -/
structure Started (log : List (Segment Nat Byte)) (p : Packet) : Prop where
  data : p.data=p.type.legal p.arrived
  used : p.used≤p.data.length
  log : CutLast log p.id p.data (p.data.drop p.used)

def Standing (log : List (Segment Nat Byte)) : List Packet → Prop
  | [] => True
  | p::rest => (Fresh log p ∨ Started log p) ∧ ∀ x∈rest,Fresh log x

/-- The packet is the one that has been taken; a reset may have come since, where the last segment was
taken. -/
structure Grip (g : Taken) (p : Packet) : Prop where
  id : p.id=g.id
  data : p.data=p.type.legal p.arrived
  len : p.data.length=g.packetLen
  used : p.used=g.used ∨ g.owed ∧ p.used=0
  le : g.used≤g.packetLen

/-- The packet at the queue head is the one that has been taken, and `C` holds of it; or that packet has
left the queue, and there is more to come of it. -/
def Holding (log : List (Segment Nat Byte)) (g : Taken) (C : Packet → Prop) (q : List Packet) : Prop :=
  (∃ p rest,q=p::rest ∧ Grip g p ∧ C p ∧ ∀ x∈rest,Fresh log x) ∨
    g.owed=false ∧ ∀ x∈q,x.id≠g.id ∧ Fresh log x

def Next (log : List (Segment Nat Byte)) (g : Taken) (p : Packet) : Prop :=
  ∃ left,CutLast log p.id p.data left ∧ g.segment=left.take g.room ∧
    p.data.drop g.used=left.drop g.room

def Written (log : List (Segment Nat Byte)) (g : Taken) (p : Packet) : Prop :=
  log.getLast?.map Segment.tag=some p.id ∧ CutLast log p.id p.data (p.data.drop g.used)

section
variable {log : List (Segment Nat Byte)} {g : Taken} {C : Packet → Prop} {q rest : List Packet} {p : Packet}

theorem Fresh.reset (h : Fresh log p) : { p with used := 0 }=p := by
  rw [← h.used]

theorem Standing.of_fresh (h : ∀ x∈q,Fresh log x) : Standing log q := by
  cases q with
  | nil => trivial
  | cons p rest => exact ⟨.inl (h p mem_cons_self),fun x hx => h x (mem_cons_of_mem p hx)⟩

theorem Standing.append (h : Standing log q) (hp : Fresh log p) : Standing log (q++[p]) := by
  cases q with
  | nil => exact ⟨.inl hp,by rintro x ⟨⟩⟩
  | cons y rest =>
    refine ⟨h.1,fun x hx => ?_⟩
    obtain hx | hx := mem_append.mp hx
    · exact h.2 x hx
    · rw [mem_singleton.mp hx]
      exact hp

theorem Standing.dropNormal (h : Standing log q) : Standing log (dropNormal q) := by
  cases q with
  | nil => trivial
  | cons p rest =>
    rw [Ethernet.dropNormal]
    cases hn : p.isNormal with
    | true =>
      rw [eraseP_cons_of_pos hn]
      exact .of_fresh h.2
    | false =>
      rw [eraseP_cons_of_neg (by rw [hn]; rintro ⟨⟩)]
      exact ⟨h.1,fun x hx => h.2 x (eraseP_subset hx)⟩

theorem reset_fresh (h : ∀ x∈q,Fresh log x) :
    (q.filter Packet.isNormal).map (fun p => { p with used := 0 })=q.filter Packet.isNormal := by
  refine (map_congr_left fun x hx => ?_).trans (List.map_id _)
  exact (h x (mem_of_mem_filter hx)).reset

theorem fresh_filter (h : ∀ x∈q,Fresh log x) : ∀ x∈q.filter Packet.isNormal,Fresh log x :=
  fun x hx => h x (mem_of_mem_filter hx)

def kept (q : List Packet) : List Packet := (q.filter Packet.isNormal).map fun p => { p with used := 0 }

theorem kept_normal (hn : p.isNormal) (h : ∀ x∈rest,Fresh log x) :
    kept (p::rest)={ p with used := 0 }::rest.filter Packet.isNormal := by
  rw [kept,filter_cons_of_pos hn,map_cons,reset_fresh h]

theorem kept_other (hn : p.isNormal=false) (h : ∀ x∈rest,Fresh log x) :
    kept (p::rest)=rest.filter Packet.isNormal := by
  rw [kept,filter_cons_of_neg (by rw [hn]; rintro ⟨⟩),reset_fresh h]

theorem Standing.kept (h : Standing log q) (hw : q.head?.all fun p => !p.isNormal || p.used=0) :
    Standing log (kept q) := by
  cases q with
  | nil => trivial
  | cons p rest =>
    cases hn : p.isNormal with
    | true =>
      have hw : (!p.isNormal || decide (p.used=0))=true := hw
      rw [hn,Bool.not_true,Bool.false_or] at hw
      have hp : { p with used := 0 }=p := by rw [← of_decide_eq_true hw]
      rw [kept_normal hn h.2,hp]
      exact ⟨h.1,fresh_filter h.2⟩
    | false =>
      rw [kept_other hn h.2]
      exact .of_fresh (fresh_filter h.2)

theorem Holding.append (h : Holding log g C q) (hp : Fresh log p) (hid : p.id≠g.id) : Holding log g C (q++[p]) := by
  obtain ⟨y,rest,rfl,hg,hc,hr⟩ | ⟨ho,hq⟩ := h
  · refine .inl ⟨y,rest++[p],rfl,hg,hc,fun x hx => ?_⟩
    obtain hx | hx := mem_append.mp hx
    · exact hr x hx
    · rw [mem_singleton.mp hx]
      exact hp
  · refine .inr ⟨ho,fun x hx => ?_⟩
    obtain hx | hx := mem_append.mp hx
    · exact hq x hx
    · rw [mem_singleton.mp hx]
      exact ⟨hid,hp⟩

theorem others (hnd : ((p::rest).map Packet.id).Nodup) (hid : p.id=g.id) : ∀ x∈rest,x.id≠g.id := by
  intro x hx he
  refine (nodup_cons.mp hnd).1 ?_
  rw [hid,← he]
  exact List.mem_map_of_mem hx

theorem Holding.dropNormal (h : Holding log g C q) (hnd : (q.map Packet.id).Nodup)
    (hk : g.owed=false ∨ q.head?.any Packet.isNormal=false) : Holding log g C (Ethernet.dropNormal q) := by
  obtain ⟨p,rest,rfl,hg,hc,hr⟩ | ⟨ho,hq⟩ := h
  · rw [Ethernet.dropNormal]
    cases hn : p.isNormal with
    | true =>
      have ho : g.owed=false := by
        obtain ho | hf := hk
        · exact ho
        · have hf : p.isNormal=false := hf
          rw [hn] at hf
          cases hf
      rw [eraseP_cons_of_pos hn]
      exact .inr ⟨ho,fun x hx => ⟨others hnd hg.id x hx,hr x hx⟩⟩
    | false =>
      rw [eraseP_cons_of_neg (by rw [hn]; rintro ⟨⟩)]
      exact .inl ⟨p,_,rfl,hg,hc,fun x hx => hr x (eraseP_subset hx)⟩
  · exact .inr ⟨ho,fun x hx => hq x (eraseP_subset hx)⟩

theorem Holding.kept (h : Holding log g C q) (hnd : (q.map Packet.id).Nodup)
    (hc : ∀ p,C p → C { p with used := 0 }) (hk : if g.owed then q.head?.any Packet.isNormal
      else q.head?.all (fun p => !p.isNormal || p.used=0)=true) :
    Holding log g C (Ethernet.kept q) := by
  obtain ⟨p,rest,rfl,hg,hcp,hr⟩ | ⟨ho,hq⟩ := h
  · cases hn : p.isNormal with
    | true =>
      rw [kept_normal hn hr]
      refine .inl ⟨_,_,rfl,⟨hg.id,hg.data,hg.len,?_,hg.le⟩,hc p hcp,fresh_filter hr⟩
      cases ho : g.owed with
      | true => exact .inr ⟨rfl,rfl⟩
      | false =>
        rw [ho] at hk
        have hk : (!p.isNormal || decide (p.used=0))=true := hk
        rw [hn,Bool.not_true,Bool.false_or] at hk
        have hused : p.used=g.used := by
          obtain hu | ⟨hu,_⟩ := hg.used
          · exact hu
          · rw [ho] at hu
            cases hu
        exact .inl ((of_decide_eq_true hk).symm.trans hused)
    | false =>
      have ho : g.owed=false := by
        cases ho : g.owed with
        | false => rfl
        | true =>
          rw [ho] at hk
          have hk : p.isNormal=true := hk
          rw [hn] at hk
          cases hk
      rw [kept_other hn hr]
      exact .inr ⟨ho,fun x hx => ⟨others hnd hg.id x (mem_of_mem_filter hx),fresh_filter hr x hx⟩⟩
  · have hfresh : ∀ x∈q,Fresh log x := fun x hx => (hq x hx).2
    rw [Ethernet.kept,reset_fresh hfresh]
    exact .inr ⟨ho,fun x hx => hq x (mem_of_mem_filter hx)⟩

end

/-! What the worker does to the packet at the queue head -/

section
variable {log : List (Segment Nat Byte)} {g : Taken} {q rest : List Packet} {p : Packet} {room : Nat}

namespace Receiver

theorem takePacket_data (h : Fresh log p ∨ Started log p) : (takePacket p room).data=p.type.legal p.arrived := by
  obtain h | h := h
  · show (if p.used=0 then p.type.legal p.data else p.data)=_
    rw [if_pos h.used,h.data]
  · show (if p.used=0 then p.type.legal p.data else p.data)=_
    split
    · rw [h.data,legal_legal]
    · exact h.data

theorem takePacket_cut (h : Fresh log p ∨ Started log p) :
    CutLast log p.id (takePacket p room).data ((takePacket p room).data.drop p.used) ∧
      p.used≤(takePacket p room).data.length := by
  obtain h | h := h
  · rw [h.used,drop_zero]
    exact ⟨.none h.log _,Nat.zero_le _⟩
  · have hdata : (takePacket p room).data=p.data := (takePacket_data (.inr h)).trans h.data.symm
    rw [hdata]
    exact ⟨h.log,h.used⟩

end Receiver

theorem Standing.front {s : Receiver} {d : Descriptor} {b : Bool} (h : Standing log (p::rest)) :
    Holding log (s.taken p d b) (Next log (s.taken p d b)) (Receiver.takePacket p d.room.toNat::rest) := by
  obtain ⟨hcut,hused⟩ : _ ∧ p.used≤(Receiver.takePacket p d.room.toNat).data.length :=
    Receiver.takePacket_cut h.1
  have hlen : ((Receiver.takePacket p d.room.toNat).data.drop p.used).length =
      (Receiver.takePacket p d.room.toNat).data.length-p.used := length_drop
  refine .inl ⟨_,rest,rfl,⟨rfl,Receiver.takePacket_data h.1,rfl,.inl rfl,?_⟩,?_,h.2⟩
  · show p.used+min (_-p.used) _ ≤ _
    have hmin := Nat.min_le_left ((Receiver.takePacket p d.room.toNat).data.length-p.used) d.room.toNat
    show _≤(Receiver.takePacket p d.room.toNat).data.length
    exact (Nat.add_le_add_left hmin p.used).trans (Nat.add_sub_cancel' hused).le
  · refine ⟨_,hcut,?_,?_⟩
    · show List.take (p.used+min ((Receiver.takePacket p d.room.toNat).data.length-p.used) d.room.toNat-p.used)
        _=_
      rw [Nat.add_sub_cancel_left,← hlen]
      exact take_min _ _
    · show List.drop (p.used+min ((Receiver.takePacket p d.room.toNat).data.length-p.used) d.room.toNat) _=_
      rw [← drop_drop,← hlen]
      exact drop_min _ _

theorem Holding.written (h : Holding log g (Next log g) q) (hnd : (q.map Packet.id).Nodup) :
    Holding (log++[⟨g.id,g.room,g.segment⟩]) g (Written (log++[⟨g.id,g.room,g.segment⟩]) g) q := by
  have hfresh (x : Packet) (hx : Fresh log x) (hid : x.id≠g.id) :
      Fresh (log++[⟨g.id,g.room,g.segment⟩]) x := by
    refine ⟨hx.data,hx.used,fun w hw => ?_⟩
    obtain hw | hw := mem_append.mp hw
    · exact hx.log w hw
    · rw [mem_singleton.mp hw]
      exact hid.symm
  obtain ⟨p,rest,rfl,hg,⟨left,hcut,hseg,hleft⟩,hr⟩ | ⟨ho,hq⟩ := h
  · refine .inl ⟨p,rest,rfl,hg,⟨?_,?_⟩,fun x hx => hfresh x (hr x hx) (others hnd hg.id x hx)⟩
    · rw [List.getLast?_concat,hg.id]
      rfl
    · rw [hleft,hseg,← hg.id]
      exact hcut.next g.room
  · exact .inr ⟨ho,fun x hx => ⟨(hq x hx).1,hfresh x (hq x hx).2 (hq x hx).1⟩⟩

theorem Holding.failed (h : Holding log g (Next log g) q) (hk : ∀ x∈q,x.id≠g.id) : Standing log q := by
  obtain ⟨p,rest,rfl,hg,_⟩ | ⟨_,hq⟩ := h
  · exact absurd hg.id (hk p mem_cons_self)
  · exact .of_fresh fun x hx => (hq x hx).2

theorem Grip.started (hg : Grip g p) (hw : Written log g p) (hu : p.used=g.used) : Started log p := by
  refine ⟨hg.data,?_,?_⟩
  · rw [hu,hg.len]
    exact hg.le
  · rw [hu]
    exact hw.2

theorem Holding.standing (h : Holding log g (Written log g) q)
    (hk : g.owed=false ∨ q.head?.all fun p => p.used=g.used) : Standing log q := by
  obtain ⟨p,rest,rfl,hg,hw,hr⟩ | ⟨_,hq⟩ := h
  · have hu : p.used=g.used := by
      obtain ho | hu := hk
      · obtain hu | ⟨hu,_⟩ := hg.used
        · exact hu
        · rw [ho] at hu
          cases hu
      · exact of_decide_eq_true hu
    exact ⟨.inr (hg.started hw hu),hr⟩
  · exact .of_fresh fun x hx => (hq x hx).2

theorem Holding.pop (h : Holding log g (Written log g) q) (ho : g.owed) :
    ∃ p rest,q=p::rest ∧ (Gone.popped p log).Good ∧ Standing log rest := by
  obtain ⟨p,rest,rfl,hg,hw,hr⟩ | ⟨hf,_⟩ := h
  · refine ⟨p,rest,rfl,⟨hg.data,hw.1,?_⟩,.of_fresh hr⟩
    have ho : g.packetLen≤g.used := of_decide_eq_true ho
    have hnil : p.data.drop g.used=[] := drop_of_length_le (by rw [hg.len]; exact ho)
    have hcut := hw.2
    rw [hnil] at hcut
    exact hcut
  · rw [ho] at hf
    cases hf

end

/-! What holds between the sections -/

def RbdlPhase.taken : RbdlPhase → Option Taken
  | .data _ g | .status _ g | .pop _ g => some g
  | .idle | .head _ | .test _ _ | .words _ _ | .front _ _ | .finish _ | .fault => none

def PhaseInv (log : List (Segment Nat Byte)) (q : List Packet) : RbdlPhase → Prop
  | .fault => False
  | .data _ g => Holding log g (Next log g) q
  | .status _ g | .pop _ g => Holding log g (Written log g) q
  | .idle | .head _ | .test _ _ | .words _ _ | .front _ _ | .finish _ => Standing log q

/-- The packets in the queue have different names, all below `next`. -/
structure QueueInv (log : List (Segment Nat Byte)) (ph : RbdlPhase) (next : Nat) (q : List Packet) : Prop where
  nodup : (q.map Packet.id).Nodup
  ids : ∀ p∈q,p.id<next
  phase : PhaseInv log q ph

section
variable {log : List (Segment Nat Byte)} {ph : RbdlPhase} {next : Nat} {q : List Packet}

theorem QueueInv.append (h : QueueInv log ph next q) {p : Packet} (hp : Fresh log p) (hid : p.id=next)
    (hg : ∀ g,ph.taken=some g → g.id<next) : QueueInv log ph (next+1) (q++[p]) := by
  refine ⟨?_,?_,?_⟩
  · rw [map_append,nodup_append]
    refine ⟨h.nodup,nodup_singleton _,fun a ha b hb => ?_⟩
    obtain ⟨x,hx,rfl⟩ := List.mem_map.mp ha
    have hlt := h.ids x hx
    have hb : b=p.id := mem_singleton.mp hb
    omega
  · intro x hx
    obtain hx | hx := mem_append.mp hx
    · exact Nat.lt_succ_of_lt (h.ids x hx)
    · rw [mem_singleton.mp hx,hid]
      exact Nat.lt_succ_self next
  · have hph := h.phase
    have hne (g : Taken) (ht : ph.taken=some g) : p.id≠g.id := by
      have hlt := hg g ht
      omega
    cases ph with
    | fault => exact hph
    | idle | head w | test w b | words w b | front w d | finish w => exact Standing.append hph hp
    | data w g | status w g | pop w g => exact Holding.append hph hp (hne g rfl)

theorem QueueInv.mono (h : QueueInv log ph next q) : QueueInv log ph (next+1) q :=
  ⟨h.nodup,fun p hp => Nat.lt_succ_of_lt (h.ids p hp),h.phase⟩

theorem QueueInv.dropNormal (h : QueueInv log ph next q)
    (hk : ∀ g,ph.taken=some g → g.owed=false ∨ q.head?.any Packet.isNormal=false) :
    QueueInv log ph next (dropNormal q) := by
  refine ⟨?_,fun p hp => h.ids p (eraseP_subset hp),?_⟩
  · exact h.nodup.sublist (Sublist.map _ eraseP_sublist)
  · have hph := h.phase
    cases ph with
    | fault => exact hph
    | idle | head w | test w b | words w b | front w d | finish w => exact Standing.dropNormal hph
    | data w g | status w g | pop w g => exact Holding.dropNormal hph h.nodup (hk g rfl)

theorem QueueInv.kept (h : QueueInv log ph next q) (hn : ph.taken=none → q.head?.all fun p => !p.isNormal || p.used=0)
    (hk : ∀ g,ph.taken=some g → if g.owed then q.head?.any Packet.isNormal
      else q.head?.all (fun p => !p.isNormal || p.used=0)=true) : QueueInv log ph next (kept q) := by
  have hids : (Ethernet.kept q).map Packet.id=(q.filter Packet.isNormal).map Packet.id := by
    rw [Ethernet.kept,List.map_map]
    rfl
  refine ⟨?_,?_,?_⟩
  · rw [hids]
    exact h.nodup.sublist (Sublist.map _ filter_sublist)
  · intro p hp
    obtain ⟨x,hx,rfl⟩ := List.mem_map.mp hp
    exact h.ids x (mem_of_mem_filter hx)
  · have hph := h.phase
    cases ph with
    | fault => exact hph
    | idle | head w | test w b | words w b | front w d | finish w => exact Standing.kept hph (hn rfl)
    | data w g | status w g | pop w g =>
      exact Holding.kept hph h.nodup (fun p hp => hp) (hk g rfl)

end

namespace Receiver

structure Inv (x : Receiving) : Prop where
  queue : QueueInv x.2.written x.1.phase x.1.nextId x.1.readQueue
  log : ∀ w∈x.2.written,w.tag<x.1.nextId
  taken : ∀ g,x.1.phase.taken=some g → g.id<x.1.nextId
  expects : x.1.expects → x.1.readQueue≠[]
  gone : ∀ g∈x.2.gone,g.Good

variable {s : Receiver} {l : RbdlLedger} {type : PacketType} {data : List Byte}

theorem held_taken (s : Receiver) : s.held=s.phase.taken := by
  rw [held]
  cases s.phase <;> rfl

theorem Inv.enqueue (h : Inv (s,l)) (hk : s.keeps (.enqueue type data)) :
    Inv (s.enqueuePacket type data,s.ledgerAfter l (.enqueue type data)) := by
  rw [keeps,and_eq_true,not_eq_true',or_eq_true,or_eq_true,not_eq_true',not_eq_true',not_eq_true'] at hk
  obtain ⟨hf,hk⟩ := hk
  have hafter : afterHandful type s.readQueue=s.readQueue := by
    rw [afterHandful,hf]
    rfl
  have hgone : ∀ g∈(s.ledgerAfter l (.enqueue type data)).gone,g.Good := by
    intro g hg
    rw [ledgerAfter,hf] at hg
    obtain hg | hg := mem_append.mp hg
    · exact h.gone g ((mem_append.mp hg).resolve_right (by rintro ⟨⟩))
    · obtain ⟨p,_,rfl⟩ := map_eq_some_iff.mp (mem_toList.mp hg)
      trivial
  have hnew (q : List Packet) (hq : QueueInv l.written s.phase s.nextId q) :
      QueueInv l.written s.phase (s.nextId+1) (q++[⟨type,data,0,s.nextId,data⟩]) := by
    refine hq.append ⟨rfl,rfl,fun w hw he => ?_⟩ rfl h.taken
    have hlt : w.tag<s.nextId := h.log w hw
    have he : w.tag=s.nextId := he
    omega
  have hlog : ∀ w∈l.written,w.tag<s.nextId+1 := fun w hw => Nat.lt_succ_of_lt (h.log w hw)
  have htaken : ∀ g,s.phase.taken=some g → g.id<s.nextId+1 :=
    fun g hg => Nat.lt_succ_of_lt (h.taken g hg)
  rw [enqueuePacket,hafter]
  cases hfull : isFull s.readQueue with
  | false =>
    refine ⟨hnew _ h.queue,hlog,htaken,fun _ => ?_,hgone⟩
    exact append_ne_nil_of_right_ne_nil _ (cons_ne_nil _ _)
  | true =>
    have hdrop : QueueInv l.written s.phase s.nextId (dropNormal s.readQueue) := by
      refine h.queue.dropNormal fun g hg => ?_
      rw [hfull,owes,held_taken,hg] at hk
      obtain (hk | hk) | hk := hk
      · cases hk
      · exact .inl hk
      · exact .inr hk
    cases hagain : isFull (dropNormal s.readQueue) with
    | false =>
      refine ⟨?_,hlog,htaken,fun _ => ?_,hgone⟩
      · show QueueInv _ _ _ (if isFull (dropNormal s.readQueue) then _ else _)
        rw [hagain]
        exact hnew _ hdrop
      · show (if isFull (dropNormal s.readQueue) then _ else _)≠([] : List Packet)
        rw [hagain]
        exact append_ne_nil_of_right_ne_nil _ (cons_ne_nil _ _)
    | true =>
      refine ⟨?_,hlog,htaken,fun _ => ?_,hgone⟩
      · show QueueInv _ _ _ (if isFull (dropNormal s.readQueue) then _ else _)
        rw [hagain]
        exact hdrop.mono
      · show (if isFull (dropNormal s.readQueue) then _ else _)≠([] : List Packet)
        rw [hagain]
        intro hnil
        have hnil : dropNormal s.readQueue=[] := hnil
        rw [hnil] at hagain
        cases hagain

theorem Inv.reset (h : Inv (s,l)) (hk : s.keeps .softwareReset) :
    Inv (s.softwareReset,s.ledgerAfter l .softwareReset) := by
  rw [keeps,and_eq_true,or_eq_true,not_eq_true'] at hk
  obtain ⟨hk,hsome⟩ := hk
  have hqueue : QueueInv l.written s.phase s.nextId (kept s.readQueue) := by
    refine h.queue.kept (fun hn => ?_) fun g hg => ?_
    · rw [owes,held_taken,hn] at hk
      exact hk
    · rw [owes,held_taken,hg] at hk
      have hk : (if g.owed then s.readQueue.head?.any Packet.isNormal else s.headWhole)=true := hk
      cases ho : g.owed with
      | true | false =>
        rw [ho] at hk
        exact hk
  refine ⟨hqueue,h.log,h.taken,fun he => ?_,fun g hg => ?_⟩
  · have hany : s.readQueue.any Packet.isNormal=true := by
      obtain hf | ha := hsome
      · have he : s.expects=true := he
        rw [he] at hf
        cases hf
      · exact ha
    obtain ⟨p,hp,hn⟩ := List.any_eq_true.mp hany
    intro hnil
    have hmem : p∈s.readQueue.filter Packet.isNormal := mem_filter.mpr ⟨hp,hn⟩
    have hnil : (s.readQueue.filter Packet.isNormal).map (fun p => { p with used := 0 })=[] := hnil
    rw [map_eq_nil_iff] at hnil
    rw [hnil] at hmem
    cases hmem
  · obtain hg | hg := mem_append.mp hg
    · exact h.gone g hg
    · obtain ⟨p,_,rfl⟩ := List.mem_map.mp hg
      trivial

/-- A section that leaves the queue, and goes on where nothing is held or expected -/
theorem Inv.goes (h : Inv (s,l)) (hs : Standing l.written s.readQueue) {t : Receiver}
    (hq : t.readQueue=s.readQueue) (hn : t.nextId=s.nextId)
    (hp : PhaseInv l.written s.readQueue t.phase=Standing l.written s.readQueue)
    (ht : t.phase.taken=none) (he : t.expects=false) : Inv (t,l) := by
  refine ⟨⟨?_,?_,?_⟩,?_,?_,?_,h.gone⟩
  · rw [hq]
    exact h.queue.nodup
  · rw [hq,hn]
    exact h.queue.ids
  · rw [hq,hp]
    exact hs
  · rw [hn]
    exact h.log
  · intro g hg
    have hg : t.phase.taken=some g := hg
    rw [ht] at hg
    cases hg
  · intro hx
    have hx : t.expects=true := hx
    rw [he] at hx
    cases hx

theorem Inv.nxmError (h : Inv (s,l)) (hs : Standing l.written s.readQueue) : Inv (s.nxmError,l) :=
  h.goes hs rfl rfl rfl rfl rfl

theorem Inv.descriptor (h : Inv (s,l)) (hs : Standing l.written s.readQueue) (w : Walk)
    (read : Option Word) (marked : Bool) (chain : Option Word) : Inv (s.descriptor w read marked chain,l) := by
  cases read with
  | none => exact h.nxmError hs
  | some bits =>
    unfold Receiver.descriptor
    dsimp only
    split_ifs
    · exact h.goes hs rfl rfl rfl rfl rfl
    · exact h.goes hs rfl rfl rfl rfl rfl
    · exact h.nxmError hs
    · exact h.goes hs rfl rfl rfl rfl rfl
    · cases chain with
      | none => exact h.nxmError hs
      | some low => exact h.goes hs rfl rfl rfl rfl rfl
    · exact h.goes hs rfl rfl rfl rfl rfl

theorem Inv.front (h : Inv (s,l)) {w : Walk} {d : Descriptor} (hp : s.phase=.front w d) (b : Bool) :
    Inv (s.front w d b,l) := by
  have hs : Standing l.written s.readQueue := by
    have hph := h.queue.phase
    rw [hp] at hph
    exact hph
  have hne : s.readQueue≠[] := h.expects (by rw [Receiver.expects,hp])
  have hnd := h.queue.nodup
  have hids := h.queue.ids
  rw [Receiver.front]
  cases hq : s.readQueue with
  | nil => exact absurd hq hne
  | cons p rest =>
    dsimp only at hnd hids
    rw [hq] at hs hnd hids
    refine ⟨⟨hnd,?_,hs.front⟩,h.log,?_,by rintro ⟨⟩,h.gone⟩
    · intro x hx
      obtain rfl | hx := mem_cons.mp hx
      · exact hids p mem_cons_self
      · exact hids x (mem_cons_of_mem p hx)
    · rintro g hg
      cases hg
      exact hids p mem_cons_self

theorem Inv.segment (h : Inv (s,l)) {w : Walk} {g : Taken} {b : Bool} (hp : s.phase=.data w g)
    (hk : s.keeps (.data b)) : Inv (if b ∨ g.segment=[] then { s with phase := .status w g } else s.nxmError,
      s.ledgerAfter l (.data b)) := by
  have hold : Holding l.written g (Next l.written g) s.readQueue := by
    have hph := h.queue.phase
    rw [hp] at hph
    exact hph
  have hid : g.id<s.nextId := h.taken g (by rw [hp]; rfl)
  rw [ledgerAfter,hp]
  by_cases hb : b ∨ g.segment=[]
  · rw [if_pos hb]
    dsimp only
    rw [if_pos hb]
    refine ⟨⟨h.queue.nodup,h.queue.ids,hold.written h.queue.nodup⟩,?_,?_,by rintro ⟨⟩,h.gone⟩
    · intro x hx
      obtain hx | hx := mem_append.mp hx
      · exact h.log x hx
      · rw [mem_singleton.mp hx]
        exact hid
    · rintro g' hg
      cases hg
      exact hid
  · rw [if_neg hb]
    dsimp only
    rw [if_neg hb]
    rw [not_or] at hb
    refine h.nxmError (hold.failed fun x hx he => ?_)
    rw [keeps,held_taken,hp,Bool.eq_false_iff.mpr hb.1,Bool.false_or] at hk
    have hk : (decide (g.segment=[]) || !s.readQueue.any fun p => decide (p.id=g.id))=true := hk
    rw [decide_eq_false hb.2,Bool.false_or,not_eq_true',List.any_eq_false] at hk
    exact hk x hx (decide_eq_true he)

theorem Inv.status (h : Inv (s,l)) {w : Walk} {g : Taken} {b : Bool} (hp : s.phase=.status w g)
    (hk : s.keeps (.status b)) :
    Inv (if b then { s with phase := .pop w g,reports := s.reports++[(s.rbdlBa,g.status1,g.status2)] }
      else s.nxmError,l) := by
  have hold : Holding l.written g (Written l.written g) s.readQueue := by
    have hph := h.queue.phase
    rw [hp] at hph
    exact hph
  cases b with
  | true => 
    refine ⟨⟨h.queue.nodup,h.queue.ids,hold⟩,h.log,?_,by rintro ⟨⟩,h.gone⟩
    rintro g' hg
    cases hg
    exact h.taken g (by rw [hp]; rfl)
  | false =>
    refine h.nxmError (hold.standing ?_)
    rw [keeps,held_taken,hp,Bool.false_or] at hk
    have hk : (!g.owed || s.readQueue.head?.all fun p => decide (p.used=g.used))=true := hk
    rw [or_eq_true,not_eq_true'] at hk
    exact hk

theorem Inv.pop (h : Inv (s,l)) {w : Walk} {g : Taken} (hp : s.phase=.pop w g) :
    Inv (s.pop w g,s.ledgerAfter l .pop) := by
  have hold : Holding l.written g (Written l.written g) s.readQueue := by
    have hph := h.queue.phase
    rw [hp] at hph
    exact hph
  have hnd := h.queue.nodup
  have hids := h.queue.ids
  rw [ledgerAfter,hp]
  dsimp only at hnd hids ⊢
  rw [Receiver.pop]
  cases ho : g.owed with
  | false => exact h.goes (hold.standing (.inl ho)) rfl rfl rfl rfl rfl
  | true =>
    obtain ⟨p,rest,hq,hgood,hrest⟩ := hold.pop ho
    rw [hq] at hnd hids ⊢
    refine ⟨⟨(nodup_cons.mp hnd).2,fun x hx => hids x (mem_cons_of_mem p hx),hrest⟩,h.log,
      by rintro g' ⟨⟩,by rintro ⟨⟩,fun x hx => ?_⟩
    obtain hx | hx := mem_append.mp hx
    · exact h.gone x hx
    · rw [mem_singleton.mp hx]
      exact hgood

theorem Inv.step {x y : Receiving} {e : RbdlEvent} (h : Inv x) (hk : x.1.keeps e)
    (hs : stepReceiving x e=some y) : Inv y := by
  obtain ⟨s,l⟩ := x
  obtain ⟨t,ht,rfl⟩ := map_eq_some_iff.mp hs
  dsimp only at ht hk ⊢
  have hph := h.queue.phase
  revert ht
  fun_cases Receiver.step s e with
  | case2 | case4 | case6 | case8 | case10 | case12 | case14 | case16 | case18 | case20 | case22 =>
    rintro ⟨⟩
  | case1 ba | case24 w =>
    rintro ⟨⟩
    exact ⟨h.queue,h.log,h.taken,h.expects,h.gone⟩
  | case3 hi =>
    rintro ⟨⟩
    rw [hi] at hph
    rw [Receiver.begin]
    split_ifs
    · exact h
    · exact h.goes hph rfl rfl rfl rfl rfl
  | case5 read marked chain w hp =>
    rintro ⟨⟩
    rw [hp] at hph
    exact h.descriptor hph w read marked chain
  | case7 w b hp =>
    rintro ⟨⟩
    rw [hp] at hph
    by_cases hq : s.readQueue=[]
    · rw [if_pos hq]
      exact h.goes hph rfl rfl rfl rfl rfl
    · rw [if_neg hq]
      exact ⟨⟨h.queue.nodup,h.queue.ids,hph⟩,h.log,by rintro g ⟨⟩,fun _ => hq,h.gone⟩
  | case9 read w b hp =>
    rintro ⟨⟩
    have hne := h.expects (by rw [Receiver.expects,hp])
    rw [hp] at hph
    cases read with
    | none => exact h.nxmError hph
    | some x => exact ⟨⟨h.queue.nodup,h.queue.ids,hph⟩,h.log,by rintro g ⟨⟩,fun _ => hne,h.gone⟩
  | case11 recognised w d hp =>
    rintro ⟨⟩
    exact h.front hp recognised
  | case13 success w g hp =>
    rintro ⟨⟩
    exact h.segment hp hk
  | case15 success w g hp =>
    rintro ⟨⟩
    exact h.status hp hk
  | case17 w g hp =>
    rintro ⟨⟩
    exact h.pop hp
  | case19 w hp =>
    rintro ⟨⟩
    rw [hp] at hph
    exact h.goes hph rfl rfl rfl rfl rfl
  | case21 type data =>
    rintro ⟨⟩
    exact h.enqueue hk
  | case23 =>
    rintro ⟨⟩
    exact h.reset hk

theorem start_inv : Inv (start,⟨[],[]⟩) :=
  ⟨⟨nodup_nil,by rintro p ⟨⟩,trivial⟩,by rintro w ⟨⟩,by rintro g ⟨⟩,by rintro ⟨⟩,by rintro g ⟨⟩⟩

theorem Inv.right {x : Receiving} (h : Inv x) : x.1.Right x.2 := by
  refine ⟨fun hf => ?_,h.gone⟩
  have hph := h.queue.phase
  rw [hf] at hph
  exact hph

/-- In any run of the worker, the bridge and the register callback whose steps `keeps` allows, the front of an empty
queue is never taken, and each packet popped has just been written, once and whole. -/
theorem receive_whole {es : List RbdlEvent} {s : Receiver} {l : RbdlLedger}
    (h : Run (Guarded (fun x e => x.1.keeps e=true) stepReceiving) (start,⟨[],[]⟩) es (s,l)) : s.Right l :=
  (h.invariant (P := Inv) (fun _ _ _ hs hn => hs.step hn.1 hn.2) start_inv).right

/-- A reflected packet in two buffers, and a wire frame, padded, that comes meanwhile -/
theorem receive_whole_two : ∃ (s : Receiver) (l : RbdlLedger),
    l.gone.length=2 ∧ l.written.map (fun w => w.items.length)=[4,2,60] ∧ s.Right l := by
  obtain ⟨⟨s,l⟩,hs,hp⟩ := run_of_foldlM (fun x e => keeps x.1 e=true) stepReceiving
    (fun x : Receiving => x.2.gone.length=2 ∧ x.2.written.map (fun w => w.items.length)=[4,2,60])
    [.csr 0,.dispatch 0o1000,.enqueue .loopback [1,2,3,4,5,6],.begin,
      .descriptor (some 0x8000) true none,.test,.words (some (0o2000,0xfffe)),.front false,
      .enqueue .normal [7],.data true,.status true,.pop,
      .descriptor (some 0x8000) true none,.test,.words (some (0o3000,0xfffe)),.front false,.data true,
      .status true,.pop,
      .descriptor (some 0x8000) true none,.test,.words (some (0o4000,0xffce)),.softwareReset,.front false,
      .data true,.status true,.pop]
    (start,⟨[],[]⟩) (by decide)
  obtain ⟨hgone,hwritten⟩ := of_decide_eq_true hp
  exact ⟨s,l,hgone,hwritten,receive_whole hs⟩

def astray : Gone → Bool
  | .popped p written => p.arrived=[2] && written.map Segment.tag=[0] && p.id=1
  | .counted _ | .uncounted _ | .reset _ => false

/-- A reset between the look at the queue and the taking of its head empties it, and the front is taken; and a fifth
wire frame puts out the one at the head while it is written, uncounted, so that the next is popped in its place. -/
theorem receive_astray : (∃ s l,Run (Guarded (fun _ _ => True) stepReceiving) (start,⟨[],[]⟩)
        [.csr 0,.enqueue .loopback [1],.begin,.descriptor (some 0x8000) true none,.test,.softwareReset,
          .words (some (0o2000,0xfffe)),.front false] (s,l) ∧ ¬s.Right l) ∧
    ∃ s l p w,Run (Guarded (fun _ _ => True) stepReceiving) (start,⟨[],[]⟩)
        [.csr 0,.enqueue .normal [1],.enqueue .normal [2],.enqueue .normal [3],.enqueue .normal [4],.begin,
          .descriptor (some 0x8000) true none,.test,.words (some (0o2000,0xffce)),.front false,
          .enqueue .normal [5],.data true,.status true,.pop] (s,l) ∧
      .popped p w∈l.gone ∧ p.arrived=[2] ∧ w.map Segment.tag=[0] ∧ p.id=1 ∧ ¬s.Right l := by
  constructor
  · obtain ⟨⟨s,l⟩,hs,hp⟩ := run_of_foldlM (fun _ _ => True) stepReceiving
      (fun x : Receiving => x.1.phase=.fault)
      [.csr 0,.enqueue .loopback [1],.begin,.descriptor (some 0x8000) true none,.test,.softwareReset,
        .words (some (0o2000,0xfffe)),.front false] (start,⟨[],[]⟩) (by decide)
    exact ⟨s,l,hs,fun hr => hr.front (of_decide_eq_true hp)⟩
  · obtain ⟨⟨s,l⟩,hs,hp⟩ := run_of_foldlM (fun _ _ => True) stepReceiving
      (fun x : Receiving => ∃ g∈x.2.gone,astray g)
      [.csr 0,.enqueue .normal [1],.enqueue .normal [2],.enqueue .normal [3],.enqueue .normal [4],.begin,
        .descriptor (some 0x8000) true none,.test,.words (some (0o2000,0xffce)),.front false,
        .enqueue .normal [5],.data true,.status true,.pop] (start,⟨[],[]⟩) (by decide)
    obtain ⟨g,hg,ha⟩ := of_decide_eq_true hp
    cases g with
    | counted p | uncounted p | reset p => cases ha
    | popped p w =>
      have ha : (decide (p.arrived=[2]) && decide (w.map Segment.tag=[0]) && decide (p.id=1))=true := ha
      rw [and_eq_true,and_eq_true,decide_eq_true_eq,decide_eq_true_eq,decide_eq_true_eq] at ha
      obtain ⟨⟨harr,hw⟩,hid⟩ := ha
      refine ⟨s,l,p,w,hs,hg,harr,hw,hid,fun hr => ?_⟩
      have hlast := (hr.gone _ hg).2.last
      rw [← List.getLast?_map,hw,hid] at hlast
      cases hlast

end Receiver

end QUniLator.Ethernet
