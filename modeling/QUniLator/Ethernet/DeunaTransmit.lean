import QUniLator.Ethernet.DeunaReceive
import QUniLator.Framework.Segments

namespace QUniLator.Ethernet.Deuna

open List Function

def modeTpad : Word := 0o010000

def modeIntl : Word := 0o000200

def modeLoop : Word := 0o000004

/-! The bits of a transmit descriptor, in its third and fourth word -/

def txrOwn : Word := 0o100000

def txrErrs : Word := 0o040000

def txrMtch : Word := 0o020000

def txrMore : Word := 0o010000

def txrOne : Word := 0o004000

def txrDef : Word := 0o002000

def txrStf : Word := 0o001000

def txrEnf : Word := 0o000400

def txrBufl : Word := 0o100000

def txrUbto : Word := 0o040000

def txrUflo : Word := 0o020000

def txrLcol : Word := 0o010000

def txrLcar : Word := 0o004000

def txrRtry : Word := 0o002000

def txrTdr : Word := 0o001777

namespace RingDescriptor

def own (d : RingDescriptor) : Bool := d.flags &&& txrOwn≠0

def stf (d : RingDescriptor) : Bool := d.flags &&& txrStf≠0

def enf (d : RingDescriptor) : Bool := d.flags &&& txrEnf≠0

end RingDescriptor

structure Mac where
  b0 : Byte
  b1 : Byte
  b2 : Byte
  b3 : Byte
  b4 : Byte
  b5 : Byte
  deriving DecidableEq,Repr

def Mac.bytes (m : Mac) : List Byte := [m.b0,m.b1,m.b2,m.b3,m.b4,m.b5]

def Mac.isZero (m : Mac) : Bool := m=⟨0,0,0,0,0,0⟩

/-- `write_buffer`. It has no room before the first frame. -/
structure TxBuffer where
  msg : List Byte
  len : Nat
  deriving DecidableEq,Repr

/-- How a frame has gone: in the loopback, or to the bridge, where there is one -/
inductive Sending
  | loopback
  | noBridge
  | failed
  | sent
  deriving DecidableEq,Repr

/-- Where a thread is in `process_transmit`: in its loop with the descriptors done, `jumped` where
`find_owned_desc` has just found one; in `find_owned_desc`; or at a copy beyond `write_buffer.msg` -/
inductive TxPhase
  | idle
  | running (processed : Nat) (jumped : Bool)
  | probing (processed i : Nat)
  | fault
  deriving DecidableEq,Repr

/-- `deuna_c`, what the transmission depends on, and the ring in the host's memory. `limit` is that of the
call. -/
structure TxRing where
  ring : Nat → RingDescriptor
  telen : Nat
  trlen : Nat
  txSlots : Nat
  mode : Word
  station : Mac
  macs : List Mac
  buffer : TxBuffer
  giant : Bool
  runt : Bool
  txnext : Nat
  limit : Nat
  phase : TxPhase

/-- What happens: the host writes a descriptor; the mode and addresses of the port; the beginning of
`process_transmit`, its rounds, with what the three DMAs come to, the buffer, and whether the bridge takes a frame,
and the probes of `find_owned_desc`. -/
inductive TxEvent
  | host (slot : Nat) (d : RingDescriptor)
  | setup (mode : Word) (station : Mac) (macs : List Mac)
  | begin (running : Bool) (maxDescriptors : Nat)
  | round (read data given : Bool) (segment : List Byte) (bridge : Option Bool)
  | probe (read : Bool)
  deriving DecidableEq,Repr

/-- What has been done with a descriptor: its slot and words, before and after, whether it has been given
back, and the frame that has been sent, if it ends one -/
structure Handled where
  slot : Nat
  before : RingDescriptor
  after : RingDescriptor
  given : Bool
  frame : Option (List Byte)
  deriving DecidableEq,Repr

namespace TxRing

def descriptor (s : TxRing) : RingDescriptor := s.ring s.txnext

def nextSlot (s : TxRing) (slot : Nat) : Nat := if s.trlen ≤ slot+1 then 0 else slot+1

def started (s : TxRing) : TxBuffer :=
  if s.descriptor.stf then ⟨replicate ethFrameSize 0,0⟩ else s.buffer

/-- `wlen` -/
def segmentRoom (b : TxBuffer) (slen : Nat) : Nat :=
  if ethMaxPacket≤b.len then 0
  else if ethMaxPacket<b.len+slen then ethMaxPacket-b.len
  else slen

/-- `giant` after the segment -/
def giantAfter (s : TxRing) (b : TxBuffer) (slen : Nat) : Bool :=
  ethMaxPacket≤b.len || ethMaxPacket<b.len+slen || (!s.descriptor.stf && s.giant)

def filled (b : TxBuffer) (segment : List Byte) : TxBuffer :=
  let n := segmentRoom b segment.length
  ⟨b.msg.take b.len++segment.take n++b.msg.drop (b.len+n),b.len+n⟩

def finished (s : TxRing) (b : TxBuffer) : TxBuffer :=
  let len := if b.len<ethMinPacket then ethMinPacket else b.len
  ⟨if 12≤len ∧ 12≤b.msg.length ∧ s.station.isZero=false then
      b.msg.take 6++s.station.bytes++b.msg.drop 12
    else b.msg,len⟩

def runtAfter (s : TxRing) (b : TxBuffer) : Bool :=
  (b.len<ethMinPacket && s.mode &&& modeTpad=0) || (!s.descriptor.stf && s.runt)

def sending (s : TxRing) (bridge : Option Bool) : Sending :=
  if s.mode &&& modeLoop≠0 ∧ s.mode &&& modeIntl≠0 then .loopback
  else
    match bridge with
    | none => .noBridge
    | some false => .failed
    | some true => .sent

def endWords (s : TxRing) (b : TxBuffer) (bad : Bool) (how : Sending) (flags status : Word) : Word × Word :=
  let retry := how=.noBridge || how=.failed
  let status := status ||| (if retry then txrRtry else 0) ||| (if bad then txrBufl else 0)
  let errors := txrBufl ||| txrUbto ||| txrUflo ||| txrLcol ||| txrLcar ||| txrRtry
  let flags := flags ||| (if retry || bad || status &&& errors≠0 then txrErrs else 0)
  let matched := (s.station::s.macs).any fun m => b.msg.take 6=m.bytes
  if matched then (flags ||| txrMtch,status)
  else if flags &&& txrErrs=0 then (flags ||| txrErrs,status ||| 0o100000)
  else (flags,status)

/-- The descriptor after the segment: `b` is the buffer with it. -/
def after (s : TxRing) (b : TxBuffer) (giant : Bool) (bridge : Option Bool) : RingDescriptor :=
  let d := s.descriptor
  let flags := d.flags &&& ~~~(txrErrs ||| txrMtch ||| txrMore ||| txrOne ||| txrDef)
  let status := d.status &&&
    ~~~(txrBufl ||| txrUbto ||| txrUflo ||| txrLcol ||| txrLcar ||| txrRtry ||| txrTdr)
  let words :=
    if d.enf then s.endWords (s.finished b) (giant || s.runtAfter b) (s.sending bridge) flags status
    else (flags,status)
  ⟨d.length,d.low,words.1 &&& ~~~txrOwn,words.2⟩

/-- `process_transmit` up to its loop -/
def begin (s : TxRing) (running : Bool) (maxDescriptors : Nat) : TxRing :=
  if running=false ∨ s.trlen=0 ∨ s.telen=0 ∨ s.telen<4 then s
  else
    { s with giant := false,runt := false,phase := .running 0 false,
             limit := if 0 < maxDescriptors then maxDescriptors
               else if s.txSlots≠0 then s.txSlots else s.trlen }

/-- The segment has no place in `write_buffer.msg`, or what is sent of it is not all there. -/
def faults (s : TxRing) (b : TxBuffer) (segment : List Byte) : Bool :=
  let n := segmentRoom b segment.length
  let c := filled b segment
  (0<n && b.msg.length<b.len+n) || s.descriptor.enf && (s.finished c).msg.length<(s.finished c).len

def handle (s : TxRing) (processed : Nat) (data given : Bool) (segment : List Byte) (bridge : Option Bool) :
    TxRing × Option Handled :=
  let b := s.started
  let n := segmentRoom b segment.length
  let giant := s.giantAfter b segment.length
  if 0<n ∧ data=false then ({ s with buffer := b,phase := .idle },none)
  else if s.faults b segment then ({ s with phase := .fault },none)
  else
    let c := filled b segment
    let f := s.finished c
    let e : Handled :=
      ⟨s.txnext,s.descriptor,s.after c giant bridge,given,
        if s.descriptor.enf then some (f.msg.take f.len) else none⟩
    let t := { s with buffer := if s.descriptor.enf then f else c,giant := giant,
                      runt := if s.descriptor.enf then s.runtAfter c else !s.descriptor.stf && s.runt }
    if given then
      ({ t with ring := update s.ring s.txnext e.after,txnext := s.nextSlot s.txnext,
                phase := .running (processed+1) false },
        some e)
    else ({ t with phase := .idle },if s.descriptor.enf then some e else none)

def round (s : TxRing) (processed : Nat) (read data given : Bool) (segment : List Byte)
    (bridge : Option Bool) : TxRing × Option Handled :=
  if s.limit≤processed ∨ read=false then ({ s with phase := .idle },none)
  else if s.descriptor.own then s.handle processed data given segment bridge
  else ({ s with phase := .probing processed 0 },none)

/-- One probe of `find_owned_desc` -/
def probe (s : TxRing) (processed i : Nat) (read : Bool) : TxRing :=
  if s.trlen ≤ i then { s with phase := .idle }
  else if read ∧ (s.ring i).own then { s with txnext := i,phase := .running processed true }
  else { s with phase := .probing processed (i+1) }

def step (s : TxRing) : TxEvent → Option (TxRing × Option Handled)
  | .host slot d =>
    -- the host writes the descriptors that it owns
    if (s.ring slot).own then none else some ({ s with ring := update s.ring slot d },none)
  | .setup mode station macs =>
    if s.phase=.idle then some ({ s with mode := mode,station := station,macs := macs },none) else none
  | .begin running maxDescriptors =>
    if s.phase=.idle then some (s.begin running maxDescriptors,none) else none
  | .round read data given segment bridge =>
    match s.phase with
    | .running processed _ =>
      if segment.length=s.descriptor.length.toNat then
        some (s.round processed read data given segment bridge)
      else none
    | .idle | .probing _ _ | .fault => none
  | .probe read =>
    match s.phase with
    | .probing processed i => some (s.probe processed i read,none)
    | .idle | .running _ _ | .fault => none

def start (telen trlen txSlots : Nat) (station : Mac) : TxRing where
  ring _ := ⟨0,0,0,0⟩
  telen := telen
  trlen := trlen
  txSlots := txSlots
  mode := 0
  station := station
  macs := []
  buffer := ⟨[],0⟩
  giant := false
  runt := false
  txnext := 0
  limit := 0
  phase := .idle

end TxRing

/-! What the descriptors mean -/

/-- The frame of a run of descriptors that hold `bytes` -/
def wireFrame (station : Mac) (bytes : List Byte) : List Byte :=
  let msg := bytes.take ethMaxPacket
  let padded := msg++replicate (ethMinPacket-msg.length) 0
  padded.take 6++station.bytes++padded.drop 12

/-- The run that is being handled: the slot of its last descriptor so far, and the bytes of its segments -/
abbrev Chain := Option (Nat × List Byte)

/-- The descriptors handled, with the frame that is due for each, and the rounds of the call -/
structure TxLedger where
  chain : Chain
  handled : List (Handled × Option (List Byte))
  rounds : Nat

abbrev TxState := TxRing × TxLedger

namespace TxRing

def chainWith (s : TxRing) (chain : Chain) (segment : List Byte) : Chain :=
  if s.descriptor.stf then some (s.txnext,segment)
  else chain.bind fun c => if s.txnext=s.nextSlot c.1 then some (s.txnext,c.2++segment) else none

def due (s : TxRing) (chain : Chain) (segment : List Byte) : Option (List Byte) :=
  if s.descriptor.enf then (s.chainWith chain segment).map fun c => wireFrame s.station c.2 else none

def ledgerAfter (s : TxRing) (l : TxLedger) (e : TxEvent) (h : Option Handled) : TxLedger :=
  match e with
  | .round _ _ given segment _ =>
    { chain := if h.isSome ∧ given then (if s.descriptor.enf then none else s.chainWith l.chain segment)
        else l.chain,
      handled := l.handled++(h.map fun e => (e,s.due l.chain segment)).toList,
      rounds := l.rounds+1 }
  | .begin _ _ => { l with rounds := 0 }
  | .host _ _ | .setup _ _ _ | .probe _ => l

def stepTransmit (x : TxState) (e : TxEvent) : Option TxState :=
  (x.1.step e).map fun t => (t.1,x.1.ledgerAfter x.2 e t.2)

/-- A descriptor that ends a frame is of a run begun with STF, in the slots behind it, with the station address set;
one of no run takes no bytes before the first frame; the DMA back to a descriptor fails only where it neither ends a
frame nor goes on with one. -/
def keeps (x : TxState) : TxEvent → Bool
  | .round _ data given segment _ =>
    let s := x.1
    !s.descriptor.own || (0<segmentRoom s.started segment.length && !data) ||
      (if s.descriptor.enf then (s.chainWith x.2.chain segment).isSome && !s.station.isZero
        else s.descriptor.stf || s.buffer.msg≠[] || segment.length=0) &&
      (given || !s.descriptor.enf && (s.descriptor.stf || segmentRoom s.buffer segment.length=0))
  | .host _ _ | .setup _ _ _ | .begin _ _ | .probe _ => true

/-- Nothing is copied outside `write_buffer.msg`. Each descriptor handled was owned and has been given back, with the
frame due for it sent and no other. A call has two rounds for a descriptor at most, and one more. -/
structure Right (s : TxRing) (l : TxLedger) : Prop where
  copies : s.phase≠.fault
  handled : ∀ e∈l.handled,e.1.before.own ∧ e.1.given ∧ e.1.after.own=false ∧ e.1.frame=e.2
  rounds : l.rounds≤2*s.limit+1

/-! What the buffer holds -/

def Valid (b : TxBuffer) : Prop :=
  b.msg=[] ∧ b.len=0 ∨ b.msg.length=ethFrameSize ∧ b.len≤ethMaxPacket

/-- The buffer holds the run that is being handled, cut to the length of a frame, and zeros behind it. -/
structure Holds (bs : List Byte) (b : TxBuffer) : Prop where
  len : b.len=min bs.length ethMaxPacket
  msg : b.msg=bs.take ethMaxPacket++replicate (ethFrameSize-b.len) 0

variable {s : TxRing} {l : TxLedger} {b : TxBuffer} {bs segment : List Byte}

theorem Holds.length (h : Holds bs b) : (bs.take ethMaxPacket).length=b.len := by
  rw [length_take,h.len,Nat.min_comm]

theorem Holds.le (h : Holds bs b) : b.len≤ethMaxPacket := by
  rw [h.len]
  exact Nat.min_le_right _ _

theorem Holds.size (h : Holds bs b) : b.msg.length=ethFrameSize := by
  have hle := h.le
  have hmax : ethMaxPacket=1514 := rfl
  have hsize : ethFrameSize=1518 := rfl
  rw [h.msg,length_append,h.length,length_replicate]
  omega

theorem Holds.valid (h : Holds bs b) : Valid b := .inr ⟨h.size,h.le⟩

theorem holds_empty : Holds [] ⟨replicate ethFrameSize 0,0⟩ := ⟨rfl,rfl⟩

theorem segmentRoom_eq (h : b.len≤ethMaxPacket) (n : Nat) : segmentRoom b n=min n (ethMaxPacket-b.len) := by
  rw [segmentRoom]
  split_ifs <;> omega

theorem Holds.filled (h : Holds bs b) (segment : List Byte) : Holds (bs++segment) (filled b segment) := by
  have hle := h.le
  have hlen := h.len
  have hsize : ethFrameSize=1518 := rfl
  have hmax : ethMaxPacket=1514 := rfl
  have hroom := segmentRoom_eq hle segment.length
  have hleft : b.msg.take b.len=bs.take ethMaxPacket := by
    rw [h.msg,take_left' h.length]
  have hright (n : Nat) : b.msg.drop (b.len+n)=replicate (ethFrameSize-(b.len+n)) 0 := by
    rw [h.msg,drop_append,h.length,drop_of_length_le (by rw [h.length]; omega),nil_append,
      drop_replicate]
    congr 1
    omega
  have htake : bs.take ethMaxPacket++segment.take (segmentRoom b segment.length) =
      (bs++segment).take ethMaxPacket := by
    rw [take_append,hroom,take_min]
    congr 2
    omega
  refine ⟨?_,?_⟩
  · show b.len+segmentRoom b segment.length=min (bs++segment).length ethMaxPacket
    rw [length_append,hroom]
    omega
  · show b.msg.take b.len++_++b.msg.drop (b.len+segmentRoom b segment.length)=_
    rw [hleft,htake,hright]
    rfl

theorem Valid.filled (h : Valid b) (hm : b.msg≠[] ∨ segment.length=0) : Valid (filled b segment) ∧
      (0<segmentRoom b segment.length → b.len+segmentRoom b segment.length≤b.msg.length) := by
  have hsize : ethFrameSize=1518 := rfl
  have hmax : ethMaxPacket=1514 := rfl
  obtain ⟨hmsg,hlen⟩ | ⟨hmsg,hlen⟩ := h
  · have hseg : segment.length=0 := hm.resolve_left fun hn => hn hmsg
    have hroom : segmentRoom b segment.length=0 := by
      rw [segmentRoom_eq (by omega),hseg]
      exact Nat.zero_min _
    refine ⟨.inl ⟨?_,?_⟩,fun hpos => by omega⟩
    · show b.msg.take b.len++segment.take _++b.msg.drop _=[]
      rw [hroom,hmsg,take_nil,take_zero,drop_nil]
      rfl
    · show b.len+_=0
      omega
  · have hroom := segmentRoom_eq hlen segment.length
    refine ⟨.inr ⟨?_,?_⟩,fun _ => ?_⟩
    · show (b.msg.take b.len++segment.take _++b.msg.drop (b.len+_)).length=_
      rw [length_append,length_append,length_take,length_take,length_drop]
      omega
    · show b.len+_ ≤ _
      omega
    · omega

theorem started_stf (h : s.descriptor.stf) : s.started=⟨replicate ethFrameSize 0,0⟩ := if_pos h

theorem started_other (h : s.descriptor.stf=false) : s.started=s.buffer := by
  rw [started,h]
  rfl

theorem Valid.started (h : Valid s.buffer) : Valid s.started := by
  cases hs : s.descriptor.stf with
  | true =>
    rw [started_stf hs]
    exact holds_empty.valid
  | false =>
    rw [started_other hs]
    exact h

theorem Holds.finished (h : Holds bs b) (hz : s.station.isZero=false) :
    (s.finished b).msg.take (s.finished b).len=wireFrame s.station bs ∧
      (s.finished b).msg.length=ethFrameSize ∧ (s.finished b).len≤ethMaxPacket := by
  have hle := h.le
  have hsize : ethFrameSize=1518 := rfl
  have hmax : ethMaxPacket=1514 := rfl
  have hmin : ethMinPacket=60 := rfl
  have hlen : (s.finished b).len=max b.len ethMinPacket := by
    show (if b.len<ethMinPacket then ethMinPacket else b.len)=_
    split_ifs <;> omega
  have hmsg : (s.finished b).msg=b.msg.take 6++s.station.bytes++b.msg.drop 12 := by
    show (if _ ∧ _ ∧ _ then _ else _)=_
    refine if_pos ⟨?_,?_,hz⟩
    · have hl : (if b.len<ethMinPacket then ethMinPacket else b.len)=max b.len ethMinPacket := hlen
      rw [hl]
      omega
    · rw [h.size]
      omega
  have hpadded : b.msg.take (max b.len ethMinPacket) =
      bs.take ethMaxPacket++replicate (ethMinPacket-(bs.take ethMaxPacket).length) 0 := by
    rw [h.msg,take_append,h.length,take_of_length_le (by rw [h.length]; omega),
      take_replicate]
    congr 2
    omega
  have hbytes : s.station.bytes.length=6 := rfl
  have hbmsg := h.size
  refine ⟨?_,?_,?_⟩
  · rw [hlen,hmsg,wireFrame,← hpadded]
    have hsix : (b.msg.take 6).length=6 := by
      rw [length_take]
      omega
    have htwelve : (b.msg.take 6++s.station.bytes).length=12 := by
      rw [length_append,hsix,hbytes]
    have h6 : (b.msg.take (max b.len ethMinPacket)).take 6=b.msg.take 6 := by
      rw [take_take]
      congr 1
      omega
    rw [take_append,take_of_length_le (by rw [htwelve]; omega),htwelve,h6,drop_take]
  · rw [hmsg,length_append,length_append,length_take,length_drop,hbytes]
    omega
  · rw [hlen]
    omega

/-! What holds between events -/

/-- The descriptor at `txnext` is owned and will empty the buffer. -/
def Restarts (s : TxRing) : Prop := s.descriptor.own ∧ s.descriptor.stf

def Bounded (s : TxRing) (rounds : Nat) : TxPhase → Prop
  | .idle => rounds≤2*s.limit+1
  | .running processed jumped =>
    processed ≤ s.limit ∧ if jumped then rounds≤2*processed+1 ∧ processed<s.limit ∧ s.descriptor.own
      else rounds≤2*processed
  | .probing processed _ => rounds≤2*processed+1 ∧ processed<s.limit
  | .fault => False

def Fair (e : Handled × Option (List Byte)) : Prop :=
  e.1.before.own ∧ e.1.given ∧ e.1.after.own=false ∧ e.1.frame=e.2

/-- What holds between events. A descriptor that empties the buffer may have done so and still be owned; in
`find_owned_desc` it is not. -/
structure Inv (x : TxState) : Prop where
  probing : ∀ p i,x.1.phase=.probing p i → ∀ c,x.2.chain=some c → Holds c.2 x.1.buffer
  valid : Valid x.1.buffer
  chain : ∀ c,x.2.chain=some c → Holds c.2 x.1.buffer ∨ x.1.Restarts
  bounded : x.1.Bounded x.2.rounds x.1.phase
  handled : ∀ e∈x.2.handled,Fair e

theorem after_own (s : TxRing) (b : TxBuffer) (giant : Bool) (bridge : Option Bool) :
    (s.after b giant bridge).own=false := by
  have hz (w : Word) : (w &&& ~~~txrOwn) &&& txrOwn=0 := by
    rw [BitVec.and_assoc]
    exact BitVec.and_zero
  exact decide_eq_false fun h => h (hz _)

theorem chainWith_holds {chain : Chain} {c : Nat × List Byte} (h : ∀ c,chain=some c → Holds c.2 s.buffer ∨ s.Restarts)
    (hc : s.chainWith chain segment=some c) : Holds c.2 (filled s.started segment) := by
  rw [chainWith] at hc
  cases hs : s.descriptor.stf with
  | true =>
    rw [hs,if_pos rfl] at hc
    cases hc
    rw [started_stf hs]
    exact holds_empty.filled segment
  | false =>
    rw [hs,if_neg (by rintro ⟨⟩)] at hc
    obtain ⟨c',hc',hn⟩ := Option.bind_eq_some_iff.mp hc
    split_ifs at hn with hslot
    cases hn
    rw [started_other hs]
    obtain hh | hr := h c' hc'
    · exact hh.filled segment
    · have hstf := hr.2
      rw [hs] at hstf
      cases hstf

theorem filled_none (h : segmentRoom b segment.length=0) : filled b segment=b := by
  have hmsg : b.msg.take b.len++segment.take 0++b.msg.drop (b.len+0)=b.msg := by
    rw [take_zero,append_nil,Nat.add_zero,take_append_drop]
  show TxBuffer.mk (b.msg.take b.len++segment.take (segmentRoom b segment.length) ++
    b.msg.drop (b.len+segmentRoom b segment.length)) (b.len+segmentRoom b segment.length)=b
  rw [h,hmsg]
  rfl

/-- What the condition on a round says where it handles a descriptor -/
structure Handles (s : TxRing) (chain : Chain) (given : Bool) (segment : List Byte) : Prop where
  ends : s.descriptor.enf → ∃ c,s.chainWith chain segment=some c ∧ s.station.isZero=false
  room : s.descriptor.enf=false → s.descriptor.stf ∨ s.buffer.msg≠[] ∨ segment.length=0
  given : given=false → s.descriptor.enf=false ∧
    (s.descriptor.stf ∨ segmentRoom s.buffer segment.length=0)

theorem handles_of_keeps {read data given : Bool} {bridge : Option Bool}
    (hk : keeps (s,l) (.round read data given segment bridge)) (ho : s.descriptor.own)
    (hd : ¬(0<segmentRoom s.started segment.length ∧ data=false)) : s.Handles l.chain given segment := by
  have hk : (!s.descriptor.own || (decide (0<segmentRoom s.started segment.length) && !data) ||
      (if s.descriptor.enf then (s.chainWith l.chain segment).isSome && !s.station.isZero
        else s.descriptor.stf || decide (s.buffer.msg≠[]) || decide (segment.length=0)) &&
      (given || !s.descriptor.enf &&
        (s.descriptor.stf || decide (segmentRoom s.buffer segment.length=0))))=true := hk
  have hdata : (decide (0<segmentRoom s.started segment.length) && !data)=false := by
    rw [Bool.eq_false_iff,ne_eq,Bool.and_eq_true,decide_eq_true_eq,Bool.not_eq_true']
    exact hd
  rw [ho,hdata,Bool.not_true,Bool.false_or,Bool.false_or,Bool.and_eq_true] at hk
  obtain ⟨hk,hg⟩ := hk
  refine ⟨fun he => ?_,fun he => ?_,fun hf => ?_⟩
  · rw [he,if_pos rfl,Bool.and_eq_true,Option.isSome_iff_exists,Bool.not_eq_true'] at hk
    obtain ⟨⟨c,hc⟩,hz⟩ := hk
    exact ⟨c,hc,hz⟩
  · rw [he,if_neg (by rintro ⟨⟩),Bool.or_eq_true,Bool.or_eq_true,decide_eq_true_eq,
      decide_eq_true_eq,or_assoc] at hk
    exact hk
  · rw [hf,Bool.false_or,Bool.and_eq_true,Bool.not_eq_true',Bool.or_eq_true,decide_eq_true_eq] at hg
    exact hg

section
variable {processed : Nat} {read data given : Bool} {bridge : Option Bool}

theorem Handles.roomy (hh : s.Handles l.chain given segment)
    (hc : ∀ c,l.chain=some c → Holds c.2 s.buffer ∨ s.Restarts) : s.started.msg≠[] ∨ segment.length=0 := by
  cases hs : s.descriptor.stf with
  | true =>
    left
    rw [started_stf hs]
    exact cons_ne_nil _ _
  | false =>
    rw [started_other hs]
    cases he : s.descriptor.enf with
    | false =>
      obtain hstf | hroom := hh.room he
      · rw [hs] at hstf
        cases hstf
      · exact hroom
    | true =>
      obtain ⟨c,hwith,_⟩ := hh.ends he
      rw [chainWith,hs,if_neg (by rintro ⟨⟩)] at hwith
      obtain ⟨c',hc',_⟩ := Option.bind_eq_some_iff.mp hwith
      obtain hold | hr := hc c' hc'
      · left
        intro hnil
        have hsize := hold.size
        rw [hnil] at hsize
        cases hsize
      · have hstf := hr.2
        rw [hs] at hstf
        cases hstf

theorem Handles.faults (hh : s.Handles l.chain given segment) (hv : Valid s.buffer)
    (hc : ∀ c,l.chain=some c → Holds c.2 s.buffer ∨ s.Restarts) : s.faults s.started segment=false := by
  have hcopy := (hv.started.filled (hh.roomy hc)).2
  rw [TxRing.faults,Bool.or_eq_false_iff]
  constructor
  · rw [Bool.and_eq_false_iff,decide_eq_false_iff_not,decide_eq_false_iff_not,Nat.not_lt,Nat.not_lt]
    obtain hz | hpos := Nat.eq_zero_or_pos (segmentRoom s.started segment.length)
    · exact .inl hz.le
    · exact .inr (hcopy hpos)
  · rw [Bool.and_eq_false_iff,decide_eq_false_iff_not,Nat.not_lt]
    cases he : s.descriptor.enf with
    | false => exact .inl rfl
    | true =>
      obtain ⟨c,hwith,hz⟩ := hh.ends he
      obtain ⟨_,hsize,hle⟩ := (chainWith_holds hc hwith).finished hz
      have hmax : ethMaxPacket=1514 := rfl
      have hframe : ethFrameSize=1518 := rfl
      right
      omega

theorem Inv.handle (h : Inv (s,l)) (hr : l.rounds≤2*processed+1) (hlt : processed<s.limit) (ho : s.descriptor.own)
    (hh : ¬(0<segmentRoom s.started segment.length ∧ data=false) → s.Handles l.chain given segment) :
    Inv ((s.handle processed data given segment bridge).1, s.ledgerAfter l (.round read data given segment bridge)
        (s.handle processed data given segment bridge).2) := by
  have hchain : ∀ c,l.chain=some c → Holds c.2 s.buffer ∨ s.Restarts := h.chain
  have hvalid : Valid s.buffer := h.valid
  have hidle : l.rounds+1≤2*s.limit+1 := by omega
  rw [TxRing.handle]
  dsimp only
  by_cases hd : 0<segmentRoom s.started segment.length ∧ data=false
  · rw [if_pos hd]
    refine ⟨by rintro p i ⟨⟩,hvalid.started,fun c hc => ?_,hidle,?_⟩
    · cases hs : s.descriptor.stf with
      | true => exact .inr ⟨ho,hs⟩
      | false =>
        have hold := hchain c hc
        rw [← started_other hs] at hold
        exact hold
    · intro e he
      exact h.handled e ((mem_append.mp he).resolve_right (by rintro ⟨⟩))
  · have hh := hh hd
    have hfilled := (hvalid.started.filled (hh.roomy hchain)).1
    rw [if_neg hd,hh.faults hvalid hchain,if_neg (by rintro ⟨⟩)]
    cases he : s.descriptor.enf with
    | true =>
      obtain ⟨c,hwith,hz⟩ := hh.ends he
      obtain ⟨hframe,hsize,hle⟩ := (chainWith_holds hchain hwith).finished hz
      cases hg : given with
      | false =>
        have hend := (hh.given hg).1
        rw [he] at hend
        cases hend
      | true =>
        refine ⟨by rintro p i ⟨⟩,.inr ⟨hsize,hle⟩,?_,⟨hlt,?_⟩,?_⟩
        · intro c hc
          rw [ledgerAfter,he] at hc
          cases hc
        · show l.rounds+1≤2*(processed+1)
          omega
        · intro e hm
          obtain hm | hm := mem_append.mp hm
          · exact h.handled e hm
          · rw [mem_singleton.mp hm]
            refine ⟨ho,rfl,after_own _ _ _ _,?_⟩
            show some _=s.due l.chain segment
            rw [due,he,if_pos rfl,hwith]
            exact congrArg some hframe
    | false =>
      cases hg : given with
      | false =>
        refine ⟨by rintro p i ⟨⟩,hfilled,fun c hc => ?_,hidle,?_⟩
        · have hc : l.chain=some c := hc
          obtain hs | hz := (hh.given hg).2
          · exact .inr ⟨ho,hs⟩
          · cases hs : s.descriptor.stf with
            | true => exact .inr ⟨ho,hs⟩
            | false =>
              have hsame : filled s.started segment=s.buffer := by
                rw [started_other hs]
                exact filled_none hz
              obtain hold | hr := hchain c hc
              · left
                show Holds c.2 (filled s.started segment)
                rw [hsame]
                exact hold
              · exact .inr hr
        · intro e hm
          exact h.handled e ((mem_append.mp hm).resolve_right (by rintro ⟨⟩))
      | true =>
        refine ⟨by rintro p i ⟨⟩,hfilled,?_,⟨hlt,?_⟩,?_⟩
        · intro c hc
          rw [ledgerAfter,he] at hc
          exact .inl (chainWith_holds hchain hc)
        · show l.rounds+1≤2*(processed+1)
          omega
        · intro e hm
          obtain hm | hm := mem_append.mp hm
          · exact h.handled e hm
          · rw [mem_singleton.mp hm]
            refine ⟨ho,rfl,after_own _ _ _ _,?_⟩
            show none=s.due l.chain segment
            rw [due,he]
            rfl

end

theorem Inv.round (h : Inv (s,l)) {processed : Nat} {jumped read data given : Bool} {bridge : Option Bool}
    (hp : s.phase=.running processed jumped) (hk : keeps (s,l) (.round read data given segment bridge)) :
    Inv ((s.round processed read data given segment bridge).1, s.ledgerAfter l (.round read data given segment bridge)
        (s.round processed read data given segment bridge).2) := by
  have hb := h.bounded
  dsimp only at hb
  rw [hp] at hb
  obtain ⟨hle,hjump⟩ := hb
  have hcount : l.rounds≤2*s.limit := by
    cases jumped with
    | true =>
      obtain ⟨hr,hlt,_⟩ : l.rounds≤2*processed+1 ∧ processed<s.limit ∧ _ := hjump
      omega
    | false =>
      have hjump : l.rounds≤2*processed := hjump
      omega
  have hnone : ∀ e∈l.handled++[],Fair e := by
    rw [append_nil]
    exact h.handled
  rw [TxRing.round]
  by_cases hstop : s.limit≤processed ∨ read=false
  · rw [if_pos hstop]
    refine ⟨by rintro p i ⟨⟩,h.valid,h.chain,?_,hnone⟩
    show l.rounds+1≤2*s.limit+1
    omega
  · rw [if_neg hstop]
    rw [not_or,Nat.not_le] at hstop
    cases ho : s.descriptor.own with
    | true =>
      have hr : l.rounds≤2*processed+1 := by
        cases jumped with
        | true => exact hjump.1
        | false =>
          have hjump : l.rounds≤2*processed := hjump
          omega
      exact h.handle hr hstop.1 ho (handles_of_keeps hk ho)
    | false =>
      cases jumped with
      | true =>
        obtain ⟨_,_,hown⟩ : _ ∧ _ ∧ s.descriptor.own=true := hjump
        rw [ho] at hown
        cases hown
      | false =>
        have hjump : l.rounds≤2*processed := hjump
        have hchain : ∀ c,l.chain=some c → Holds c.2 s.buffer := by
          intro c hc
          obtain hold | hr := h.chain c hc
          · exact hold
          · have hown := hr.1
            rw [ho] at hown
            cases hown
        refine ⟨fun _ _ _ => hchain,h.valid,h.chain,⟨?_,hstop.1⟩,hnone⟩
        show l.rounds+1≤2*processed+1
        omega

theorem Inv.probe (h : Inv (s,l)) {processed i : Nat} (hp : s.phase=.probing processed i) (read : Bool) :
    Inv (s.probe processed i read,l) := by
  have hn : ∀ c,l.chain=some c → Holds c.2 s.buffer := h.probing processed i hp
  have hb := h.bounded
  dsimp only at hb
  rw [hp] at hb
  obtain ⟨hr,hlt⟩ := hb
  rw [TxRing.probe]
  split_ifs with hend hown
  · refine ⟨fun _ _ _ => hn,h.valid,fun c hc => .inl (hn c hc),?_,h.handled⟩
    show l.rounds≤2*s.limit+1
    omega
  · exact ⟨fun _ _ _ => hn,h.valid,fun c hc => .inl (hn c hc),⟨hlt.le,hr,hlt,hown.2⟩,h.handled⟩
  · exact ⟨fun _ _ _ => hn,h.valid,fun c hc => .inl (hn c hc),⟨hr,hlt⟩,h.handled⟩

theorem host_descriptor {slot : Nat} {d : RingDescriptor} (ho : s.descriptor.own)
    (hs : (s.ring slot).own=false) : update s.ring slot d s.txnext=s.descriptor := by
  refine update_of_ne ?_ _ _
  intro he
  rw [← he] at hs
  have ho : (s.ring s.txnext).own=true := ho
  rw [hs] at ho
  cases ho

theorem Inv.host (h : Inv (s,l)) {slot : Nat} (d : RingDescriptor) (hs : (s.ring slot).own=false) :
    Inv ({ s with ring := update s.ring slot d },l) := by
  refine ⟨h.probing,h.valid,fun c hc => ?_,?_,h.handled⟩
  · obtain hold | ⟨ho,hstf⟩ := h.chain c hc
    · exact .inl hold
    · right
      rw [Restarts]
      show (update s.ring slot d s.txnext).own=true ∧ (update s.ring slot d s.txnext).stf=true
      rw [host_descriptor ho hs]
      exact ⟨ho,hstf⟩
  · have hb := h.bounded
    dsimp only at hb ⊢
    cases hp : s.phase with
    | idle | probing p i | fault =>
      rw [hp] at hb
      exact hb
    | running p jumped =>
      rw [hp] at hb
      obtain ⟨hle,hj⟩ := hb
      cases jumped with
      | false => exact ⟨hle,hj⟩
      | true =>
        obtain ⟨hr,hlt,ho⟩ : _ ∧ _ ∧ s.descriptor.own=true := hj
        refine ⟨hle,hr,hlt,?_⟩
        show (update s.ring slot d s.txnext).own=true
        rw [host_descriptor ho hs]
        exact ho

theorem Inv.step {x y : TxState} {e : TxEvent} (h : Inv x) (hk : keeps x e)
    (hs : stepTransmit x e=some y) : Inv y := by
  obtain ⟨s,l⟩ := x
  obtain ⟨t,ht,rfl⟩ := Option.map_eq_some_iff.mp hs
  dsimp only at ht hk ⊢
  cases e with
  | host slot d =>
    rw [TxRing.step] at ht
    cases ho : (s.ring slot).own with
    | true =>
      rw [ho,if_pos rfl] at ht
      cases ht
    | false =>
      rw [ho,if_neg (by rintro ⟨⟩)] at ht
      cases ht
      exact h.host d ho
  | setup mode station macs =>
    rw [TxRing.step] at ht
    split_ifs at ht with hi
    cases ht
    have hb := h.bounded
    dsimp only at hb
    rw [hi] at hb
    refine ⟨h.probing,h.valid,h.chain,?_,h.handled⟩
    dsimp only
    rw [hi]
    exact hb
  | begin running maxDescriptors =>
    rw [TxRing.step] at ht
    split_ifs at ht with hi
    cases ht
    dsimp only
    rw [TxRing.begin]
    by_cases hn : running=false ∨ s.trlen=0 ∨ s.telen=0 ∨ s.telen<4
    · rw [if_pos hn]
      refine ⟨h.probing,h.valid,h.chain,?_,h.handled⟩
      dsimp only
      rw [hi]
      exact Nat.zero_le _
    · rw [if_neg hn]
      exact ⟨by rintro p i ⟨⟩,h.valid,h.chain,⟨Nat.zero_le _,Nat.zero_le _⟩,h.handled⟩
  | round read data given segment bridge =>
    rw [TxRing.step] at ht
    cases hp : s.phase with
    | running processed jumped =>
      rw [hp] at ht
      dsimp only at ht
      split_ifs at ht with hlen
      cases ht
      exact h.round hp hk
    | idle | probing p i | fault =>
      rw [hp] at ht
      cases ht
  | probe read =>
    rw [TxRing.step] at ht
    cases hp : s.phase with
    | probing processed i =>
      rw [hp] at ht
      cases ht
      exact h.probe hp read
    | idle | running p j | fault =>
      rw [hp] at ht
      cases ht

theorem start_inv (telen trlen txSlots : Nat) (station : Mac) : Inv (start telen trlen txSlots station,⟨none,[],0⟩) :=
  ⟨by rintro p i ⟨⟩,.inl ⟨rfl,rfl⟩,by rintro c ⟨⟩,Nat.zero_le _,by rintro e ⟨⟩⟩

theorem Inv.right {x : TxState} (h : Inv x) : x.1.Right x.2 := by
  have hb := h.bounded
  refine ⟨fun hf => ?_,h.handled,?_⟩
  · rw [hf] at hb
    exact hb
  · cases hp : x.1.phase with
    | fault =>
      rw [hp] at hb
      exact hb.elim
    | idle =>
      rw [hp] at hb
      exact hb
    | probing p i =>
      rw [hp] at hb
      obtain ⟨hr,hlt⟩ := hb
      omega
    | running p jumped =>
      rw [hp] at hb
      obtain ⟨hle,hj⟩ := hb
      cases jumped with
      | false =>
        have hj : x.2.rounds≤2*p := hj
        omega
      | true =>
        obtain ⟨hr,hlt,_⟩ : x.2.rounds≤2*p+1 ∧ p<x.1.limit ∧ _ := hj
        omega

end TxRing

end QUniLator.Ethernet.Deuna
