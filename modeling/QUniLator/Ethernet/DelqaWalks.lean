import QUniLator.Ethernet.ReceiveFilter
import QUniLator.Framework.Loop
import QUniLator.Framework.Splice

namespace QUniLator.Ethernet

open Nat (lt_succ_self succ_le_succ succ_pos)

open List

/-! Two more bits of a descriptor, and one of the transmit status -/

def dscE : Word := 0x2000

def dscS : Word := 0x1000

def xmtLasterr : Word := 0x4000

/-- A byte of a word that is written: a byte of the data, or what was read there before. -/
inductive Cell
  | kept
  | data (b : Byte)
  deriving DecidableEq,Repr

/-- A word that is written at an even address -/
structure WordWrite where
  addr : Nat
  low : Cell
  high : Cell
  deriving DecidableEq,Repr

/-- The rest of `dma_write_bytes` from an even address on -/
def dmaWriteEven : Nat → List Byte → List WordWrite
  | _,[] => []
  | addr,[b] => [⟨addr,.data b,.kept⟩]
  | addr,b::c::buffer => ⟨addr,.data b,.data c⟩::dmaWriteEven (addr+2) buffer

/-- The words that `dma_write_bytes` writes; a bus timeout cuts them short. -/
def dmaWriteBytes (addr : Nat) : List Byte → List WordWrite
  | [] => []
  | b::buffer =>
    if addr%2=1 then ⟨addr-1,.kept,.data b⟩::dmaWriteEven (addr+1) buffer else dmaWriteEven addr (b::buffer)

def WordWrite.received (w : WordWrite) : List (Nat × Byte) :=
  (match w.low with | .kept => [] | .data b => [(w.addr,b)]) ++
    match w.high with | .kept => [] | .data b => [(w.addr+1,b)]

theorem received_even (addr : Nat) (buffer : List Byte) :
    (dmaWriteEven addr buffer).flatMap WordWrite.received=buffer.mapIdx fun i b => (addr+i,b) := by
  induction addr,buffer using dmaWriteEven.induct with
  | case1 => rfl
  | case2 => rfl
  | case3 addr b c buffer ih =>
    rw [dmaWriteEven,flatMap_cons,ih,mapIdx_cons,mapIdx_cons]
    simp only [Nat.add_assoc,Nat.add_comm 2]
    rfl

theorem received_bytes (addr : Nat) (buffer : List Byte) :
    (dmaWriteBytes addr buffer).flatMap WordWrite.received=buffer.mapIdx fun i b => (addr+i,b) := by
  cases buffer with
  | nil => rfl
  | cons b buffer =>
    unfold dmaWriteBytes
    split_ifs with h
    · rw [flatMap_cons,received_even,mapIdx_cons]
      simp only [WordWrite.received,show addr-1+1=addr by omega,Nat.add_assoc,Nat.add_comm 1]
      rfl
    · exact received_even _ _

theorem or_and_ne {w m b : Word} (h : m &&& b≠0) : (w ||| m) &&& b≠0 := by
  intro h0
  have hd : (w ||| m) &&& b=w &&& b ||| m &&& b := by
    ext i
    simp only [BitVec.getElem_and,BitVec.getElem_or,Bool.and_or_distrib_right]
  rw [hd] at h0
  exact h (BitVec.or_eq_zero_iff.mp h0).2

namespace Descriptor
variable (d : Descriptor)

def wordCount : Nat := (~~~d.length+1).toNat

/-- The bytes that the words of the buffer have more than the buffer: before its odd start, and after its
odd end -/
def oddBytes : Nat := (if d.bits &&& dscH≠0 then 1 else 0)+if d.bits &&& dscL≠0 then 1 else 0

def Exact : Prop := d.room.toNat+d.oddBytes=2*d.wordCount

def HasRoom : Prop := d.length≠0 ∨ d.bits &&& dscH=0 ∧ d.bits &&& dscL=0

theorem exact_iff : d.Exact ↔ d.HasRoom := by
  have hw : d.wordCount<2^16 := (~~~d.length+1).isLt
  have hz : d.wordCount=0 ↔ d.length=0 := by
    have hn : ~~~d.length+1 = -d.length := (BitVec.neg_eq_not_add _).symm
    rw [wordCount,hn,BitVec.toNat_neg]
    have := d.length.isLt
    constructor
    · intro h
      exact BitVec.eq_of_toNat_eq (by simp; omega)
    · intro h
      simp [h]
  have hroom : ((~~~d.length+1).setWidth 32*2 : BitVec 32).toNat=2*d.wordCount := by
    rw [BitVec.toNat_mul,BitVec.toNat_setWidth]
    unfold wordCount at hw ⊢
    simp
    omega
  have hone : (1 : BitVec 32).toNat=1 := rfl
  unfold Exact HasRoom oddBytes room
  rw [ne_eq d.length,← hz]
  dsimp only
  split_ifs with h1 h2 h2
  · simp only [h1,BitVec.toNat_sub,hroom,hone,and_false,or_false]
    omega
  · simp only [h1,BitVec.toNat_sub,hroom,hone,and_false,or_false]
    omega
  · simp only [h2,BitVec.toNat_sub,hroom,hone,false_and,or_false]
    omega
  · rw [hroom]
    simp [not_not.mp h1,not_not.mp h2]

theorem Exact.room_le (h : d.Exact) : d.room.toNat≤131070 := by
  have hw : d.wordCount<2^16 := (~~~d.length+1).isLt
  unfold Exact at h
  omega

end Descriptor

/-- What host memory and the wire answer to a descriptor of a transmit list: its words, none after a timeout; whether
it can be marked and its status written; the memory of its buffer; whether the wire takes the packet. `csr` is what
other threads left. -/
structure XbdlAnswer where
  csr : Word
  connector : Bool
  read : Option Descriptor
  marked : Bool
  data : Option (Nat → Byte)
  sent : Bool
  status : Bool

/-- Where a packet has gone: to the receive queue as a setup packet, with its word count, or as a looped one,
nowhere, or to the wire -/
inductive Disposal
  | setup (wlen : Word) (data : List Byte)
  | loopback (data : List Byte)
  | lost
  | wire (data : List Byte) (ok : Bool)

/-- How a walk stands. In `broken` the write buffer cannot take the length, and `resize` throws. -/
inductive XbdlState
  | going
  | ended
  | broken
  deriving DecidableEq,Repr

/-- `process_xbdl`. `sized` has the descriptors whose length has been computed, `disposed` the packets, and
`reports` the status words with the place of their descriptor. -/
structure XbdlWalk where
  xbdlBa : BitVec 32
  startBa : BitVec 32
  dcount : Nat
  writeBuffer : List Byte
  pendingXi : Bool
  delivered : Bool
  csr : Word
  state : XbdlState
  sized : List Descriptor
  disposed : List Disposal
  reports : List (BitVec 32 × Word × Word)

namespace XbdlWalk

def begin (ba : BitVec 32) (csr : Word) : XbdlWalk := ⟨ba,ba,0,[],false,false,csr,.going,[],[],[]⟩

def nxmError (s : XbdlWalk) : XbdlWalk :=
  { s with csr := s.csr ||| (csrNi ||| csrXi ||| csrXl ||| csrRl),state := .ended }

def idle (s : XbdlWalk) : XbdlWalk :=
  { s with csr := s.csr ||| (csrXl ||| if s.pendingXi then csrXi else 0),pendingXi := false,state := .ended }

def dispose (s : XbdlWalk) (a : XbdlAnswer) (d : Descriptor) : XbdlWalk × Word × Word :=
  let loopback := s.csr &&& csrIl=0 ∨ s.csr &&& csrEl≠0
  let listReady := s.csr &&& csrRl=0 ∨ s.csr &&& csrEl≠0
  let goes (delivered : Bool) (p : Disposal) : XbdlWalk :=
    { s with csr := s.csr ||| if a.connector ∧ s.csr &&& csrIl≠0 then csrCa else 0,
             delivered := delivered,disposed := s.disposed++[p] }
  if d.bits &&& dscS≠0 then (goes true (.setup d.length s.writeBuffer),0x200c,0x0860)
  else if loopback then
    (if listReady then goes true (.loopback s.writeBuffer) else goes s.delivered .lost,0x200c,0x0860)
  else (goes s.delivered (.wire s.writeBuffer a.sent),if a.sent then 0 else xmtLasterr,
    BitVec.ofNat 16 (100+s.writeBuffer.length*8) &&& 0x03ff)

def report (s : XbdlWalk) (a : XbdlAnswer) (d : Descriptor) : XbdlWalk :=
  let x : XbdlWalk × Word × Word := if d.bits &&& dscE≠0 then s.dispose a d else (s,0xffff,0xffff)
  if a.status=false then x.1.nxmError
  else
    let s := { x.1 with reports := x.1.reports++[(s.xbdlBa,x.2)],xbdlBa := s.xbdlBa+12 }
    if d.bits &&& dscE≠0 then { s with writeBuffer := [],pendingXi := true } else s

def segment (s : XbdlWalk) (a : XbdlAnswer) (d : Descriptor) : XbdlWalk :=
  let s := { s with sized := s.sized++[d] }
  if 2^31 ≤ s.writeBuffer.length+d.room.toNat then { s with state := .broken }
  else
    match a.data with
    | none => s.nxmError
    | some memory =>
      report { s with writeBuffer := s.writeBuffer++slice memory d.address.toNat d.room.toNat } a d

def round (s : XbdlWalk) (a : XbdlAnswer) : XbdlWalk :=
  let s := { s with csr := a.csr }
  if s.dcount≠0 ∧ (s.xbdlBa=s.startBa ∨ maxDescriptors<s.dcount) then s.idle
  else
    let s := { s with dcount := s.dcount+1 }
    match a.read with
    | none => s.nxmError
    | some d =>
      if a.marked=false then s.nxmError
      else if d.bits &&& dscC≠0 then
        { s with xbdlBa := ((d.bits &&& 0x3f).setWidth 32 <<< 16) ||| d.low.setWidth 32 }
      else if d.bits &&& dscV=0 then s.idle
      else
        (if s.pendingXi then { s with csr := s.csr ||| csrXi,pendingXi := false } else s).segment a d

/-- `process_xbdl` up to the receive list, by the answers to its descriptors -/
def walk (answers : Nat → XbdlAnswer) (fuel : Nat) (s : XbdlWalk) : Option XbdlWalk :=
  runWhile (fun s => s.state=.going) (fun s => s.round (answers s.dcount)) fuel s

/-- A walk in the midst of the list -/
structure Going (s : XbdlWalk) : Prop where
  few : s.dcount ≤ maxDescriptors+1
  buffer : (∀ d∈s.sized,d.HasRoom) → s.writeBuffer.length≤131070*s.dcount
  state : s.state=.going

/-- A walk, also at its end -/
structure Inv (s : XbdlWalk) : Prop where
  few : s.dcount ≤ maxDescriptors+1
  buffer : (∀ d∈s.sized,d.HasRoom) → s.writeBuffer.length≤131070*s.dcount
  ended : s.state=.ended → s.csr &&& csrXl≠0
  broken : s.state=.broken → ¬∀ d∈s.sized,d.HasRoom

variable {s : XbdlWalk}

theorem Going.inv (h : s.Going) : s.Inv := by
  refine ⟨h.few,h.buffer,fun ho => ?_,fun hb => ?_⟩
  · rw [h.state] at ho
    cases ho
  · rw [h.state] at hb
    cases hb

theorem Going.nxmError (h : s.Going) : s.nxmError.Inv :=
  ⟨h.few,h.buffer,fun _ => or_and_ne (by decide),by rintro ⟨⟩⟩

theorem Going.idle (h : s.Going) : s.idle.Inv := by
  refine ⟨h.few,h.buffer,fun _ => or_and_ne ?_,by rintro ⟨⟩⟩
  cases s.pendingXi with
  | true | false => decide

theorem Going.dispose (h : s.Going) (a : XbdlAnswer) (d : Descriptor) : (s.dispose a d).1.Going := by
  unfold XbdlWalk.dispose
  dsimp only
  split_ifs <;> exact ⟨h.few,h.buffer,h.state⟩

theorem Going.report (h : s.Going) (a : XbdlAnswer) (d : Descriptor) : (s.report a d).Inv := by
  unfold XbdlWalk.report
  dsimp only
  by_cases he : d.bits &&& dscE≠0
  · have hd := h.dispose a d
    simp only [if_pos he]
    split_ifs
    · exact hd.nxmError
    · exact Going.inv ⟨hd.few,fun _ => Nat.zero_le _,hd.state⟩
  · simp only [if_neg he]
    split_ifs
    · exact h.nxmError
    · exact Going.inv ⟨h.few,h.buffer,h.state⟩

theorem Going.segment (h : s.Going) (hb : (∀ d∈s.sized,d.HasRoom) →
    s.writeBuffer.length+131070≤131070*s.dcount) (a : XbdlAnswer) (d : Descriptor) : (s.segment a d).Inv := by
  have hfew : s.dcount≤257 := h.few
  have hlen (hr : ∀ x∈s.sized++[d],x.HasRoom) :
      s.writeBuffer.length+d.room.toNat≤131070*s.dcount := by
    have hd := hr d (mem_append_right _ mem_cons_self)
    have hle := (d.exact_iff.mpr hd).room_le
    have := hb fun x hx => hr x (mem_append_left _ hx)
    omega
  unfold XbdlWalk.segment
  dsimp only
  split_ifs with hlong
  · refine ⟨h.few,fun hr => ?_,by rintro ⟨⟩,fun _ hr => ?_⟩
    · exact (Nat.le_add_right _ _).trans (hlen hr)
    · have := hlen hr
      omega
  · cases a.data with
    | none => exact Going.nxmError ⟨h.few,fun hr => (Nat.le_add_right _ _).trans (hlen hr),h.state⟩
    | some memory =>
      dsimp only
      refine Going.report ?_ a d
      refine ⟨h.few,fun hr => ?_,h.state⟩
      rw [length_append,slice_length]
      exact hlen hr

theorem report_dcount (s : XbdlWalk) (a : XbdlAnswer) (d : Descriptor) : (s.report a d).dcount=s.dcount := by
  unfold report dispose nxmError
  dsimp only
  split_ifs <;> rfl

theorem segment_dcount (s : XbdlWalk) (a : XbdlAnswer) (d : Descriptor) : (s.segment a d).dcount=s.dcount := by
  unfold segment
  dsimp only
  split_ifs
  · rfl
  · cases a.data with
    | none => rfl
    | some memory => exact report_dcount _ _ _

theorem Going.round (h : s.Going) (a : XbdlAnswer) : (s.round a).Inv ∧
    ((s.round a).state=.going → (s.round a).dcount=s.dcount+1) := by
  unfold XbdlWalk.round
  dsimp only
  by_cases hring : s.dcount≠0 ∧ (s.xbdlBa=s.startBa ∨ maxDescriptors<s.dcount)
  · rw [if_pos hring]
    exact ⟨Going.idle ⟨h.few,h.buffer,h.state⟩,by rintro ⟨⟩⟩
  rw [if_neg hring]
  have hfew : s.dcount+1 ≤ maxDescriptors+1 := by
    rw [not_and_or,not_or,not_lt] at hring
    obtain h0 | h1 := hring
    · rw [not_not.mp h0]
      decide
    · exact succ_le_succ h1.2
  have hroom (hr : ∀ d∈s.sized,d.HasRoom) : s.writeBuffer.length+131070≤131070*(s.dcount+1) := by
    have := h.buffer hr
    omega
  have hbuffer (hr : ∀ d∈s.sized,d.HasRoom) : s.writeBuffer.length≤131070*(s.dcount+1) :=
    (Nat.le_add_right _ _).trans (hroom hr)
  cases a.read with
  | none => exact ⟨Going.nxmError ⟨hfew,hbuffer,h.state⟩,by rintro ⟨⟩⟩
  | some d =>
    dsimp only
    split_ifs
    · exact ⟨Going.nxmError ⟨hfew,hbuffer,h.state⟩,by rintro ⟨⟩⟩
    · exact ⟨Going.inv ⟨hfew,hbuffer,h.state⟩,fun _ => rfl⟩
    · exact ⟨Going.idle ⟨hfew,hbuffer,h.state⟩,by rintro ⟨⟩⟩
    all_goals
      refine ⟨Going.segment ?_ ?_ a d,fun _ => segment_dcount _ _ _⟩
      · exact ⟨hfew,hbuffer,h.state⟩
      · exact hroom

def rank (s : XbdlWalk) : Nat := if s.state=.going then maxDescriptors+2-s.dcount else 0

theorem rank_le (s : XbdlWalk) : s.rank ≤ maxDescriptors+2 := by
  unfold rank
  split_ifs
  · exact Nat.sub_le _ _
  · exact Nat.zero_le _

theorem Inv.round (h : s.Inv) (hg : s.state=.going) (a : XbdlAnswer) : (s.round a).Inv ∧ (s.round a).rank<s.rank := by
  obtain ⟨hr,hd⟩ := Going.round ⟨h.few,h.buffer,hg⟩ a
  refine ⟨hr,?_⟩
  have hfew := h.few
  unfold rank
  rw [if_pos hg]
  split_ifs with hn
  · rw [hd hn]
    omega
  · omega

theorem walk_ends (answers : Nat → XbdlAnswer) (ba : BitVec 32) (csr : Word) : ∃ t,
    walk answers (maxDescriptors+2) (begin ba csr)=some t ∧ t.Inv ∧ t.state≠.going := by
  have hstep (s : XbdlWalk) (h : s.Inv) (hg : decide (s.state=.going)=true) :=
    h.round (of_decide_eq_true hg) (answers s.dcount)
  have hbegin : (begin ba csr).Inv := Going.inv ⟨Nat.zero_le _,fun _ => Nat.zero_le _,rfl⟩
  obtain ⟨t,ht,hi,hb⟩ := runWhile_ends rank hstep hbegin (rank_le _)
  exact ⟨t,ht,hi,of_decide_eq_false hb⟩

end XbdlWalk

namespace RbdlPhase

def dcount : RbdlPhase → Nat
  | .head w | .test w _ | .words w _ | .front w _ | .data w _ | .status w _ | .pop w _ | .finish w => w.dcount
  | .idle | .fault => 0

def left : RbdlPhase → Nat
  | .head w => 8*(maxDescriptors+2-w.dcount)+1
  | .test w _ => 8*(maxDescriptors+2-w.dcount)+7
  | .words w _ => 8*(maxDescriptors+2-w.dcount)+6
  | .front w _ => 8*(maxDescriptors+2-w.dcount)+5
  | .data w _ => 8*(maxDescriptors+2-w.dcount)+4
  | .status w _ => 8*(maxDescriptors+2-w.dcount)+3
  | .pop w _ => 8*(maxDescriptors+2-w.dcount)+2
  | .finish _ => 1
  | .idle | .fault => 0

def Within : RbdlPhase → Prop
  | .idle | .data _ _ => False
  | .finish w => w.rlReached=true
  | .head _ | .test _ _ | .words _ _ | .front _ _ | .status _ _ | .pop _ _ | .fault => True

end RbdlPhase

/-- A section of `process_rbdl` -/
def RbdlEvent.section_ : RbdlEvent → Bool
  | .descriptor _ _ _ | .test | .words _ | .front _ | .data _ | .status _ | .pop | .finish => true
  | .dispatch _ | .begin | .enqueue _ _ | .softwareReset | .csr _ => false

def Descriptor.Holds (d : Descriptor) (writes : List WordWrite) : Prop :=
  ∀ x∈writes.flatMap WordWrite.received,
    d.address.toNat≤x.1 ∧ x.1+d.oddBytes<d.address.toNat+2*d.wordCount

/-- A section leaves less of the walk and begins no new one; none is left out. The list ends with RL, but where it
came back to its head or nothing is queued. A segment falls into the buffer of its descriptor where that has room. -/
structure Receiver.WalkStep (s : Receiver) (e : RbdlEvent) (t : Receiver) : Prop where
  few : t.phase.dcount ≤ maxDescriptors+1
  left : e≠.begin → t.phase.left+(if e.section_ then 1 else 0) ≤ s.phase.left
  rl : t.phase=.idle → s.phase≠.idle → t.csr &&& csrRl≠0 ∨ ∃ w,s.phase=.finish w ∧ w.rlReached=false
  ends : ∀ w,t.phase=.finish w → w.rlReached=false → s.phase=.finish w ∨
    (e=.test ∧ s.readQueue=[]) ∨
    ∃ v,s.phase=.head v ∧ v.dcount≠0 ∧ s.rbdlBa=v.startBa
  buffer : ∀ w d v g,s.phase=.front w d → t.phase=.data v g →
    (d.HasRoom ↔ (d.Exact ∧ d.room.toNat≤131070) ∧ d.Holds (dmaWriteBytes g.address.toNat g.segment))

namespace Receiver.WalkStep
variable {s t : Receiver} {e : RbdlEvent} {p : RbdlPhase}

theorem goes (hp : s.phase=p) (he : e.section_) (hfew : t.phase.dcount ≤ maxDescriptors+1)
    (hleft : t.phase.left<p.left) (ht : t.phase.Within) : s.WalkStep e t := by
  refine ⟨hfew,fun _ => ?_,fun hi => ?_,fun w hw hr => ?_,fun w d v g _ hd => ?_⟩
  · rw [he,hp]
    exact hleft
  · rw [hi] at ht
    exact ht.elim
  · rw [hw] at ht
    exact absurd (hr.symm.trans ht) (by decide)
  · rw [hd] at ht
    exact ht.elim

theorem error (hp : s.phase=p) (he : e.section_) (hleft : 0<p.left) : s.WalkStep e s.nxmError := by
  refine ⟨Nat.zero_le _,fun _ => ?_,fun _ _ => .inl (or_and_ne (by decide)),by rintro w ⟨⟩,
    by rintro w d v g - ⟨⟩⟩
  rw [he,hp]
  exact hleft

theorem still (he : e.section_=false) (ht : t.phase=s.phase)
    (hfew : s.phase.dcount ≤ maxDescriptors+1) : s.WalkStep e t := by
  refine ⟨ht ▸ hfew,fun _ => ?_,fun hi hs => absurd (ht ▸ hi) hs,fun w hw _ => .inl (ht ▸ hw),
    fun w d v g hs hd => ?_⟩
  · rw [he,ht]
    exact Nat.le_refl _
  · rw [ht,hs] at hd
    cases hd

theorem descriptor {w : Walk} (hp : s.phase=.head w) (hw : w.dcount ≤ maxDescriptors+1) (read : Option Word)
    (marked : Bool) (chain : Option Word) :
    s.WalkStep (.descriptor read marked chain) (s.descriptor w read marked chain) := by
  have hw' : w.dcount≤257 := hw
  cases read with
  | none => exact error hp rfl (succ_pos _)
  | some bits =>
    unfold Receiver.descriptor
    dsimp only
    split_ifs with hring hmany hmarked hv hc
    · refine ⟨hw,fun _ => ?_,by rintro ⟨⟩,fun v hv _ => .inr (.inr ⟨w,hp,hring⟩),
        by rintro _ _ _ _ - ⟨⟩⟩
      rw [hp]
      change 1+1≤8*(258-w.dcount)+1
      omega
    · refine goes hp rfl hw ?_ rfl
      change 1<8*(258-w.dcount)+1
      omega
    · exact error hp rfl (succ_pos _)
    · refine goes hp rfl (succ_le_succ (Nat.not_lt.mp hmany)) ?_ rfl
      change 1<8*(258-w.dcount)+1
      omega
    · cases chain with
      | none => exact error hp rfl (succ_pos _)
      | some low =>
        refine goes hp rfl (succ_le_succ (Nat.not_lt.mp hmany)) ?_ trivial
        change 8*(258-(w.dcount+1))+1<8*(258-w.dcount)+1
        omega
    · refine goes hp rfl (succ_le_succ (Nat.not_lt.mp hmany)) ?_ trivial
      change 8*(258-(w.dcount+1))+7<8*(258-w.dcount)+1
      omega

theorem segment_le (s : Receiver) (p : Packet) (d : Descriptor) (b : Bool) :
    (s.taken p d b).segment.length≤d.room.toNat := by
  simp only [taken,takePacket,length_take,length_drop]
  omega

theorem segment_holds (s : Receiver) (p : Packet) (d : Descriptor) (b : Bool) : d.HasRoom ↔
    (d.Exact ∧ d.room.toNat≤131070) ∧
      d.Holds (dmaWriteBytes (s.taken p d b).address.toNat (s.taken p d b).segment) := by
  constructor
  · intro h
    have hexact : d.room.toNat+d.oddBytes=2*d.wordCount := d.exact_iff.mpr h
    refine ⟨⟨hexact,(d.exact_iff.mpr h).room_le⟩,fun x hx => ?_⟩
    rw [received_bytes,mem_mapIdx] at hx
    obtain ⟨i,hi,rfl⟩ := hx
    have hle := segment_le s p d b
    change d.address.toNat≤d.address.toNat+i ∧ d.address.toNat+i+d.oddBytes<d.address.toNat+2*d.wordCount
    omega
  · rintro ⟨⟨hexact,-⟩,-⟩
    exact d.exact_iff.mp hexact

theorem front {w : Walk} {d : Descriptor} (hp : s.phase=.front w d) (hw : w.dcount ≤ maxDescriptors+1)
    (b : Bool) : s.WalkStep (.front b) (s.front w d b) := by
  unfold Receiver.front
  cases s.readQueue with
  | nil => exact goes hp rfl (Nat.zero_le _) (succ_pos _) trivial
  | cons q rest =>
    refine ⟨hw,fun _ => ?_,by rintro ⟨⟩,by rintro _ ⟨⟩,fun v d' v' g hs hd => ?_⟩
    · rw [hp]
      exact Nat.le_refl _
    · rw [hp] at hs
      cases hs
      cases hd
      exact segment_holds s q d b

theorem finish {w : Walk} (hp : s.phase=.finish w) : s.WalkStep .finish (s.finish w) := by
  refine ⟨Nat.zero_le _,fun _ => ?_,fun _ _ => ?_,by rintro _ ⟨⟩,fun v d v' g hs _ => ?_⟩
  · rw [hp]
    exact Nat.le_refl _
  · cases hr : w.rlReached with
    | false => exact .inr ⟨w,hp,hr⟩
    | true =>
      refine .inl ?_
      unfold Receiver.finish
      rw [if_pos hr,BitVec.or_assoc]
      refine or_and_ne ?_
      cases w.riPending with
      | true | false => decide
  · rw [hp] at hs
    cases hs

theorem begin (hp : s.phase=.idle) : s.WalkStep .begin s.begin := by
  have hf : s.begin.phase=.idle ∨ s.begin.phase=.head ⟨s.rbdlBa,0,false,false⟩ := by
    unfold Receiver.begin
    split_ifs
    · exact .inl hp
    · exact .inr rfl
  refine ⟨?_,fun h => absurd rfl h,fun _ h => absurd hp h,fun w hw => ?_,fun w d v g hs => ?_⟩
  · obtain h | h := hf
    all_goals
      rw [h]
      exact Nat.zero_le _
  · obtain h | h := hf
    · rw [h] at hw
      cases hw
    · rw [h] at hw
      cases hw
  · rw [hp] at hs
    cases hs

theorem step (hw : s.phase.dcount ≤ maxDescriptors+1) (hs : s.step e=some t) : s.WalkStep e t := by
  revert hs
  fun_cases Receiver.step s e with
  | case2 | case4 | case6 | case8 | case10 | case12 | case14 | case16 | case18 | case20 | case22 =>
    rintro ⟨⟩
  | case1 ba | case23 | case24 w =>
    rintro ⟨⟩
    exact still rfl rfl hw
  | case3 hi =>
    rintro ⟨⟩
    exact begin hi
  | case21 type data =>
    rintro ⟨⟩
    refine still rfl ?_ hw
    unfold enqueuePacket
    dsimp only
    split_ifs <;> rfl
  | case5 read marked chain w hp =>
    rintro ⟨⟩
    rw [hp] at hw
    exact descriptor hp hw read marked chain
  | case7 w bits hp =>
    rintro ⟨⟩
    rw [hp] at hw
    by_cases hq : s.readQueue=[]
    · rw [if_pos hq]
      refine ⟨hw,fun _ => ?_,by rintro ⟨⟩,fun v _ _ => .inr (.inl ⟨rfl,hq⟩),by rintro _ _ _ _ - ⟨⟩⟩
      rw [hp]
      change 1+1≤8*(258-w.dcount)+7
      omega
    · rw [if_neg hq]
      exact goes hp rfl hw (lt_succ_self _) trivial
  | case9 read w bits hp =>
    rintro ⟨⟩
    rw [hp] at hw
    cases read with
    | none => exact error hp rfl (succ_pos _)
    | some x => exact goes hp rfl hw (lt_succ_self _) trivial
  | case11 recognised w d hp =>
    rintro ⟨⟩
    rw [hp] at hw
    exact front hp hw recognised
  | case13 success w g hp | case15 success w g hp =>
    rintro ⟨⟩
    rw [hp] at hw
    split_ifs
    · exact goes hp rfl hw (lt_succ_self _) trivial
    · exact error hp rfl (succ_pos _)
  | case17 w g hp =>
    rintro ⟨⟩
    rw [hp] at hw
    unfold Receiver.pop
    dsimp only
    split_ifs
    · cases s.readQueue with
      | nil => exact goes hp rfl (Nat.zero_le _) (succ_pos _) trivial
      | cons q rest => exact goes hp rfl hw (lt_succ_self _) trivial
    · exact goes hp rfl hw (lt_succ_self _) trivial
  | case19 w hp =>
    rintro ⟨⟩
    exact finish hp

end Receiver.WalkStep

theorem Receiver.section_of_phase (s : Receiver) (hi : s.phase≠.idle) (hf : s.phase≠.fault) :
    ∃ e,e.section_ ∧ (s.step e).isSome := by
  cases hp : s.phase with
  | idle => exact absurd hp hi
  | fault => exact absurd hp hf
  | head w => exact ⟨.descriptor none false none,rfl,by rw [step,hp]; rfl⟩
  | test w bits => exact ⟨.test,rfl,by rw [step,hp]; rfl⟩
  | words w bits => exact ⟨.words none,rfl,by rw [step,hp]; rfl⟩
  | front w d => exact ⟨.front false,rfl,by rw [step,hp]; rfl⟩
  | data w g => exact ⟨.data false,rfl,by rw [step,hp]; rfl⟩
  | status w g => exact ⟨.status false,rfl,by rw [step,hp]; rfl⟩
  | pop w g => exact ⟨.pop,rfl,by rw [step,hp]; rfl⟩
  | finish w => exact ⟨.finish,rfl,by rw [step,hp]; rfl⟩

theorem RbdlPhase.left_le (p : RbdlPhase) : p.left≤8*(maxDescriptors+2)+7 := by
  unfold left
  split <;> omega

abbrev Receiver.Goes (s : Receiver) (e : RbdlEvent) (t : Receiver) : Prop := s.step e=some t

theorem Receiver.run_few {es : List RbdlEvent} {s : Receiver} (h : Run Goes start es s) :
    s.phase.dcount ≤ maxDescriptors+1 :=
  h.invariant (P := fun s => s.phase.dcount ≤ maxDescriptors+1) (fun _ _ _ hs hn => (WalkStep.step hs hn).few)
    (by decide)

theorem Receiver.sections_le {fs : List RbdlEvent} {s t : Receiver} (h : Run Goes s fs t)
    (hs : s.phase.dcount ≤ maxDescriptors+1) (hb : .begin∉fs) :
    t.phase.left+fs.countP RbdlEvent.section_ ≤ s.phase.left := by
  induction h with
  | nil s => exact Nat.le_refl _
  | @cons s u t e fs hstep _ ih =>
    rw [mem_cons,not_or] at hb
    have hw := WalkStep.step hs hstep
    have hleft := hw.left fun h => hb.1 h.symm
    have hrest := ih hw.few hb.2
    rw [countP_cons]
    omega

/-- The walks over what host memory holds. The transmit walk ends within 257 descriptors, with XL and with the lengths
of the buffers where each has room. The receive walk, in any run of the worker and the other threads, goes on to its
end within 257, and each step is right. -/
theorem walks_end {es : List RbdlEvent} {s : Receiver} (h : Run Receiver.Goes Receiver.start es s) :
    (∀ answers ba csr,∃ t,XbdlWalk.walk answers (maxDescriptors+2) (.begin ba csr)=some t ∧
      t.dcount ≤ maxDescriptors+1 ∧
      ((t.state=.ended ∧ t.csr &&& csrXl≠0 ∧ ∀ d∈t.sized,d.Exact ∧ d.room.toNat≤131070) ↔
        ∀ d∈t.sized,d.HasRoom)) ∧ s.phase.dcount ≤ maxDescriptors+1 ∧
    (s.phase≠.idle → s.phase≠.fault → ∃ e,e.section_ ∧ (s.step e).isSome) ∧
    (∀ fs t,Run Receiver.Goes s fs t → .begin∉fs → fs.countP RbdlEvent.section_≤8*(maxDescriptors+2)+7) ∧
    ∀ e t,s.step e=some t → s.WalkStep e t := by
  have hfew := Receiver.run_few h
  refine ⟨fun answers ba csr => ?_,hfew,s.section_of_phase,fun fs t hr hb => ?_,
    fun e t hs => Receiver.WalkStep.step hfew hs⟩
  · obtain ⟨t,ht,hi,hg⟩ := XbdlWalk.walk_ends answers ba csr
    refine ⟨t,ht,hi.few,?_⟩
    constructor
    · rintro ⟨-,-,hexact⟩ d hd
      exact d.exact_iff.mp (hexact d hd).1
    · intro hroom
      have hended : t.state=.ended := by
        cases hs : t.state with
        | going => exact absurd hs hg
        | ended => rfl
        | broken => exact absurd hroom (hi.broken hs)
      refine ⟨hended,hi.ended hended,fun d hd => ?_⟩
      have hd := d.exact_iff.mpr (hroom d hd)
      exact ⟨hd,hd.room_le⟩
  · have := Receiver.sections_le hr hfew hb
    have := s.phase.left_le
    omega

/-- A loopback packet in two buffers, the first with an odd start and end, and the end of the list -/
theorem walks_end_two : ∃ s : Receiver,s.reports.length=2 ∧ s.csr &&& csrRl≠0 ∧
    ∀ e t,s.step e=some t → s.WalkStep e t := by
  have hrun : (([.csr 0,.dispatch 0o1000,.enqueue .loopback [1,2,3,4,5],.begin,
      .descriptor (some 0x80c0) true none,.test,.words (some (0o2000,0xfffe)),.front false,.data true,
      .status true,.pop,.descriptor (some 0x8000) true none,.test,.words (some (0o3000,0xfffe)),.front false,
      .data true,.status true,.pop,.descriptor (some 0) true none,.finish] : List RbdlEvent).foldlM
      Receiver.step Receiver.start).any fun s => s.reports.length=2 ∧ s.csr &&& csrRl≠0 := by decide
  obtain ⟨s,hs,hp⟩ := (Option.any_eq_true _ _).mp hrun
  obtain ⟨hreports,hrl⟩ := of_decide_eq_true hp
  exact ⟨s,hreports,hrl,(walks_end (run_of_foldlM_eq hs)).2.2.2.2⟩

/-- A descriptor without a word whose buffer is said to start oddly: the length is 2^32-1, and the packet is
written. -/
theorem walk_outside : ∃ es s t w d v g,Run Receiver.Goes Receiver.start es s ∧
    s.step (.front false)=some t ∧ s.phase=.front w d ∧ t.phase=.data v g ∧
    ¬d.room.toNat≤131070 ∧ ¬d.Holds (dmaWriteBytes g.address.toNat g.segment) := by
  refine ⟨[.csr 0,.enqueue .loopback [1,2],.begin,.descriptor (some 0x8040) true none,.test,
    .words (some (0o2000,0))],
    ⟨[⟨.loopback,[1,2],0,0,[1,2]⟩],0,0,0,.front ⟨0,1,false,false⟩ ⟨0x8040,0o2000,0⟩,1,[]⟩,_,_,_,_,_,
    run_of_foldlM_eq (by decide),rfl,rfl,rfl,by decide,fun h => ?_⟩
  have := h (1025,1) (by decide)
  revert this
  decide

end QUniLator.Ethernet
