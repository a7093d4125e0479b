import QUniLator.Ethernet.DeunaStatus

namespace QUniLator.Ethernet.Deuna

open List Option BitVec

abbrev Byte := BitVec 8

def ethMinPacket : Nat := 60

def ethMaxPacket : Nat := 1514

def ethFrameSize : Nat := 1518

def unaQueMax : Nat := 500

def modeDrdc : Word := 0o020000

/-! The bits of a receive descriptor, in its third and fourth word -/

def rxrOwn : Word := 0o100000

def rxrErrs : Word := 0o040000

def rxrFram : Word := 0o020000

def rxrOflo : Word := 0o010000

def rxrCrc : Word := 0o004000

def rxrStf : Word := 0o001000

def rxrEnf : Word := 0o000400

def rxrBufl : Word := 0o100000

def rxrUbto : Word := 0o040000

def rxrNchn : Word := 0o020000

def rxrOvrn : Word := 0o010000

def rxrMlen : Word := 0o007777

/-- The words of a descriptor that the controller looks at -/
structure RingDescriptor where
  length : Word
  low : Word
  flags : Word
  status : Word
  deriving DecidableEq,Repr

/-- `queue_item`. `id` says which frame it is; nothing reads it. -/
structure QueueItem where
  loopback : Bool
  msg : List Byte
  used : Nat
  crcLen : Nat
  id : Nat
  deriving DecidableEq,Repr

def frameBytes (data : List Byte) : List Byte :=
  let msg := data.take ethMaxPacket
  let padded := msg++List.replicate (ethMinPacket-msg.length) 0
  padded++List.replicate (min (padded.length+4) ethFrameSize-padded.length) 0

/-- What `enqueue_readq` queues -/
def queueItem (data : List Byte) (loopback : Bool) (id : Nat) : QueueItem :=
  let msg := data.take ethMaxPacket
  ⟨loopback,frameBytes data,0,min (msg.length+(ethMinPacket-msg.length)+4) ethFrameSize,id⟩

/-- A descriptor that has been given back: the slot, its words before and after, the frame that it has a
segment of, and the bytes -/
structure GivenBack where
  slot : Nat
  before : RingDescriptor
  after : RingDescriptor
  id : Nat
  bytes : List Byte
  deriving DecidableEq,Repr

/-- Where a thread is in `process_receive`: in its loop, with the descriptors done, or past it, before the
frame in progress is pushed back -/
inductive RxPhase
  | idle
  | running (processed : Nat)
  | ending
  deriving DecidableEq,Repr

/-- `deuna_c`, what the reception depends on -/
structure RxRing where
  readQueue : List QueueItem
  readQueueLoss : Nat
  currentItem : Option QueueItem
  relen : Nat
  rrlen : Nat
  rxSlots : Nat
  mode : Word
  rxnext : Nat
  phase : RxPhase
  nextId : Nat
  deriving DecidableEq,Repr

/-- What happens: `enqueue_readq`, the mode of the port, and `process_receive`, its beginning, its rounds with the
descriptor read and whether the DMA of the data and that back to the descriptor succeed, and its end -/
inductive RxEvent
  | enqueue (data : List Byte) (loopback : Bool)
  | mode (w : Word)
  | begin (running : Bool)
  | round (read : Option RingDescriptor) (written given : Bool)
  | finish
  deriving DecidableEq,Repr

namespace RxRing

def limit (s : RxRing) : Nat := if s.rxSlots=0 then s.rrlen else s.rxSlots

def canContinue (s : RxRing) (processed : Nat) : Bool :=
  (!s.readQueue.isEmpty || s.currentItem.isSome) && (s.limit=0 || processed<s.limit)

def nextItem (s : RxRing) : Option (QueueItem × List QueueItem) :=
  match s.currentItem with
  | some item => some (item,s.readQueue)
  | none =>
    match s.readQueue with
    | [] => none
    | item::rest => some (item,rest)

/-- `wlen` -/
def segmentLength (d : RingDescriptor) (item : QueueItem) : Nat :=
  min d.length.toNat (item.crcLen-item.used)

def drdc (s : RxRing) : Bool := s.mode &&& modeDrdc≠0

def endOfFrame (s : RxRing) (d : RingDescriptor) (item : QueueItem) : Bool :=
  item.crcLen ≤ item.used+segmentLength d item || s.drdc

def cut (s : RxRing) (d : RingDescriptor) (item : QueueItem) : Bool :=
  s.drdc && item.used+segmentLength d item < item.crcLen

def flagsAfter (s : RxRing) (d : RingDescriptor) (item : QueueItem) : Word :=
  let cleared := d.flags &&& ~~~(rxrFram ||| rxrOflo ||| rxrCrc ||| rxrStf ||| rxrEnf ||| rxrErrs)
  let started := if item.used=0 then cleared ||| rxrStf else cleared
  let ended :=
    if s.endOfFrame d item then
      started ||| rxrEnf ||| (if item.loopback then rxrErrs ||| rxrCrc else 0) |||
        (if s.cut d item then rxrErrs else 0)
    else started
  ended &&& ~~~rxrOwn

def statusAfter (s : RxRing) (d : RingDescriptor) (item : QueueItem) : Word :=
  let cleared := d.status &&& ~~~(rxrBufl ||| rxrUbto ||| rxrNchn ||| rxrOvrn ||| rxrMlen)
  if s.endOfFrame d item then
    cleared ||| (BitVec.ofNat 16 item.crcLen &&& rxrMlen) ||| (if s.cut d item then rxrNchn else 0)
  else cleared

def givenBack (s : RxRing) (d : RingDescriptor) (item : QueueItem) : GivenBack where
  slot := s.rxnext
  before := d
  after := ⟨d.length,d.low,s.flagsAfter d item,s.statusAfter d item⟩
  id := item.id
  bytes := (item.msg.drop item.used).take (segmentLength d item)

def itemAfter (s : RxRing) (d : RingDescriptor) (item : QueueItem) : Option QueueItem :=
  if s.endOfFrame d item then none else some { item with used := item.used+segmentLength d item }

/-- `process_receive` up to its loop -/
def begin (s : RxRing) (running : Bool) : RxRing :=
  if running=false ∨ s.readQueue=[] ∨ s.rrlen=0 ∨ s.relen=0 ∨ s.relen<4 then s
  else { s with phase := .running 0 }

/-- A descriptor that the controller owns, the frame for it, and the queue behind the frame; where the loop
does not end before -/
def found (s : RxRing) (processed : Nat) (read : Option RingDescriptor) :
    Option (RingDescriptor × QueueItem × List QueueItem) :=
  if s.canContinue processed then
    read.bind fun d => if d.flags &&& rxrOwn=0 then none else s.nextItem.map fun x => (d,x)
  else none

def round (s : RxRing) (processed : Nat) (read : Option RingDescriptor) (written given : Bool) :
    RxRing × Option GivenBack :=
  match s.found processed read with
  | none => ({ s with phase := .ending },none)
  | some (d,item,rest) =>
    if 0<segmentLength d item ∧ written=false then
      ({ s with readQueue := rest,currentItem := some item,phase := .ending },none)
    else if given=false then
      ({ s with readQueue := rest,currentItem := s.itemAfter d item,phase := .ending },none)
    else
      ({ s with readQueue := rest,currentItem := s.itemAfter d item,
                rxnext := if s.rrlen ≤ s.rxnext+1 then 0 else s.rxnext+1,
                phase := .running (processed+1) },
        some (s.givenBack d item))

def enqueueReadq (s : RxRing) (data : List Byte) (loopback : Bool) : RxRing :=
  if data=[] then s
  else
    let q := s.readQueue++[queueItem data loopback s.nextId]
    if unaQueMax<q.length then
      { s with readQueue := q.tail,readQueueLoss := s.readQueueLoss+1,nextId := s.nextId+1 }
    else { s with readQueue := q,nextId := s.nextId+1 }

def step (s : RxRing) : RxEvent → Option (RxRing × Option GivenBack)
  | .enqueue data loopback => some (s.enqueueReadq data loopback,none)
  | .mode w => if s.phase=.idle then some ({ s with mode := w },none) else none
  | .begin running => if s.phase=.idle then some (s.begin running,none) else none
  | .round read written given =>
    match s.phase with
    | .running processed => some (s.round processed read written given)
    | .idle | .ending => none
  | .finish =>
    if s.phase=.ending then
      some ({ s with readQueue := s.currentItem.toList++s.readQueue,currentItem := none,
                     phase := .idle },none)
    else none

def start (relen rrlen rxSlots : Nat) : RxRing := ⟨[],0,none,relen,rrlen,rxSlots,0,0,.idle,0⟩

end RxRing

/-! What the host finds in the ring -/

namespace GivenBack

def stf (e : GivenBack) : Bool := e.after.flags &&& rxrStf≠0

def enf (e : GivenBack) : Bool := e.after.flags &&& rxrEnf≠0

def mlen (e : GivenBack) : Nat := (e.after.status &&& rxrMlen).toNat

end GivenBack

/-- A driver that puts the frames together again: those that it has, and the one that it has the beginning
of -/
structure Driver where
  frames : List (Nat × List Byte)
  begun : Option (Nat × List Byte)
  deriving DecidableEq,Repr

/-- The next descriptor. One marked STF begins a frame where none is begun, the others go on with the one
that is, and one marked ENF ends a frame of the length in MLEN. -/
def Driver.read (h : Driver) (e : GivenBack) : Option Driver :=
  let frame := if e.stf then (if h.begun=none then some (e.id,[]) else none) else h.begun
  frame.bind fun f =>
    if f.1≠e.id then none
    else if e.enf then
      if e.mlen=(f.2++e.bytes).length then some ⟨h.frames++[(f.1,f.2++e.bytes)],none⟩ else none
    else some ⟨h.frames,some (f.1,f.2++e.bytes)⟩

/-- The frames that have arrived and were not counted as lost, in their order, and the descriptors given
back -/
structure RxLedger where
  kept : List (Nat × List Byte)
  given : List GivenBack
  deriving DecidableEq,Repr

abbrev RxState := RxRing × RxLedger

namespace RxRing

def waiting (s : RxRing) : List QueueItem := s.currentItem.toList++s.readQueue

def part (i : QueueItem) : Option (Nat × List Byte) :=
  if i.used=0 then none else some (i.id,i.msg.take i.used)

def begun (s : RxRing) : Option (Nat × List Byte) := s.waiting.head?.bind part

def keptAfter (s : RxRing) (kept : List (Nat × List Byte)) : RxEvent → List (Nat × List Byte)
  | .enqueue data loopback =>
    if data=[] then kept else
      let q := s.readQueue++[queueItem data loopback s.nextId]
      let all := kept++[(s.nextId,frameBytes data)]
      if unaQueMax<q.length then all.filter fun k => q.head?.all fun i => k.1≠i.id else all
  | .mode _ | .begin _ | .round _ _ _ | .finish => kept

def stepReceive (x : RxState) (e : RxEvent) : Option RxState :=
  (x.1.step e).map fun t => (t.1,⟨x.1.keptAfter x.2.kept e,x.2.given++t.2.toList⟩)

/-- A frame that is lost was not delivered in part; the DMA back to a descriptor fails only where it took nothing; and
a descriptor given back takes a part of the frame that it begins, and without data chaining all that is left. -/
def keeps (s : RxRing) : RxEvent → Bool
  | .enqueue data loopback =>
    data=[] || !(unaQueMax<s.readQueue.length+1) ||
      (s.readQueue++[queueItem data loopback s.nextId]).head?.all fun i => i.used=0
  | .round read written given =>
    match s.phase with
    | .running processed =>
      (s.found processed read).all fun x =>
        let n := segmentLength x.1 x.2.1
        (0<n && !written) ||
          if given then (x.2.1.used≠0 || 0<n) && !s.cut x.1 x.2.1
          else n=0 && !s.endOfFrame x.1 x.2.1
    | .idle | .ending => true
  | .mode _ | .begin _ | .finish => true

/-- In the order of the slots a driver finds the frames as they arrived, but for those counted as lost and those that
wait; the one it has begun is the first of these. A descriptor given back was owned, is not any more, and is filled no
further than its length. -/
structure Right (s : RxRing) (l : RxLedger) : Prop where
  driver : ∃ frames,l.given.foldlM Driver.read ⟨[],none⟩=some ⟨frames,s.begun⟩ ∧
    l.kept=frames++s.waiting.map fun i => (i.id,i.msg)
  order : (l.kept.map Prod.fst).Pairwise (· < ·)
  slots : l.given.map GivenBack.slot=(List.range l.given.length).map (· % s.rrlen)
  owned : ∀ e∈l.given,e.before.flags &&& rxrOwn≠0 ∧ e.after.flags &&& rxrOwn=0
  room : ∀ e∈l.given,e.bytes.length≤e.before.length.toNat

/-! The words that are given back -/

variable {s : RxRing} {d : RingDescriptor} {item : QueueItem}

theorem mark_eq {w m : Word} {i : Nat} (hm : m=BitVec.twoPow 16 i) (hi : i<16) : decide (w &&& m≠0)=w.getLsbD i := by
  rw [hm,and_twoPow]
  cases w.getLsbD i with
  | false => rfl
  | true =>
    have hne : BitVec.twoPow 16 i≠0 := by
      intro hz
      have hbit := congrArg (fun x : Word => x.getLsbD i) hz
      simp [hi] at hbit
    exact decide_eq_true hne

theorem givenBack_stf : (s.givenBack d item).stf=decide (item.used=0) := by
  refine (mark_eq (i := 9) rfl (by omega)).trans ?_
  show (s.flagsAfter d item).getLsbD 9=_
  unfold flagsAfter
  by_cases hu : item.used=0 <;> by_cases he : s.endOfFrame d item <;>
    by_cases hl : item.loopback <;> by_cases hc : s.cut d item <;>
    simp [hu,he,hl,hc,rxrFram,rxrOflo,rxrCrc,rxrStf,rxrEnf,rxrErrs,rxrOwn]

theorem givenBack_enf : (s.givenBack d item).enf=s.endOfFrame d item := by
  refine (mark_eq (i := 8) rfl (by omega)).trans ?_
  show (s.flagsAfter d item).getLsbD 8=_
  unfold flagsAfter
  by_cases hu : item.used=0 <;> by_cases he : s.endOfFrame d item <;>
    by_cases hl : item.loopback <;> by_cases hc : s.cut d item <;>
    simp [hu,he,hl,hc,rxrFram,rxrOflo,rxrCrc,rxrStf,rxrEnf,rxrErrs,rxrOwn]

theorem givenBack_own : (s.givenBack d item).after.flags &&& rxrOwn=0 := by
  show ((_ : Word) &&& ~~~rxrOwn) &&& rxrOwn=0
  rw [BitVec.and_assoc]
  exact and_zero

theorem givenBack_mlen (he : s.endOfFrame d item) (hlen : item.crcLen≤ethFrameSize) :
    (s.givenBack d item).mlen=item.crcLen := by
  have hword : s.statusAfter d item &&& rxrMlen=BitVec.ofNat 16 item.crcLen &&& rxrMlen := by
    have hclear : ~~~(rxrBufl ||| rxrUbto ||| rxrNchn ||| rxrOvrn ||| rxrMlen) &&& rxrMlen=0#16 := rfl
    have hnchn : (if s.cut d item then rxrNchn else 0) &&& rxrMlen=0#16 := by
      cases s.cut d item <;> rfl
    rw [statusAfter,if_pos he,and_or_distrib_right,and_or_distrib_right,hnchn,BitVec.and_assoc,
      hclear,and_zero,zero_or,or_zero,BitVec.and_assoc,BitVec.and_self]
  show (s.statusAfter d item &&& rxrMlen).toNat=_
  rw [hword,toNat_and,toNat_ofNat]
  have hmask : rxrMlen.toNat=2^12-1 := rfl
  have hsize : ethFrameSize=1518 := rfl
  rw [hmask,Nat.and_two_pow_sub_one_eq_mod]
  omega

/-! What holds between events -/

/-- The frame has its length, and is not all delivered. -/
structure Waits (i : QueueItem) : Prop where
  msg : i.msg.length=i.crcLen
  size : i.crcLen≤ethFrameSize
  used : i.used < i.crcLen

/-- What a driver has found, with `q` waiting -/
structure Found (kept : List (Nat × List Byte)) (given : List GivenBack) (q : List QueueItem) : Prop where
  driver : ∃ frames,given.foldlM Driver.read ⟨[],none⟩=some ⟨frames,q.head?.bind part⟩ ∧
    kept=frames++q.map fun i => (i.id,i.msg)
  waits : ∀ i∈q,Waits i
  tail : ∀ i∈q.tail,i.used=0

structure Inv (x : RxState) : Prop where
  found : Found x.2.kept x.2.given x.1.waiting
  order : (x.2.kept.map Prod.fst).Pairwise (· < ·)
  ids : ∀ k∈x.2.kept,k.1<x.1.nextId
  idle : x.1.phase=.idle → x.1.currentItem=none
  ring : x.1.phase≠.idle → 0<x.1.rrlen
  rxnext : x.1.rxnext=x.2.given.length % x.1.rrlen
  slots : x.2.given.map GivenBack.slot=(List.range x.2.given.length).map (· % x.1.rrlen)
  owned : ∀ e∈x.2.given,e.before.flags &&& rxrOwn≠0 ∧ e.after.flags &&& rxrOwn=0
  room : ∀ e∈x.2.given,e.bytes.length≤e.before.length.toNat

variable {kept : List (Nat × List Byte)} {given : List GivenBack} {q rest : List QueueItem} {l : RxLedger}

theorem queueItem_waits (data : List Byte) (loopback : Bool) (id : Nat) : Waits (queueItem data loopback id) := by
  have hmsg : (data.take ethMaxPacket).length≤1514 := length_take_le _ _
  refine ⟨?_,?_,?_⟩
  · show (frameBytes data).length=min ((data.take ethMaxPacket).length+(_-_)+4) ethFrameSize
    simp only [frameBytes,length_append,length_replicate,ethFrameSize,ethMinPacket]
    omega
  · exact Nat.min_le_right _ _
  · show 0 < min (_+4) ethFrameSize
    exact Nat.lt_min.mpr ⟨Nat.succ_pos _,by decide⟩

theorem Found.append (h : Found kept given q) {i : QueueItem} (hi : Waits i) (hu : i.used=0) :
    Found (kept++[(i.id,i.msg)]) given (q++[i]) := by
  obtain ⟨frames,hread,hkept⟩ := h.driver
  refine ⟨⟨frames,?_,?_⟩,?_,?_⟩
  · rw [hread]
    cases q with
    | nil =>
      show _=some (Driver.mk frames (part i))
      rw [part,if_pos hu]
      rfl
    | cons x rest => rfl
  · rw [hkept,map_append,List.append_assoc]
    rfl
  · intro x hx
    obtain hx | hx := mem_append.mp hx
    · exact h.waits x hx
    · rw [mem_singleton.mp hx]
      exact hi
  · intro x hx
    cases q with
    | nil => cases hx
    | cons y rest =>
      obtain hx | hx := mem_append.mp hx
      · exact h.tail x hx
      · rw [mem_singleton.mp hx]
        exact hu

theorem filter_name {as bs : List (Nat × List Byte)} {k : Nat × List Byte}
    (h : ((as++k::bs).map Prod.fst).Pairwise (· < ·)) : (as++k::bs).filter (fun x => x.1≠k.1)=as++bs := by
  rw [map_append,map_cons,pairwise_append,pairwise_cons] at h
  obtain ⟨_,⟨hbs,_⟩,has⟩ := h
  have hleft : as.filter (fun x => x.1≠k.1)=as := by
    refine filter_eq_self.mpr fun x hx => decide_eq_true ?_
    exact (has x.1 (List.mem_map_of_mem hx) k.1 mem_cons_self).ne
  have hright : bs.filter (fun x => x.1≠k.1)=bs := by
    refine filter_eq_self.mpr fun x hx => decide_eq_true ?_
    exact (hbs x.1 (List.mem_map_of_mem hx)).ne'
  rw [filter_append,filter_cons_of_neg (by simp),hleft,hright]

theorem Found.lose {front : List QueueItem} {i : QueueItem} (h : Found kept given (front++i::rest))
    (ho : (kept.map Prod.fst).Pairwise (· < ·)) (hu : i.used=0) :
    Found (kept.filter fun k => k.1≠i.id) given (front++rest) := by
  obtain ⟨frames,hread,hkept⟩ := h.driver
  refine ⟨⟨frames,?_,?_⟩,fun x hx => h.waits x ?_,?_⟩
  · rw [hread]
    cases front with
    | cons y front => rfl
    | nil =>
      show some (Driver.mk frames (part i))=some (Driver.mk frames (rest.head?.bind part))
      rw [part,if_pos hu]
      cases rest with
      | nil => rfl
      | cons y rest =>
        show _=some (Driver.mk frames (part y))
        rw [part,if_pos (h.tail y mem_cons_self)]
  · rw [map_append,map_cons,← List.append_assoc] at hkept
    rw [hkept] at ho ⊢
    rw [map_append,← List.append_assoc]
    exact filter_name (k := (i.id,i.msg)) ho
  · obtain hx | hx := mem_append.mp hx
    · exact mem_append_left _ hx
    · exact mem_append_right _ (mem_cons_of_mem i hx)
  · intro x hx
    cases front with
    | nil => exact h.tail x (mem_of_mem_tail hx)
    | cons y front =>
      obtain hx | hx := mem_append.mp hx
      · exact h.tail x (mem_append_left _ hx)
      · exact h.tail x (mem_append_right _ (mem_cons_of_mem i hx))

theorem read_givenBack (frames : List (Nat × List Byte)) :
    Driver.read ⟨frames,part item⟩ (s.givenBack d item) = if s.endOfFrame d item then
        if (s.givenBack d item).mlen=(item.msg.take (item.used+segmentLength d item)).length then
          some ⟨frames++[(item.id,item.msg.take (item.used+segmentLength d item))],none⟩ else none
      else some ⟨frames,some (item.id,item.msg.take (item.used+segmentLength d item))⟩ := by
  have hframe : (if (s.givenBack d item).stf then
        (if part item=none then some ((s.givenBack d item).id,[]) else none) else part item) =
      some (item.id,item.msg.take item.used) := by
    rw [givenBack_stf,part]
    by_cases hu : item.used=0
    · rw [if_pos hu,hu]
      rfl
    · rw [if_neg hu,decide_eq_false hu]
      rfl
  have hjoin : item.msg.take item.used++(s.givenBack d item).bytes =
      item.msg.take (item.used+segmentLength d item) := take_add.symm
  unfold Driver.read
  dsimp only
  rw [hframe,givenBack_enf,bind_some]
  dsimp only
  rw [hjoin]
  exact if_neg fun h => h rfl

theorem Found.give (h : Found kept given (item::rest))
    (hsome : item.used≠0 ∨ 0<segmentLength d item) (hcut : s.cut d item=false) :
    Found kept (given++[s.givenBack d item]) ((s.itemAfter d item).toList++rest) := by
  obtain ⟨frames,hread,hkept⟩ := h.driver
  have hw := h.waits item mem_cons_self
  have hrest := h.tail
  have hnext : (given++[s.givenBack d item]).foldlM Driver.read ⟨[],none⟩ =
      Driver.read ⟨frames,part item⟩ (s.givenBack d item) := by
    rw [foldlM_append,hread]
    exact bind_fun_some _
  rw [read_givenBack] at hnext
  rw [itemAfter]
  cases he : s.endOfFrame d item with
  | true =>
    have hall : item.crcLen ≤ item.used+segmentLength d item := by
      rw [endOfFrame,Bool.or_eq_true,decide_eq_true_eq] at he
      obtain he | he := he
      · exact he
      · rw [cut,he,Bool.true_and,decide_eq_false_iff_not] at hcut
        omega
    have htake : item.msg.take (item.used+segmentLength d item)=item.msg :=
      take_of_length_le (by rw [hw.msg]; exact hall)
    rw [he,if_pos rfl,htake,givenBack_mlen he hw.size,if_pos hw.msg.symm] at hnext
    refine ⟨⟨frames++[(item.id,item.msg)],?_,?_⟩,fun x hx => h.waits x (mem_cons_of_mem item hx),
      fun x hx => hrest x (mem_of_mem_tail hx)⟩
    · rw [hnext]
      cases rest with
      | nil => rfl
      | cons y rest =>
        show _=some (Driver.mk _ (part y))
        rw [part,if_pos (hrest y mem_cons_self)]
    · rw [hkept,List.append_assoc]
      rfl
  | false =>
    rw [he,if_neg (by rintro ⟨⟩)] at hnext
    rw [endOfFrame,Bool.or_eq_false_iff,decide_eq_false_iff_not,Nat.not_le] at he
    rw [if_neg (by rintro ⟨⟩)]
    refine ⟨⟨frames,?_,?_⟩,?_,hrest⟩
    · rw [hnext]
      show _=some (Driver.mk frames (part _))
      rw [part,if_neg]
      show item.used+segmentLength d item≠0
      omega
    · rw [hkept]
      rfl
    · intro x hx
      obtain rfl | hx := mem_cons.mp hx
      · exact ⟨hw.msg,hw.size,he.1⟩
      · exact h.waits x (mem_cons_of_mem item hx)

theorem nextItem_waiting {x : QueueItem × List QueueItem} (h : s.nextItem=some x) : s.waiting=x.1::x.2 := by
  rw [nextItem] at h
  rw [waiting]
  cases hc : s.currentItem with
  | some item =>
    rw [hc] at h
    cases h
    rfl
  | none =>
    rw [hc] at h
    cases hq : s.readQueue with
    | nil =>
      rw [hq] at h
      cases h
    | cons item rest =>
      rw [hq] at h
      cases h
      rfl

variable {processed : Nat}

theorem found_waiting {read : Option RingDescriptor} (h : s.found processed read=some (d,item,rest)) :
    d.flags &&& rxrOwn≠0 ∧ s.waiting=item::rest := by
  rw [found] at h
  split_ifs at h
  obtain ⟨d',_,hd⟩ := bind_eq_some_iff.mp h
  split_ifs at hd with hown
  obtain ⟨x,hx,he⟩ := map_eq_some_iff.mp hd
  cases he
  exact ⟨hown,nextItem_waiting hx⟩

theorem Inv.enqueue (h : Inv (s,l)) {data : List Byte} {loopback : Bool} (hk : s.keeps (.enqueue data loopback)) :
    Inv (s.enqueueReadq data loopback,⟨s.keptAfter l.kept (.enqueue data loopback),l.given++[]⟩) := by
  rw [append_nil,keptAfter,enqueueReadq]
  by_cases hd : data=[]
  · rw [if_pos hd,if_pos hd]
    exact h
  · rw [if_neg hd,if_neg hd]
    have hfound := h.found.append (queueItem_waits data loopback s.nextId) rfl
    have horder : ((l.kept++[(s.nextId,frameBytes data)]).map Prod.fst).Pairwise (· < ·) := by
      rw [map_append,pairwise_append]
      refine ⟨h.order,pairwise_singleton _ _,fun a ha b hb => ?_⟩
      obtain ⟨k,hk,rfl⟩ := List.mem_map.mp ha
      rw [mem_singleton.mp hb]
      exact h.ids k hk
    have hids : ∀ k∈l.kept++[(s.nextId,frameBytes data)],k.1<s.nextId+1 := by
      intro k hk
      obtain hk | hk := mem_append.mp hk
      · exact Nat.lt_succ_of_lt (h.ids k hk)
      · rw [mem_singleton.mp hk]
        exact Nat.lt_succ_self _
    have hwaiting : s.waiting++[queueItem data loopback s.nextId] =
        s.currentItem.toList++(s.readQueue++[queueItem data loopback s.nextId]) :=
      List.append_assoc _ _ _
    rw [hwaiting] at hfound
    dsimp only
    by_cases hfull : unaQueMax<(s.readQueue++[queueItem data loopback s.nextId]).length
    · rw [if_pos hfull,if_pos hfull]
      cases hq : s.readQueue++[queueItem data loopback s.nextId] with
      | nil =>
        rw [hq] at hfull
        cases hfull
      | cons i rest =>
        rw [hq] at hfound
        have hu : i.used=0 := by
          rw [keeps,hq,decide_eq_false hd,Bool.false_or,Bool.or_eq_true,Bool.not_eq_true',
            decide_eq_false_iff_not] at hk
          obtain hk | hk := hk
          · rw [length_append,length_singleton] at hfull
            exact absurd hfull hk
          · exact of_decide_eq_true hk
        refine ⟨hfound.lose horder hu,?_,?_,h.idle,h.ring,h.rxnext,h.slots,h.owned,h.room⟩
        · exact horder.sublist (Sublist.map _ filter_sublist)
        · exact fun k hk => hids k (mem_of_mem_filter hk)
    · rw [if_neg hfull,if_neg hfull]
      exact ⟨hfound,horder,hids,h.idle,h.ring,h.rxnext,h.slots,h.owned,h.room⟩

theorem next_slot {n r : Nat} (hr : 0 < r) : (if r≤n%r+1 then 0 else n%r+1)=(n+1)%r := by
  have hlt := Nat.mod_lt n hr
  rw [← Nat.mod_add_mod]
  split_ifs with h
  · have he : n%r+1=r := by omega
    rw [he,Nat.mod_self]
  · exact (Nat.mod_eq_of_lt (Nat.not_le.mp h)).symm

theorem Inv.stop (h : Inv (s,l)) (hp : s.phase=.running processed) {t : RxRing}
    (hw : t.waiting=s.waiting) (hn : t.nextId=s.nextId) (hr : t.rrlen=s.rrlen)
    (hx : t.rxnext=s.rxnext) (ht : t.phase=.ending) : Inv (t,⟨l.kept,l.given++[]⟩) := by
  have hring : 0<s.rrlen := h.ring (by rw [hp]; rintro ⟨⟩)
  rw [append_nil]
  refine ⟨?_,h.order,?_,?_,fun _ => ?_,?_,?_,h.owned,h.room⟩
  · rw [hw]
    exact h.found
  · rw [hn]
    exact h.ids
  · intro hi
    have hi : t.phase=.idle := hi
    rw [ht] at hi
    cases hi
  · rw [hr]
    exact hring
  · rw [hx,hr]
    exact h.rxnext
  · rw [hr]
    exact h.slots

theorem Inv.round (h : Inv (s,l)) (hp : s.phase=.running processed)
    {read : Option RingDescriptor} {written given : Bool} (hk : s.keeps (.round read written given)) :
    Inv ((s.round processed read written given).1,
      ⟨l.kept,l.given++(s.round processed read written given).2.toList⟩) := by
  rw [keeps,hp] at hk
  dsimp only at hk
  rw [RxRing.round]
  cases hf : s.found processed read with
  | none => exact h.stop hp rfl rfl rfl rfl rfl
  | some x =>
    obtain ⟨d,item,rest⟩ := x
    obtain ⟨hown,hwaiting⟩ := found_waiting hf
    rw [hf] at hk
    have hk : (decide (0<segmentLength d item) && !written ||
        if given then (decide (item.used≠0) || decide (0<segmentLength d item)) && !s.cut d item
        else decide (segmentLength d item=0) && !s.endOfFrame d item)=true := hk
    dsimp only
    by_cases hd : 0<segmentLength d item ∧ written=false
    · rw [if_pos hd]
      exact h.stop hp hwaiting.symm rfl rfl rfl rfl
    · rw [if_neg hd]
      have hdata : (decide (0<segmentLength d item) && !written)=false := by
        rw [Bool.eq_false_iff,ne_eq,Bool.and_eq_true,decide_eq_true_eq,Bool.not_eq_true']
        exact hd
      rw [hdata,Bool.false_or] at hk
      cases given with
      | false =>
        rw [if_neg (by rintro ⟨⟩),Bool.and_eq_true,decide_eq_true_eq,Bool.not_eq_true'] at hk
        obtain ⟨hn,he⟩ := hk
        have hitem : s.itemAfter d item=some item := by
          rw [itemAfter,he,hn]
          rfl
        rw [if_pos rfl,hitem]
        exact h.stop hp hwaiting.symm rfl rfl rfl rfl
      | true =>
        rw [if_pos rfl,Bool.and_eq_true,Bool.or_eq_true,decide_eq_true_eq,decide_eq_true_eq,Bool.not_eq_true'] at hk
        obtain ⟨hsome,hcut⟩ := hk
        have hring : 0<s.rrlen := h.ring (by rw [hp]; rintro ⟨⟩)
        have hfound := h.found
        rw [if_neg (by rintro ⟨⟩)]
        dsimp only at hfound ⊢
        rw [hwaiting] at hfound
        have hslot : s.rxnext=l.given.length%s.rrlen := h.rxnext
        refine ⟨hfound.give hsome hcut,h.order,h.ids,by rintro ⟨⟩,fun _ => hring,?_,?_,?_,?_⟩
        · show (if s.rrlen ≤ s.rxnext+1 then 0 else s.rxnext+1)=_
          rw [hslot,next_slot hring]
          show _=(l.given++[s.givenBack d item]).length%s.rrlen
          rw [length_append,length_singleton]
        · show (l.given++[s.givenBack d item]).map GivenBack.slot =
            (List.range (l.given++[s.givenBack d item]).length).map (· % s.rrlen)
          rw [length_append,length_singleton,range_succ,map_append,map_append]
          congr 1
          · exact h.slots
          · exact congrArg (· :: []) hslot
        · intro e he
          obtain he | he := mem_append.mp he
          · exact h.owned e he
          · rw [mem_singleton.mp he]
            exact ⟨hown,givenBack_own⟩
        · intro e he
          obtain he | he := mem_append.mp he
          · exact h.room e he
          · rw [mem_singleton.mp he]
            exact (length_take_le _ _).trans (Nat.min_le_left _ _)

theorem Inv.step {x y : RxState} {e : RxEvent} (h : Inv x) (hk : x.1.keeps e)
    (hs : stepReceive x e=some y) : Inv y := by
  obtain ⟨s,l⟩ := x
  obtain ⟨t,ht,rfl⟩ := map_eq_some_iff.mp hs
  dsimp only at ht hk ⊢
  have hsame : (⟨l.kept,l.given++[]⟩ : RxLedger)=l := by rw [append_nil]
  cases e with
  | enqueue data loopback =>
    cases ht
    exact h.enqueue hk
  | mode w =>
    rw [RxRing.step] at ht
    split_ifs at ht with hi
    cases ht
    show Inv (_,⟨l.kept,l.given++[]⟩)
    rw [hsame]
    exact ⟨h.found,h.order,h.ids,h.idle,h.ring,h.rxnext,h.slots,h.owned,h.room⟩
  | begin running =>
    rw [RxRing.step] at ht
    split_ifs at ht with hi
    cases ht
    show Inv (_,⟨l.kept,l.given++[]⟩)
    rw [hsame,RxRing.begin]
    split_ifs with hn
    · exact h
    · refine ⟨h.found,h.order,h.ids,by rintro ⟨⟩,fun _ => ?_,h.rxnext,h.slots,h.owned,h.room⟩
      show 0<s.rrlen
      omega
  | round read written given =>
    rw [RxRing.step] at ht
    cases hp : s.phase with
    | running processed =>
      rw [hp] at ht
      cases ht
      exact h.round hp hk
    | idle | ending =>
      rw [hp] at ht
      cases ht
  | finish =>
    rw [RxRing.step] at ht
    split_ifs at ht with hi
    cases ht
    show Inv (_,⟨l.kept,l.given++[]⟩)
    rw [hsame]
    exact ⟨h.found,h.order,h.ids,fun _ => rfl,by rintro hx; exact absurd rfl hx,h.rxnext,h.slots,h.owned,
      h.room⟩

theorem start_inv (relen rrlen rxSlots : Nat) : Inv (start relen rrlen rxSlots,⟨[],[]⟩) := by
  refine ⟨⟨⟨[],rfl,rfl⟩,by rintro i ⟨⟩,by rintro i ⟨⟩⟩,Pairwise.nil,by rintro k ⟨⟩,fun _ => rfl,
    fun hx => absurd rfl hx,?_,rfl,by rintro e ⟨⟩,by rintro e ⟨⟩⟩
  exact (Nat.zero_mod rrlen).symm

/-- In any run whose steps `keeps` allows, with any ring and any failures of the DMA, a driver finds in the ring the
frames that have arrived, whole, once and in order. -/
theorem receive_framed {es : List RxEvent} {relen rrlen rxSlots : Nat} {s : RxRing} {l : RxLedger}
    (h : Run (Guarded (fun x e => x.1.keeps e=true) stepReceive) (start relen rrlen rxSlots,⟨[],[]⟩) es
      (s,l)) : s.Right l := by
  have hi : Inv (s,l) :=
    h.invariant (P := Inv) (fun _ _ _ hs hn => hs.step hn.1 hn.2) (start_inv relen rrlen rxSlots)
  exact ⟨hi.found.driver,hi.order,hi.slots,hi.owned,hi.room⟩

/-- A frame in two descriptors, interrupted by a failure of the DMA, and another one -/
theorem receive_framed_two : ∃ (s : RxRing) (l : RxLedger),
    l.given.map (fun e => e.bytes.length)=[40,24,64] ∧ l.kept.length=2 ∧ s.waiting=[] ∧ s.Right l := by
  obtain ⟨⟨s,l⟩,hs,hp⟩ := run_of_foldlM (fun x e => keeps x.1 e=true) stepReceive
    (fun x : RxState => x.2.given.map (fun e => e.bytes.length)=[40,24,64] ∧ x.2.kept.length=2 ∧
      x.1.waiting=[])
    [.enqueue [1,2,3] false,.begin true,.round (some ⟨40,0,0o100000,0⟩) true true,.round none true true,
      .enqueue [4] true,.finish,.begin true,.round (some ⟨40,0,0o100000,0⟩) true true,
      .round (some ⟨100,0,0o100000,0⟩) true true,.round none true true,.finish]
    (start 4 2 0,⟨[],[]⟩) (by decide)
  obtain ⟨hgiven,hkept,hwaiting⟩ := of_decide_eq_true hp
  exact ⟨s,l,hgiven,hkept,hwaiting,receive_framed hs⟩

/-- The DMA back to the first descriptor fails. The second segment goes into the same one, and nothing marks the start
of the frame. -/
theorem receive_headless : ∃ s l,Run (Guarded (fun _ _ => True) stepReceive) (start 4 2 0,⟨[],[]⟩)
      [.enqueue [1,2,3] false,.begin true,.round (some ⟨40,0,0o100000,0⟩) true false,.finish,.begin true,
        .round (some ⟨40,0,0o100000,0⟩) true true] (s,l) ∧
    l.given.map (fun e => (e.slot,e.stf,e.bytes.length))=[(0,false,24)] ∧ ¬s.Right l := by
  obtain ⟨⟨s,l⟩,hs,hp⟩ := run_of_foldlM (fun _ _ => True) stepReceive
    (fun x : RxState => x.2.given.map (fun e => (e.slot,e.stf,e.bytes.length))=[(0,false,24)] ∧
      x.2.given.foldlM Driver.read ⟨[],none⟩=none)
    [.enqueue [1,2,3] false,.begin true,.round (some ⟨40,0,0o100000,0⟩) true false,.finish,.begin true,
      .round (some ⟨40,0,0o100000,0⟩) true true] (start 4 2 0,⟨[],[]⟩) (by decide)
  obtain ⟨hgiven,hnone⟩ := of_decide_eq_true hp
  refine ⟨s,l,hs,hgiven,fun hr => ?_⟩
  obtain ⟨frames,hread,_⟩ := hr.driver
  have hnone : l.given.foldlM Driver.read ⟨[],none⟩=none := hnone
  rw [hnone] at hread
  cases hread

end RxRing

end QUniLator.Ethernet.Deuna
