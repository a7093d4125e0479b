import Mathlib.Data.Nat.Bitwise
import Mathlib.Tactic.Ring
import QUniLator.Framework.Attempt
import QUniLator.Adapter.DmaCycle

namespace QUniLator.Adapter

/-- The widths of `set_addr_width` -/
inductive AddrWidth
  | width16 | width18 | width22
  deriving DecidableEq,Repr

def AddrWidth.addrSpaceByteCount : AddrWidth → Nat
  | .width16 => 2^16
  | .width18 => 2^18
  | .width22 => 2^22

def AddrWidth.iopageStartAddr : AddrWidth → Nat
  | .width16 => 0o160000
  | .width18 => 0o760000
  | .width22 => 0o17760000

/-- `dma_request_c`, but for what it shares with interrupts -/
structure DmaRequest where
  qunibusControl : Buscycle
  qunibusStartAddr : Nat
  qunibusEndAddr : Nat
  buffer : Nat → Word
  wordcount : Nat
  isCpuAccess : Bool
  chunkMaxWords : Nat
  chunkQunibusStartAddr : Nat
  chunkWords : Nat
  success : Bool

/-- `a-b` of `uint32_t` -/
def sub32 (a b : Nat) : Nat := (a+2^32-b)%2^32

/-- `addr &= ~QUNIBUS_IOPAGE_ADDR_BITMASK` -/
def clearIopage (addr : Nat) : Nat := addr-(addr &&& iopageAddrBitmask)

namespace DmaRequest

/-- `wordcount_completed_chunks`, also the place of the chunk in the buffer -/
def wordcountCompletedChunks (r : DmaRequest) : Nat :=
  sub32 r.chunkQunibusStartAddr r.qunibusStartAddr/2

def startaddr (w : AddrWidth) (r : DmaRequest) : Nat :=
  if w.iopageStartAddr ≤ r.chunkQunibusStartAddr then r.chunkQunibusStartAddr ||| iopageAddrBitmask
  else r.chunkQunibusStartAddr

/-- What `DMA()` sets up in a request -/
def setup (control : Buscycle) (addr : Nat) (buffer : Nat → Word) (wordcount : Nat)
    (cpuAccess : Bool) (r : DmaRequest) : DmaRequest :=
  { r with
    qunibusControl := control,qunibusStartAddr := addr,qunibusEndAddr := 0,buffer := buffer
    wordcount := wordcount,isCpuAccess := cpuAccess,chunkMaxWords := maxDmaWordcount
    chunkQunibusStartAddr := addr,success := false }

/-- What `DMA()` leaves in a request that a processor answered -/
def answeredAt (addr wordcount : Nat) (r : DmaRequest) : DmaRequest :=
  { r with qunibusStartAddr := addr,qunibusEndAddr := addr+2*wordcount-2,success := true }

/-- What `DMA()` leaves in a request it refuses -/
def refuse (addr : Nat) (r : DmaRequest) : DmaRequest :=
  { r with qunibusStartAddr := addr,qunibusEndAddr := addr,success := false }

/-- The DMA part of `request_execute_active_on_PRU`: the next chunk, and the mailbox for it. -/
def pushChunk (w : AddrWidth) (r : DmaRequest) (mb : MailboxDma) : Option (DmaRequest × MailboxDma) := do
  let done := r.wordcountCompletedChunks
  let words := min r.chunkMaxWords (sub32 r.wordcount done)
  assert (words≠0)
  pure ({ r with chunkWords := words },{ mb with
      curStatus := .ready,buscycle := r.qunibusControl,wordcount := words
      cpuAccess := r.isCpuAccess,startaddr := r.startaddr w
      words := if r.qunibusControl.isDato then
        fun k => if k<words then r.buffer (done+k) else mb.words k
      else mb.words })

/-- The words that came with a chunk of DATI, copied into the buffer of the request from word `done`
on -/
def received (done : Nat) (mb : MailboxDma) (r : DmaRequest) : DmaRequest :=
  if mb.buscycle=.dati then
    { r with buffer := fun k =>
        if done≤k ∧ k<done+mb.wordcount then mb.words (k-done) else r.buffer k }
  else r

def chunkEnd (transferred : Nat) (mb : MailboxDma) (r : DmaRequest) : Option (DmaRequest × Bool) :=
  if mb.curStatus≠.ready then pure ({ r with success := false },false)
  else if transferred=r.wordcount then pure ({ r with success := true },false)
  else do
    assert (!r.isCpuAccess)
    pure ({ r with chunkQunibusStartAddr := clearIopage mb.curAddr+2 },true)

/-- What `worker_device_dma_chunk_complete_event` makes of the active request, and whether there are
more chunks. -/
def chunkComplete (mb : MailboxDma) (r : DmaRequest) : Option (DmaRequest × Bool) := do
  let done := r.wordcountCompletedChunks
  let r := { r with qunibusEndAddr := clearIopage mb.curAddr }
  assert (done+mb.wordcount ≤ r.wordcount)
  assert (!r.isCpuAccess || r.wordcount=1)
  (r.received done mb).chunkEnd (done+mb.wordcount) mb

/-- A transfer that `DMA()` accepted, some of its words behind it -/
structure Underway (w : AddrWidth) (done : Nat) (r : DmaRequest) : Prop where
  chunk : r.chunkQunibusStartAddr=r.qunibusStartAddr+2*done
  more : done < r.wordcount
  inside : r.qunibusStartAddr+2*r.wordcount≤w.addrSpaceByteCount
  max : r.chunkMaxWords=maxDmaWordcount
  cpu : r.isCpuAccess → r.wordcount=1

end DmaRequest

theorem addrSpace_le (w : AddrWidth) : w.addrSpaceByteCount≤2^22 := by
  cases w <;> decide

variable {addr : Nat}

theorem mark_eq (h : addr<2^22) : addr ||| iopageAddrBitmask=addr+2^22 := by
  have hor := Nat.two_pow_add_eq_or_of_lt h 1
  rw [Nat.mul_one] at hor
  rw [iopageAddrBitmask,Nat.or_comm,← hor,Nat.add_comm]

theorem and_mark (h : addr<2^22) : addr &&& iopageAddrBitmask=0 := by
  rw [iopageAddrBitmask,Nat.and_two_pow,Nat.testBit_lt_two_pow h]
  rfl

theorem and_marked (h : addr<2^22) : (addr+2^22) &&& iopageAddrBitmask=iopageAddrBitmask := by
  rw [iopageAddrBitmask,Nat.and_two_pow,Nat.add_comm,Nat.testBit_two_pow_add_eq,Nat.testBit_lt_two_pow h]
  simp

theorem clearIopage_unmarked (h : addr<2^22) : clearIopage addr=addr := by
  rw [clearIopage,and_mark h,Nat.sub_zero]

theorem clearIopage_marked (h : addr<2^22) : clearIopage (addr+2^22)=addr := by
  rw [clearIopage,and_marked h,iopageAddrBitmask,Nat.add_sub_cancel]

namespace DmaRequest

variable {w : AddrWidth} {done : Nat} {r : DmaRequest}

theorem Underway.completed (h : r.Underway w done) : r.wordcountCompletedChunks=done := by
  have hs := addrSpace_le w
  have hi := h.inside
  have hm := h.more
  rw [wordcountCompletedChunks,sub32,h.chunk]
  omega

theorem Underway.remaining (h : r.Underway w done) : sub32 r.wordcount done=r.wordcount-done := by
  have hs := addrSpace_le w
  have hi := h.inside
  have hm := h.more
  rw [sub32]
  omega

def nextWords (done : Nat) (r : DmaRequest) : Nat := min maxDmaWordcount (r.wordcount-done)

theorem Underway.nextWords_pos (h : r.Underway w done) : 0 < r.nextWords done := by
  have hm := h.more
  rw [nextWords,maxDmaWordcount]
  omega

theorem nextWords_le (done : Nat) (r : DmaRequest) : r.nextWords done ≤ r.wordcount-done :=
  min_le_right ..

def mailboxFor (w : AddrWidth) (done : Nat) (r : DmaRequest) (mb : MailboxDma) : MailboxDma :=
  { mb with
    curStatus := .ready,buscycle := r.qunibusControl,wordcount := r.nextWords done
    cpuAccess := r.isCpuAccess,startaddr := r.startaddr w
    words := if r.qunibusControl.isDato then
      fun k => if k < r.nextWords done then r.buffer (done+k) else mb.words k
    else mb.words }

theorem Underway.pushChunk (h : r.Underway w done) (mb : MailboxDma) :
    r.pushChunk w mb=some ({ r with chunkWords := r.nextWords done },r.mailboxFor w done mb) := by
  have hpos := h.nextWords_pos
  rw [DmaRequest.pushChunk,h.completed,h.remaining,h.max]
  have hw : min maxDmaWordcount (r.wordcount-done)=r.nextWords done := rfl
  simp only [hw]
  rw [show decide (r.nextWords done≠0)=true by simpa using hpos.ne']
  rfl

theorem Underway.clearIopage (h : r.Underway w done) {k : Nat} (hk : k < r.nextWords done) :
    Adapter.clearIopage (r.startaddr w+2*k)=r.qunibusStartAddr+2*(done+k) := by
  have hs := addrSpace_le w
  have hi := h.inside
  have hn := r.nextWords_le done
  have hlt : r.chunkQunibusStartAddr<2^22 := by rw [h.chunk]; omega
  rw [startaddr]
  split_ifs
  · rw [mark_eq hlt,h.chunk,show r.qunibusStartAddr+2*done+2^22+2*k =
      r.qunibusStartAddr+2*(done+k)+2^22 by ring,clearIopage_marked (by omega)]
  · rw [h.chunk,show r.qunibusStartAddr+2*done+2*k=r.qunibusStartAddr+2*(done+k) by ring,
      clearIopage_unmarked (by omega)]

def afterChunk (done : Nat) (mb : MailboxDma) (r : DmaRequest) : DmaRequest × Bool :=
  let r' := { r with qunibusEndAddr := Adapter.clearIopage mb.curAddr }.received done mb
  if mb.curStatus≠.ready then ({ r' with success := false },false)
  else if done+r.nextWords done=r.wordcount then ({ r' with success := true },false)
  else
    ({ r' with chunkQunibusStartAddr := r.qunibusStartAddr+2*(done+r.nextWords done) },true)

@[simp] theorem received_wordcount (mb : MailboxDma) : (r.received done mb).wordcount = r.wordcount := by
  rw [received]; split_ifs <;> rfl

@[simp] theorem received_isCpuAccess (mb : MailboxDma) : (r.received done mb).isCpuAccess = r.isCpuAccess := by
  rw [received]; split_ifs <;> rfl

theorem Underway.chunkComplete (h : r.Underway w done) {mb : MailboxDma} (hw : mb.wordcount=r.nextWords done)
    (ha : mb.curStatus=.ready → mb.curAddr=r.startaddr w+2*(r.nextWords done-1)) :
    r.chunkComplete mb=some (r.afterChunk done mb) := by
  have hle := r.nextWords_le done
  have hpos := h.nextWords_pos
  have hm := h.more
  have hcpu : (!r.isCpuAccess || r.wordcount=1)=true := by
    cases hc : r.isCpuAccess with
    | false => rfl
    | true => simp [h.cpu hc]
  have hfit : decide (done+mb.wordcount ≤ r.wordcount)=true := by
    rw [decide_eq_true_eq,hw]; omega
  rw [DmaRequest.chunkComplete,h.completed]
  simp only [hfit,hcpu,assert_true,Option.bind_eq_bind,Option.bind_some]
  rw [chunkEnd,afterChunk,received_wordcount,received_isCpuAccess,hw]
  by_cases hr : mb.curStatus=.ready
  case neg => rw [if_pos hr,if_pos hr]; rfl
  rw [if_neg (not_not.mpr hr),if_neg (not_not.mpr hr)]
  by_cases hl : done+r.nextWords done=r.wordcount
  · rw [if_pos hl,if_pos hl]; rfl
  · have hno : r.isCpuAccess=false := by
      by_contra hc
      rw [Bool.not_eq_false] at hc
      have := h.cpu hc
      omega
    have hend : Adapter.clearIopage mb.curAddr+2 =
        r.qunibusStartAddr+2*(done+r.nextWords done) := by
      rw [ha hr,h.clearIopage (by omega)]
      omega
    rw [if_neg hl,if_neg hl,hno,hend]; rfl

theorem Underway.next (h : r.Underway w done) {mb : MailboxDma} (hm : (r.afterChunk done mb).2) :
    (r.afterChunk done mb).1.Underway w (done+r.nextWords done) := by
  have hle := r.nextWords_le done
  have hmore := h.more
  simp only [afterChunk] at hm ⊢
  split_ifs at hm ⊢ with hr hl
  simp only [received]
  split_ifs <;> exact ⟨rfl,by show done+r.nextWords done < r.wordcount; omega,h.inside,h.max,h.cpu⟩

end DmaRequest

end QUniLator.Adapter

namespace QUniLator.Adapter

/-- A cycle as it shows on the address lines: the mark of the I/O page is not among them. -/
def Cycle.onBus : Cycle → Cycle
  | .address addr bs7 wtbt => .address (clearIopage addr) bs7 wtbt
  | .din addr data => .din (clearIopage addr) data
  | .dout addr data => .dout (clearIopage addr) data
  | .silent addr => .silent (clearIopage addr)

def Cycle.addr : Cycle → Nat
  | .address addr _ _ | .din addr _ | .dout addr _ | .silent addr => addr

def Cycle.isData : Cycle → Bool
  | .address .. => false
  | .din .. | .dout .. | .silent _ => true

def Cycle.block (x : Option (Nat × Nat)) : Cycle → Option (Nat × Nat)
  | .address addr _ _ => some (addr,0)
  | .din .. | .dout .. | .silent _ => x.map fun y => (y.1,y.2+1)

/-- A word is the next one of the block it comes in, one of at most 8, and within its 32 bytes. -/
def Cycle.Fits (x : Option (Nat × Nat)) (c : Cycle) : Prop :=
  c.isData=true → ∃ addr n,x=some (addr,n) ∧ c.addr=addr+2*n ∧ n<8 ∧ c.addr/32=addr/32

def Blocked (x : Option (Nat × Nat)) : List Cycle → Prop
  | [] => True
  | c::cs => c.Fits x ∧ Blocked (c.block x) cs

def blockAfter (x : Option (Nat × Nat)) (cs : List Cycle) : Option (Nat × Nat) :=
  cs.foldl Cycle.block x

theorem blocked_append (x : Option (Nat × Nat)) (cs ds : List Cycle) :
    Blocked x (cs++ds) ↔ Blocked x cs ∧ Blocked (blockAfter x cs) ds := by
  induction cs generalizing x with
  | nil => simp [Blocked,blockAfter]
  | cons c cs ih =>
    rw [List.cons_append,Blocked,ih,Blocked,and_assoc]
    rfl

theorem blockAfter_append (x : Option (Nat × Nat)) (cs ds : List Cycle) :
    blockAfter x (cs++ds)=blockAfter (blockAfter x cs) ds := List.foldl_append

theorem Blocked.anywhere {cs : List Cycle} (h : Blocked none cs) (x : Option (Nat × Nat)) : Blocked x cs := by
  cases cs with
  | nil => trivial
  | cons c cs =>
    obtain ⟨hf,hb⟩ := h
    cases c with
    | address addr bs7 wtbt => exact ⟨by rintro ⟨⟩,hb⟩
    | din | dout | silent =>
      obtain ⟨a,n,hx,-⟩ := hf rfl
      cases hx

theorem Blocked.address {cs : List Cycle} {c : Cycle} {x : Option (Nat × Nat)} (h : Blocked x cs)
    (hc : c∈cs) (hd : c.isData) : (∃ addr n,x=some (addr,n) ∧ c.addr/32=addr/32) ∨
    ∃ addr bs7 wtbt,.address addr bs7 wtbt∈cs ∧ c.addr/32=addr/32 := by
  induction cs generalizing x with
  | nil => cases hc
  | cons e cs ih =>
    obtain ⟨hf,hb⟩ := h
    obtain rfl | hc := List.mem_cons.mp hc
    · obtain ⟨a,n,hx,-,-,h32⟩ := hf hd
      exact .inl ⟨a,n,hx,h32⟩
    · obtain ⟨a,n,hx,h32⟩ | ⟨a,bs7,wtbt,hm,h32⟩ := ih hb hc
      · cases e with
        | address addr bs7 wtbt =>
          cases hx
          exact .inr ⟨a,bs7,wtbt,List.mem_cons_self,h32⟩
        | din | dout | silent =>
          cases x with
          | none => cases hx
          | some y =>
            cases hx
            exact .inl ⟨y.1,y.2,rfl,h32⟩
      · exact .inr ⟨a,bs7,wtbt,List.mem_cons_of_mem _ hm,h32⟩

end QUniLator.Adapter
