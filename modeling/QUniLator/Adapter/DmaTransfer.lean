import QUniLator.Adapter.DmaChunk

namespace QUniLator.Adapter

open List SmDma Cycle

/-- A chunk of a request is given to the PRU, which may have had anything else before, runs to its end, and is
dispatched. The words are counted over the transfer. -/
def ChunkRun (w : AddrWidth) (b : Bus) (r : DmaRequest) (trace : List Cycle) (r' : DmaRequest) (more : Bool) : Prop :=
  ∃ (before : SmDma) (pushed : DmaRequest) (mb : MailboxDma) (n waited : Nat) (s : SmDma),
    r.pushChunk w before.dma=some (pushed,mb) ∧
    (SmDma.pass b r.wordcountCompletedChunks)^[n] ({ before with
      dma := { mb with curStatus := .arbitrating },func := some .start,cycles := [] },0) =
        (s,waited) ∧
    s.func=none ∧ pushed.chunkComplete s.dma=some (r',more) ∧
    trace=s.cycles.map Cycle.onBus

/-- A transfer in chunks -/
inductive Transfer (w : AddrWidth) (b : Bus) : DmaRequest → List Cycle → DmaRequest → Prop
  | last {r r' : DmaRequest} {trace : List Cycle} (h : ChunkRun w b r trace r' false) :
    Transfer w b r trace r'
  | more {r r' r'' : DmaRequest} {trace rest : List Cycle} (h : ChunkRun w b r trace r' true)
    (ht : Transfer w b r' rest r'') : Transfer w b r (trace++rest) r''

/-- What `DMA()` accepts -/
structure Accepted (w : AddrWidth) (addr wordcount : Nat) (cpuAccess : Bool) : Prop where
  pos : 0<wordcount
  inside : addr+2*wordcount≤w.addrSpaceByteCount
  cpu : cpuAccess=true → wordcount=1

/-- From word `done` on nothing ends the transfer before word `i`. INIT is not sampled after the last
word of a chunk. -/
def Bus.Reaches (b : Bus) (done i : Nat) : Prop :=
  ∀ j,done≤j → j < i → (b.slave j).answers=true ∧ ((j+1)%maxDmaWordcount≠0 → b.init j=false)

def Straddles (w : AddrWidth) (b : Bus) (addr wordcount : Nat) : Prop :=
  ∃ i<wordcount,w.iopageStartAddr≤addr+2*i ∧
    addr+2*(i/maxDmaWordcount*maxDmaWordcount)<w.iopageStartAddr ∧ b.Reaches 0 i

/-- Word `i` of a transfer on the bus -/
def transferWord (b : Bus) (control : Buscycle) (addr : Nat) (buffer : Nat → Word) (i : Nat) : Cycle :=
  if control.isDato then .dout (addr+2*i) (buffer i) else .din (addr+2*i) (b.slave i).data

/-- A transfer is one word after another, `k` of them answered. -/
structure WordByWord (w : AddrWidth) (b : Bus) (control : Buscycle) (addr : Nat)
    (buffer : Nat → Word) (wordcount k : Nat) (trace : List Cycle) (r : DmaRequest) : Prop where
  count : k≤wordcount
  answered : ∀ i<k,(b.slave i).answers=true
  words : ∃ tail,trace.filter Cycle.isData =
      (List.range k).map (transferWord b control addr buffer)++tail ∧
    (tail=[] ∧ (k<wordcount → ∃ i,k=i+1 ∧ b.init i=true) ∨
      tail=[.silent (addr+2*k)] ∧ k<wordcount ∧ (b.slave k).answers=false ∧
        r.qunibusEndAddr=addr+2*k)
  success : r.success=true ↔ k=wordcount
  last : k=wordcount → r.qunibusEndAddr=addr+2*(wordcount-1)
  received : control.isDato=false → ∀ i<k,r.buffer i=(b.slave i).data
  blocks : Blocked none trace
  iopage : ∀ a bs7 wtbt,.address a bs7 wtbt∈trace → (bs7=true ↔ w.iopageStartAddr≤a)

theorem SmDma.pass_stopped {b : Bus} {done : Nat} {s : SmDma} (h : s.func=none) (n waited : Nat) :
    ((pass b done)^[n] (s,waited)).1=s := by
  induction n with
  | zero => rfl
  | succ n ih =>
    rw [Function.iterate_succ_apply',pass,ih,step,h]

theorem SmDma.stops_once {b : Bus} {done : Nat} {x : SmDma × Nat} {m n : Nat} {s t : SmDma}
    {v u : Nat} (hm : (pass b done)^[m] x=(s,v)) (hn : (pass b done)^[n] x=(t,u))
    (hs : s.func=none) (ht : t.func=none) : s=t := by
  obtain ⟨k,rfl⟩ | ⟨k,rfl⟩ : (∃ k,n=k+m) ∨ ∃ k,m=k+n := by
    obtain h | h := Nat.le_total m n
    · exact .inl ⟨n-m,by omega⟩
    · exact .inr ⟨m-n,by omega⟩
  · rw [Function.iterate_add_apply,hm] at hn
    have h : ((pass b done)^[k] (s,v)).1=s := pass_stopped hs k v
    rw [hn] at h
    exact h.symm
  · rw [Function.iterate_add_apply,hn] at hm
    have h : ((pass b done)^[k] (t,u)).1=t := pass_stopped ht k u
    rw [hm] at h
    exact h

namespace DmaRequest

open List

variable {w : AddrWidth} {b : Bus} {done : Nat} {r r' : DmaRequest} {trace : List Cycle} {more : Bool}

theorem Underway.chunk_mailbox (h : r.Underway w done) (mb : MailboxDma) :
    Chunk (r.qunibusStartAddr+2*done) { r.mailboxFor w done mb with curStatus := .arbitrating } := by
  have hs := addrSpace_le w
  have hi := h.inside
  have hn := r.nextWords_le done
  have hm := h.more
  have hlt : r.chunkQunibusStartAddr<2^22 := by rw [h.chunk]; omega
  refine ⟨h.nextWords_pos,?_,by show r.qunibusStartAddr+2*done+2*r.nextWords done≤2^22; omega⟩
  show r.startaddr w=_ ∨ r.startaddr w=_
  rw [startaddr]
  split_ifs
  · exact .inr (by rw [mark_eq hlt,h.chunk])
  · exact .inl h.chunk

theorem Underway.marked (h : r.Underway w done) : decide (r.startaddr w≠r.qunibusStartAddr+2*done) =
      decide (w.iopageStartAddr ≤ r.qunibusStartAddr+2*done) := by
  have hs := addrSpace_le w
  have hi := h.inside
  have hm := h.more
  have hlt : r.chunkQunibusStartAddr<2^22 := by rw [h.chunk]; omega
  rw [startaddr,← h.chunk]
  split_ifs with hio
  · rw [mark_eq hlt]
    simp [hio]
  · simp [hio]

theorem Underway.chunkWords (h : r.Underway w done) :
    ({ r with chunkWords := r.nextWords done } : DmaRequest).Underway w done :=
  ⟨h.chunk,h.more,h.inside,h.max,h.cpu⟩

theorem Underway.chunk_dispatched (h : r.Underway w done) {mb : MailboxDma} {k : Nat} {s : SmDma}
    (hs : s.Ended b done (r.qunibusStartAddr+2*done) { r.mailboxFor w done mb with curStatus := .arbitrating } k) :
    ({ r with chunkWords := r.nextWords done } : DmaRequest).chunkComplete s.dma =
      some (({ r with chunkWords := r.nextWords done } : DmaRequest).afterChunk done s.dma) := by
  refine h.chunkWords.chunkComplete hs.wordcount fun hr => ?_
  obtain ⟨tail,he,-⟩ := hs.data
  cases he with
  | ready _ hst ha => exact ha
  | timeout _ _ _ _ hst | init _ _ _ _ hst => rw [hr] at hst; cases hst

theorem Underway.chunkRun (h : r.Underway w done) (hc : ChunkRun w b r trace r' more) :
    ∃ (k : Nat) (s : SmDma) (mb : MailboxDma), s.Ended b done (r.qunibusStartAddr+2*done)
        { r.mailboxFor w done mb with curStatus := .arbitrating } k ∧ trace=s.cycles.map onBus ∧
      (r',more)=({ r with chunkWords := r.nextWords done } : DmaRequest).afterChunk done s.dma := by
  obtain ⟨before,pushed,mb,n,waited,s,hpush,hrun,hf,hend,htrace⟩ := hc
  rw [h.pushChunk before.dma] at hpush
  cases hpush
  rw [h.completed] at hrun
  obtain ⟨m,t,k,hm,ht⟩ := chunk_ends (h.chunk_mailbox before.dma) before b done
  obtain rfl := stops_once hrun hm hf ht.func
  rw [h.chunk_dispatched ht] at hend
  exact ⟨k,s,before.dma,ht,htrace,(Option.some.inj hend).symm⟩

theorem Underway.exists_chunkRun (h : r.Underway w done) (b : Bus) (before : SmDma) :
    ∃ trace r' more,ChunkRun w b r trace r' more := by
  obtain ⟨m,t,k,hm,ht⟩ := chunk_ends (h.chunk_mailbox before.dma) before b done
  refine ⟨_,_,_,before,_,_,m,0,t,h.pushChunk before.dma,?_,ht.func,h.chunk_dispatched ht,rfl⟩
  rw [h.completed]
  exact hm

/-- The words of a transfer from word `done` on, `k` of all of them answered -/
structure Rest (w : AddrWidth) (b : Bus) (done k : Nat) (r : DmaRequest) (trace : List Cycle)
    (r' : DmaRequest) : Prop where
  lower : done≤k
  count : k ≤ r.wordcount
  answered : ∀ i,done ≤ i → i<k → (b.slave i).answers=true
  words : ∃ tail,trace.filter Cycle.isData=(List.range' done (k-done)).map
      (transferWord b r.qunibusControl r.qunibusStartAddr r.buffer)++tail ∧
    (tail=[] ∧ (k < r.wordcount → ∃ i,k=i+1 ∧ b.init i=true) ∨
      tail=[.silent (r.qunibusStartAddr+2*k)] ∧ k < r.wordcount ∧
        (b.slave k).answers=false ∧ r'.qunibusEndAddr=r.qunibusStartAddr+2*k)
  success : r'.success=true ↔ k=r.wordcount
  last : k=r.wordcount → r'.qunibusEndAddr=r.qunibusStartAddr+2*(r.wordcount-1)
  received : r.qunibusControl.isDato=false → ∀ i<k,
    r'.buffer i=if i<done then r.buffer i else (b.slave i).data
  blocks : Blocked none trace
  portions : ∀ a bs7 wtbt,.address a bs7 wtbt∈trace → ∃ i < r.wordcount,
    a=r.qunibusStartAddr+2*i ∧ b.Reaches done i ∧ bs7 =
      decide (w.iopageStartAddr ≤ r.qunibusStartAddr+2*(i/maxDmaWordcount*maxDmaWordcount))
  come : ∀ i,done ≤ i → i < r.wordcount → b.Reaches done i → ∃ a bs7 wtbt,
    .address a bs7 wtbt∈trace ∧ (r.qunibusStartAddr+2*i)/32=a/32 ∧ bs7 =
      decide (w.iopageStartAddr ≤ r.qunibusStartAddr+2*(i/maxDmaWordcount*maxDmaWordcount))

section
variable {k : Nat} {s : SmDma} {mb : MailboxDma}

theorem words_eq (hk : k ≤ r.nextWords done) : (List.range k).map (word b done (r.qunibusStartAddr+2*done)
      { r.mailboxFor w done mb with curStatus := .arbitrating }) = (List.range' done k).map
      (transferWord b r.qunibusControl r.qunibusStartAddr r.buffer) := by
  rw [range'_eq_map_range,map_map]
  refine map_congr_left fun i hi => ?_
  have hi : i < r.nextWords done := by
    rw [mem_range] at hi
    omega
  show word ..=transferWord b r.qunibusControl r.qunibusStartAddr r.buffer (done+i)
  rw [word,transferWord,mailboxFor]
  cases r.qunibusControl.isDato with
  | true => simp [hi,Nat.mul_add,Nat.add_assoc]
  | false => simp [Nat.mul_add,Nat.add_assoc]

theorem ended_le (hs : s.Ended b done (r.qunibusStartAddr+2*done)
      { r.mailboxFor w done mb with curStatus := .arbitrating } k) : k ≤ r.nextWords done := by
  obtain ⟨tail,he,-⟩ := hs.data
  cases he with
  | ready => exact le_rfl
  | timeout _ _ hk | init _ _ hk => exact hk.le

theorem chunk_comes (hd : done%maxDmaWordcount=0) (hs : s.Ended b done (r.qunibusStartAddr+2*done)
      { r.mailboxFor w done mb with curStatus := .arbitrating } k) {j : Nat}
    (hj : j < r.nextWords done) (hr : b.Reaches done (done+j)) :
    ∃ c∈s.cycles.map onBus,c.isData ∧ c.addr=r.qunibusStartAddr+2*(done+j) := by
  have hn : r.nextWords done ≤ maxDmaWordcount := min_le_left ..
  obtain ⟨tail,he,hdata⟩ := hs.data
  have hword (hjk : j<k) :
      ∃ c∈s.cycles.map onBus,c.isData=true ∧ c.addr=r.qunibusStartAddr+2*(done+j) := by
    have hm : word b done (r.qunibusStartAddr+2*done)
        { r.mailboxFor w done mb with curStatus := .arbitrating } j ∈
        (s.cycles.map onBus).filter isData := by
      rw [hdata]
      exact mem_append_left _ (mem_map_of_mem (mem_range.mpr hjk))
    obtain ⟨hd,ha⟩ := word_data b done (r.qunibusStartAddr+2*done)
      { r.mailboxFor w done mb with curStatus := .arbitrating } j
    exact ⟨_,mem_of_mem_filter hm,hd,by rw [ha]; ring⟩
  cases he with
  | ready => exact hword hj
  | timeout _ _ hk hno =>
    obtain hlt | rfl | hgt := Nat.lt_trichotomy j k
    · exact hword hlt
    · refine ⟨.silent (r.qunibusStartAddr+2*done+2*j),?_,rfl,by
        show r.qunibusStartAddr+2*done+2*j=_
        ring⟩
      have hm : silent (r.qunibusStartAddr+2*done+2*j) ∈
          (s.cycles.map onBus).filter isData := by
        rw [hdata]
        exact mem_append_right _ mem_cons_self
      exact mem_of_mem_filter hm
    · have ha := (hr (done+k) (by omega) (by omega)).1
      rw [hno] at ha
      cases ha
  | init m _ hk hi =>
    by_cases hjk : j < m+1
    · exact hword hjk
    · have hk : m+1 < r.nextWords done := hk
      have hq := (hr (done+m) (by omega) (by omega)).2
        (by rw [maxDmaWordcount] at hd hn ⊢; omega)
      rw [hi] at hq
      cases hq

theorem chunk_start (hd : done%maxDmaWordcount=0) {j : Nat} (hj : j < r.nextWords done) :
    (done+j)/maxDmaWordcount*maxDmaWordcount=done := by
  have hn : r.nextWords done ≤ maxDmaWordcount := min_le_left ..
  rw [maxDmaWordcount] at hd hn ⊢
  omega

theorem Underway.chunk_portions (h : r.Underway w done) (hs : s.Ended b done (r.qunibusStartAddr+2*done)
      { r.mailboxFor w done mb with curStatus := .arbitrating } k) {a : Nat} {bs7 wtbt : Bool}
    (hm : .address a bs7 wtbt∈s.cycles.map onBus) : ∃ j < r.nextWords done,
    a=r.qunibusStartAddr+2*(done+j) ∧ b.Reaches done (done+j) ∧
    bs7=decide (w.iopageStartAddr ≤ r.qunibusStartAddr+2*done) := by
  obtain ⟨hbs7,j,hj,ha,hc⟩ := hs.addressed a bs7 wtbt hm
  refine ⟨j,hj,by rw [ha]; ring,fun i hi hij => ?_,hbs7.trans h.marked⟩
  obtain ⟨hans,hinit⟩ := hc (i-done) (by omega)
  rw [show done+(i-done)=i by omega] at hans hinit
  exact ⟨hans,fun _ => hinit⟩

theorem Underway.chunk_come (h : r.Underway w done) (hd : done%maxDmaWordcount=0)
    (hs : s.Ended b done (r.qunibusStartAddr+2*done)
      { r.mailboxFor w done mb with curStatus := .arbitrating } k) {j : Nat}
    (hj : j < r.nextWords done) (hr : b.Reaches done (done+j)) :
    ∃ a bs7 wtbt,.address a bs7 wtbt∈s.cycles.map onBus ∧
      (r.qunibusStartAddr+2*(done+j))/32=a/32 ∧
      bs7=decide (w.iopageStartAddr ≤ r.qunibusStartAddr+2*done) := by
  obtain ⟨c,hc,hdata,haddr⟩ := chunk_comes hd hs hj hr
  obtain ⟨a,n,hx,-⟩ | ⟨a,bs7,wtbt,hm,h32⟩ := hs.blocked.address hc hdata
  · cases hx
  · obtain ⟨-,-,-,-,hbs7⟩ := h.chunk_portions hs hm
    exact ⟨a,bs7,wtbt,hm,haddr ▸ h32,hbs7⟩

theorem received_words (hs : s.Ended b done (r.qunibusStartAddr+2*done)
      { r.mailboxFor w done mb with curStatus := .arbitrating } k)
    (hd : r.qunibusControl.isDato=false) (q : DmaRequest) (hq : q.buffer=r.buffer) {i : Nat}
    (hi : i<done+k) : (q.received done s.dma).buffer i =
      if i<done then r.buffer i else (b.slave i).data := by
  have hk := ended_le hs
  have hbus : s.dma.buscycle=.dati := by
    rw [hs.buscycle]
    show r.qunibusControl=.dati
    cases hc : r.qunibusControl <;> rw [hc] at hd <;> first | rfl | cases hd
  have hwc : s.dma.wordcount=r.nextWords done := hs.wordcount
  rw [received,if_pos hbus]
  show (if done ≤ i ∧ i<done+s.dma.wordcount then s.dma.words (i-done) else q.buffer i)=_
  rw [hq,hwc]
  by_cases hlt : i<done
  · rw [if_neg (by omega),if_pos hlt]
  · rw [if_pos (by omega),if_neg hlt,hs.words hd (i-done) (by omega),show done+(i-done)=i by omega]

theorem chunk_done (hd : done%maxDmaWordcount=0) (hs : s.Ended b done (r.qunibusStartAddr+2*done)
      { r.mailboxFor w done mb with curStatus := .arbitrating } k)
    (hr : b.Reaches done (done+r.nextWords done)) : s.dma.curStatus=.ready := by
  have hn : r.nextWords done ≤ maxDmaWordcount := min_le_left ..
  obtain ⟨tail,he,-⟩ := hs.data
  cases he with
  | ready _ hst => exact hst
  | timeout _ _ hk hno =>
    have hk : k < r.nextWords done := hk
    have ha := (hr (done+k) (by omega) (by omega)).1
    rw [hno] at ha
    cases ha
  | init m _ hk hi =>
    have hk : m+1 < r.nextWords done := hk
    have hq := (hr (done+m) (by omega) (by omega)).2
      (by rw [maxDmaWordcount] at hd hn ⊢; omega)
    rw [hi] at hq
    cases hq

theorem received_end (q : DmaRequest) (dma : MailboxDma) : (q.received done dma).qunibusEndAddr=q.qunibusEndAddr := by
  rw [received]
  split_ifs <;> rfl

variable {q : DmaRequest}

theorem afterChunk_cases
    (h : (r',more)=({ q with chunkWords := q.nextWords done } : DmaRequest).afterChunk done s.dma) :
    (∀ i,r'.buffer i=(({ q with
      chunkWords := q.nextWords done,qunibusEndAddr := clearIopage s.dma.curAddr } :
        DmaRequest).received done s.dma).buffer i) ∧
    r'.qunibusEndAddr=clearIopage s.dma.curAddr ∧
    (s.dma.curStatus≠.ready ∧ r'.success=false ∧ more=false ∨
      s.dma.curStatus=.ready ∧ done+q.nextWords done=q.wordcount ∧ r'.success ∧ more=false ∨
      s.dma.curStatus=.ready ∧ done+q.nextWords done≠q.wordcount ∧ more) := by
  have hn : ({ q with chunkWords := q.nextWords done } : DmaRequest).nextWords done =
      q.nextWords done := rfl
  rw [afterChunk,hn] at h
  split_ifs at h with hst hl <;> cases h
  · exact ⟨fun _ => rfl,received_end _ _,.inl ⟨hst,rfl,rfl⟩⟩
  · exact ⟨fun _ => rfl,received_end _ _,.inr (.inl ⟨not_not.mp hst,hl,rfl,rfl⟩)⟩
  · exact ⟨fun _ => rfl,received_end _ _,.inr (.inr ⟨not_not.mp hst,hl,rfl⟩)⟩

theorem Underway.rest_last (h : r.Underway w done) (hd : done%maxDmaWordcount=0)
    (hc : ChunkRun w b r trace r' false) : ∃ k,Rest w b done k r trace r' := by
  obtain ⟨k,s,mb,hs,rfl,hr⟩ := h.chunkRun hc
  have hk := ended_le hs
  have hle := r.nextWords_le done
  have hmore := h.more
  obtain ⟨hbuf,hend,hcase⟩ := afterChunk_cases hr
  -- it is the last word, or the chunk was ended before its last
  have hlast : s.dma.curStatus=.ready ∧ done+r.nextWords done=r.wordcount ∧ r'.success=true ∨
      s.dma.curStatus≠.ready ∧ r'.success=false := by
    obtain ⟨h1,h2,-⟩ | ⟨h1,h2,h3,-⟩ | ⟨-,-,h1⟩ := hcase
    · exact .inr ⟨h1,h2⟩
    · exact .inl ⟨h1,h2,h3⟩
    · cases h1
  have hwithin (i : Nat) (hi : i < r.wordcount) (hre : b.Reaches done i) :
      i<done+r.nextWords done := by
    by_contra hge
    have hst := chunk_done hd hs fun j hj hij => hre j hj (by omega)
    obtain ⟨-,hN,-⟩ | ⟨hne,-⟩ := hlast
    · omega
    · exact hne hst
  refine ⟨done+k,⟨Nat.le_add_right ..,by omega,fun i hi hik => ?_,?_,?_,?_,fun hdato i hi => ?_,
    hs.blocked,fun a bs7 wtbt hm => ?_,fun i hi hiN hre => ?_⟩⟩
  · have ha := hs.answered (i-done) (by omega)
    rwa [show done+(i-done)=i by omega] at ha
  · obtain ⟨tail,he,hdata⟩ := hs.data
    refine ⟨tail,?_,?_⟩
    · rw [hdata,words_eq hk,Nat.add_sub_cancel_left]
    · cases he with
      | ready _ hst =>
        have hN := (hlast.resolve_right fun hx => hx.1 hst).2.1
        exact .inl ⟨rfl,fun hlt => absurd hN (Nat.ne_of_lt hlt)⟩
      | timeout _ _ hlt hno hst ha =>
        have hlt : k < r.nextWords done := hlt
        refine .inr ⟨?_,by omega,hno,?_⟩
        · rw [Nat.mul_add,Nat.add_assoc]
        · rw [hend,ha]
          exact h.clearIopage hlt
      | init m _ hlt hi => exact .inl ⟨rfl,fun _ => ⟨done+m,rfl,hi⟩⟩
  · obtain ⟨tail,he,-⟩ := hs.data
    cases he with
    | ready _ hst =>
      obtain ⟨-,hN,hsu⟩ := hlast.resolve_right fun hx => hx.1 hst
      exact iff_of_true hsu hN
    | timeout _ _ hlt _ hst =>
      have hlt : k < r.nextWords done := hlt
      obtain ⟨-,hsu⟩ := hlast.resolve_left fun hx => by rw [hst] at hx; cases hx.1
      exact iff_of_false (by rw [hsu]; decide) (by omega)
    | init m _ hlt _ hst =>
      have hlt : m+1 < r.nextWords done := hlt
      obtain ⟨-,hsu⟩ := hlast.resolve_left fun hx => by rw [hst] at hx; cases hx.1
      exact iff_of_false (by rw [hsu]; decide) (by omega)
  · intro hN
    have hpos := h.nextWords_pos
    obtain ⟨tail,he,-⟩ := hs.data
    cases he with
    | ready _ _ ha =>
      rw [hend,ha]
      refine (h.clearIopage (show r.nextWords done-1 < r.nextWords done by omega)).trans ?_
      have hN : done+r.nextWords done=r.wordcount := hN
      rw [show done+(r.nextWords done-1)=r.wordcount-1 by omega]
    | timeout _ _ hlt =>
      have hlt : k < r.nextWords done := hlt
      omega
    | init m _ hlt =>
      have hlt : m+1 < r.nextWords done := hlt
      omega
  · exact (hbuf i).trans (received_words hs hdato { r with
      chunkWords := r.nextWords done,qunibusEndAddr := Adapter.clearIopage s.dma.curAddr } rfl hi)
  · obtain ⟨j,hj,ha,hre,hbs7⟩ := h.chunk_portions hs hm
    refine ⟨done+j,by omega,ha,hre,?_⟩
    rw [chunk_start hd hj]
    exact hbs7
  · obtain ⟨j,rfl⟩ := Nat.exists_eq_add_of_le hi
    have hj : j < r.nextWords done := by
      have := hwithin _ hiN hre
      omega
    obtain ⟨a,bs7,wtbt,hm,h32,hbs7⟩ := h.chunk_come hd hs hj hre
    exact ⟨a,bs7,wtbt,hm,h32,by rw [chunk_start hd hj]; exact hbs7⟩

theorem afterChunk_same (dma : MailboxDma) : (q.afterChunk done dma).1.qunibusStartAddr=q.qunibusStartAddr ∧
    (q.afterChunk done dma).1.wordcount=q.wordcount ∧ (q.afterChunk done dma).1.qunibusControl=q.qunibusControl := by
  rw [afterChunk]
  simp only [received]
  split_ifs <;> exact ⟨rfl,rfl,rfl⟩

theorem afterChunk_word {dma : MailboxDma} (hb : dma.buscycle=q.qunibusControl) :
    transferWord b q.qunibusControl q.qunibusStartAddr (q.afterChunk done dma).1.buffer =
      transferWord b q.qunibusControl q.qunibusStartAddr q.buffer := by
  funext i
  rw [transferWord,transferWord]
  split_ifs with hd
  · have hno : dma.buscycle≠.dati := by
      rw [hb]
      intro hx
      rw [hx] at hd
      cases hd
    rw [afterChunk]
    simp only [received,if_neg hno]
    split_ifs <;> rfl
  · rfl

theorem chunk_reaches (hs : s.Ended b done (r.qunibusStartAddr+2*done)
      { r.mailboxFor w done mb with curStatus := .arbitrating } maxDmaWordcount)
    (hd : done%maxDmaWordcount=0) {i : Nat} (hi : b.Reaches (done+maxDmaWordcount) i) :
    b.Reaches done i := by
  intro j hj hij
  by_cases hlt : j<done+maxDmaWordcount
  · obtain ⟨m,rfl⟩ := Nat.exists_eq_add_of_le hj
    refine ⟨hs.answered m (by omega),fun hne => hs.quiet m ?_⟩
    rw [maxDmaWordcount] at hd hne hlt ⊢
    omega
  · exact hi j (by omega) hij

theorem Underway.rest_more (h : r.Underway w done) (hd : done%maxDmaWordcount=0) {rest : List Cycle} (hc : ChunkRun w b r trace q true)
    (hq : q.Underway w (done+maxDmaWordcount) → ∃ k,Rest w b (done+maxDmaWordcount) k q rest r') :
    ∃ k,Rest w b done k r (trace++rest) r' := by
  obtain ⟨k,s,mb,hs,rfl,hr⟩ := h.chunkRun hc
  obtain ⟨hbuf,-,hcase⟩ := afterChunk_cases hr
  obtain ⟨-,-,hx⟩ | ⟨-,-,-,hx⟩ | ⟨hst,hN,-⟩ := hcase
  · cases hx
  · cases hx
  have hmore := h.more
  have hfull : r.nextWords done=maxDmaWordcount := by
    rw [nextWords] at hN ⊢
    omega
  have hall : k=maxDmaWordcount := by
    obtain ⟨tail,he,-⟩ := hs.data
    exact (he.of_ready hst).1.trans hfull
  subst hall
  have hq1 : q=(({ r with chunkWords := r.nextWords done } : DmaRequest).afterChunk done s.dma).1 :=
    congrArg Prod.fst hr
  have hnext : q.Underway w (done+r.nextWords done) := by
    rw [hq1]
    exact h.chunkWords.next (congrArg Prod.snd hr).symm
  rw [hfull] at hnext
  obtain ⟨k,hrest⟩ := hq hnext
  obtain ⟨hstart,hcount,hcontrol⟩ : q.qunibusStartAddr=r.qunibusStartAddr ∧
      q.wordcount=r.wordcount ∧ q.qunibusControl=r.qunibusControl := by
    rw [hq1]
    exact afterChunk_same s.dma
  have hword : transferWord b r.qunibusControl r.qunibusStartAddr q.buffer =
      transferWord b r.qunibusControl r.qunibusStartAddr r.buffer := by
    rw [hq1]
    exact afterChunk_word (q := { r with chunkWords := r.nextWords done }) hs.buscycle
  have hlower := hrest.lower
  refine ⟨k,⟨by omega,hcount ▸ hrest.count,fun i hi hik => ?_,?_,hcount ▸ hrest.success,?_,
    fun hdato i hi => ?_,?_,fun a bs7 wtbt hm => ?_,fun i hi hiN hre => ?_⟩⟩
  · by_cases hlt : i<done+maxDmaWordcount
    · have ha := hs.answered (i-done) (by omega)
      rwa [show done+(i-done)=i by omega] at ha
    · exact hrest.answered i (by omega) hik
  · obtain ⟨tail,hdata,htail⟩ := hrest.words
    obtain ⟨tail',he,hdata'⟩ := hs.data
    obtain rfl := (he.of_ready hst).2
    rw [hstart,hcount] at htail
    rw [hstart,hcontrol,hword] at hdata
    refine ⟨tail,?_,htail⟩
    rw [filter_append,hdata,hdata',words_eq hfull.ge,append_nil,← append_assoc,
      ← map_append,range'_append_1,show maxDmaWordcount+(k-(done+maxDmaWordcount)) =
        k-done by omega]
  · rw [← hcount,← hstart]
    exact hrest.last
  · rw [hrest.received (hcontrol ▸ hdato) i hi]
    by_cases hlt : i<done+maxDmaWordcount
    · rw [if_pos hlt]
      exact (hbuf i).trans (received_words hs hdato { r with
        chunkWords := r.nextWords done,qunibusEndAddr := Adapter.clearIopage s.dma.curAddr } rfl hlt)
    · rw [if_neg hlt,if_neg (by omega)]
  · rw [blocked_append]
    exact ⟨hs.blocked,hrest.blocks.anywhere _⟩
  · obtain hm | hm := mem_append.mp hm
    · obtain ⟨j,hj,ha,hre,hbs7⟩ := h.chunk_portions hs hm
      refine ⟨done+j,by have := r.nextWords_le done; omega,ha,hre,?_⟩
      rw [chunk_start hd hj]
      exact hbs7
    · obtain ⟨i,hi,ha,hre,hbs7⟩ := hrest.portions a bs7 wtbt hm
      rw [hcount] at hi
      rw [hstart] at ha hbs7
      exact ⟨i,hi,ha,chunk_reaches hs hd hre,hbs7⟩
  · by_cases hlt : i<done+maxDmaWordcount
    · obtain ⟨j,rfl⟩ := Nat.exists_eq_add_of_le hi
      have hj : j < r.nextWords done := by omega
      obtain ⟨a,bs7,wtbt,hm,h32,hbs7⟩ := h.chunk_come hd hs hj hre
      exact ⟨a,bs7,wtbt,mem_append_left _ hm,h32,by rw [chunk_start hd hj]; exact hbs7⟩
    · obtain ⟨a,bs7,wtbt,hm,h32,hbs7⟩ := hrest.come i (by omega) (hcount ▸ hiN)
        fun j hj hij => hre j (by omega) hij
      rw [hstart] at h32 hbs7
      exact ⟨a,bs7,wtbt,mem_append_right _ hm,h32,hbs7⟩

theorem Underway.rest (ht : Transfer w b r trace r') : ∀ done,r.Underway w done →
    done%maxDmaWordcount=0 → ∃ k,Rest w b done k r trace r' := by
  induction ht with
  | last hc => exact fun done h hd => h.rest_last hd hc
  | more hc ht ih =>
    intro done h hd
    refine h.rest_more hd hc fun hq => ih _ hq ?_
    rw [maxDmaWordcount] at hd ⊢
    omega

theorem Underway.exists_transfer (h : r.Underway w done) (b : Bus) : ∃ trace r',Transfer w b r trace r' := by
  induction hn : r.wordcount-done using Nat.strong_induction_on generalizing r done with
  | _ n ih =>
    obtain ⟨trace,q,more,hc⟩ := h.exists_chunkRun b default
    cases more with
    | false => exact ⟨trace,q,.last hc⟩
    | true =>
      obtain ⟨k,s,mb,-,-,hr⟩ := h.chunkRun hc
      have hq : q=(({ r with chunkWords := r.nextWords done } : DmaRequest).afterChunk done s.dma).1 :=
        congrArg Prod.fst hr
      have hcount : q.wordcount=r.wordcount := by
        rw [hq]
        exact (afterChunk_same s.dma).2.1
      have hnext : q.Underway w (done+r.nextWords done) := by
        rw [hq]
        exact h.chunkWords.next (congrArg Prod.snd hr).symm
      have hpos := h.nextWords_pos
      have hmore := h.more
      obtain ⟨rest,r',ht⟩ := ih (q.wordcount-(done+r.nextWords done)) (by omega) hnext rfl
      exact ⟨trace++rest,r',.more hc ht⟩

end

end DmaRequest

theorem Accepted.underway {w : AddrWidth} {addr wordcount : Nat} {cpuAccess : Bool}
    (h : Accepted w addr wordcount cpuAccess) (control : Buscycle) (buffer : Nat → Word)
    (r : DmaRequest) : (r.setup control addr buffer wordcount cpuAccess).Underway w 0 :=
  ⟨rfl,h.pos,h.inside,rfl,h.cpu⟩

theorem AddrWidth.iopage_block (w : AddrWidth) : w.iopageStartAddr%32=0 := by
  cases w <;> decide

theorem DmaRequest.Rest.wordByWord_iff {w : AddrWidth} {b : Bus} {control : Buscycle}
    {addr wordcount k : Nat} {buffer : Nat → Word} {cpuAccess : Bool} {r r' : DmaRequest} {trace : List Cycle}
    (h : Rest w b 0 k (r.setup control addr buffer wordcount cpuAccess) trace r') :
    (∃ k,WordByWord w b control addr buffer wordcount k trace r') ↔ ¬Straddles w b addr wordcount := by
  constructor
  · rintro ⟨_,hw⟩ ⟨i,hi,hio,hbelow,hre⟩
    obtain ⟨a,bs7,wtbt,hm,h32,hbs7⟩ := h.come i (Nat.zero_le i) hi hre
    have h32 : (addr+2*i)/32=a/32 := h32
    have hpage := w.iopage_block
    have hnot : bs7=false := hbs7.trans (decide_eq_false (Nat.not_le.mpr hbelow))
    have hbs7 := (hw.iopage a bs7 wtbt hm).mpr (by omega)
    rw [hnot] at hbs7
    cases hbs7
  · intro hno
    obtain ⟨tail,hdata,htail⟩ := h.words
    rw [Nat.sub_zero,← range_eq_range'] at hdata
    refine ⟨k,h.count,fun i => h.answered i (Nat.zero_le i),⟨tail,hdata,htail⟩,h.success,h.last,
      fun hd i hi => h.received hd i hi,h.blocks,fun a bs7 wtbt hm => ?_⟩
    obtain ⟨i,hi,ha,hre,hbs7⟩ := h.portions a bs7 wtbt hm
    have ha : a=addr+2*i := ha
    have hbs7 : bs7 =
      decide (w.iopageStartAddr≤addr+2*(i/maxDmaWordcount*maxDmaWordcount)) := hbs7
    have hle := Nat.div_mul_le_self i maxDmaWordcount
    rw [hbs7,decide_eq_true_iff]
    constructor
    · intro hio
      omega
    · intro hio
      by_contra hbelow
      exact hno ⟨i,hi,ha ▸ hio,Nat.not_le.mp hbelow,hre⟩

/-- A transfer that `DMA()` accepts ends, however it is cut into chunks and blocks and whatever the PRU does between
them. It is the transfer word by word exactly if no chunk of it goes on from below the I/O page into it. -/
theorem transfer_wordByWord (w : AddrWidth) (b : Bus) (control : Buscycle) (addr : Nat)
    (buffer : Nat → Word) (wordcount : Nat) (cpuAccess : Bool) (r : DmaRequest)
    (h : Accepted w addr wordcount cpuAccess) :
    (∃ trace r',Transfer w b (r.setup control addr buffer wordcount cpuAccess) trace r') ∧
    ∀ trace r',Transfer w b (r.setup control addr buffer wordcount cpuAccess) trace r' →
      ((∃ k,WordByWord w b control addr buffer wordcount k trace r') ↔ ¬Straddles w b addr wordcount) := by
  have hu := h.underway control buffer r
  refine ⟨hu.exists_transfer b,fun trace r' ht => ?_⟩
  obtain ⟨k,hk⟩ := DmaRequest.Underway.rest ht 0 hu rfl
  exact hk.wordByWord_iff

/-- Three words below the I/O page, from a card that ends every block -/
theorem transfer_wordByWord_below : ∃ trace r' k, Transfer .width22
      ⟨fun i => .external (BitVec.ofNat 16 i) false,fun i => i,fun _ => false⟩
      (DmaRequest.setup .dati 0o1000 (fun _ => 0) 3 false
        ⟨.dati,0,0,fun _ => 0,0,false,0,0,0,false⟩) trace r' ∧ WordByWord .width22
      ⟨fun i => .external (BitVec.ofNat 16 i) false,fun i => i,fun _ => false⟩
      .dati 0o1000 (fun _ => 0) 3 k trace r' := by
  obtain ⟨⟨trace,r',ht⟩,hall⟩ := transfer_wordByWord .width22
    ⟨fun i => .external (BitVec.ofNat 16 i) false,fun i => i,fun _ => false⟩
    .dati 0o1000 (fun _ => 0) 3 false ⟨.dati,0,0,fun _ => 0,0,false,0,0,0,false⟩
    ⟨by decide,by decide,by decide⟩
  have hno : ¬Straddles .width22
      ⟨fun i => .external (BitVec.ofNat 16 i) false,fun i => i,fun _ => false⟩ 0o1000 3 := by
    rintro ⟨i,hi,hio,-⟩
    rw [AddrWidth.iopageStartAddr] at hio
    omega
  obtain ⟨k,hk⟩ := (hall trace r' ht).mpr hno
  exact ⟨trace,r',k,ht,hk⟩

/-- Two words of emulated memory and registers, the second in the I/O page: the chunk has the mark of
the first. -/
theorem transfer_without_bs7 : ∃ trace r', Transfer .width18 ⟨fun _ => .internal 0,fun _ => 0,fun _ => false⟩
      (DmaRequest.setup .dati 0o757776 (fun _ => 0) 2 false ⟨.dati,0,0,fun _ => 0,0,false,0,0,0,false⟩) trace r' ∧
    ¬∃ k,WordByWord .width18 ⟨fun _ => .internal 0,fun _ => 0,fun _ => false⟩
      .dati 0o757776 (fun _ => 0) 2 k trace r' := by
  have hacc : Accepted .width18 0o757776 2 false := ⟨by decide,by decide,by decide⟩
  have hu := hacc.underway .dati (fun _ => 0) ⟨.dati,0,0,fun _ => 0,0,false,0,0,0,false⟩
  obtain ⟨trace,r',ht⟩ := hu.exists_transfer ⟨fun _ => .internal 0,fun _ => 0,fun _ => false⟩
  obtain ⟨k,hk⟩ := DmaRequest.Underway.rest ht 0 hu rfl
  refine ⟨trace,r',ht,fun hw => hk.wordByWord_iff.mp hw ⟨1,by decide,by decide,by decide,?_⟩⟩
  exact fun j _ _ => ⟨rfl,fun _ => rfl⟩

end QUniLator.Adapter
