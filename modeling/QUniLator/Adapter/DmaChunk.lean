import QUniLator.Adapter.Chunks

namespace QUniLator.Adapter

open List Function Cycle

theorem or_1e (a : Nat) : a ||| 0x1e=a/32*32+(30+a%2) := by
  have hdiv : (a ||| 0x1e)/32=a/32 := by
    have h : (a ||| 0x1e)/2^5=a/2^5 ||| 0x1e/2^5 := Nat.or_div_two_pow
    simpa using h
  have hmod : (a ||| 0x1e)%32=30+a%2 := by
    have h : (a ||| 0x1e)%2^5=a%2^5 ||| 0x1e%2^5 := Nat.or_mod_two_pow
    have hsmall : ∀ m<32,m ||| 0x1e=30+m%2 := by decide
    have hlt : a%32<32 := Nat.mod_lt _ (by decide)
    have h2 : a%32%2=a%2 := by omega
    rw [show (2:Nat)^5=32 from rfl] at h
    rw [h,show (0x1e:Nat)%32=0x1e from rfl,hsmall _ hlt,h2]
  omega

namespace SmDma

/-- A chunk in the mailbox: where it starts on the bus, `start`, is marked or not. -/
structure Chunk (start : Nat) (mb : MailboxDma) : Prop where
  pos : 0 < mb.wordcount
  startaddr : mb.startaddr=start ∨ mb.startaddr=start+2^22
  inside : start+2*mb.wordcount≤2^22

/-- What word `i` of a chunk is on the bus -/
def word (b : Bus) (done start : Nat) (mb : MailboxDma) (i : Nat) : Cycle :=
  if mb.buscycle.isDato then .dout (start+2*i) (mb.words i)
  else .din (start+2*i) (b.slave (done+i)).data

/-- The words of the mailbox with `j` of a chunk behind -/
def wordsAt (b : Bus) (done : Nat) (mb : MailboxDma) (j : Nat) : Nat → Word :=
  if mb.buscycle.isDato then mb.words
  else fun k => if k<j then (b.slave (done+k)).data else mb.words k

/-- Nothing ended a chunk before word `j`. -/
def Comes (b : Bus) (done j : Nat) : Prop :=
  ∀ k<j,(b.slave (done+k)).answers=true ∧ b.init (done+k)=false

/-- The address portions of a trace are of words that were come to, with BS7 as the mark is. -/
def Addressed (b : Bus) (done start : Nat) (mb : MailboxDma) (trace : List Cycle) : Prop :=
  ∀ addr bs7 wtbt,.address addr bs7 wtbt∈trace → bs7=decide (mb.startaddr≠start) ∧
    ∃ i < mb.wordcount,addr=start+2*i ∧ Comes b done i

/-- Where the PRU is with word `j` of a chunk: before an address portion, or within a block. -/
inductive Place (start : Nat) (mb : MailboxDma) (j : Nat) (s : SmDma) : Prop
  | address (hf : s.func=some .addr)
  | block (h : s.AtData) (hb : s.blockDataStateFunc=s.func) (i e : Nat) (hi : i≤j)
    (hj : j ≤ i+e) (he : e<8) (hend : s.blockEndAddr=mb.startaddr+2*(i+e))
    (h32 : (start+2*(i+e))/32=(start+2*i)/32)
    (ha : blockAfter none (s.cycles.map Cycle.onBus)=some (start+2*i,j-i))

/-- Word `j` of a chunk is next. -/
structure Mid (b : Bus) (done start : Nat) (mb : MailboxDma) (j : Nat) (s : SmDma) : Prop where
  dma : s.dma={ mb with
    curStatus := .running,curAddr := mb.startaddr+2*j,words := wordsAt b done mb j }
  dataptr : s.dataptr=j
  left : s.wordsLeft=mb.wordcount-j
  more : j < mb.wordcount
  comes : Comes b done j
  data : (s.cycles.map Cycle.onBus).filter Cycle.isData=(List.range j).map (word b done start mb)
  addressed : Addressed b done start mb (s.cycles.map Cycle.onBus)
  blocked : Blocked none (s.cycles.map Cycle.onBus)
  place : s.Place start mb j

/-- How a chunk ends, with `k` words answered. -/
inductive End (b : Bus) (done start : Nat) (mb : MailboxDma) : Nat → SmDma → List Cycle → Prop
  | ready (s : SmDma) (hs : s.dma.curStatus=.ready)
    (ha : s.dma.curAddr=mb.startaddr+2*(mb.wordcount-1)) : End b done start mb mb.wordcount s []
  | timeout (k : Nat) (s : SmDma) (hk : k < mb.wordcount)
    (hn : (b.slave (done+k)).answers=false) (hs : s.dma.curStatus=.timeoutstop)
    (ha : s.dma.curAddr=mb.startaddr+2*k) : End b done start mb k s [.silent (start+2*k)]
  | init (k : Nat) (s : SmDma) (hk : k+1 < mb.wordcount) (hi : b.init (done+k)=true)
    (hs : s.dma.curStatus=.initstop) : End b done start mb (k+1) s []

theorem End.of_ready {b : Bus} {done start : Nat} {mb : MailboxDma} {k : Nat} {s : SmDma}
    {tail : List Cycle} (h : End b done start mb k s tail) (hr : s.dma.curStatus=.ready) :
    k=mb.wordcount ∧ tail=[] := by
  cases h with
  | ready => exact ⟨rfl,rfl⟩
  | timeout _ _ _ _ hs | init _ _ _ _ hs => rw [hr] at hs; cases hs

structure Ended (b : Bus) (done start : Nat) (mb : MailboxDma) (k : Nat) (s : SmDma) : Prop where
  func : s.func=none
  answered : ∀ i<k,(b.slave (done+i)).answers=true
  quiet : ∀ i,i+1<k → b.init (done+i)=false
  buscycle : s.dma.buscycle=mb.buscycle
  wordcount : s.dma.wordcount=mb.wordcount
  words : mb.buscycle.isDato=false → ∀ i<k,s.dma.words i=(b.slave (done+i)).data
  data : ∃ tail,End b done start mb k s tail ∧
    (s.cycles.map Cycle.onBus).filter Cycle.isData=(List.range k).map (word b done start mb)++tail
  addressed : Addressed b done start mb (s.cycles.map Cycle.onBus)
  blocked : Blocked none (s.cycles.map Cycle.onBus)

variable {b : Bus} {done start j : Nat} {mb : MailboxDma} {s : SmDma}

theorem Chunk.clear (h : Chunk start mb) {i : Nat} (hi : i < mb.wordcount) :
    clearIopage (mb.startaddr+2*i)=start+2*i := by
  have hin := h.inside
  obtain hs | hs := h.startaddr
  · rw [hs,clearIopage_unmarked (by omega)]
  · rw [hs,show start+2^22+2*i=start+2*i+2^22 by ring,clearIopage_marked (by omega)]

theorem Chunk.marked (h : Chunk start mb) {i : Nat} (hi : i < mb.wordcount) :
    decide ((mb.startaddr+2*i) &&& iopageAddrBitmask≠0)=decide (mb.startaddr≠start) := by
  have hin := h.inside
  obtain hs | hs := h.startaddr
  · rw [hs,and_mark (by omega)]
    simp
  · rw [hs,show start+2^22+2*i=start+2*i+2^22 by ring,and_marked (by omega)]
    simp [iopageAddrBitmask]

theorem pass_of_func (f : DmaFunc) (hf : s.func=some f) {t : SmDma}
    (ht : s.step (b.lines (done+s.dataptr) 0)=t) (hne : t.func≠some f) : pass b done (s,0)=(t,0) := by
  rw [pass,ht,hf,if_neg hne]

theorem start_mid (h : Chunk start mb) (before : SmDma) :
    ∃ s,pass b done ({ before with dma := mb,func := some .start,cycles := [] },0)=(s,0) ∧
      s.Mid b done start mb 0 := by
  refine ⟨_,pass_of_func .start rfl rfl (by simp [step,SmDma.start]),?_⟩
  refine ⟨?_,rfl,rfl,h.pos,fun k hk => absurd hk (Nat.not_lt_zero k),rfl,
    fun _ _ _ hm => absurd hm not_mem_nil,trivial,.address rfl⟩
  simp only [step,SmDma.start,wordsAt]
  split_ifs <;> simp

theorem Mid.address (h : s.Mid b done start mb j) (hc : Chunk start mb) (hf : s.func=some .addr) :
    ∃ t,pass b done (s,0)=(t,0) ∧ t.Mid b done start mb j ∧ t.AtData ∧ t.blockDataStateFunc=t.func := by
  have hpos := hc.pos
  have hmore := h.more
  have hgo : ¬(s.dma.curStatus≠.running ∨ s.dma.wordcount=0) := by
    rw [h.dma]
    simpa using hpos.ne'
  have haddr : s.dma.curAddr=mb.startaddr+2*j := by rw [h.dma]
  let data := if s.dma.buscycle.isDato then DmaFunc.doutStart else .dinStart
  let t : SmDma := { s with
    stateTimeout := false
    cycles := s.cycles++[.address s.dma.curAddr (s.dma.curAddr &&& iopageAddrBitmask≠0)
      s.dma.buscycle.isDato]
    blockEndAddr := min (s.dma.curAddr+2*(min s.wordsLeft 8-1)) (s.dma.curAddr ||| 0x1e)
    blockDataStateFunc := some data
    func := some data }
  have ht : s.step (b.lines (done+s.dataptr) 0)=t := by
    rw [step,hf]
    simp only [stateAddr,if_neg hgo]
    rfl
  have hdata : t.AtData := ⟨by show some data=_; rfl,rfl⟩
  have hcycles : t.cycles.map onBus=s.cycles.map onBus ++
      [.address (start+2*j) (decide (mb.startaddr≠start)) s.dma.buscycle.isDato] := by
    show (s.cycles++[_]).map onBus=_
    rw [map_append,map_singleton,onBus,haddr,hc.clear hmore,hc.marked hmore]
  have hne : t.func≠some .addr := by
    show some data≠_
    simp only [data]
    split_ifs <;> rintro ⟨⟩
  refine ⟨t,pass_of_func .addr hf ht hne,
    ⟨h.dma,h.dataptr,h.left,h.more,h.comes,?_,?_,?_,?_⟩,hdata,rfl⟩
  · rw [hcycles,filter_append,h.data]
    simp [isData]
  · rw [hcycles]
    intro addr bs7 wtbt hm
    obtain hm | hm := mem_append.mp hm
    · exact h.addressed addr bs7 wtbt hm
    · cases mem_singleton.mp hm
      exact ⟨rfl,j,hmore,rfl,h.comes⟩
  · rw [hcycles,blocked_append]
    exact ⟨h.blocked,by rintro ⟨⟩,trivial⟩
  · have hend : t.blockEndAddr =
        min (mb.startaddr+2*j+2*(min (mb.wordcount-j) 8-1))
          ((mb.startaddr+2*j)/32*32+(30+(mb.startaddr+2*j)%2)) := by
      rw [← or_1e,← haddr,← h.left]
    have hs := hc.startaddr
    refine .block hdata rfl j ((t.blockEndAddr-(mb.startaddr+2*j))/2) le_rfl (by omega) ?_ ?_ ?_ ?_
    · omega
    · omega
    · omega
    · rw [hcycles,blockAfter_append,Nat.sub_self]
      rfl

theorem Comes.next (h : Comes b done j) (ha : (b.slave (done+j)).answers)
    (hi : b.init (done+j)=false) : Comes b done (j+1) := by
  intro k hk
  obtain hk | rfl := Nat.lt_succ_iff_lt_or_eq.mp hk
  · exact h k hk
  · exact ⟨ha,hi⟩

theorem Mid.cycle (h : s.Mid b done start mb j) (hc : Chunk start mb) : (s.wordCycle (b.slave (done+j))).onBus =
      if (b.slave (done+j)).answers then word b done start mb j else .silent (start+2*j) := by
  rw [wordCycle,h.dataptr,h.dma,word,wordsAt]
  cases (b.slave (done+j)).answers with
  | false => simp [onBus,hc.clear h.more]
  | true =>
    cases mb.buscycle.isDato with
    | true | false => simp [onBus,hc.clear h.more]

theorem Mid.trace (h : s.Mid b done start mb j) (hd : s.AtData)
    {c : Cycle} (hdata : c.isData) (haddr : c.addr=start+2*j) :
    (s.cycles.map onBus++[c]).filter isData = (List.range j).map (word b done start mb)++[c] ∧
    Addressed b done start mb (s.cycles.map onBus++[c]) ∧ Blocked none (s.cycles.map onBus++[c]) := by
  refine ⟨?_,fun addr bs7 wtbt hm => ?_,?_⟩
  · rw [filter_append,h.data]
    simp [hdata]
  · obtain hm | hm := mem_append.mp hm
    · exact h.addressed addr bs7 wtbt hm
    · cases mem_singleton.mp hm
      cases hdata
  · rw [blocked_append]
    refine ⟨h.blocked,fun _ => ?_,trivial⟩
    cases h.place with
    | address hf =>
      rw [hd.func] at hf
      split_ifs at hf <;> cases hf
    | block _ _ i e hi hj he _ h32 ha =>
      exact ⟨start+2*i,j-i,ha,by omega,by omega,by omega⟩

theorem afterData_eq (slave : Slave) (s : SmDma) : s.afterData slave={ s with
    dma := if s.dma.buscycle.isDato then s.dma else (s.store slave.data).dma
    stateTimeout := !slave.answers
    cycles := s.cycles++[s.wordCycle slave]
    blockDataStateFunc := if s.dma.curAddr=s.blockEndAddr ∨ ¬slave.goesOn then none
      else s.blockDataStateFunc
    func := some .state99 } := by
  cases hd : s.dma.buscycle.isDato <;>
    simp [afterData,hd,endBlock_eq,note,goto,store]

theorem Mid.dma_after (h : s.Mid b done start mb j) : (s.afterData (b.slave (done+j))).dma={ mb with
      curStatus := .running,curAddr := mb.startaddr+2*j,words := wordsAt b done mb (j+1) } := by
  rw [afterData_eq]
  simp only [store,h.dataptr,h.dma,wordsAt]
  cases mb.buscycle.isDato with
  | true => rfl
  | false =>
    simp only [Bool.false_eq_true,if_false]
    congr 1
    funext k
    by_cases hk : k=j
    · subst hk
      simp
    · have hlt : k<j+1 ↔ k<j := by omega
      simp [update_of_ne hk,hlt]

theorem Mid.cycles_after (h : s.Mid b done start mb j) (hc : Chunk start mb) :
    (s.afterData (b.slave (done+j))).cycles.map onBus=s.cycles.map onBus ++
      [if (b.slave (done+j)).answers then word b done start mb j else .silent (start+2*j)] := by
  rw [afterData_eq]
  simp only [map_append,map_singleton,h.cycle hc]

theorem word_data (b : Bus) (done start : Nat) (mb : MailboxDma) (i : Nat) :
    (word b done start mb i).isData=true ∧ (word b done start mb i).addr=start+2*i := by
  rw [word]
  split_ifs <;> exact ⟨rfl,rfl⟩

theorem Mid.pass_after (h : s.Mid b done start mb j) (ha : s.AtData) {t : SmDma}
    (ht : (s.afterData (b.slave (done+j))).state99 (b.lines (done+j) 0)=t)
    (hne : t.func≠some .state99) : ∃ n,(pass b done)^[n] (s,0)=(t,0) := by
  obtain ⟨n,hp⟩ : ∃ n,(pass b done)^[n] (s,0)=(s.afterData (b.slave (done+s.dataptr)),0) :=
    data_passes ha
  rw [h.dataptr] at hp
  have hptr : (s.afterData (b.slave (done+j))).dataptr=j := by
    rw [afterData_eq]
    exact h.dataptr
  have hf : (s.afterData (b.slave (done+j))).func=some .state99 := by rw [afterData_eq]
  refine ⟨n+1,?_⟩
  rw [iterate_succ_apply',hp]
  refine pass_of_func .state99 hf ?_ hne
  rw [hptr,step,hf]
  exact ht

theorem wordsAt_read {k : Nat} (hd : mb.buscycle.isDato=false) (j : Nat) (hk : k<j) :
    wordsAt b done mb j k=(b.slave (done+k)).data := by
  simp [wordsAt,hd,hk]

theorem Mid.timeout (h : s.Mid b done start mb j) (hc : Chunk start mb) (ha : s.AtData)
    (hn : (b.slave (done+j)).answers=false) : ∃ n t,(pass b done)^[n] (s,0)=(t,0) ∧ t.Ended b done start mb j := by
  have hst : (s.afterData (b.slave (done+j))).stateTimeout=true := by
    rw [afterData_eq,hn]
    rfl
  obtain ⟨n,hp⟩ := h.pass_after ha (t := (s.afterData (b.slave (done+j))).finish .timeoutstop)
    (by rw [state99,if_pos hst]) (by rintro ⟨⟩)
  have hcyc := h.cycles_after hc
  rw [hn,if_neg Bool.false_ne_true] at hcyc
  obtain ⟨hdata,haddr,hblock⟩ := h.trace ha (c := .silent (start+2*j)) rfl rfl
  rw [← hcyc] at hdata haddr hblock
  have hdma := h.dma_after
  refine ⟨n,_,hp,rfl,fun i hi => (h.comes i hi).1,fun i hi => (h.comes i (by omega)).2,?_,?_,
    fun hd i hi => ?_,⟨_,.timeout j _ h.more hn rfl ?_,hdata⟩,haddr,hblock⟩
  · show (s.afterData _).dma.buscycle=_
    rw [hdma]
  · show (s.afterData _).dma.wordcount=_
    rw [hdma]
  · show (s.afterData _).dma.words i=_
    rw [hdma]
    exact wordsAt_read hd _ (by omega)
  · show (s.afterData _).dma.curAddr=_
    rw [hdma]

theorem lines_init (b : Bus) (i waited : Nat) : (b.lines i waited).init=b.init i := by
  rw [Bus.lines]
  cases b.slave i <;> rfl

theorem Mid.after (h : s.Mid b done start mb j) (hn : (b.slave (done+j)).answers) :
    (s.afterData (b.slave (done+j))).stateTimeout=false ∧ (s.afterData (b.slave (done+j))).dataptr=j ∧
    (s.afterData (b.slave (done+j))).wordsLeft=mb.wordcount-j := by
  rw [afterData_eq,hn]
  exact ⟨rfl,h.dataptr,h.left⟩

theorem Mid.trace_word (h : s.Mid b done start mb j) (hc : Chunk start mb) (ha : s.AtData)
    (hn : (b.slave (done+j)).answers) : ((s.afterData (b.slave (done+j))).cycles.map onBus).filter isData =
      (List.range (j+1)).map (word b done start mb) ∧
    Addressed b done start mb ((s.afterData (b.slave (done+j))).cycles.map onBus) ∧
    Blocked none ((s.afterData (b.slave (done+j))).cycles.map onBus) := by
  obtain ⟨hw,hwa⟩ := word_data b done start mb j
  rw [h.cycles_after hc,hn,if_pos rfl,range_succ,map_append,map_singleton]
  exact h.trace ha hw hwa

theorem Mid.ready (h : s.Mid b done start mb j) (hc : Chunk start mb) (ha : s.AtData)
    (hn : (b.slave (done+j)).answers) (hl : j+1=mb.wordcount) :
    ∃ n t,(pass b done)^[n] (s,0)=(t,0) ∧ t.Ended b done start mb mb.wordcount := by
  obtain ⟨hto,-,hleft⟩ := h.after hn
  obtain ⟨hdata,haddr,hblock⟩ := h.trace_word hc ha hn
  have hdma := h.dma_after
  have hp := h.pass_after ha rfl
  generalize s.afterData (b.slave (done+j))=u at hto hleft hdata haddr hblock hdma hp
  have hready : u.state99 (b.lines (done+j) 0) =
      ({ u with dataptr := u.dataptr+1,wordsLeft := u.wordsLeft-1 } : SmDma).finish .ready := by
    rw [state99,if_neg (by rw [hto]; decide)]
    exact if_pos (show u.wordsLeft-1=0 by omega)
  rw [hready] at hp
  obtain ⟨n,hp⟩ := hp (by rintro ⟨⟩)
  refine ⟨n,_,hp,rfl,fun i hi => ?_,fun i hi => (h.comes i (by omega)).2,?_,?_,fun hd i hi => ?_,
    ⟨_,.ready _ rfl ?_,?_⟩,haddr,hblock⟩
  · obtain hi | rfl : i<j ∨ i=j := by omega
    · exact (h.comes i hi).1
    · exact hn
  · show u.dma.buscycle=_
    rw [hdma]
  · show u.dma.wordcount=_
    rw [hdma]
  · exact (congrArg (fun x : MailboxDma => x.words i) hdma).trans (wordsAt_read hd _ (by omega))
  · refine (congrArg MailboxDma.curAddr hdma).trans ?_
    show mb.startaddr+2*j=_
    omega
  · rw [append_nil,← hl]
    exact hdata

theorem Mid.stopped (h : s.Mid b done start mb j) (hc : Chunk start mb) (ha : s.AtData)
    (hn : (b.slave (done+j)).answers) (hl : j+1 < mb.wordcount) (hi : b.init (done+j)) :
    ∃ n t,(pass b done)^[n] (s,0)=(t,0) ∧ t.Ended b done start mb (j+1) := by
  obtain ⟨hto,-,hleft⟩ := h.after hn
  obtain ⟨hdata,haddr,hblock⟩ := h.trace_word hc ha hn
  have hdma := h.dma_after
  have hp := h.pass_after ha rfl
  generalize s.afterData (b.slave (done+j))=u at hto hleft hdata haddr hblock hdma hp
  have hstop : u.state99 (b.lines (done+j) 0) =
      ({ u with dataptr := u.dataptr+1,wordsLeft := u.wordsLeft-1 } : SmDma).finish .initstop := by
    rw [state99,if_neg (by rw [hto]; decide)]
    exact (if_neg (show u.wordsLeft-1≠0 by omega)).trans (if_pos ((lines_init ..).trans hi))
  rw [hstop] at hp
  obtain ⟨n,hp⟩ := hp (by rintro ⟨⟩)
  refine ⟨n,_,hp,rfl,fun i hi => ?_,fun i hi => (h.comes i (by omega)).2,?_,?_,fun hd i hi => ?_,
    ⟨_,.init j _ hl hi rfl,?_⟩,haddr,hblock⟩
  · obtain hi | rfl : i<j ∨ i=j := by omega
    · exact (h.comes i hi).1
    · exact hn
  · show u.dma.buscycle=_
    rw [hdma]
  · show u.dma.wordcount=_
    rw [hdma]
  · exact (congrArg (fun x : MailboxDma => x.words i) hdma).trans (wordsAt_read hd _ hi)
  · rw [append_nil]
    exact hdata

theorem Mid.next (h : s.Mid b done start mb j) (hc : Chunk start mb) (ha : s.AtData)
    (hb : s.blockDataStateFunc=s.func)
    (hn : (b.slave (done+j)).answers) (hl : j+1 < mb.wordcount) (hi : b.init (done+j)=false) :
    ∃ n t,(pass b done)^[n] (s,0)=(t,0) ∧ t.Mid b done start mb (j+1) := by
  obtain ⟨hto,hptr,hleft⟩ := h.after hn
  obtain ⟨hdata,haddr,hblock⟩ := h.trace_word hc ha hn
  have hdma := h.dma_after
  have hp := h.pass_after ha rfl
  have hcyc := h.cycles_after hc
  have hend : (s.afterData (b.slave (done+j))).blockDataStateFunc =
      (if s.dma.curAddr=s.blockEndAddr ∨ ¬(b.slave (done+j)).goesOn then none
        else s.blockDataStateFunc) ∧
      (s.afterData (b.slave (done+j))).blockEndAddr=s.blockEndAddr := by
    rw [afterData_eq]
    exact ⟨rfl,rfl⟩
  generalize s.afterData (b.slave (done+j))=u at hto hptr hleft hdata haddr hblock hdma hp hcyc hend
  let v : SmDma := { u with
    dataptr := u.dataptr+1,wordsLeft := u.wordsLeft-1
    dma := { u.dma with curAddr := u.dma.curAddr+2 } }
  have hgo : u.state99 (b.lines (done+j) 0)=v.goto (u.blockDataStateFunc.getD .addr) := by
    rw [state99,if_neg (by rw [hto]; decide)]
    refine (if_neg (show u.wordsLeft-1≠0 by omega)).trans
      ((if_neg (by rw [lines_init,hi]; decide)).trans ?_)
    cases hf : u.blockDataStateFunc with
    | none => simp only [hf,Option.getD_none,v]
    | some f => simp only [hf,Option.getD_some,v]
  rw [hgo,hend.1,hb,ha.func] at hp
  have hbus : mb.buscycle=s.dma.buscycle := by rw [h.dma]
  -- the block is over, or the next word of it follows
  have hmid (f : DmaFunc) (hplace : (v.goto f).Place start mb (j+1)) :
      (v.goto f).Mid b done start mb (j+1) := by
    refine ⟨?_,?_,?_,hl,h.comes.next hn hi,hdata,haddr,hblock,hplace⟩
    · show ({ u.dma with curAddr := u.dma.curAddr+2 } : MailboxDma)=_
      rw [hdma]
      rfl
    · show u.dataptr+1=j+1
      rw [hptr]
    · show u.wordsLeft-1=_
      omega
  by_cases hover : s.dma.curAddr=s.blockEndAddr ∨ ¬(b.slave (done+j)).goesOn
  · rw [if_pos hover] at hp
    obtain ⟨n,hp⟩ := hp (by rintro ⟨⟩)
    exact ⟨n,_,hp,hmid .addr (.address rfl)⟩
  · rw [if_neg hover] at hp
    obtain ⟨n,hp⟩ := hp (by
      show some _≠_
      split_ifs <;> rintro ⟨⟩)
    refine ⟨n,_,hp,hmid _ ?_⟩
    cases h.place with
    | address hf =>
      rw [ha.func] at hf
      split_ifs at hf <;> cases hf
    | block _ _ i e hi' hj he hend' h32 hafter =>
      have hne : j≠i+e := by
        rintro rfl
        refine hover (.inl ?_)
        rw [hend',h.dma]
      refine .block ⟨?_,hto⟩ ?_ i e (by omega) (by omega) he ?_ h32 ?_
      · show some _=some (if u.dma.buscycle.isDato then _ else _)
        rw [hdma,hbus]
        rfl
      · show u.blockDataStateFunc=some _
        rw [hend.1,if_neg hover,hb,ha.func]
        rfl
      · exact hend.2.trans hend'
      · show blockAfter none (u.cycles.map onBus)=_
        obtain ⟨hw,-⟩ := word_data b done start mb j
        rw [hcyc,hn,if_pos rfl,blockAfter_append,hafter,show j+1-i=j-i+1 by omega]
        rw [word]
        split_ifs <;> rfl

theorem Mid.ends (h : s.Mid b done start mb j) (hc : Chunk start mb) :
    ∃ n t k,(pass b done)^[n] (s,0)=(t,0) ∧ t.Ended b done start mb k := by
  induction hr : mb.wordcount-j generalizing s j with
  | zero => exact absurd h.more (by omega)
  | succ r ih =>
    have hdata (u : SmDma) (hu : u.Mid b done start mb j) (ha : u.AtData)
        (hb : u.blockDataStateFunc=u.func) :
        ∃ n t k,(pass b done)^[n] (u,0)=(t,0) ∧ t.Ended b done start mb k := by
      have hmore := hu.more
      cases hn : (b.slave (done+j)).answers with
      | false =>
        obtain ⟨n,t,hp,ht⟩ := hu.timeout hc ha hn
        exact ⟨n,t,j,hp,ht⟩
      | true =>
        obtain hl | hl : j+1=mb.wordcount ∨ j+1 < mb.wordcount := by omega
        · obtain ⟨n,t,hp,ht⟩ := hu.ready hc ha hn hl
          exact ⟨n,t,_,hp,ht⟩
        cases hi : b.init (done+j) with
        | true =>
          obtain ⟨n,t,hp,ht⟩ := hu.stopped hc ha hn hl hi
          exact ⟨n,t,_,hp,ht⟩
        | false =>
          obtain ⟨n,t,hp,ht⟩ := hu.next hc ha hb hn hl hi
          obtain ⟨m,t',k,hp',ht'⟩ := ih ht (by omega)
          exact ⟨m+n,t',k,by rw [iterate_add_apply,hp,hp'],ht'⟩
    cases h.place with
    | address hf =>
      obtain ⟨t,hp,ht,hat,hbt⟩ := h.address hc hf
      obtain ⟨n,t',k,hp',ht'⟩ := hdata t ht hat hbt
      exact ⟨n+1,t',k,by rw [iterate_succ_apply,hp,hp'],ht'⟩
    | block ha hb => exact hdata s h ha hb

theorem chunk_ends (hc : Chunk start mb) (before : SmDma) (b : Bus) (done : Nat) : ∃ n t k,
    (pass b done)^[n] ({ before with dma := mb,func := some .start,cycles := [] },0)=(t,0) ∧
    t.Ended b done start mb k := by
  obtain ⟨s,hp,hs⟩ : ∃ s,pass b done ({ before with dma := mb,func := some .start,cycles := [] },0) =
      (s,0) ∧ s.Mid b done start mb 0 := start_mid hc before
  obtain ⟨n,t,k,hp',ht⟩ := hs.ends hc
  exact ⟨n+1,t,k,by rw [iterate_succ_apply,hp,hp'],ht⟩

end SmDma

end QUniLator.Adapter
