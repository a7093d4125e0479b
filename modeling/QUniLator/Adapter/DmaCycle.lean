import QUniLator.Adapter.Mailbox

namespace QUniLator.Adapter

/-- The state functions `sm_dma_start` and `sm_dma_state_*`. -/
inductive DmaFunc
  | start | addr | dinStart | dinComplete | doutStart | doutComplete | state99
  deriving DecidableEq,Repr

/-- What a transfer does on the bus: an address portion, a word that its slave answered, and a word
that nothing answered within the bus timeout. -/
inductive Cycle
  | address (addr : Nat) (bs7 wtbt : Bool)
  | din (addr : Nat) (data : Word)
  | dout (addr : Nat) (data : Word)
  | silent (addr : Nat)
  deriving DecidableEq,Repr

/-- `sm_dma` with the state it goes on in, the mailbox it works on, its event counter, and what it did on
the bus. -/
structure SmDma where
  func : Option DmaFunc
  dma : MailboxDma
  dataptr : Nat
  wordsLeft : Nat
  blockEndAddr : Nat
  blockDataStateFunc : Option DmaFunc
  stateTimeout : Bool
  signaled : BitVec 8
  cycles : List Cycle

/-- What a state function reads besides its own data: emulated memory and registers at the current address, the bus
lines, and the bus timeout. -/
structure DmaLines where
  emulatedRead : Option Word
  emulatedWrite : Bool
  rply : Bool
  timeoutReached : Bool
  dal : Word
  ref : Bool
  init : Bool

namespace SmDma

/-- The end of a transfer: the ARM is told. SACK is negated with it, see `Pru.masterPass`. -/
def finish (status : DmaState) (s : SmDma) : SmDma :=
  { s with
    func := none,dma := { s.dma with curStatus := status },signaled := s.signaled+1 }

/-- `sm_dma_start` -/
def start (s : SmDma) : SmDma :=
  { s with
    dma := { s.dma with curAddr := s.dma.startaddr,curStatus := .running },
    dataptr := 0,wordsLeft := s.dma.wordcount,func := some .addr }

/-- `sm_dma_state_addr`. A block has at most 8 words and ends before a 32 byte boundary. -/
def stateAddr (s : SmDma) : SmDma :=
  let addr := s.dma.curAddr
  if s.dma.curStatus≠.running ∨ s.dma.wordcount=0 then s.finish .timeoutstop
  else
    let data := if s.dma.buscycle.isDato then DmaFunc.doutStart else .dinStart
    { s with
      stateTimeout := false
      cycles := s.cycles++[.address addr (addr &&& iopageAddrBitmask≠0) s.dma.buscycle.isDato]
      blockEndAddr := min (addr+2*(min s.wordsLeft 8-1)) (addr ||| 0x1e)
      blockDataStateFunc := some data
      func := some data }

/-- `block_data_state_func = NULL` where the block ends -/
def endBlock (last : Bool) (s : SmDma) : SmDma :=
  if last then { s with blockDataStateFunc := none } else s

def store (data : Word) (s : SmDma) : SmDma :=
  { s with dma := { s.dma with words := Function.update s.dma.words s.dataptr data } }

def note (c : Cycle) (s : SmDma) : SmDma := { s with cycles := s.cycles++[c] }

def goto (f : DmaFunc) (s : SmDma) : SmDma := { s with func := some f }

/-- `sm_dma_state_din_start` -/
def dinStart (i : DmaLines) (s : SmDma) : SmDma :=
  let addr := s.dma.curAddr
  match i.emulatedRead with
  | some data => (((s.store data).note (.din addr data)).endBlock (addr=s.blockEndAddr)).goto .state99
  | none => s.goto .dinComplete

/-- `sm_dma_state_dout_start` -/
def doutStart (i : DmaLines) (s : SmDma) : SmDma :=
  let addr := s.dma.curAddr
  if i.emulatedWrite then
    ((s.note (.dout addr (s.dma.words s.dataptr))).endBlock (addr=s.blockEndAddr)).goto .state99
  else s.goto .doutComplete

/-- `sm_dma_state_din_complete`. What stands on the lines is stored on a timeout too. -/
def dinComplete (i : DmaLines) (s : SmDma) : SmDma :=
  let addr := s.dma.curAddr
  if ¬i.rply ∧ ¬i.timeoutReached then { s with stateTimeout := false }
  else
    let s := { s with stateTimeout := !i.rply || s.stateTimeout }
    let c := if i.rply then Cycle.din addr i.dal else .silent addr
    (((s.store i.dal).note c).endBlock (addr=s.blockEndAddr ∨ ¬i.ref)).goto .state99

/-- `sm_dma_state_dout_complete` -/
def doutComplete (i : DmaLines) (s : SmDma) : SmDma :=
  let addr := s.dma.curAddr
  if ¬i.rply ∧ ¬i.timeoutReached then { s with stateTimeout := false }
  else
    let s := { s with stateTimeout := !i.rply || s.stateTimeout }
    let c := if i.rply then Cycle.dout addr (s.dma.words s.dataptr) else .silent addr
    ((s.note c).endBlock (addr=s.blockEndAddr ∨ ¬i.ref)).goto .state99

/-- `sm_dma_state_99`, after a word or its timeout -/
def state99 (i : DmaLines) (s : SmDma) : SmDma :=
  if s.stateTimeout then s.finish .timeoutstop
  else
    let s := { s with dataptr := s.dataptr+1,wordsLeft := s.wordsLeft-1 }
    if s.wordsLeft=0 then s.finish .ready
    else if i.init then s.finish .initstop
    else
      let s := { s with dma := { s.dma with curAddr := s.dma.curAddr+2 } }
      match s.blockDataStateFunc with
      | some f => s.goto f
      | none => s.goto .addr

/-- `sm_data_master_state = sm_data_master_state()` -/
def step (i : DmaLines) (s : SmDma) : SmDma :=
  match s.func with
  | none => s
  | some .start => s.start
  | some .addr => s.stateAddr
  | some .dinStart => s.dinStart i
  | some .dinComplete => s.dinComplete i
  | some .doutStart => s.doutStart i
  | some .doutComplete => s.doutComplete i
  | some .state99 => s.state99 i

end SmDma

/-- The state machine before its first transfer -/
instance : Inhabited SmDma where
  default := ⟨none,⟨.ready,.dati,0,false,0,0,fun _ => 0⟩,0,0,0,none,false,0,[]⟩

/-- Who answers a word: emulated memory or register, another card with or without REF, or nobody. `data` is what is
read, with nobody what stands on the lines. -/
inductive Slave
  | internal (data : Word)
  | external (data : Word) (ref : Bool)
  | nobody (data : Word) (ref : Bool)
  deriving DecidableEq

def Slave.answers : Slave → Bool
  | .internal _ | .external .. => true
  | .nobody .. => false

def Slave.data : Slave → Word
  | .internal data | .external data _ | .nobody data _ => data

def Slave.goesOn : Slave → Bool
  | .internal _ => true
  | .external _ ref | .nobody _ ref => ref

/-- The bus as a transfer meets it, word by word: who answers, the passes until RPLY or the timeout, and
whether INIT stands after the word. -/
structure Bus where
  slave : Nat → Slave
  delay : Nat → Nat
  init : Nat → Bool

/-- What a pass reads at word `i`, `waited` passes into the wait for RPLY -/
def Bus.lines (b : Bus) (i waited : Nat) : DmaLines :=
  let ended := b.delay i≤waited
  match b.slave i with
  | .internal data => ⟨some data,true,false,false,data,false,b.init i⟩
  | .external data ref => ⟨none,false,ended,false,data,ref,b.init i⟩
  | .nobody data ref => ⟨none,false,false,ended,data,ref,b.init i⟩

namespace SmDma

/-- A pass at the words from `done` on, with the passes waited for the word before it and after it -/
def pass (b : Bus) (done : Nat) (x : SmDma × Nat) : SmDma × Nat :=
  let s := x.1.step (b.lines (done+x.1.dataptr) x.2)
  (s,if s.func=x.1.func then x.2+1 else 0)

def wordCycle (slave : Slave) (s : SmDma) : Cycle :=
  if ¬slave.answers then .silent s.dma.curAddr
  else if s.dma.buscycle.isDato then .dout s.dma.curAddr (s.dma.words s.dataptr)
  else .din s.dma.curAddr slave.data

def afterData (slave : Slave) (s : SmDma) : SmDma :=
  let t := if s.dma.buscycle.isDato then s else s.store slave.data
  ((({ t with stateTimeout := !slave.answers }).note (s.wordCycle slave)).endBlock
    (s.dma.curAddr=s.blockEndAddr ∨ ¬slave.goesOn)).goto .state99

/-- The data portion of a word is about to start. -/
structure AtData (s : SmDma) : Prop where
  func : s.func=some (if s.dma.buscycle.isDato then .doutStart else .dinStart)
  timeout : s.stateTimeout=false

variable {b : Bus} {done : Nat} {s : SmDma}

theorem endBlock_eq (last : Bool) (s : SmDma) : s.endBlock last =
    { s with blockDataStateFunc := if last then none else s.blockDataStateFunc } := by
  cases last <;> rfl

theorem pass_wait (hf : s.func=some .dinComplete ∨ s.func=some .doutComplete) {n : Nat}
    (hs : ∀ d,b.slave (done+s.dataptr)≠.internal d) (ht : s.stateTimeout=false)
    (hn : n<b.delay (done+s.dataptr)) : pass b done (s,n)=(s,n+1) := by
  have hended : ¬b.delay (done+s.dataptr)≤n := by omega
  have hl : (b.lines (done+s.dataptr) n).rply=false ∧
      (b.lines (done+s.dataptr) n).timeoutReached=false := by
    rw [Bus.lines]
    cases h : b.slave (done+s.dataptr) with
    | internal d => exact absurd h (hs d)
    | external d ref | nobody d ref => simp [hended]
  have hsame : s.step (b.lines (done+s.dataptr) n)=s := by
    have he : ({ s with stateTimeout := false } : SmDma)=s := by rw [← ht]
    obtain hf | hf := hf
    · rw [step,hf]
      simp only [dinComplete,hl.1,hl.2]
      exact he
    · rw [step,hf]
      simp only [doutComplete,hl.1,hl.2]
      exact he
  rw [pass,hsame]
  simp

theorem pass_waits (hf : s.func=some .dinComplete ∨ s.func=some .doutComplete)
    (hs : ∀ d,b.slave (done+s.dataptr)≠.internal d) (ht : s.stateTimeout=false) (n : Nat)
    (hn : n≤b.delay (done+s.dataptr)) : (pass b done)^[n] (s,0)=(s,n) := by
  induction n with
  | zero => rfl
  | succ n ih =>
    rw [Function.iterate_succ_apply',ih (by omega),pass_wait hf hs ht (by omega)]

theorem data_internal (h : s.AtData) {data : Word} (hs : b.slave (done+s.dataptr)=.internal data) :
    pass b done (s,0)=(s.afterData (.internal data),0) := by
  have hf := h.func
  have ht : ({ s with stateTimeout := false } : SmDma)=s := by rw [← h.timeout]
  rw [pass,Bus.lines]
  simp only [hs]
  cases hc : s.dma.buscycle.isDato with
  | true =>
    rw [hc] at hf
    rw [step,hf]
    simp only [doutStart,afterData,wordCycle,hc,Slave.answers,Slave.goesOn,if_true]
    simp [goto,ht]
  | false =>
    rw [hc] at hf
    rw [step,hf]
    simp only [dinStart,afterData,wordCycle,hc,Slave.answers,Slave.goesOn,Slave.data]
    have ht : ({ s.store data with stateTimeout := false } : SmDma)=s.store data := by
      rw [← h.timeout]; rfl
    simp [goto,ht]

theorem data_waits (h : s.AtData) (hs : ∀ d,b.slave (done+s.dataptr)≠.internal d) : pass b done (s,0) =
      (s.goto (if s.dma.buscycle.isDato then .doutComplete else .dinComplete),0) := by
  have hf := h.func
  have hl : (b.lines (done+s.dataptr) 0).emulatedRead=none ∧
      (b.lines (done+s.dataptr) 0).emulatedWrite=false := by
    rw [Bus.lines]
    cases hx : b.slave (done+s.dataptr) with
    | internal d => exact absurd hx (hs d)
    | external d ref | nobody d ref => exact ⟨rfl,rfl⟩
  rw [pass]
  cases hc : s.dma.buscycle.isDato with
  | true =>
    rw [hc] at hf
    rw [step,hf]
    simp only [doutStart,hl.2]
    rfl
  | false =>
    rw [hc] at hf
    rw [step,hf]
    simp only [dinStart,hl.1]
    rfl

theorem data_ends (h : s.AtData) (hs : ∀ d,b.slave (done+s.dataptr)≠.internal d) :
    pass b done (s.goto (if s.dma.buscycle.isDato then .doutComplete else .dinComplete),
      b.delay (done+s.dataptr))=(s.afterData (b.slave (done+s.dataptr)),0) := by
  have ht := h.timeout
  rw [pass]
  show ((s.goto _).step (b.lines (done+s.dataptr) _),_)=_
  cases hc : s.dma.buscycle.isDato with
  | true =>
    simp only [if_true,step,goto,doutComplete,Bus.lines,afterData,wordCycle,hc]
    cases hx : b.slave (done+s.dataptr) with
    | internal d => exact absurd hx (hs d)
    | external d ref => simp [Slave.answers,Slave.goesOn,note,endBlock_eq,ht]
    | nobody d ref => simp [Slave.answers,Slave.goesOn,note,endBlock_eq]
  | false =>
    simp only [Bool.false_eq_true,if_false,step,goto,dinComplete,Bus.lines,afterData,wordCycle,hc]
    cases hx : b.slave (done+s.dataptr) with
    | internal d => exact absurd hx (hs d)
    | external d ref => simp [Slave.answers,Slave.goesOn,Slave.data,note,store,endBlock_eq,ht]
    | nobody d ref => simp [Slave.answers,Slave.goesOn,Slave.data,note,store,endBlock_eq]

theorem data_passes (h : s.AtData) : ∃ n, (pass b done)^[n] (s,0)=(s.afterData (b.slave (done+s.dataptr)),0) := by
  by_cases hs : ∃ data,b.slave (done+s.dataptr)=.internal data
  · obtain ⟨data,hs⟩ := hs
    exact ⟨1,by rw [hs]; exact data_internal h hs⟩
  · have hs := not_exists.mp hs
    refine ⟨b.delay (done+s.dataptr)+1+1,?_⟩
    rw [Function.iterate_succ_apply,data_waits h hs,Function.iterate_succ_apply']
    let u := s.goto (if s.dma.buscycle.isDato then .doutComplete else .dinComplete)
    have hf : u.func=some .dinComplete ∨ u.func=some .doutComplete := by
      show some _=_ ∨ some _=_
      cases s.dma.buscycle.isDato with
      | true => exact .inr rfl
      | false => exact .inl rfl
    have hw : (pass b done)^[b.delay (done+s.dataptr)] (u,0)=(u,b.delay (done+s.dataptr)) :=
      pass_waits hf hs h.timeout _ le_rfl
    exact (congrArg (pass b done) hw).trans (data_ends h hs)

end SmDma

end QUniLator.Adapter
