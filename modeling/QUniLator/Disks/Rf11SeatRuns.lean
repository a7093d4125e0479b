import QUniLator.Disks.Rf11Seat
import Mathlib.Tactic.Cases

namespace QUniLator.Disks

open List Option Option

namespace RfSeat

variable {s t u : RfSeat}

/-- What the docket says about commands, whose numbers are below `n` -/
structure Books (l : Docket RfCommand RfEffect) (n : Nat) : Prop where
  orderly : l.Orderly
  below : l.Below n
  unique : ∀ i c c',.accepted i c∈l → .accepted i c'∈l → c=c'
  fits : ∀ i c e,.accepted i c∈l → .did i e∈l → Fits c e
  complete : ∀ i c,.accepted i c∈l → .finished i∈l → .cancelled i∈l ∨ Reported l i ∨ Complete l i c

variable {l l' : Docket RfCommand RfEffect} {n i : Nat} {c : RfCommand} {e : RfEffect}

theorem Reported.mono (h : Reported l i) (hl : l ⊆ l') : Reported l' i :=
  h.imp (fun hx => hl hx) fun hx => hl hx

theorem Complete.mono (h : Complete l i c) (hl : l ⊆ l') : Complete l' i c := by
  unfold Complete at h ⊢
  cases hf : c.function with
  | nop =>
    rw [hf] at h
    exact h
  | read | write =>
    rw [hf] at h
    obtain ⟨ws,hn,ha,hb⟩ := h
    exact ⟨ws,hn,hl ha,hl hb⟩
  | writeCheck =>
    rw [hf] at h
    obtain ⟨ws,vs,hn,hm,ha,hb⟩ := h
    exact ⟨ws,vs,hn,hm,hl ha,hl hb⟩

theorem Books.nil : Books [] 0 := by
  refine ⟨Docket.Orderly.nil,?_,?_,?_,?_⟩
  · intro e he
    cases he
  · intro i c c' ha
    cases ha
  · intro i c e ha
    cases ha
  · intro i c ha
    cases ha

theorem Books.complete_mono (h : Books l n) (hl : l ⊆ l') {i : Nat} {c : RfCommand}
    (ha : .accepted i c∈l) (hf : .finished i∈l) : .cancelled i∈l' ∨ Reported l' i ∨ Complete l' i c :=
  (h.complete i c ha hf).imp (fun hx => hl hx) (Or.imp (fun hx => hx.mono hl) fun hx => hx.mono hl)

theorem Books.accept (h : Books l n) (c : RfCommand) : Books (.accepted n c::l) (n+1) := by
  have hnew : ∀ {e},e∈l → e.id≠n := fun he => Nat.ne_of_lt (h.below _ he)
  refine ⟨h.orderly.accepted n c,h.below.cons (Nat.le_succ n) (Nat.lt_succ_self n),?_,?_,?_⟩
  · intro i a b ha hb
    rcases mem_cons.mp ha with ha | ha
    · cases ha
      rcases mem_cons.mp hb with hb | hb
      · cases hb
        rfl
      · exact (hnew hb rfl).elim
    · rcases mem_cons.mp hb with hb | hb
      · cases hb
        exact (hnew ha rfl).elim
      · exact h.unique i a b ha hb
  · intro i a e ha he
    rcases mem_cons.mp he with he | he
    · cases he
    · rcases mem_cons.mp ha with ha | ha
      · cases ha
        exact (hnew he rfl).elim
      · exact h.fits i a e ha he
  · intro i a ha hf
    rcases mem_cons.mp hf with hf | hf
    · cases hf
    · rcases mem_cons.mp ha with ha | ha
      · cases ha
        exact (hnew hf rfl).elim
      · exact h.complete_mono (subset_cons_self _ _) ha hf

theorem Books.cancel (h : Books l n) (hi : i<n) : Books (.cancelled i::l) n := by
  refine ⟨h.orderly.cancelled i,h.below.cons (Nat.le_refl n) hi,?_,?_,?_⟩
  · intro j a b ha hb
    simp only [mem_cons,reduceCtorEq,false_or] at ha hb
    exact h.unique j a b ha hb
  · intro j a e ha he
    simp only [mem_cons,reduceCtorEq,false_or] at ha he
    exact h.fits j a e ha he
  · intro j a ha hf
    simp only [mem_cons,reduceCtorEq,false_or] at ha hf
    exact h.complete_mono (subset_cons_self _ _) ha hf

theorem Books.did (h : Books l n) (hi : i<n) (hno : .cancelled i∉l)
    (hfit : ∀ c,.accepted i c∈l → Fits c e) : Books (.did i e::l) n := by
  refine ⟨h.orderly.did hno e,h.below.cons (Nat.le_refl n) hi,?_,?_,?_⟩
  · intro j a b ha hb
    simp only [mem_cons,reduceCtorEq,false_or] at ha hb
    exact h.unique j a b ha hb
  · intro j a f ha hf
    simp only [mem_cons,reduceCtorEq,false_or] at ha
    rcases mem_cons.mp hf with hf | hf
    · cases hf
      exact hfit a ha
    · exact h.fits j a f ha hf
  · intro j a ha hf
    simp only [mem_cons,reduceCtorEq,false_or] at ha hf
    exact h.complete_mono (subset_cons_self _ _) ha hf

theorem Books.finish (h : Books l n) (hi : i<n) (hno : .finished i∉l)
    (hdone : ∀ c,.accepted i c∈l → .cancelled i∈l ∨ Reported l i ∨ Complete l i c) : Books (.finished i::l) n := by
  have hsub : l ⊆ .finished i::l := subset_cons_self _ _
  refine ⟨h.orderly.finished hno,h.below.cons (Nat.le_refl n) hi,?_,?_,?_⟩
  · intro j a b ha hb
    simp only [mem_cons,reduceCtorEq,false_or] at ha hb
    exact h.unique j a b ha hb
  · intro j a f ha hf
    simp only [mem_cons,reduceCtorEq,false_or] at ha hf
    exact h.fits j a f ha hf
  · intro j a ha hf
    simp only [mem_cons,reduceCtorEq,false_or] at ha
    rcases mem_cons.mp hf with hf | hf
    · cases hf
      exact (hdone a ha).imp (fun hx => hsub hx) (Or.imp (fun hx => hx.mono hsub) fun hx => hx.mono hsub)
    · exact h.complete_mono hsub ha hf

/-- The registers stand as they were when GO was accepted, or the worker has read them so. -/
structure Standing (s : RfSeat) (c : RfCommand) : Prop where
  wc : if s.pc.order≤0 then s.wcReg=c.wc else s.wc=c.wc
  cma : if s.pc.order≤1 then s.cmaReg=c.cma else s.cma=c.cma
  xm : if s.pc.order≤2 then s.dcs.xm=c.xm else s.xm=c.xm
  dar : if s.pc.order≤3 then s.darReg=c.dar else s.dar=c.dar
  ta : if s.pc.order≤4 then s.dae.ta=c.ta else s.ta=c.ta
  da : if s.pc.order≤5 then s.dae.da=c.da else s.da=c.da
  fr : s.pc.order≤9 → s.dcs.fr=c.function

theorem Standing.wordCount (h : s.Standing c) (ho : 6 ≤ s.pc.order) : s.wordCount=c.count := by
  have hw := h.wc
  rw [if_neg (by omega)] at hw
  unfold RfSeat.wordCount RfCommand.count
  rw [hw]

theorem Standing.currentAddress (h : s.Standing c) (ho : 6 ≤ s.pc.order) : s.currentAddress=c.address := by
  have ha := h.cma
  have hx := h.xm
  rw [if_neg (by omega)] at ha hx
  unfold RfSeat.currentAddress RfCommand.address
  rw [ha,hx]

theorem Standing.currentDiskAddress (h : s.Standing c) (ho : 6 ≤ s.pc.order) : s.currentDiskAddress=c.disk := by
  have hd := h.dar
  have ht := h.ta
  have ha := h.da
  rw [if_neg (by omega)] at hd ht ha
  unfold RfSeat.currentDiskAddress RfCommand.disk
  rw [hd,ht,ha]

def Fetched (s : RfSeat) (c : RfCommand) : Prop :=
  s.buffer.length=c.count ∧ .did s.id (.fromDisk c.disk s.buffer)∈s.docket

def Progress (s : RfSeat) (c : RfCommand) : RfPc → Prop
  | .testCheck => c.function≠.read
  | .diskRead => c.function=.read ∨ c.function=.writeCheck
  | .testAgain => (c.function=.read ∨ c.function=.writeCheck) ∧ s.Fetched c
  | .memoryWrite => c.function=.read ∧ s.Fetched c
  | .memoryCheck => c.function=.writeCheck ∧ s.Fetched c
  | .memoryRead => c.function=.write
  | .diskWrite => c.function=.write ∧ s.buffer.length=c.count ∧
      .did s.id (.fromMemory c.address s.buffer)∈s.docket
  | .raise .wce => Complete s.docket s.id c
  | .dbr | .testInhibit | .xm | .updateXm _ | .ta | .da | .updateDa _ | .wc | .wait | .finish =>
    Reported s.docket s.id ∨ Complete s.docket s.id c
  | .idle | .readWc | .readCma | .readXm | .readDar | .readTa | .readDa | .testRead | .raise _
  | .finishDae _ | .finishDcs _ | .testIe | .interrupt => True

theorem progress_late {p : RfPc} (h : p.late) :
    s.Progress c p ↔ Reported s.docket s.id ∨ Complete s.docket s.id c := by
  cases p <;> first | exact Iff.rfl | cases h

/-- The command is open, and RDY is clear for it. -/
structure Engaged (s : RfSeat) (i : Nat) (c : RfCommand) : Prop where
  isOpen : s.docket.Open i c
  function : c.function≠.nop
  rdy : s.dcs.rdy=false
  standing : s.Standing c

/-- The worker is not through with a command that a reset has overtaken. -/
structure Overtaken (s : RfSeat) : Prop where
  late : s.pc.late=true
  cancelled : .cancelled s.id∈s.docket
  finished : .finished s.id∉s.docket
  below : s.id<s.commands
  ie : s.dcs.ie=false

def Quiet (s : RfSeat) : Prop := s.newCommandReady=false ∧ (s.pc.working=true → s.pc.late=true)

def AtRest (s : RfSeat) : Prop := s.pc=.idle ∧ s.newCommandReady=false

def RegOk (s : RfSeat) : RfReg → Prop
  | .testClear => s.dcs.diskClear=true → s.Quiet
  | .resetRegisters _ | .resetDcs _ | .resetDae _ => s.Quiet
  | .resetRdy _ => s.Quiet ∧ ∀ i c,¬s.docket.Open i c
  | .testFunction => s.AtRest
  | .clearRdy => s.AtRest ∧ s.dcs.fr≠.nop
  | .clearErr => s.AtRest ∧ s.dcs.fr≠.nop ∧ s.dcs.rdy=false
  | .idle | .testGo | .lock | .clearGo | .clearWce | .testRdy | .update _ => True

/-- The books are kept, and the two threads agree about the command under way. -/
structure Lives (s : RfSeat) : Prop where
  books : Books s.docket s.commands
  pending : s.newCommandReady=true → s.pc=.idle ∧ ∃ c,s.Engaged s.newId c
  working : s.pc.working=true → (∃ c,s.Engaged s.id c ∧ s.Progress c s.pc) ∨ s.Overtaken
  only : ∀ i c,s.docket.Open i c →
    (s.newCommandReady=true ∧ i=s.newId) ∨ (s.pc.working=true ∧ i=s.id)
  after : s.pc.holdsMutex=true → s.id<s.commands ∧
    (.cancelled s.id∈s.docket → s.dcs.ie=false ∧ s.pc≠.interrupt)
  mutex : s.reg.holdsMutex=true → s.pc.holdsMutex=false
  regOk : s.RegOk s.reg

theorem Lives.busy (h : s.Lives) {i : Nat} {c : RfCommand} (ho : s.docket.Open i c) : s.dcs.rdy=false := by
  rcases h.only i c ho with ⟨hn,rfl⟩ | ⟨hw,rfl⟩
  · obtain ⟨-,c',he⟩ := h.pending hn
    exact he.rdy
  · rcases h.working hw with ⟨c',he,-⟩ | hov
    · exact he.rdy
    · exact (ho.not_cancelled hov.cancelled).elim

theorem Lives.start (drum : Nat → UInt16) : (start drum).Lives where
  books := Books.nil
  pending h := by cases h
  working h := by cases h
  only _ _ ho := by cases ho.1
  after h := by cases h
  mutex h := by cases h
  regOk := trivial

/-- What a step leaves that does nothing for the docket -/
structure Same (s u : RfSeat) : Prop where
  docket : u.docket=s.docket
  newCommandReady : u.newCommandReady=s.newCommandReady
  newId : u.newId=s.newId
  commands : u.commands=s.commands
  reg : u.reg=s.reg
  id : u.id=s.id
  rdy : u.dcs.rdy=s.dcs.rdy
  ie : u.dcs.ie=s.dcs.ie
  diskClear : u.dcs.diskClear=s.dcs.diskClear
  fr : u.dcs.fr=s.dcs.fr

-- The values stand for sums that the kernel would compute in comparing the records.
theorem Same.xm (xm cma : Nat) (p : RfPc) :
    Same s { s with dcs := { s.dcs with xm := xm },cmaReg := cma,pc := p } := by
  constructor <;> rfl

theorem Lives.none_pending (h : s.Lives) (hp : s.pc≠.idle) : s.newCommandReady=false := by
  cases hn : s.newCommandReady with
  | false => rfl
  | true => exact (hp (h.pending hn).1).elim

theorem ne_idle_of_working (h : s.pc.working) : s.pc≠.idle := fun hp => by
  rw [hp] at h
  cases h

theorem ne_idle_of_holdsMutex (h : s.pc.holdsMutex) : s.pc≠.idle := fun hp => by
  rw [hp] at h
  cases h

/-- What the register thread knows it still knows when the worker, not at rest, goes on. -/
theorem RegOk.work {r : RfReg} (h : s.RegOk r) (hp : s.pc≠.idle)
    (hq : s.Quiet → u.Quiet) (ho : ∀ i c,u.docket.Open i c → s.docket.Open i c)
    (hd : u.dcs.diskClear=s.dcs.diskClear) : u.RegOk r := by
  have hrest : s.AtRest → False := fun hx => hp hx.1
  cases r with
  | testClear => exact fun hx => hq (h (hd ▸ hx))
  | resetRegisters go | resetDcs go | resetDae go => exact hq h
  | resetRdy go => exact ⟨hq h.1,fun i c hx => h.2 i c (ho i c hx)⟩
  | testFunction => exact (hrest h).elim
  | clearRdy | clearErr => exact (hrest h.1).elim
  | idle | testGo | lock | clearGo | clearWce | testRdy | update => exact trivial

theorem Lives.goesOn (h : s.Lives) (hs : Same s u) (hp : s.pc.working) (hu : u.pc.working)
    (hm : u.pc.holdsMutex=false) (hl : s.pc.late → u.pc.late)
    (hst : ∀ c,s.Engaged s.id c → s.Progress c s.pc → u.Standing c ∧ u.Progress c u.pc) : u.Lives := by
  have hne := ne_idle_of_working hp
  have hn := h.none_pending hne
  constructor
  case books =>
    rw [hs.docket,hs.commands]
    exact h.books
  case pending =>
    intro hx
    rw [hs.newCommandReady,hn] at hx
    cases hx
  case working =>
    intro _
    rcases h.working hp with ⟨c,he,hpr⟩ | ho
    · obtain ⟨h1,h2⟩ := hst c he hpr
      exact .inl ⟨c,⟨by rw [hs.docket,hs.id]; exact he.isOpen,he.function,hs.rdy ▸ he.rdy,h1⟩,h2⟩
    · exact .inr ⟨hl ho.late,by rw [hs.docket,hs.id]; exact ho.cancelled,
        by rw [hs.docket,hs.id]; exact ho.finished,by rw [hs.id,hs.commands]; exact ho.below,hs.ie ▸ ho.ie⟩
  case only =>
    intro i c ho
    rw [hs.docket] at ho
    rcases h.only i c ho with ⟨hx,-⟩ | ⟨-,rfl⟩
    · rw [hn] at hx
      cases hx
    · exact .inr ⟨hu,hs.id.symm⟩
  case after =>
    intro hx
    rw [hm] at hx
    cases hx
  case mutex => exact fun _ => hm
  case regOk =>
    rw [hs.reg]
    refine h.regOk.work hne (fun hq => ⟨by rw [hs.newCommandReady]; exact hn,fun _ => hl (hq.2 hp)⟩)
      (fun i c ho => ?_) hs.diskClear
    rw [hs.docket] at ho
    exact ho

theorem Lives.finishing (h : s.Lives) (hs : Same s u) (hp : s.pc.holdsMutex)
    (hu : u.pc=.idle ∨ u.pc.holdsMutex) (hi : u.pc=.interrupt → s.dcs.ie) : u.Lives := by
  have hne := ne_idle_of_holdsMutex hp
  have hn := h.none_pending hne
  have hsw : s.pc.working=false := by
    cases hpc : s.pc <;> rw [hpc] at hp <;> first | rfl | cases hp
  have huw : u.pc.working=false := by
    rcases hu with hu | hu
    · rw [hu]
      rfl
    · cases hpc : u.pc <;> rw [hpc] at hu <;> first | rfl | cases hu
  have hreg : s.reg.holdsMutex=false := by
    cases hr : s.reg.holdsMutex with
    | false => rfl
    | true => exact absurd hp (by rw [h.mutex hr]; decide)
  have hno : ∀ i c,¬s.docket.Open i c := by
    intro i c ho
    rcases h.only i c ho with ⟨hx,-⟩ | ⟨hx,-⟩
    · rw [hn] at hx
      cases hx
    · rw [hsw] at hx
      cases hx
  constructor
  case books =>
    rw [hs.docket,hs.commands]
    exact h.books
  case pending =>
    intro hx
    rw [hs.newCommandReady,hn] at hx
    cases hx
  case working =>
    intro hx
    rw [huw] at hx
    cases hx
  case only =>
    intro i c ho
    rw [hs.docket] at ho
    exact (hno i c ho).elim
  case after =>
    intro _
    obtain ⟨hb,hc⟩ := h.after hp
    rw [hs.docket,hs.id,hs.commands]
    refine ⟨hb,fun hx => ?_⟩
    obtain ⟨hie,-⟩ := hc hx
    refine ⟨hs.ie ▸ hie,fun hint => ?_⟩
    rw [hi hint] at hie
    cases hie
  case mutex =>
    intro hx
    rw [hs.reg,hreg] at hx
    cases hx
  case regOk =>
    rw [hs.reg]
    refine h.regOk.work hne (fun _ => ⟨by rw [hs.newCommandReady]; exact hn,fun hx => ?_⟩) (fun i c ho => ?_)
      hs.diskClear
    · rw [huw] at hx
      cases hx
    · rw [hs.docket] at ho
      exact ho

theorem RfPc.facts_of_late {p : RfPc} (h : p.late) : p.working=true ∧ p.holdsMutex=false ∧ p.order=10 := by
  cases p <;> first | exact ⟨rfl,rfl,rfl⟩ | cases h

theorem RfPc.facts (p : RfPc) : p=.idle ∨ p.working ∨ p.holdsMutex=true := by
  cases p <;> simp [RfPc.working,RfPc.holdsMutex]

theorem Standing.read (h : s.Standing c) (ho : 6 ≤ s.pc.order) (hu : s.pc.order≤u.pc.order)
    (hf : u.pc.order≤9 → u.dcs.fr=s.dcs.fr)
    (hx : u.wc=s.wc ∧ u.cma=s.cma ∧ u.xm=s.xm ∧ u.dar=s.dar ∧ u.ta=s.ta ∧ u.da=s.da) : u.Standing c := by
  obtain ⟨h1,h2,h3,h4,h5,h6⟩ := hx
  obtain ⟨g1,g2,g3,g4,g5,g6,g7⟩ := h
  rw [if_neg (by omega)] at g1 g2 g3 g4 g5 g6
  constructor
  case fr => exact fun hle => (hf hle).trans (g7 (by omega))
  all_goals
    rw [if_neg (by omega)]
    simp only [*]

theorem Standing.readOn (h : s.Standing c) (hs : s.pc.order=10) (hu : u.pc.order=10)
    (hx : u.wc=s.wc ∧ u.cma=s.cma ∧ u.xm=s.xm ∧ u.dar=s.dar ∧ u.ta=s.ta ∧ u.da=s.da) : u.Standing c :=
  h.read (by omega) (by omega) (fun _ => by omega) hx

theorem Lives.late (h : s.Lives) (hs : Same s u) (hp : s.pc.late) (hu : u.pc.late)
    (hx : u.wc=s.wc ∧ u.cma=s.cma ∧ u.xm=s.xm ∧ u.dar=s.dar ∧ u.ta=s.ta ∧ u.da=s.da) : u.Lives := by
  obtain ⟨hpw,-,hpo⟩ := RfPc.facts_of_late hp
  obtain ⟨huw,hum,huo⟩ := RfPc.facts_of_late hu
  refine h.goesOn hs hpw huw hum (fun _ => hu) fun c he hpr => ⟨he.standing.read (by omega) (by omega) (fun _ => by omega) hx,?_⟩
  rw [progress_late hp] at hpr
  rw [progress_late hu,hs.docket,hs.id]
  exact hpr

theorem Lives.note (h : s.Lives) (hne : s.pc≠.idle) (hi : s.id<s.commands)
    (hno : .cancelled s.id∉s.docket) (hfit : ∀ c,.accepted s.id c∈s.docket → Fits c e) : (s.note e).Lives := by
  have hsub : s.docket ⊆ (s.note e).docket := subset_cons_self _ _
  have hopen : ∀ i c,(s.note e).docket.Open i c → s.docket.Open i c := by
    intro i c ho
    refine ⟨?_,fun hx => ho.2 (Docket.over_did.mpr hx)⟩
    rcases mem_cons.mp ho.1 with hx | hx
    · cases hx
    · exact hx
  constructor
  case books => exact h.books.did hi hno hfit
  case pending => exact fun hx => absurd (h.pending hx).1 hne
  case working =>
    intro hw
    rcases h.working hw with ⟨c,he,hpr⟩ | ho
    · refine .inl ⟨c,⟨he.isOpen.did e,he.function,he.rdy,?_⟩,?_⟩
      · obtain ⟨h1,h2,h3,h4,h5,h6,h7⟩ := he.standing
        exact ⟨h1,h2,h3,h4,h5,h6,h7⟩
      · show (s.note e).Progress c s.pc
        cases hpc : s.pc with
        | testAgain | memoryWrite | memoryCheck | diskWrite =>
          rw [hpc] at hpr
          exact ⟨hpr.1,hpr.2.1,hsub hpr.2.2⟩
        | raise f =>
          rw [hpc] at hpr
          cases f with
          | wce => exact Complete.mono hpr hsub
          | ned | nem => exact trivial
        | testCheck | diskRead | memoryRead =>
          rw [hpc] at hpr
          exact hpr
        | dbr | testInhibit | xm | updateXm | ta | da | updateDa | wc | wait | finish =>
          rw [hpc] at hpr
          exact Or.imp (fun hx => Reported.mono hx hsub) (fun hx => Complete.mono hx hsub) hpr
        | idle | readWc | readCma | readXm | readDar | readTa | readDa | testRead | finishDae | finishDcs
        | testIe | interrupt => exact trivial
    · exact (hno ho.cancelled).elim
  case only => exact fun i c ho => h.only i c (hopen i c ho)
  case after =>
    intro hm
    refine ⟨hi,fun hx => ?_⟩
    rcases mem_cons.mp hx with hx | hx
    · cases hx
    · exact (hno hx).elim
  case mutex => exact h.mutex
  case regOk => exact h.regOk.work hne (fun hq => hq) hopen rfl

theorem Lives.engaged (h : s.Lives) (hp : s.pc.working) (hl : s.pc.late=false) :
    ∃ c,s.Engaged s.id c ∧ s.Progress c s.pc := by
  rcases h.working hp with he | ho
  · exact he
  · rw [ho.late] at hl
    cases hl

theorem Lives.effect (h : s.Lives) (hp : s.pc.working) (hl : s.pc.late=false)
    (hs : Same (s.note e) u) (hu : u.pc.working) (hm : u.pc.holdsMutex=false)
    (hfit : ∀ c,s.Engaged s.id c → s.Progress c s.pc → Fits c e)
    (hst : ∀ c,s.Engaged s.id c → s.Progress c s.pc → u.Standing c ∧ u.Progress c u.pc) : u.Lives := by
  obtain ⟨c,he,hpr⟩ := h.engaged hp hl
  have hn := h.note (e := e) (ne_idle_of_working hp) (he.isOpen.lt h.books.below) he.isOpen.not_cancelled
    fun c' hc' => h.books.unique _ c c' he.isOpen.1 hc' ▸ hfit c he hpr
  refine hn.goesOn hs hp hu hm (fun hx => ?_) fun c' he' _ => ?_
  · rw [show (s.note e).pc=s.pc from rfl,hl] at hx
    cases hx
  · have hc' : .accepted s.id c'∈s.docket := by
      rcases mem_cons.mp he'.isOpen.1 with hx | hx
      · cases hx
      · exact hx
    obtain rfl := h.books.unique _ c c' he.isOpen.1 hc'
    exact hst c he hpr

theorem Lives.early (h : s.Lives) (hp : s.pc.working) (hl : s.pc.late=false)
    (hs : Same s u) (hu : u.pc.working) (hm : u.pc.holdsMutex=false)
    (hst : ∀ c,s.Engaged s.id c → s.Progress c s.pc → u.Standing c ∧ u.Progress c u.pc) : u.Lives :=
  h.goesOn hs hp hu hm (fun hx => by rw [hl] at hx; cases hx) hst

theorem Lives.take (h : s.Lives) (hn : s.newCommandReady) :
    { s with newCommandReady := false,id := s.newId,pc := .readWc }.Lives := by
  obtain ⟨hpc,c,he⟩ := h.pending hn
  have hst := he.standing
  constructor
  case books => exact h.books
  case pending => exact fun hx => by cases hx
  case working =>
    refine fun _ => .inl ⟨c,⟨he.isOpen,he.function,he.rdy,?_⟩,trivial⟩
    obtain ⟨h1,h2,h3,h4,h5,h6,h7⟩ := hst
    rw [hpc] at h1 h2 h3 h4 h5 h6 h7
    exact ⟨h1,h2,h3,h4,h5,h6,h7⟩
  case only =>
    intro i c' ho
    rcases h.only i c' ho with ⟨-,rfl⟩ | ⟨hw,-⟩
    · exact .inr ⟨rfl,rfl⟩
    · rw [hpc] at hw
      cases hw
  case after => exact fun hx => by cases hx
  case mutex => exact fun _ => rfl
  case regOk =>
    have hno : ∀ {P : Prop},s.newCommandReady=false → P := fun hx => by
      rw [hn] at hx
      cases hx
    have hr := h.regOk
    show RegOk _ s.reg
    cases hreg : s.reg with
    | testClear =>
      rw [hreg] at hr
      exact fun hx => hno (hr hx).1
    | resetRegisters go | resetDcs go | resetDae go =>
      rw [hreg] at hr
      exact hno hr.1
    | resetRdy go =>
      rw [hreg] at hr
      exact hno hr.1.1
    | testFunction =>
      rw [hreg] at hr
      exact hno hr.2
    | clearRdy | clearErr =>
      rw [hreg] at hr
      exact hno hr.1.2
    | idle | testGo | lock | clearGo | clearWce | testRdy | update => exact trivial

theorem Lives.finish (h : s.Lives) (hp : s.pc=.finish) (hr : s.reg.holdsMutex=false) :
    { s with dcs := { s.dcs with rdy := true },pc := .finishDae .daeValue,
             docket := .finished s.id::s.docket }.Lives := by
  have hw : s.pc.working=true := by
    rw [hp]
    rfl
  have hl : s.pc.late=true := by
    rw [hp]
    rfl
  have hne := ne_idle_of_working hw
  have hcase : s.id<s.commands ∧ .finished s.id∉s.docket ∧ (∀ c,.accepted s.id c∈s.docket →
        .cancelled s.id∈s.docket ∨ Reported s.docket s.id ∨ Complete s.docket s.id c) ∧
      (.cancelled s.id∈s.docket → s.dcs.ie=false) := by
    rcases h.working hw with ⟨c,he,hpr⟩ | ho
    · refine ⟨he.isOpen.lt h.books.below,he.isOpen.not_finished,fun c' hc' => .inr ?_,fun hx => ?_⟩
      · obtain rfl := h.books.unique _ c c' he.isOpen.1 hc'
        exact (progress_late hl).mp hpr
      · exact (he.isOpen.not_cancelled hx).elim
    · exact ⟨ho.below,ho.finished,fun _ _ => .inl ho.cancelled,fun _ => ho.ie⟩
  obtain ⟨hi,hno,hdone,hie⟩ := hcase
  have hopen : ∀ i c,¬Docket.Open (.finished s.id::s.docket) i c := by
    intro i c ho
    have ho' : s.docket.Open i c := by
      refine ⟨?_,fun hx => ho.2 (Docket.over_finished.mpr (.inr hx))⟩
      rcases mem_cons.mp ho.1 with hx | hx
      · cases hx
      · exact hx
    rcases h.only i c ho' with ⟨hx,-⟩ | ⟨-,rfl⟩
    · exact hne (h.pending hx).1
    · exact ho.2 (Docket.over_finished.mpr (.inl rfl))
  constructor
  case books => exact h.books.finish hi hno hdone
  case pending => exact fun hx => absurd (h.pending hx).1 hne
  case working => exact fun hx => by cases hx
  case only => exact fun i c ho => (hopen i c ho).elim
  case after =>
    refine fun _ => ⟨hi,fun hx => ?_⟩
    rcases mem_cons.mp hx with hx | hx
    · cases hx
    · exact ⟨hie hx,fun hint => by cases hint⟩
  case mutex =>
    intro hx
    rw [show s.reg.holdsMutex=false from hr] at hx
    cases hx
  case regOk =>
    exact h.regOk.work hne (fun hq => ⟨hq.1,fun hx => by cases hx⟩) (fun i c ho => (hopen i c ho).elim) rfl

theorem length_drumWords : s.drumWords.length=s.wordCount := by
  unfold drumWords
  rw [length_map,length_range]

theorem length_fit (words : List UInt16) : (s.fit words).length=s.wordCount := by
  unfold fit
  rw [length_append,length_take,length_replicate]
  omega

theorem update_same (u : RfUpdate) (p : RfPc) : Same s { (s.update u).1 with pc := p } := by
  cases u <;> constructor <;> rfl

theorem update_locals (u : RfUpdate) (p : RfPc) :
    let t : RfSeat := { (s.update u).1 with pc := p }
    t.wc=s.wc ∧ t.cma=s.cma ∧ t.xm=s.xm ∧ t.dar=s.dar ∧ t.ta=s.ta ∧ t.da=s.da := by
  cases u <;> exact ⟨rfl,rfl,rfl,rfl,rfl,rfl⟩

theorem workerUpdate_pc (u : RfUpdate) (go : RfUpdate → RfPc) (done : RfPc) :
    (∃ v,(s.workerUpdate u go done).pc=go v) ∨ (s.workerUpdate u go done).pc=done := by
  cases u <;> first | exact .inl ⟨_,rfl⟩ | exact .inr rfl

theorem Lives.updateLate (h : s.Lives) (u : RfUpdate) (go : RfUpdate → RfPc) (done : RfPc)
    (hp : s.pc.late) (hgo : ∀ v,(go v).late) (hdone : done.late) : (s.workerUpdate u go done).Lives := by
  refine h.late (update_same u _) hp ?_ (update_locals u _)
  rcases workerUpdate_pc (s := s) u go done with ⟨v,hv⟩ | hv
  · rw [hv]
    exact hgo v
  · rw [hv]
    exact hdone

theorem Lives.updateFinish (h : s.Lives) (u : RfUpdate) (go : RfUpdate → RfPc) (done : RfPc)
    (hp : s.pc.holdsMutex) (hgo : ∀ v,(go v).holdsMutex ∧ go v≠.interrupt)
    (hdone : done.holdsMutex ∧ done≠.interrupt) : (s.workerUpdate u go done).Lives := by
  rcases workerUpdate_pc (s := s) u go done with ⟨v,hv⟩ | hv
  · refine h.finishing (update_same u _) hp (.inr ?_) fun hi => ?_
    · rw [hv]
      exact (hgo v).1
    · rw [hv] at hi
      exact ((hgo v).2 hi).elim
  · refine h.finishing (update_same u _) hp (.inr ?_) fun hi => ?_
    · rw [hv]
      exact hdone.1
    · rw [hv] at hi
      exact (hdone.2 hi).elim

theorem Lives.tested (h : s.Lives) (q : RfPc) (hp : 6 ≤ s.pc.order ∧ s.pc.working ∧ s.pc.late=false)
    (hq : s.pc.order≤q.order ∧ q.working ∧ q.holdsMutex=false)
    (hpr : ∀ c,s.Engaged s.id c → s.Progress c s.pc → s.Progress c q) : { s with pc := q }.Lives :=
  h.early hp.2.1 hp.2.2 (by constructor <;> rfl) hq.2.1 hq.2.2 fun c he hx =>
    ⟨he.standing.read hp.1 hq.1 (fun _ => rfl) ⟨rfl,rfl,rfl,rfl,rfl,rfl⟩,hpr c he hx⟩

theorem Lives.diskRead (h : s.Lives) (hp : s.pc=.diskRead) : (s.diskRead).Lives := by
  unfold RfSeat.diskRead
  split
  · refine h.effect (e := .fromDisk s.currentDiskAddress s.drumWords) (hp ▸ rfl) (hp ▸ rfl)
      (by constructor <;> rfl) rfl rfl (fun c he hpr => ?_) fun c he hpr => ?_
    · rw [hp] at hpr
      refine ⟨hpr,he.standing.currentDiskAddress (by rw [hp]; decide),?_⟩
      rw [length_drumWords]
      exact he.standing.wordCount (by rw [hp]; decide)
    · rw [hp] at hpr
      have hd := he.standing.currentDiskAddress (by rw [hp]; decide)
      have hw := he.standing.wordCount (by rw [hp]; decide)
      refine ⟨he.standing.read (by rw [hp]; decide)
        (by rw [hp]; exact Nat.le_of_ble_eq_true rfl) (fun _ => rfl)
        ⟨rfl,rfl,rfl,rfl,rfl,rfl⟩,hpr,?_,?_⟩
      · exact length_drumWords.trans hw
      · rw [← hd]
        exact mem_cons_self
  · refine h.early (hp ▸ rfl) (hp ▸ rfl) (by constructor <;> rfl) rfl rfl fun c he _ => ⟨?_,trivial⟩
    exact he.standing.read (by rw [hp]; decide)
        (by rw [hp]; exact Nat.le_of_ble_eq_true rfl) (fun _ => rfl)
      ⟨rfl,rfl,rfl,rfl,rfl,rfl⟩

theorem Lives.memoryWrite (h : s.Lives) (hp : s.pc=.memoryWrite) (addrSpace : Nat) (words : List UInt16) (ok : Bool) :
    (s.memoryWrite addrSpace words ok).Lives := by
  unfold RfSeat.memoryWrite
  split
  · exact h.early (hp ▸ rfl) (hp ▸ rfl) (by constructor <;> rfl) rfl rfl
      fun c he _ => ⟨he.standing.readOn (hp ▸ rfl) rfl ⟨rfl,rfl,rfl,rfl,rfl,rfl⟩,trivial⟩
  · split
    · refine h.effect (e := .toMemory s.currentAddress s.buffer) (hp ▸ rfl) (hp ▸ rfl)
        (by constructor <;> rfl) rfl rfl (fun c he hpr => ?_)
        fun c he hpr => ⟨he.standing.readOn (hp ▸ rfl) rfl ⟨rfl,rfl,rfl,rfl,rfl,rfl⟩,.inr ?_⟩
      · rw [hp] at hpr
        exact ⟨hpr.1,he.standing.currentAddress (by rw [hp]; decide),Nat.le_of_eq hpr.2.1⟩
      · rw [hp] at hpr
        have ha := he.standing.currentAddress (by rw [hp]; decide)
        unfold Complete
        rw [hpr.1]
        refine ⟨s.buffer,hpr.2.1,mem_cons_of_mem _ hpr.2.2,?_⟩
        rw [← ha]
        exact mem_cons_self
    · refine h.effect (e := .toMemory s.currentAddress (s.buffer.take words.length)) (hp ▸ rfl) (hp ▸ rfl)
        (by constructor <;> rfl) rfl rfl (fun c he hpr => ?_)
        fun c he _ => ⟨he.standing.readOn (hp ▸ rfl) rfl ⟨rfl,rfl,rfl,rfl,rfl,rfl⟩,trivial⟩
      rw [hp] at hpr
      refine ⟨hpr.1,he.standing.currentAddress (by rw [hp]; decide),?_⟩
      rw [length_take]
      exact Nat.le_trans (Nat.min_le_right _ _) (Nat.le_of_eq hpr.2.1)

theorem Lives.memoryCheck (h : s.Lives) (hp : s.pc=.memoryCheck) (addrSpace : Nat) (words : List UInt16) (ok : Bool) :
    (s.memoryCheck addrSpace words ok).Lives := by
  unfold RfSeat.memoryCheck
  split
  · exact h.early (hp ▸ rfl) (hp ▸ rfl) (by constructor <;> rfl) rfl rfl
      fun c he _ => ⟨he.standing.readOn (hp ▸ rfl) rfl ⟨rfl,rfl,rfl,rfl,rfl,rfl⟩,trivial⟩
  · have hlen {c : RfCommand} (he : s.Engaged s.id c) : (s.fit words).length=c.count := by
      rw [length_fit]
      exact he.standing.wordCount (by rw [hp]; decide)
    have hfits (c : RfCommand) (he : s.Engaged s.id c) (hpr : s.Progress c s.pc) :
        Fits c (.fromMemory s.currentAddress (s.fit words)) := by
      rw [hp] at hpr
      exact ⟨.inr hpr.1,he.standing.currentAddress (by rw [hp]; decide),hlen he⟩
    have hdone (c : RfCommand) (he : s.Engaged s.id c) (hpr : s.Progress c s.pc) :
        Complete (.did s.id (.fromMemory s.currentAddress (s.fit words))::s.docket) s.id c := by
      rw [hp] at hpr
      have ha := he.standing.currentAddress (by rw [hp]; decide)
      unfold Complete
      rw [hpr.1]
      refine ⟨s.buffer,s.fit words,hpr.2.1,hlen he,mem_cons_of_mem _ hpr.2.2,?_⟩
      rw [← ha]
      exact mem_cons_self
    split
    · exact h.effect (hp ▸ rfl) (hp ▸ rfl) (by constructor <;> rfl) rfl rfl hfits
        fun c he hpr => ⟨he.standing.readOn (hp ▸ rfl) rfl ⟨rfl,rfl,rfl,rfl,rfl,rfl⟩,.inr (hdone c he hpr)⟩
    · exact h.effect (hp ▸ rfl) (hp ▸ rfl) (by constructor <;> rfl) rfl rfl hfits
        fun c he hpr => ⟨he.standing.readOn (hp ▸ rfl) rfl ⟨rfl,rfl,rfl,rfl,rfl,rfl⟩,hdone c he hpr⟩

theorem Lives.memoryRead (h : s.Lives) (hp : s.pc=.memoryRead) (addrSpace : Nat) (words : List UInt16) (ok : Bool) :
    (s.memoryRead addrSpace words ok).Lives := by
  unfold RfSeat.memoryRead
  split
  · exact h.early (hp ▸ rfl) (hp ▸ rfl) (by constructor <;> rfl) rfl rfl
      fun c he _ => ⟨he.standing.readOn (hp ▸ rfl) rfl ⟨rfl,rfl,rfl,rfl,rfl,rfl⟩,trivial⟩
  · have hlen {c : RfCommand} (he : s.Engaged s.id c) : (s.fit words).length=c.count := by
      rw [length_fit]
      exact he.standing.wordCount (by rw [hp]; decide)
    refine h.effect (e := .fromMemory s.currentAddress (s.fit words)) (hp ▸ rfl) (hp ▸ rfl)
      (by constructor <;> rfl) rfl rfl (fun c he hpr => ?_)
      fun c he hpr => ⟨he.standing.readOn (hp ▸ rfl) rfl ⟨rfl,rfl,rfl,rfl,rfl,rfl⟩,?_⟩
    · rw [hp] at hpr
      exact ⟨.inl hpr,he.standing.currentAddress (by rw [hp]; decide),hlen he⟩
    · rw [hp] at hpr
      have ha := he.standing.currentAddress (by rw [hp]; decide)
      refine ⟨hpr,hlen he,?_⟩
      rw [← ha]
      exact mem_cons_self

theorem Lives.diskWrite (h : s.Lives) (hp : s.pc=.diskWrite) : (s.diskWrite).Lives := by
  have hfits (c : RfCommand) (he : s.Engaged s.id c) (hpr : s.Progress c s.pc) :
      Fits c (.toDisk s.currentDiskAddress (s.buffer.take s.clipped)) := by
    rw [hp] at hpr
    refine ⟨hpr.1,he.standing.currentDiskAddress (by rw [hp]; decide),?_⟩
    rw [length_take]
    exact Nat.le_trans (Nat.min_le_right _ _) (Nat.le_of_eq hpr.2.1)
  unfold RfSeat.diskWrite RfSeat.note
  by_cases hcl : s.clipped=s.wordCount
  · rw [if_pos hcl]
    refine h.effect (hp ▸ rfl) (hp ▸ rfl) (by constructor <;> rfl) rfl rfl hfits
      fun c he hpr => ⟨he.standing.readOn (hp ▸ rfl) rfl ⟨rfl,rfl,rfl,rfl,rfl,rfl⟩,.inr ?_⟩
    rw [hp] at hpr
    have hd := he.standing.currentDiskAddress (by rw [hp]; decide)
    have hw := he.standing.wordCount (by rw [hp]; decide)
    have htake : s.buffer.take s.clipped=s.buffer := by
      rw [hcl,hw,← hpr.2.1]
      exact take_length
    unfold Complete
    rw [hpr.1]
    refine ⟨s.buffer,hpr.2.1,mem_cons_of_mem _ hpr.2.2,?_⟩
    rw [← hd]
    show _∈Entry.did s.id (.toDisk s.currentDiskAddress (s.buffer.take s.clipped))::s.docket
    rw [htake]
    exact mem_cons_self
  · rw [if_neg hcl]
    exact h.effect (hp ▸ rfl) (hp ▸ rfl) (by constructor <;> rfl) rfl rfl hfits
      fun c he _ => ⟨he.standing.readOn (hp ▸ rfl) rfl ⟨rfl,rfl,rfl,rfl,rfl,rfl⟩,trivial⟩

variable {value : Nat} {addrSpace : Nat}

theorem Lives.workerStep (h : s.Lives) {words : List UInt16} {ok : Bool}
    (hs : s.workerStep addrSpace words ok=some u) : u.Lives := by
  have hfr {c : RfCommand} (he : s.Engaged s.id c) (ho : s.pc.order≤9) : s.dcs.fr=c.function :=
    he.standing.fr ho
  cases hp : s.pc <;> simp only [RfSeat.workerStep,hp,some.injEq] at hs
  case idle =>
    split at hs
    · rename_i hn
      obtain rfl := some.inj hs
      exact h.take hn.1
    · cases hs
  case readWc | readCma | readXm | readDar | readTa | readDa =>
    subst hs
    refine h.early (hp ▸ rfl) (hp ▸ rfl) (by constructor <;> rfl) rfl rfl fun c he _ => ⟨?_,trivial⟩
    obtain ⟨h1,h2,h3,h4,h5,h6,h7⟩ := he.standing
    rw [hp] at h1 h2 h3 h4 h5 h6 h7
    exact ⟨h1,h2,h3,h4,h5,h6,fun _ => h7 (by decide)⟩
  case testRead =>
    have hf {c : RfCommand} (he : s.Engaged s.id c) := hfr he (by rw [hp]; decide)
    split at hs <;> rename_i hr <;> subst hs
    · exact h.tested _ (by rw [hp]; decide) (by rw [hp]; decide) fun c he _ => .inl ((hf he).symm.trans hr)
    · exact h.tested _ (by rw [hp]; decide) (by rw [hp]; decide) fun c he _ => fun hc => hr ((hf he).trans hc)
  case testCheck =>
    have hf {c : RfCommand} (he : s.Engaged s.id c) := hfr he (by rw [hp]; decide)
    split at hs <;> rename_i hr <;> subst hs
    · exact h.tested _ (by rw [hp]; decide) (by rw [hp]; decide) fun c he _ => .inr ((hf he).symm.trans hr)
    · refine h.tested _ (by rw [hp]; decide) (by rw [hp]; decide) fun c he hpr => ?_
      rw [hp] at hpr
      have hnr : c.function≠.read := hpr
      have hnc : c.function≠.writeCheck := fun hx => hr ((hf he).trans hx)
      have hnn := he.function
      show c.function=.write
      cases hc : c.function with
      | write => rfl
      | nop => exact (hnn hc).elim
      | read => exact (hnr hc).elim
      | writeCheck => exact (hnc hc).elim
  case diskRead =>
    subst hs
    exact h.diskRead hp
  case testAgain =>
    have hf {c : RfCommand} (he : s.Engaged s.id c) := hfr he (by rw [hp]; decide)
    split at hs <;> rename_i hr <;> subst hs
    · refine h.tested _ (by rw [hp]; decide) (by rw [hp]; decide) fun c he hpr => ?_
      rw [hp] at hpr
      exact ⟨(hf he).symm.trans hr,hpr.2⟩
    · refine h.tested _ (by rw [hp]; decide) (by rw [hp]; decide) fun c he hpr => ?_
      rw [hp] at hpr
      exact ⟨hpr.1.resolve_left fun hx => hr ((hf he).trans hx),hpr.2⟩
  case memoryWrite =>
    subst hs
    exact h.memoryWrite hp _ _ _
  case memoryCheck =>
    subst hs
    exact h.memoryCheck hp _ _ _
  case memoryRead =>
    subst hs
    exact h.memoryRead hp _ _ _
  case diskWrite =>
    subst hs
    exact h.diskWrite hp
  case raise f =>
    subst hs
    refine h.effect (e := .raised f) (hp ▸ rfl) (hp ▸ rfl) (by constructor <;> rfl) rfl rfl
      (fun _ _ _ => trivial) fun c he hpr => ⟨?_,?_⟩
    · exact he.standing.read (by rw [hp]; exact Nat.le_of_ble_eq_true rfl) (by rw [hp]; exact Nat.le_refl 10)
        (fun hx => absurd hx (by show ¬10≤9; decide))
        ⟨rfl,rfl,rfl,rfl,rfl,rfl⟩
    · cases f with
      | ned => exact .inl (.inl mem_cons_self)
      | nem => exact .inl (.inr mem_cons_self)
      | wce =>
        rw [hp] at hpr
        exact .inr (Complete.mono hpr (subset_cons_self _ _))
  case dbr | ta | da | wc | wait =>
    subst hs
    exact h.late (by constructor <;> rfl) (hp ▸ rfl) rfl ⟨rfl,rfl,rfl,rfl,rfl,rfl⟩
  case testInhibit =>
    subst hs
    exact h.late (by constructor <;> rfl) (hp ▸ rfl) (by dsimp only; split <;> rfl) ⟨rfl,rfl,rfl,rfl,rfl,rfl⟩
  case xm =>
    subst hs
    exact h.late (.xm _ _ _) (hp ▸ rfl) rfl ⟨rfl,rfl,rfl,rfl,rfl,rfl⟩
  case updateXm v | updateDa v =>
    subst hs
    exact h.updateLate v _ _ (hp ▸ rfl) (fun _ => rfl) rfl
  case finish =>
    split at hs
    · cases hs
    · rename_i hr
      obtain rfl := some.inj hs
      exact h.finish hp (by simpa using hr)
  case finishDae v | finishDcs v =>
    subst hs
    exact h.updateFinish v _ _ (hp ▸ rfl) (fun _ => ⟨rfl,by simp⟩) ⟨rfl,by simp⟩
  case testIe =>
    by_cases hie : s.dcs.ie=true
    · rw [if_pos hie] at hs
      subst hs
      exact h.finishing (by constructor <;> rfl) (hp ▸ rfl) (.inr rfl) fun _ => hie
    · rw [if_neg hie] at hs
      subst hs
      exact h.finishing (by constructor <;> rfl) (hp ▸ rfl) (.inl rfl) fun hx => by cases hx
  case interrupt =>
    subst hs
    obtain ⟨hi,hc⟩ := h.after (hp ▸ rfl)
    have hno : .cancelled s.id∉s.docket := fun hx => (hc hx).2 hp
    have hn := h.note (e := .interrupt) (by rw [hp]; simp) hi hno fun _ _ => trivial
    exact hn.finishing (s := s.note .interrupt) (by constructor <;> rfl) (by
      show s.pc.holdsMutex=true
      rw [hp]
      rfl) (.inl rfl) fun hx => by cases hx

theorem Lives.reg (h : s.Lives) (hd : u.docket=s.docket) (hn : u.newCommandReady=s.newCommandReady)
    (hnid : u.newId=s.newId) (hc : u.commands=s.commands) (hpc : u.pc=s.pc) (hid : u.id=s.id)
    (hb : u.buffer=s.buffer) (hrdy : ∀ i c,s.docket.Open i c → u.dcs.rdy=false)
    (hie : s.pc≠.idle → .cancelled s.id∈s.docket → u.dcs.ie=false)
    (hst : ∀ i c,s.Engaged i c → (s.newCommandReady ∨ s.pc≠.idle) → u.Standing c)
    (hm : u.reg.holdsMutex → s.pc.holdsMutex=false) (hok : u.RegOk u.reg) : u.Lives := by
  have hprog : ∀ c p,s.Progress c p → u.Progress c p := by
    intro c p hpr
    unfold Progress Fetched at hpr ⊢
    rw [hd,hid,hb]
    exact hpr
  have heng : ∀ i c,s.Engaged i c → (s.newCommandReady=true ∨ s.pc≠.idle) → u.Engaged i c :=
    fun i c he hx => ⟨hd ▸ he.isOpen,he.function,hrdy i c he.isOpen,hst i c he hx⟩
  constructor
  case books =>
    rw [hd,hc]
    exact h.books
  case pending =>
    intro hx
    rw [hn] at hx
    obtain ⟨hidle,c,he⟩ := h.pending hx
    rw [hpc,hnid]
    exact ⟨hidle,c,heng _ c he (.inl hx)⟩
  case working =>
    intro hx
    rw [hpc] at hx
    have hne := ne_idle_of_working hx
    rcases h.working hx with ⟨c,he,hpr⟩ | ho
    · rw [hid,hpc]
      exact .inl ⟨c,heng _ c he (.inr hne),hprog c _ hpr⟩
    · refine .inr ⟨hpc ▸ ho.late,?_,?_,?_,hie hne ho.cancelled⟩
      · rw [hid,hd]
        exact ho.cancelled
      · rw [hid,hd]
        exact ho.finished
      · rw [hid,hc]
        exact ho.below
  case only =>
    intro i c ho
    rw [hd] at ho
    rw [hn,hnid,hpc,hid]
    exact h.only i c ho
  case after =>
    intro hx
    rw [hpc] at hx
    obtain ⟨hi,ha⟩ := h.after hx
    rw [hid,hc,hd,hpc]
    exact ⟨hi,fun hcan => ⟨hie (ne_idle_of_holdsMutex hx) hcan,(ha hcan).2⟩⟩
  case mutex =>
    intro hx
    rw [hpc]
    exact hm hx
  case regOk => exact hok

theorem Lives.ie (h : s.Lives) (hne : s.pc≠.idle) (hc : .cancelled s.id∈s.docket) : s.dcs.ie=false := by
  cases hw : s.pc.working with
  | true =>
    rcases h.working hw with ⟨c,he,-⟩ | ho
    · exact (he.isOpen.not_cancelled hc).elim
    · exact ho.ie
  | false =>
    rcases RfPc.facts s.pc with hp | hp | hp
    · exact (hne hp).elim
    · rw [hw] at hp
      cases hp
    · exact ((h.after hp).2 hc).1

theorem Lives.plain (h : s.Lives) (hd : u.docket=s.docket) (hn : u.newCommandReady=s.newCommandReady)
    (hnid : u.newId=s.newId) (hc : u.commands=s.commands) (hpc : u.pc=s.pc) (hid : u.id=s.id)
    (hb : u.buffer=s.buffer) (hrdy : u.dcs.rdy=s.dcs.rdy) (hie : u.dcs.ie=s.dcs.ie)
    (hst : ∀ c,s.Standing c → u.Standing c)
    (hm : u.reg.holdsMutex → s.pc.holdsMutex=false) (hok : u.RegOk u.reg) : u.Lives :=
  h.reg hd hn hnid hc hpc hid hb (fun _ _ ho => hrdy ▸ h.busy ho) (fun hne hx => hie ▸ h.ie hne hx)
    (fun _ c he _ => hst c he.standing) hm hok

theorem Lives.resetDcs (h : s.Lives) (hq : s.Quiet) (go : Bool) :
    { s with dcs := .zero,reg := .resetRdy go,raised := s.raised.filter (·=RfFlag.nem),
             written := { s.written with fr := .nop,ma := false,ie := false },
             docket := s.cancelled }.Lives := by
  obtain ⟨hn,hlate⟩ := hq
  have hnone : s.pc.working=false → ∀ i c,¬s.docket.Open i c := by
    intro hw i c ho
    rcases h.only i c ho with ⟨hx,-⟩ | ⟨hx,-⟩
    · rw [hn] at hx
      cases hx
    · rw [hw] at hx
      cases hx
  cases hw : s.pc.working with
  | false =>
    have hcan : s.cancelled=s.docket := by
      unfold RfSeat.cancelled
      rw [hn,hw]
      rfl
    rw [hcan]
    exact h.reg rfl rfl rfl rfl rfl rfl rfl (fun _ _ _ => rfl) (fun _ _ => rfl)
      (fun i c he _ => (hnone hw i c he.isOpen).elim) (fun hx => by cases hx) ⟨⟨hn,hlate⟩,hnone hw⟩
  | true =>
    have hcan : s.cancelled=.cancelled s.id::s.docket := by
      unfold RfSeat.cancelled
      rw [hn,hw]
      rfl
    rw [hcan]
    have hl := hlate hw
    obtain ⟨-,hm,-⟩ := RfPc.facts_of_late hl
    have hid : s.id<s.commands ∧ .finished s.id∉s.docket := by
      rcases h.working hw with ⟨c,he,-⟩ | ho
      · exact ⟨he.isOpen.lt h.books.below,he.isOpen.not_finished⟩
      · exact ⟨ho.below,ho.finished⟩
    have hopen : ∀ i c,¬Docket.Open (.cancelled s.id::s.docket) i c := by
      intro i c ho
      have ho' : s.docket.Open i c := by
        refine ⟨?_,fun hx => ho.2 (Docket.over_cancelled.mpr (.inr hx))⟩
        rcases mem_cons.mp ho.1 with hx | hx
        · cases hx
        · exact hx
      rcases h.only i c ho' with ⟨hx,-⟩ | ⟨-,rfl⟩
      · rw [hn] at hx
        cases hx
      · exact ho.2 (Docket.over_cancelled.mpr (.inl rfl))
    constructor
    case books => exact h.books.cancel hid.1
    case pending =>
      intro hx
      rw [show s.newCommandReady=true from hx] at hn
      cases hn
    case working =>
      refine fun _ => .inr ⟨hl,mem_cons_self,fun hx => ?_,hid.1,rfl⟩
      rcases mem_cons.mp hx with hx | hx
      · cases hx
      · exact hid.2 hx
    case only => exact fun i c ho => (hopen i c ho).elim
    case after =>
      intro hx
      rw [show s.pc.holdsMutex=true from hx] at hm
      cases hm
    case mutex => exact fun hx => by cases hx
    case regOk => exact ⟨⟨hn,hlate⟩,hopen⟩

theorem Lives.accept (h : s.Lives) (hrest : s.AtRest) (hf : s.dcs.fr≠.nop) (hrdy : s.dcs.rdy=false) :
    s.accept.Lives := by
  obtain ⟨hp,hn⟩ := hrest
  have hw : s.pc.working=false := by
    rw [hp]
    rfl
  have hdocket : s.accept.docket=.accepted s.commands s.standing::s.docket := by
    unfold RfSeat.accept
    rw [hn]
    rfl
  have hnone : ∀ i c,¬s.docket.Open i c := by
    intro i c ho
    rcases h.only i c ho with ⟨hx,-⟩ | ⟨hx,-⟩
    · rw [hn] at hx
      cases hx
    · rw [hw] at hx
      cases hx
  constructor
  case books =>
    rw [hdocket]
    exact h.books.accept s.standing
  case pending =>
    refine fun _ => ⟨hp,s.standing,⟨?_,hf,hrdy,?_⟩⟩
    · rw [hdocket]
      exact ⟨mem_cons_self,fun ho => h.books.below.not_over (Docket.over_accepted.mp ho)⟩
    · have hp' : s.accept.pc=.idle := hp
      constructor <;> rw [hp'] <;> first | rfl | exact fun _ => rfl
  case working =>
    intro hx
    rw [show s.pc.working=true from hx] at hw
    cases hw
  case only =>
    intro i c ho
    rw [hdocket] at ho
    rcases mem_cons.mp ho.1 with hx | hx
    · cases hx
      exact .inl ⟨rfl,rfl⟩
    · exact (hnone i c ⟨hx,fun hov => ho.2 (Docket.over_accepted.mpr hov)⟩).elim
  case after =>
    intro hx
    rw [show s.accept.pc=.idle from hp] at hx
    cases hx
  case mutex => exact fun hx => by cases hx
  case regOk => exact trivial

theorem Lives.regStep (h : s.Lives) (hc : s.RegCareful s.reg) (hs : s.regStep=some u) : u.Lives := by
  have hok := h.regOk
  have hmx := h.mutex
  cases hr : s.reg <;> simp only [RfSeat.regStep,hr,some.injEq] at hs
  case idle =>
    cases hs
  case testClear =>
    rw [hr] at hok
    by_cases hd : s.dcs.diskClear=true
    · rw [if_pos hd] at hs
      subst hs
      exact h.plain rfl rfl rfl rfl rfl rfl rfl rfl rfl (fun c ⟨h1,h2,h3,h4,h5,h6,h7⟩ => ⟨h1,h2,h3,h4,h5,h6,h7⟩)
        (fun hx => by cases hx) (hok hd)
    · rw [if_neg hd] at hs
      subst hs
      exact h.plain rfl rfl rfl rfl rfl rfl rfl rfl rfl (fun c ⟨h1,h2,h3,h4,h5,h6,h7⟩ => ⟨h1,h2,h3,h4,h5,h6,h7⟩)
        (fun hx => by cases hx) trivial
  case resetRegisters go =>
    rw [hr] at hok
    subst hs
    refine h.reg rfl rfl rfl rfl rfl rfl rfl (fun _ _ ho => h.busy ho) h.ie (fun i c he _ => ?_)
      (fun hx => by cases hx) hok
    rcases h.only i c he.isOpen with ⟨hx,-⟩ | ⟨hx,-⟩
    · rw [hok.1] at hx
      cases hx
    · obtain ⟨-,-,ho⟩ := RfPc.facts_of_late (hok.2 hx)
      exact he.standing.read (by omega) (Nat.le_refl _) (fun _ => rfl) ⟨rfl,rfl,rfl,rfl,rfl,rfl⟩
  case resetDcs go =>
    rw [hr] at hok
    subst hs
    exact h.resetDcs hok go
  case resetRdy go =>
    rw [hr] at hok
    subst hs
    exact h.reg rfl rfl rfl rfl rfl rfl rfl (fun i c ho => (hok.2 i c ho).elim) h.ie
      (fun i c he _ => (hok.2 i c he.isOpen).elim) (fun hx => by cases hx) hok.1
  case resetDae go =>
    rw [hr] at hok
    subst hs
    refine h.reg rfl rfl rfl rfl rfl rfl rfl (fun _ _ ho => h.busy ho) h.ie (fun i c he _ => ?_)
      (fun hx => ?_) ?_
    · rcases h.only i c he.isOpen with ⟨hx',-⟩ | ⟨hx',-⟩
      · rw [hok.1] at hx'
        cases hx'
      · obtain ⟨-,-,ho⟩ := RfPc.facts_of_late (hok.2 hx')
        exact he.standing.read (by omega) (Nat.le_refl _) (fun _ => rfl) ⟨rfl,rfl,rfl,rfl,rfl,rfl⟩
    · cases go <;> cases hx
    · cases go <;> exact trivial
  case testGo =>
    subst hs
    refine h.plain rfl rfl rfl rfl rfl rfl rfl rfl rfl (fun c ⟨h1,h2,h3,h4,h5,h6,h7⟩ => ⟨h1,h2,h3,h4,h5,h6,h7⟩)
      (fun hx => ?_) ?_
    · dsimp only at hx
      split at hx <;> cases hx
    · dsimp only
      split <;> exact trivial
  case lock =>
    split at hs
    · cases hs
    · rename_i hm
      obtain rfl := some.inj hs
      exact h.plain rfl rfl rfl rfl rfl rfl rfl rfl rfl (fun c ⟨h1,h2,h3,h4,h5,h6,h7⟩ => ⟨h1,h2,h3,h4,h5,h6,h7⟩)
        (fun _ => by simpa using hm) trivial
  case clearGo | clearWce =>
    subst hs
    exact h.plain rfl rfl rfl rfl rfl rfl rfl rfl rfl (fun c ⟨h1,h2,h3,h4,h5,h6,h7⟩ => ⟨h1,h2,h3,h4,h5,h6,h7⟩)
      (fun _ => hmx (hr ▸ rfl)) trivial
  case testRdy =>
    rw [hr] at hc
    have hno := hmx (hr ▸ rfl)
    by_cases hrdy : s.dcs.rdy=true
    · rw [if_pos hrdy] at hs
      subst hs
      have hw : s.pc.working=false := hc hrdy
      have hidle : s.pc=.idle := by
        rcases RfPc.facts s.pc with hp | hp | hp
        · exact hp
        · rw [hw] at hp
          cases hp
        · rw [hno] at hp
          cases hp
      have hn : s.newCommandReady=false := by
        cases hn : s.newCommandReady with
        | false => rfl
        | true =>
          obtain ⟨-,c,he⟩ := h.pending hn
          rw [he.rdy] at hrdy
          cases hrdy
      exact h.plain rfl rfl rfl rfl rfl rfl rfl rfl rfl (fun c ⟨h1,h2,h3,h4,h5,h6,h7⟩ => ⟨h1,h2,h3,h4,h5,h6,h7⟩)
        (fun _ => hno) ⟨hidle,hn⟩
    · rw [if_neg hrdy] at hs
      subst hs
      exact h.plain rfl rfl rfl rfl rfl rfl rfl rfl rfl (fun c ⟨h1,h2,h3,h4,h5,h6,h7⟩ => ⟨h1,h2,h3,h4,h5,h6,h7⟩)
        (fun hx => by cases hx) trivial
  case testFunction =>
    rw [hr] at hok
    by_cases hf : s.dcs.fr=.nop
    · rw [if_pos hf] at hs
      subst hs
      exact h.plain rfl rfl rfl rfl rfl rfl rfl rfl rfl (fun c ⟨h1,h2,h3,h4,h5,h6,h7⟩ => ⟨h1,h2,h3,h4,h5,h6,h7⟩)
        (fun hx => by cases hx) trivial
    · rw [if_neg hf] at hs
      subst hs
      exact h.plain rfl rfl rfl rfl rfl rfl rfl rfl rfl (fun c ⟨h1,h2,h3,h4,h5,h6,h7⟩ => ⟨h1,h2,h3,h4,h5,h6,h7⟩)
        (fun _ => hmx (hr ▸ rfl)) ⟨hok,hf⟩
  case clearRdy =>
    rw [hr] at hok
    subst hs
    exact h.reg rfl rfl rfl rfl rfl rfl rfl (fun _ _ _ => rfl) h.ie
      (fun _ c ⟨_,_,_,⟨h1,h2,h3,h4,h5,h6,h7⟩⟩ _ => ⟨h1,h2,h3,h4,h5,h6,h7⟩) (fun _ => hmx (hr ▸ rfl)) ⟨hok.1,hok.2,rfl⟩
  case clearErr =>
    rw [hr] at hok
    subst hs
    exact h.accept hok.1 hok.2.1 hok.2.2
  case update v =>
    subst hs
    cases v <;> exact h.plain rfl rfl rfl rfl rfl rfl rfl rfl rfl
      (fun c ⟨h1,h2,h3,h4,h5,h6,h7⟩ => ⟨h1,h2,h3,h4,h5,h6,h7⟩) (fun hx => by cases hx) trivial

theorem MayReset.quiet (h : s.MayReset) : s.Quiet := by
  obtain ⟨hn,hp⟩ := h
  refine ⟨hn,fun hw => ?_⟩
  rcases hp with hp | hp | ⟨hp,-⟩
  · rw [hp] at hw
    cases hw
  · exact hp
  · cases hpc : s.pc <;> rw [hpc] at hw hp <;> first | cases hw; done | cases hp

theorem unread {k : Nat} (hx : s.newCommandReady ∨ s.pc≠.idle) (ho : s.pc.order≤k) : s.Unread k :=
  ⟨hx,ho⟩

theorem Lives.dcs (h : s.Lives) (hc : s.Careful (.dcs value)) :
    { s with dcs := s.dcs.write value,reg := .testClear,
             written := { s.written with fr := (s.dcs.write value).fr,ma := (s.dcs.write value).ma,
                                         ie := (s.dcs.write value).ie } }.Lives := by
  obtain ⟨hxm,hfr,hclear,hie⟩ := hc
  refine h.reg rfl rfl rfl rfl rfl rfl rfl (fun _ _ ho => h.busy ho) hie (fun i c he hx => ?_)
    (fun hx => by cases hx) fun hd => (hclear hd).quiet
  obtain ⟨h1,h2,h3,h4,h5,h6,h7⟩ := he.standing
  refine ⟨h1,h2,?_,h4,h5,h6,fun ho => (hfr (unread hx ho)).trans (h7 ho)⟩
  show if s.pc.order≤2 then (s.dcs.write value).xm=c.xm else s.xm=c.xm
  by_cases ho : s.pc.order≤2
  · rw [if_pos ho] at h3 ⊢
    exact (hxm (unread hx ho)).trans h3
  · rw [if_neg ho] at h3 ⊢
    exact h3

theorem Lives.dae (h : s.Lives) (hc : s.Careful (.dae value)) :
    { s with dae := s.dae.write value,reg := .update .daeValue,
             written := { s.written with da14 := (s.dae.write value).da14,drl := (s.dae.write value).drl,
                                         cmaInh := (s.dae.write value).cmaInh } }.Lives := by
  obtain ⟨hta,hda⟩ := hc
  refine h.reg rfl rfl rfl rfl rfl rfl rfl (fun _ _ ho => h.busy ho) h.ie (fun i c he hx => ?_)
    (fun hx => by cases hx) trivial
  obtain ⟨h1,h2,h3,h4,h5,h6,h7⟩ := he.standing
  refine ⟨h1,h2,h3,h4,?_,?_,h7⟩
  · show if s.pc.order≤4 then (s.dae.write value).ta=c.ta else s.ta=c.ta
    by_cases ho : s.pc.order≤4
    · rw [if_pos ho] at h5 ⊢
      exact (hta (unread hx ho)).trans h5
    · rw [if_neg ho] at h5 ⊢
      exact h5
  · show if s.pc.order≤5 then (s.dae.write value).da=c.da else s.da=c.da
    by_cases ho : s.pc.order≤5
    · rw [if_pos ho] at h6 ⊢
      exact (hda (unread hx ho)).trans h6
    · rw [if_neg ho] at h6 ⊢
      exact h6

theorem Lives.wc (h : s.Lives) (hr : s.reg=.idle) (hc : s.Careful (.wc value)) :
    { s with wcReg := value%0x10000 }.Lives := by
  refine h.reg rfl rfl rfl rfl rfl rfl rfl (fun _ _ ho => h.busy ho) h.ie (fun i c he hx => ?_)
    h.mutex (by rw [hr]; exact trivial)
  obtain ⟨h1,h2,h3,h4,h5,h6,h7⟩ := he.standing
  refine ⟨?_,h2,h3,h4,h5,h6,h7⟩
  show if s.pc.order≤0 then value%0x10000=c.wc else s.wc=c.wc
  by_cases ho : s.pc.order≤0
  · rw [if_pos ho] at h1 ⊢
    exact (hc (unread hx ho)).trans h1
  · rw [if_neg ho] at h1 ⊢
    exact h1

theorem Lives.cma (h : s.Lives) (hr : s.reg=.idle) (hc : s.Careful (.cma value)) :
    { s with cmaReg := value%0x10000 }.Lives := by
  refine h.reg rfl rfl rfl rfl rfl rfl rfl (fun _ _ ho => h.busy ho) h.ie (fun i c he hx => ?_)
    h.mutex (by rw [hr]; exact trivial)
  obtain ⟨h1,h2,h3,h4,h5,h6,h7⟩ := he.standing
  refine ⟨h1,?_,h3,h4,h5,h6,h7⟩
  show if s.pc.order≤1 then value%0x10000=c.cma else s.cma=c.cma
  by_cases ho : s.pc.order≤1
  · rw [if_pos ho] at h2 ⊢
    exact (hc (unread hx ho)).trans h2
  · rw [if_neg ho] at h2 ⊢
    exact h2

theorem Lives.dar (h : s.Lives) (hr : s.reg=.idle) (hc : s.Careful (.dar value)) :
    { s with darReg := value%0x10000 }.Lives := by
  refine h.reg rfl rfl rfl rfl rfl rfl rfl (fun _ _ ho => h.busy ho) h.ie (fun i c he hx => ?_)
    h.mutex (by rw [hr]; exact trivial)
  obtain ⟨h1,h2,h3,h4,h5,h6,h7⟩ := he.standing
  refine ⟨h1,h2,h3,?_,h5,h6,h7⟩
  show if s.pc.order≤3 then value%0x10000=c.dar else s.dar=c.dar
  by_cases ho : s.pc.order≤3
  · rw [if_pos ho] at h4 ⊢
    exact (hc (unread hx ho)).trans h4
  · rw [if_neg ho] at h4 ⊢
    exact h4

theorem Lives.step (h : s.Lives) {e : RfEvent} (hc : s.Careful e) (hs : s.step addrSpace e=some u) : u.Lives := by
  cases e with
  | worker words ok => exact h.workerStep hs
  | reg => exact h.regStep hc hs
  | dcs value =>
    simp only [RfSeat.step,ite_none_right_eq_some,some.injEq] at hs
    obtain ⟨-,rfl⟩ := hs
    exact h.dcs hc
  | dae value =>
    simp only [RfSeat.step,ite_none_right_eq_some,some.injEq] at hs
    obtain ⟨-,rfl⟩ := hs
    exact h.dae hc
  | wc value =>
    simp only [RfSeat.step,ite_none_right_eq_some,some.injEq] at hs
    obtain ⟨hr,rfl⟩ := hs
    exact h.wc hr hc
  | cma value =>
    simp only [RfSeat.step,ite_none_right_eq_some,some.injEq] at hs
    obtain ⟨hr,rfl⟩ := hs
    exact h.cma hr hc
  | dar value =>
    simp only [RfSeat.step,ite_none_right_eq_some,some.injEq] at hs
    obtain ⟨hr,rfl⟩ := hs
    exact h.dar hr hc
  | init =>
    simp only [RfSeat.step,ite_none_right_eq_some,some.injEq] at hs
    obtain ⟨-,rfl⟩ := hs
    exact h.plain rfl rfl rfl rfl rfl rfl rfl rfl rfl (fun c ⟨h1,h2,h3,h4,h5,h6,h7⟩ => ⟨h1,h2,h3,h4,h5,h6,h7⟩)
      (fun hx => by cases hx) hc.quiet

def RfReg.frz : RfReg → Bool
  | .resetRdy _ | .resetDae _ => false
  | _ => true

def RfReg.err : RfReg → Bool
  | .testRdy | .testFunction | .clearRdy | .clearErr | .update .nem | .update (.frz _) | .update .errs
  | .update (.err _) => false
  | _ => true

/-- The host reads `_dcs`. -/
def RfReg.shown : RfReg → Bool
  | .idle | .update .daeValue | .update (.daeStore _) => true
  | _ => false

/-- The host reads `_dae`. -/
def RfReg.daeShown : RfReg → Bool
  | .resetDcs _ | .resetRdy _ | .resetDae _ | .update .daeValue | .update (.daeStore _) => false
  | _ => true

def RfPc.frz : RfPc → Bool
  | .idle | .testIe | .interrupt | .finishDcs .errs | .finishDcs (.err _) | .finishDcs .value
  | .finishDcs (.store _) => true
  | _ => false

def RfPc.err : RfPc → Bool
  | .idle | .testIe | .interrupt | .finishDcs .value | .finishDcs (.store _) => true
  | _ => false

def RfPc.shown : RfPc → Bool
  | .idle | .testIe | .interrupt => true
  | _ => false

def RfPc.daeShown : RfPc → Bool
  | .idle | .testIe | .interrupt | .finishDcs _ => true
  | _ => false

def RfPc.placed : RfPc → Bool
  | .finishDae .daeValue | .finishDae (.daeStore _) => true
  | .finishDae _ | .finishDcs .daeValue | .finishDcs (.daeStore _) => false
  | _ => true

def ResetTo (s : RfSeat) : RfReg → Prop
  | .resetDcs _ => s.dcsReg=.reset ∧ s.daeReg=.zero
  | .resetRdy _ => s.dcsReg=.reset ∧ s.daeReg=.zero ∧ s.dcs=.zero
  | .resetDae _ => s.dcsReg=.reset ∧ s.daeReg=.zero ∧ s.dcs=.reset
  | _ => True

/-- The flags stand, and the host reads them where neither thread has still to show them. -/
structure Flags (s : RfSeat) : Prop where
  raised : ∀ f∈s.raised,s.Shows f
  written : s.hostBits=s.written
  frz : RfReg.frz s.reg=true → RfPc.frz s.pc=true → s.dcs.frz=s.dae.nem
  err : RfReg.err s.reg=true → RfPc.err s.pc=true → s.dcs.err=(s.dcs.frz || s.dcs.wce || s.dcs.ned)
  shown : RfReg.shown s.reg=true → RfPc.shown s.pc=true → s.dcsReg=s.dcs
  daeShown : RfReg.daeShown s.reg=true → RfPc.daeShown s.pc=true → s.daeReg=s.dae
  resetTo : s.ResetTo s.reg
  placed : RfPc.placed s.pc=true

theorem Flags.start (drum : Nat → UInt16) : (start drum).Flags where
  raised _ h := by cases h
  written := rfl
  frz _ _ := rfl
  err _ _ := rfl
  shown _ _ := rfl
  daeShown _ _ := rfl
  resetTo := trivial
  placed := rfl

theorem RfPc.unshown {p : RfPc} (h : p.working) : RfPc.frz p=false ∧ RfPc.err p=false ∧
    RfPc.shown p=false ∧ RfPc.daeShown p=false ∧ RfPc.placed p=true := by
  cases p <;> first | exact ⟨rfl,rfl,rfl,rfl,rfl⟩ | cases h

theorem Flags.working (hw : u.pc.working) (hraised : ∀ f∈u.raised,u.Shows f)
    (hwritten : u.hostBits=u.written) (hreset : u.ResetTo u.reg) : u.Flags := by
  obtain ⟨h1,h2,h3,h4,h5⟩ := RfPc.unshown hw
  refine ⟨hraised,hwritten,fun _ hx => ?_,fun _ hx => ?_,fun _ hx => ?_,fun _ hx => ?_,hreset,h5⟩
  · rw [h1] at hx
    cases hx
  · rw [h2] at hx
    cases hx
  · rw [h3] at hx
    cases hx
  · rw [h4] at hx
    cases hx

theorem resetTo_of_not {r : RfReg} (h : r.resets=false) : u.ResetTo r := by
  cases r <;> first | exact trivial | cases h

/-- What a step leaves that does nothing for the flags -/
structure SameFlags (s u : RfSeat) : Prop where
  ned : u.dcs.ned=s.dcs.ned
  wce : u.dcs.wce=s.dcs.wce
  nem : u.dae.nem=s.dae.nem
  fr : u.dcs.fr=s.dcs.fr
  ma : u.dcs.ma=s.dcs.ma
  ie : u.dcs.ie=s.dcs.ie
  da14 : u.dae.da14=s.dae.da14
  drl : u.dae.drl=s.dae.drl
  cmaInh : u.dae.cmaInh=s.dae.cmaInh
  raised : u.raised=s.raised
  written : u.written=s.written
  reg : u.reg=s.reg

theorem SameFlags.xm (xm cma : Nat) (p : RfPc) :
    SameFlags s { s with dcs := { s.dcs with xm := xm },cmaReg := cma,pc := p } := by
  constructor <;> rfl

theorem SameFlags.track (ta da : Nat) (p : RfPc) :
    SameFlags s { s with dae := { s.dae with ta := ta,da := da },pc := p } := by
  constructor <;> rfl

theorem Flags.goesOn (h : s.Flags) (hs : SameFlags s u) (hr : s.reg.resets=false) (hw : u.pc.working) : u.Flags := by
  refine Flags.working hw (fun f hf => ?_) ?_ (resetTo_of_not (hs.reg ▸ hr))
  · rw [hs.raised] at hf
    have hf := h.raised f hf
    cases f with
    | ned => exact hs.ned.trans hf
    | nem => exact hs.nem.trans hf
    | wce => exact hs.wce.trans hf
  · rw [hs.written,← h.written]
    unfold hostBits
    rw [hs.fr,hs.ma,hs.ie,hs.da14,hs.drl,hs.cmaInh]

theorem Flags.workerStep (h : s.Flags) {words : List UInt16} {ok : Bool}
    (hc : s.Careful (.worker words ok)) (hs : s.workerStep addrSpace words ok=some u) : u.Flags := by
  obtain ⟨hcur,hreset⟩ := hc
  have hraised := h.raised
  have hwritten := h.written
  have hno (hne : s.pc≠.idle) : s.reg.resets=false := by
    cases hr : s.reg.resets with
    | false => rfl
    | true => exact (hne (hreset hr)).elim
  cases hp : s.pc <;> simp only [RfSeat.workerStep,hp,some.injEq] at hs
  case idle =>
    split at hs
    · obtain rfl := some.inj hs
      exact Flags.working rfl hraised hwritten h.resetTo
    · cases hs
  case readWc | readCma | readXm | readDar | readTa | readDa | dbr | wc | wait =>
    have hr := hno (by rw [hp]; simp)
    subst hs
    exact h.goesOn (by constructor <;> rfl) hr rfl
  case testRead | testCheck | testAgain | testInhibit =>
    have hr := hno (by rw [hp]; simp)
    subst hs
    exact h.goesOn (by constructor <;> rfl) hr (by dsimp only; split <;> rfl)
  case diskRead =>
    have hr := hno (by rw [hp]; simp)
    subst hs
    unfold RfSeat.diskRead
    split <;> exact h.goesOn (by constructor <;> rfl) hr rfl
  case memoryWrite =>
    have hr := hno (by rw [hp]; simp)
    subst hs
    unfold RfSeat.memoryWrite
    split
    · exact h.goesOn (by constructor <;> rfl) hr rfl
    · split <;> exact h.goesOn (by constructor <;> rfl) hr rfl
  case memoryCheck =>
    have hr := hno (by rw [hp]; simp)
    subst hs
    unfold RfSeat.memoryCheck
    split
    · exact h.goesOn (by constructor <;> rfl) hr rfl
    · split <;> exact h.goesOn (by constructor <;> rfl) hr rfl
  case memoryRead =>
    have hr := hno (by rw [hp]; simp)
    subst hs
    unfold RfSeat.memoryRead
    split <;> exact h.goesOn (by constructor <;> rfl) hr rfl
  case diskWrite =>
    have hr := hno (by rw [hp]; simp)
    subst hs
    unfold RfSeat.diskWrite RfSeat.note
    exact h.goesOn (by constructor <;> rfl) hr (by dsimp only; split <;> rfl)
  case raise f =>
    have hr := hno (by rw [hp]; simp)
    subst hs
    refine Flags.working rfl (fun g hg => ?_) hwritten (resetTo_of_not hr)
    rcases mem_cons.mp hg with rfl | hg
    · cases g <;> simp [Shows,RfSeat.raise,RfSeat.note]
    · have hsg := hraised g hg
      cases g <;> simp_all [Shows,RfSeat.raise,RfSeat.note]
  case xm =>
    have hr := hno (by rw [hp]; simp)
    subst hs
    exact h.goesOn (.xm _ _ _) hr rfl
  case ta | da =>
    have hr := hno (by rw [hp]; simp)
    subst hs
    exact h.goesOn (.track _ _ _) hr rfl
  case updateXm v | updateDa v =>
    have hr := hno (by rw [hp]; simp)
    subst hs
    cases v <;> exact h.goesOn (by constructor <;> rfl) hr rfl
  case finish =>
    have hr := hno (by rw [hp]; simp)
    split at hs
    · cases hs
    · obtain rfl := some.inj hs
      refine ⟨fun f hf => by cases f <;> exact hraised _ hf,hwritten,?_,?_,?_,?_,resetTo_of_not hr,rfl⟩
      all_goals exact fun _ hx => by cases hx
  case finishDae v =>
    have hr := hno (by rw [hp]; simp)
    have hpl := h.placed
    subst hs
    rw [hp] at hcur hpl
    cases v with
    | nem | frz | errs | err | value | store => cases hpl
    | daeValue =>
      refine ⟨hraised,hwritten,?_,?_,?_,?_,resetTo_of_not hr,rfl⟩
      all_goals exact fun _ hx => by cases hx
    | daeStore d =>
      refine ⟨hraised,hwritten,?_,?_,?_,fun _ _ => hcur,resetTo_of_not hr,rfl⟩
      all_goals exact fun _ hx => by cases hx
  case finishDcs v =>
    have hr := hno (by rw [hp]; simp)
    have hpl := h.placed
    have hfrz := h.frz
    have herr := h.err
    have hdae := h.daeShown
    subst hs
    rw [hp] at hcur hpl hfrz herr hdae
    have hdae' : RfReg.daeShown s.reg=true → s.daeReg=s.dae := fun hx => hdae hx (by cases v <;> rfl)
    cases v with
    | daeValue | daeStore => cases hpl
    | nem =>
      refine ⟨hraised,hwritten,?_,?_,?_,fun hx _ => hdae' hx,resetTo_of_not hr,rfl⟩
      all_goals exact fun _ hx => by cases hx
    | frz b =>
      refine ⟨fun f hf => by cases f <;> exact hraised _ hf,hwritten,fun _ _ => hcur,?_,?_,fun hx _ => hdae' hx,
        resetTo_of_not hr,rfl⟩
      all_goals exact fun _ hx => by cases hx
    | errs =>
      refine ⟨hraised,hwritten,fun hx _ => hfrz hx rfl,?_,?_,fun hx _ => hdae' hx,resetTo_of_not hr,rfl⟩
      all_goals exact fun _ hx => by cases hx
    | err b =>
      refine ⟨fun f hf => by cases f <;> exact hraised _ hf,hwritten,fun hx _ => hfrz hx rfl,fun _ _ => hcur,?_,
        fun hx _ => hdae' hx,resetTo_of_not hr,rfl⟩
      exact fun _ hx => by cases hx
    | value =>
      refine ⟨hraised,hwritten,fun hx _ => hfrz hx rfl,fun hx _ => herr hx rfl,?_,fun hx _ => hdae' hx,
        resetTo_of_not hr,rfl⟩
      exact fun _ hx => by cases hx
    | store d =>
      exact ⟨hraised,hwritten,fun hx _ => hfrz hx rfl,fun hx _ => herr hx rfl,fun _ _ => hcur,
        fun hx _ => hdae' hx,resetTo_of_not hr,rfl⟩
  case testIe =>
    have hr := hno (by rw [hp]; simp)
    have hfrz := h.frz
    have herr := h.err
    have hshown := h.shown
    have hdae := h.daeShown
    subst hs
    rw [hp] at hfrz herr hshown hdae
    exact ⟨hraised,hwritten,fun hx _ => hfrz hx rfl,fun hx _ => herr hx rfl,fun hx _ => hshown hx rfl,
      fun hx _ => hdae hx rfl,resetTo_of_not hr,by dsimp only; split <;> rfl⟩
  case interrupt =>
    have hr := hno (by rw [hp]; simp)
    have hfrz := h.frz
    have herr := h.err
    have hshown := h.shown
    have hdae := h.daeShown
    subst hs
    rw [hp] at hfrz herr hshown hdae
    exact ⟨hraised,hwritten,fun hx _ => hfrz hx rfl,fun hx _ => herr hx rfl,fun hx _ => hshown hx rfl,
      fun hx _ => hdae hx rfl,resetTo_of_not hr,rfl⟩

theorem Flags.regStep (h : s.Flags) (hc : s.RegCareful s.reg) (hs : s.regStep=some u) : u.Flags := by
  have hraised := h.raised
  have hwritten := h.written
  have hfrz := h.frz
  have herr := h.err
  have hshown := h.shown
  have hdae := h.daeShown
  have hto := h.resetTo
  have hbits := hwritten
  simp only [hostBits] at hbits
  cases hr : s.reg <;> simp only [RfSeat.regStep,hr,some.injEq] at hs
  case idle =>
    cases hs
  case testClear =>
    subst hs
    rw [hr] at hfrz herr hshown hdae
    refine ⟨hraised,hwritten,fun _ hx => hfrz rfl hx,fun _ hx => herr rfl hx,fun hx => ?_,
      fun _ hx => hdae rfl hx,?_,h.placed⟩
    · dsimp only at hx
      split at hx <;> cases hx
    · dsimp only
      split <;> exact trivial
  case resetRegisters go =>
    subst hs
    rw [hr] at hfrz herr
    exact ⟨hraised,hwritten,fun _ hx => hfrz rfl hx,fun _ hx => herr rfl hx,fun hx => (by cases hx),
      fun hx => (by cases hx),⟨rfl,rfl⟩,h.placed⟩
  case resetDcs go =>
    subst hs
    rw [hr] at hto
    refine ⟨fun f hf => ?_,?_,fun hx => (by cases hx),fun _ _ => rfl,fun hx => (by cases hx),
      fun hx => (by cases hx),⟨hto.1,hto.2,rfl⟩,h.placed⟩
    · obtain ⟨hf,hnem⟩ := mem_filter.mp hf
      obtain rfl := of_decide_eq_true hnem
      exact hraised _ hf
    · simp only [hostBits]
      rw [← hbits]
      rfl
  case resetRdy go =>
    subst hs
    rw [hr] at hto herr
    refine ⟨fun f hf => by cases f <;> exact hraised _ hf,hwritten,fun hx => (by cases hx),fun _ hx => herr rfl hx,
      fun hx => (by cases hx),fun hx => (by cases hx),⟨hto.1,hto.2.1,?_⟩,h.placed⟩
    show { s.dcs with rdy := true }=Dcs.reset
    rw [hto.2.2]
    rfl
  case resetDae go =>
    subst hs
    rw [hr] at hto
    refine ⟨fun f hf => ?_,?_,fun _ _ => ?_,fun _ _ => ?_,fun _ _ => ?_,fun _ _ => hto.2.1,?_,h.placed⟩
    · obtain ⟨hf,hnem⟩ := mem_filter.mp hf
      have hsf := hraised f hf
      cases f with
      | nem => simp at hnem
      | ned | wce => exact hsf
    · simp only [hostBits]
      rw [← hbits]
      rfl
    · show s.dcs.frz=false
      rw [hto.2.2]
      rfl
    · show s.dcs.err=_
      rw [hto.2.2]
      rfl
    · show s.dcsReg=s.dcs
      rw [hto.1,hto.2.2]
    · cases go <;> exact trivial
  case testGo =>
    subst hs
    rw [hr] at hfrz herr hdae
    refine ⟨hraised,hwritten,fun _ hx => hfrz rfl hx,fun _ hx => herr rfl hx,fun hx => ?_,
      fun _ hx => hdae rfl hx,?_,h.placed⟩
    · dsimp only at hx
      split at hx <;> cases hx
    · dsimp only
      split <;> exact trivial
  case lock =>
    split at hs
    · cases hs
    · obtain rfl := some.inj hs
      rw [hr] at hfrz herr hdae
      exact ⟨hraised,hwritten,fun _ hx => hfrz rfl hx,fun _ hx => herr rfl hx,fun hx => (by cases hx),
        fun _ hx => hdae rfl hx,trivial,h.placed⟩
  case clearGo =>
    subst hs
    rw [hr] at hfrz herr hdae
    exact ⟨fun f hf => by cases f <;> exact hraised _ hf,hwritten,fun _ hx => hfrz rfl hx,fun _ hx => herr rfl hx,
      fun hx => (by cases hx),fun _ hx => hdae rfl hx,trivial,h.placed⟩
  case clearWce =>
    subst hs
    rw [hr] at hfrz hdae
    refine ⟨fun f hf => ?_,hwritten,fun _ hx => hfrz rfl hx,fun hx => (by cases hx),
      fun hx => (by cases hx),fun _ hx => hdae rfl hx,trivial,h.placed⟩
    obtain ⟨hf,hwce⟩ := mem_filter.mp hf
    have hsf := hraised f hf
    cases f with
    | wce => simp at hwce
    | ned | nem => exact hsf
  case testRdy | testFunction =>
    subst hs
    rw [hr] at hfrz hdae
    refine ⟨hraised,hwritten,fun _ hx => hfrz rfl hx,fun hx => ?_,fun hx => ?_,fun _ hx => hdae rfl hx,?_,
      h.placed⟩
    · dsimp only at hx
      split at hx <;> cases hx
    · dsimp only at hx
      split at hx <;> cases hx
    · dsimp only
      split <;> exact trivial
  case clearRdy | clearErr =>
    subst hs
    rw [hr] at hfrz hdae
    exact ⟨fun f hf => by cases f <;> exact hraised _ hf,hwritten,fun _ hx => hfrz rfl hx,fun hx => (by cases hx),
      fun hx => (by cases hx),fun _ hx => hdae rfl hx,trivial,h.placed⟩
  case update v =>
    subst hs
    rw [hr] at hfrz herr hshown hdae hc
    cases v with
    | nem | errs =>
      exact ⟨hraised,hwritten,fun _ hx => hfrz rfl hx,fun hx => (by cases hx),fun hx => (by cases hx),
        fun _ hx => hdae rfl hx,trivial,h.placed⟩
    | frz b =>
      exact ⟨fun f hf => by cases f <;> exact hraised _ hf,hwritten,fun _ _ => hc,fun hx => (by cases hx),
        fun hx => (by cases hx),fun _ hx => hdae rfl hx,trivial,h.placed⟩
    | err b =>
      exact ⟨fun f hf => by cases f <;> exact hraised _ hf,hwritten,fun _ hx => hfrz rfl hx,fun _ _ => hc,
        fun hx => (by cases hx),fun _ hx => hdae rfl hx,trivial,h.placed⟩
    | value =>
      exact ⟨hraised,hwritten,fun _ hx => hfrz rfl hx,fun _ hx => herr rfl hx,fun hx => (by cases hx),
        fun _ hx => hdae rfl hx,trivial,h.placed⟩
    | store d =>
      exact ⟨hraised,hwritten,fun _ hx => hfrz rfl hx,fun _ hx => herr rfl hx,fun _ _ => hc,
        fun _ hx => hdae rfl hx,trivial,h.placed⟩
    | daeValue =>
      exact ⟨hraised,hwritten,fun _ hx => hfrz rfl hx,fun _ hx => herr rfl hx,fun _ hx => hshown rfl hx,
        fun hx => (by cases hx),trivial,h.placed⟩
    | daeStore d =>
      exact ⟨hraised,hwritten,fun _ hx => hfrz rfl hx,fun _ hx => herr rfl hx,fun _ hx => hshown rfl hx,
        fun _ _ => hc,trivial,h.placed⟩

theorem Flags.step (h : s.Flags) {e : RfEvent} (hc : s.Careful e) (hs : s.step addrSpace e=some u) : u.Flags := by
  have hraised := h.raised
  have hbits := h.written
  have hfrz := h.frz
  have herr := h.err
  have hshown := h.shown
  have hdae := h.daeShown
  simp only [hostBits] at hbits
  cases e with
  | worker words ok => exact h.workerStep hc hs
  | reg => exact h.regStep hc hs
  | dcs value =>
    simp only [RfSeat.step,ite_none_right_eq_some,some.injEq] at hs
    obtain ⟨hr,rfl⟩ := hs
    rw [hr] at hfrz herr hdae
    refine ⟨fun f hf => by cases f <;> exact hraised _ hf,?_,fun _ hx => hfrz rfl hx,fun _ hx => herr rfl hx,
      fun hx => (by cases hx),fun _ hx => hdae rfl hx,trivial,h.placed⟩
    simp only [hostBits]
    rw [← hbits]
  | dae value =>
    simp only [RfSeat.step,ite_none_right_eq_some,some.injEq] at hs
    obtain ⟨hr,rfl⟩ := hs
    rw [hr] at hfrz herr hshown
    refine ⟨fun f hf => by cases f <;> exact hraised _ hf,?_,fun _ hx => hfrz rfl hx,fun _ hx => herr rfl hx,
      fun _ hx => hshown rfl hx,fun hx => (by cases hx),trivial,h.placed⟩
    simp only [hostBits]
    rw [← hbits]
  | wc value | cma value | dar value =>
    simp only [RfSeat.step,ite_none_right_eq_some,some.injEq] at hs
    obtain ⟨hr,rfl⟩ := hs
    exact ⟨hraised,h.written,hfrz,herr,hshown,hdae,h.resetTo,h.placed⟩
  | init =>
    simp only [RfSeat.step,ite_none_right_eq_some,some.injEq] at hs
    obtain ⟨hr,rfl⟩ := hs
    rw [hr] at hfrz herr hdae
    exact ⟨hraised,h.written,fun _ hx => hfrz rfl hx,fun _ hx => herr rfl hx,fun hx => (by cases hx),
      fun _ hx => hdae rfl hx,trivial,h.placed⟩

theorem Lives.safe (h : s.Lives) (hf : s.Flags) : s.Safe where
  orderly := h.books.orderly
  fits := h.books.fits
  complete := h.books.complete
  busy := fun ⟨_,_,ho⟩ => h.busy ho
  raised := hf.raised
  written := hf.written
  shown hr hp := by
    have hfrz := hf.frz
    have herr := hf.err
    have hshown := hf.shown
    have hdae := hf.daeShown
    rw [hr,hp] at hfrz herr hshown hdae
    exact ⟨hshown rfl rfl,hdae rfl rfl,hfrz rfl rfl,herr rfl rfl⟩

def RfUpdate.left : RfUpdate → Nat
  | .nem => 6
  | .frz _ => 5
  | .errs => 4
  | .err _ => 3
  | .value | .daeValue => 2
  | .store _ | .daeStore _ => 1

def RfPc.left : RfPc → Nat
  | .idle => 0
  | .interrupt => 1
  | .testIe => 2
  | .finishDcs u => 2+RfUpdate.left u
  | .finishDae u => 8+RfUpdate.left u
  | .finish => 15
  | .wait => 16
  | .wc => 17
  | .updateDa u => 17+RfUpdate.left u
  | .da => 24
  | .ta => 25
  | .updateXm u => 25+RfUpdate.left u
  | .xm => 32
  | .testInhibit => 33
  | .dbr => 34
  | .raise _ => 35
  | .diskWrite | .memoryWrite | .memoryCheck => 36
  | .memoryRead | .testAgain => 37
  | .diskRead => 38
  | .testCheck => 39
  | .testRead => 40
  | .readDa => 41
  | .readTa => 42
  | .readDar => 43
  | .readXm => 44
  | .readCma => 45
  | .readWc => 46

def toEnd (s : RfSeat) : Nat := if s.newCommandReady then 47 else RfPc.left s.pc

/-- What the worker does with the DMAs `dmas`, as long as there is something to do -/
def work (addrSpace : Nat) (s : RfSeat) (dmas : List (List UInt16 × Bool)) : RfSeat :=
  dmas.foldl (fun s d => (s.workerStep addrSpace d.1 d.2).getD s) s

theorem left_workerUpdate (v : RfUpdate) (go : RfUpdate → RfPc) (done : RfPc)
    {n : Nat} (hgo : ∀ w,RfPc.left (go w)=n+RfUpdate.left w) (hdone : RfPc.left done≤n) :
    RfPc.left (s.workerUpdate v go done).pc<n+RfUpdate.left v := by
  cases v <;> simp only [workerUpdate,update,map_some,map_none,getD_some,
    getD_none,hgo,RfUpdate.left] <;> omega

theorem workerStep_left (addrSpace : Nat) (words : List UInt16) (ok : Bool) (hne : s.pc≠.idle)
    (hr : s.reg.holdsMutex=false) : ∃ u,s.workerStep addrSpace words ok=some u ∧
      RfPc.left u.pc<RfPc.left s.pc ∧ u.newCommandReady=s.newCommandReady ∧ u.reg=s.reg := by
  cases hp : s.pc with
  | idle => exact (hne hp).elim
  | readWc | readCma | readXm | readDar | readTa | readDa | raise | dbr | xm | ta | da | wc | wait
  | interrupt =>
    simp only [RfSeat.workerStep,hp]
    exact ⟨_,rfl,by simp [RfPc.left,RfUpdate.left,RfSeat.raise,RfSeat.note],rfl,rfl⟩
  | testRead | testCheck | testAgain | testInhibit | testIe =>
    simp only [RfSeat.workerStep,hp]
    refine ⟨_,rfl,?_,rfl,rfl⟩
    dsimp only
    split <;> simp [RfPc.left]
  | diskRead =>
    simp only [RfSeat.workerStep,hp]
    refine ⟨_,rfl,?_⟩
    unfold RfSeat.diskRead
    split <;> exact ⟨by simp [RfPc.left,RfSeat.note],rfl,rfl⟩
  | memoryWrite =>
    simp only [RfSeat.workerStep,hp]
    refine ⟨_,rfl,?_⟩
    unfold RfSeat.memoryWrite
    split
    · exact ⟨by simp [RfPc.left],rfl,rfl⟩
    · split <;> exact ⟨by simp [RfPc.left,RfSeat.note],rfl,rfl⟩
  | memoryCheck =>
    simp only [RfSeat.workerStep,hp]
    refine ⟨_,rfl,?_⟩
    unfold RfSeat.memoryCheck
    split
    · exact ⟨by simp [RfPc.left],rfl,rfl⟩
    · split <;> exact ⟨by simp [RfPc.left,RfSeat.note],rfl,rfl⟩
  | memoryRead =>
    simp only [RfSeat.workerStep,hp]
    refine ⟨_,rfl,?_⟩
    unfold RfSeat.memoryRead
    split <;> exact ⟨by simp [RfPc.left,RfSeat.note],rfl,rfl⟩
  | diskWrite =>
    simp only [RfSeat.workerStep,hp]
    unfold RfSeat.diskWrite RfSeat.note
    refine ⟨_,rfl,?_,rfl,rfl⟩
    dsimp only
    split <;> simp [RfPc.left]
  | updateXm v =>
    simp only [RfSeat.workerStep,hp]
    exact ⟨_,rfl,left_workerUpdate v _ _ (fun _ => rfl) (Nat.le_refl 25),by cases v <;> rfl,by cases v <;> rfl⟩
  | updateDa v =>
    simp only [RfSeat.workerStep,hp]
    exact ⟨_,rfl,left_workerUpdate v _ _ (fun _ => rfl) (Nat.le_refl 17),by cases v <;> rfl,by cases v <;> rfl⟩
  | finish =>
    simp only [RfSeat.workerStep,hp,hr]
    exact ⟨_,rfl,by simp [RfPc.left,RfUpdate.left],rfl,rfl⟩
  | finishDae v =>
    simp only [RfSeat.workerStep,hp]
    exact ⟨_,rfl,left_workerUpdate v _ _ (fun _ => rfl) (Nat.le_refl 8),by cases v <;> rfl,by cases v <;> rfl⟩
  | finishDcs v =>
    simp only [RfSeat.workerStep,hp]
    exact ⟨_,rfl,left_workerUpdate v _ _ (fun _ => rfl) (Nat.le_refl 2),by cases v <;> rfl,by cases v <;> rfl⟩

theorem Lives.work (h : s.Lives) (hr : s.reg.holdsMutex=false) (addrSpace : Nat)
    {dmas : List (List UInt16 × Bool)} (hl : s.toEnd≤dmas.length) :
    (s.work addrSpace dmas).Lives ∧ (s.work addrSpace dmas).AtRest := by
  induction dmas generalizing s with
  | nil =>
    have h0 : s.toEnd=0 := Nat.le_zero.mp hl
    unfold toEnd at h0
    cases hn : s.newCommandReady with
    | true => simp [hn] at h0
    | false =>
      refine ⟨h,?_,hn⟩
      simp only [hn,Bool.false_eq_true,if_false] at h0
      show s.pc=.idle
      cases hp : s.pc <;> rw [hp] at h0 <;> first | rfl | (simp [RfPc.left] at h0)
  | cons d dmas ih =>
    have hw : s.work addrSpace (d::dmas) =
        ((s.workerStep addrSpace d.1 d.2).getD s).work addrSpace dmas := rfl
    rw [hw]
    by_cases hp : s.pc=.idle
    · cases hn : s.newCommandReady with
      | true =>
        have hs : s.workerStep addrSpace d.1 d.2 =
            some { s with newCommandReady := false,id := s.newId,pc := .readWc } := by
          simp only [RfSeat.workerStep,hp]
          rw [if_pos ⟨hn,hr⟩]
        have hl' : 47≤dmas.length+1 := by
          unfold toEnd at hl
          rw [if_pos hn] at hl
          exact hl
        rw [hs,getD_some]
        refine ih (h.take hn) hr ?_
        show 46≤dmas.length
        omega
      | false =>
        have hs : s.workerStep addrSpace d.1 d.2=none := by
          simp only [RfSeat.workerStep,hp]
          rw [if_neg (by simp [hn])]
        rw [hs,getD_none]
        refine ih h hr ?_
        unfold toEnd
        rw [if_neg (by simp [hn]),hp]
        exact Nat.zero_le _
    · obtain ⟨u,hs,hlt,hnu,hru⟩ := workerStep_left addrSpace d.1 d.2 hp hr
      have hn := h.none_pending hp
      rw [hs,getD_some]
      refine ih (h.workerStep hs) (hru ▸ hr) ?_
      unfold toEnd at hl ⊢
      rw [if_neg (by simp [hn])] at hl
      rw [if_neg (by simp [hnu,hn])]
      rw [length_cons] at hl
      show RfPc.left u.pc ≤ _
      omega

instance (s : RfSeat) (k : Nat) : Decidable (s.Unread k) :=
  inferInstanceAs (Decidable ((_=_ ∨ _≠_) ∧ _ ≤ _))

instance (s : RfSeat) : Decidable s.MayReset :=
  inferInstanceAs (Decidable (_=_ ∧ (_=_ ∨ _=_ ∨ _=_ ∧ _≠_)))

instance (s : RfSeat) : (u : RfUpdate) → Decidable (s.Current u)
  | .frz _ | .err _ | .store _ | .daeStore _ => inferInstanceAs (Decidable (_=_))
  | .nem | .errs | .value | .daeValue => isTrue trivial

instance (s : RfSeat) : (p : RfPc) → Decidable (s.WorkerCareful p)
  | .updateXm u | .updateDa u | .finishDae u | .finishDcs u => inferInstanceAs (Decidable (s.Current u))
  | .idle | .readWc | .readCma | .readXm | .readDar | .readTa | .readDa | .testRead | .testCheck | .diskRead
  | .testAgain | .memoryWrite | .memoryCheck | .memoryRead | .diskWrite | .raise _ | .dbr | .testInhibit
  | .xm | .ta | .da | .wc | .wait | .finish | .testIe | .interrupt => isTrue trivial

instance (s : RfSeat) : (r : RfReg) → Decidable (s.RegCareful r)
  | .update u => inferInstanceAs (Decidable (s.Current u))
  | .testRdy => inferInstanceAs (Decidable (_=_ → _=_))
  | .idle | .testClear | .resetRegisters _ | .resetDcs _ | .resetRdy _ | .resetDae _ | .testGo | .lock
  | .clearGo | .clearWce | .testFunction | .clearRdy | .clearErr => isTrue trivial

instance (s : RfSeat) : (e : RfEvent) → Decidable (s.Careful e)
  | .worker _ _ => inferInstanceAs (Decidable (WorkerCareful _ _ ∧ (_=_ → _=_)))
  | .reg => inferInstanceAs (Decidable (RegCareful _ _))
  | .dcs _ => inferInstanceAs (Decidable
      ((Unread _ _ → _=_) ∧ (Unread _ _ → _=_) ∧ (_=_ → MayReset _) ∧ (_≠_ → _∈_ → _=_)))
  | .dae _ => inferInstanceAs (Decidable ((Unread _ _ → _=_) ∧ (Unread _ _ → _=_)))
  | .wc _ | .cma _ | .dar _ => inferInstanceAs (Decidable (Unread _ _ → _=_))
  | .init => inferInstanceAs (Decidable (MayReset _))

def writeTwo : List RfEvent := [.wc 65534,.cma 512,.dar 5,.dcs 0x43]++replicate 15 .reg

end RfSeat

end QUniLator.Disks
