import QUniLator.Adapter.PruMain
import QUniLator.Framework.Run

namespace QUniLator.Adapter

open BitVec

theorem bitNp_twoPow : bitNp=BitVec.twoPow 8 4 := by
  decide

def np (m : Mask) : Bool := m.getLsbD 4

@[simp] theorem and_bitNp (m : Mask) : m &&& bitNp=0#8 ↔ np m=false := by
  rw [bitNp_twoPow,and_twoPow,np]
  cases m.getLsbD 4 <;> decide

theorem and_bitNp_ne (m : Mask) : m &&& bitNp≠0 ↔ np m=true := by
  rw [← Bool.not_eq_false,← and_bitNp]
  rfl

@[simp] theorem np_and (m n : Mask) : np (m &&& n)=(np m && np n) := by
  simp [np]

@[simp] theorem np_or (m n : Mask) : np (m ||| n)=(np m || np n) := by
  simp [np]

@[simp] theorem np_not (m : Mask) : np (~~~m) = !np m := by
  simp [np]

@[simp] theorem np_zero : np 0#8=false := by
  decide

@[simp] theorem np_bitNp : np bitNp=true := by
  decide

@[simp] theorem np_intrMask : np intrMask=false := by
  decide

@[simp] theorem np_arbLinePattern (m : Mask) : np (arbLinePattern m)=np m := by
  have h1 : np 1#8=false := by decide
  have h4 : np 4#8=false := by decide
  rw [arbLinePattern]
  split_ifs <;> simp [h1,h4]

namespace SmArb

theorem setRegister_eq (s : SmArb) (level : Nat) :
    ∃ r p,s.setRegister level={ s with registers := r,pendingIntrRegisterHandle := p } := by
  rw [setRegister]
  split_ifs
  · exact ⟨_,_,rfl⟩
  · exact ⟨s.registers,s.pendingIntrRegisterHandle,rfl⟩

theorem setRegisters_eq (levels : List Nat) (s : SmArb) : ∃ r p,levels.foldl setRegister s =
      { s with registers := r,pendingIntrRegisterHandle := p } := by
  induction levels generalizing s with
  | nil => exact ⟨s.registers,s.pendingIntrRegisterHandle,rfl⟩
  | cons level levels ih =>
    obtain ⟨r,p,h⟩ := s.setRegister_eq level
    obtain ⟨r',p',h'⟩ := ih (s.setRegister level)
    rw [List.foldl_cons,h',h]
    exact ⟨r',p',rfl⟩

theorem answerGrants_eq (i : ArbLines) (s : SmArb) : ∃ st il cm,s.answerGrants i =
      { s with state := st,intrLevelIndex := il,canceledRequestMask := cm } := by
  simp only [answerGrants,rescue]
  split_ifs
  iterate 2 exact ⟨_,s.intrLevelIndex,s.canceledRequestMask,rfl⟩
  iterate 2
    · exact ⟨_,_,_,rfl⟩
    · exact ⟨s.state,s.intrLevelIndex,s.canceledRequestMask,rfl⟩

theorem holdoff_eq (i : ArbLines) (s : SmArb) : ∃ st ac co,s.holdoff i =
      { s with dmrHoldoffStart := st,dmrHoldoffActive := ac,dmrCommitted := co } := by
  simp only [holdoff]
  split_ifs
  · exact ⟨_,_,_,rfl⟩
  · exact ⟨_,_,_,rfl⟩
  · exact ⟨s.dmrHoldoffStart,_,s.dmrCommitted,rfl⟩
  · exact ⟨s.dmrHoldoffStart,s.dmrHoldoffActive,s.dmrCommitted,rfl⟩

theorem grantCheck_eq (i : ArbLines) (s : SmArb) : ∃ st il cm gm r p,s.grantCheck i =
      { (s.holdoff i).commit.driveRequests with
        deviceRequestSignalledMask := s.deviceRequestMask
        state := st,intrLevelIndex := il,canceledRequestMask := cm,deviceGrantMask := gm
        registers := r,pendingIntrRegisterHandle := p } := by
  obtain ⟨_,_,_,hh⟩ := s.holdoff_eq i
  have hm : (s.holdoff i).commit.driveRequests.deviceRequestMask=s.deviceRequestMask := by
    rw [hh]; rfl
  obtain ⟨r,p,hr⟩ := setRegisters_eq [0,1,2,3] (s.holdoff i).commit.driveRequests
  obtain ⟨st,il,cm,ha⟩ := answerGrants_eq i
    (takeGrants i ([0,1,2,3].foldl setRegister (s.holdoff i).commit.driveRequests))
  simp only [grantCheck]
  rw [ha,hr,takeGrants]
  simp only [hm]
  exact ⟨st,il,cm,_,r,p,rfl⟩

theorem answerGrants_state (i : ArbLines) (s : SmArb) : (s.answerGrants i).state=.intrVector ∨
    (s.answerGrants i).state=.dmaGrantRplySyncWait ∧ np s.deviceGrantMask ∨
    (s.answerGrants i).state=s.state ∨ (s.answerGrants i).state=.orphanVector := by
  simp only [answerGrants,rescue]
  split_ifs with h h' h'' <;> simp_all

theorem takeGrants_np (i : ArbLines) (s : SmArb) (h : np (s.takeGrants i).deviceGrantMask) :
    np i.grants ∧ np s.deviceRequestMask ∧ np s.deviceForwardedGrantMask=false := by
  simp only [takeGrants] at h
  split_ifs at h <;> simp_all

theorem grantCheck_state (i : ArbLines) (s : SmArb) (hs : s.state=.grantCheck) : (s.grantCheck i).state=.intrVector ∨
    (s.grantCheck i).state=.dmaGrantRplySyncWait ∧ np i.grants ∧ np s.deviceRequestMask ∧
      np s.deviceForwardedGrantMask=false ∨
    (s.grantCheck i).state=.grantCheck ∨ (s.grantCheck i).state=.orphanVector := by
  obtain ⟨_,_,_,hh⟩ := s.holdoff_eq i
  obtain ⟨r,p,hr⟩ := setRegisters_eq [0,1,2,3] (s.holdoff i).commit.driveRequests
  have hst : ([0,1,2,3].foldl setRegister (s.holdoff i).commit.driveRequests).state =
      .grantCheck := by
    rw [hr,hh]; exact hs
  have hq : ([0,1,2,3].foldl setRegister (s.holdoff i).commit.driveRequests).deviceRequestMask =
      s.deviceRequestMask := by
    rw [hr,hh]; rfl
  have hf : ([0,1,2,3].foldl setRegister
      (s.holdoff i).commit.driveRequests).deviceForwardedGrantMask =
      s.deviceForwardedGrantMask := by
    rw [hr,hh]; rfl
  obtain h | ⟨h,hg⟩ | h | h := answerGrants_state i
    (takeGrants i ([0,1,2,3].foldl setRegister (s.holdoff i).commit.driveRequests))
  · exact .inl h
  · have hn := takeGrants_np i _ hg
    rw [hq,hf] at hn
    exact .inr (.inl ⟨h,hn⟩)
  · exact .inr (.inr (.inl (h.trans hst)))
  · exact .inr (.inr (.inr h))

end SmArb

/-- The PRU with its past: the time, whether an `ARM2PRU_DMA` of a device stands that did not start, whether the DMG
that stands was forwarded while it stood, the level whose vector was driven last, the last interrupt acknowledge. -/
structure Watch where
  pru : Pru
  time : Nat
  issued : Bool
  passedOn : Bool
  drove : Option Nat
  lastAck : Option Nat

/-- What may happen next: a pass of the main loop, with any bus, command of the ARM and time since the last pass, or
the ARM writing into the mailbox, acknowledging an event, or switching the inhibition of the CPU. -/
inductive Action
  | pass (i : PassLines) (c : Option Command) (ticks : Nat)
  | putDma (dma : MailboxDma)
  | putIntr (level : Fin 4) (vector : Word) (handle : Nat) (value : Word)
  | putIntrCancel (level : Option (Fin 4))
  | ackIntr (level : Fin 4)
  | ackInit
  | inhibit (on : Bool)

namespace Watch

def lines (i : PassLines) (ticks : Nat) (w : Watch) : PassLines :=
  { i with arb := { i.arb with now := BitVec.ofNat 32 (w.time+ticks) } }

def loop (i : PassLines) (ticks : Nat) (w : Watch) : Pru :=
  if w.pru.data.func=none then w.pru.slavePass (w.lines i ticks)
  else w.pru.masterPass (w.lines i ticks)

def Works (i : PassLines) (st : ArbState) (w : Watch) : Prop :=
  w.pru.data.func=none ∧ i.deviceregisterAcked ∧ w.pru.arb.state=st

instance (i : PassLines) (st : ArbState) (w : Watch) : Decidable (w.Works i st) :=
  inferInstanceAs (Decidable (_ ∧ _ ∧ _))

def Starts (i : PassLines) (ticks : Nat) (w : Watch) : Prop :=
  w.pru.data.func=none ∧ (w.loop i ticks).data.func=some .start

instance (i : PassLines) (ticks : Nat) (w : Watch) : Decidable (w.Starts i ticks) :=
  inferInstanceAs (Decidable (_ ∧ _))

def Completes (i : PassLines) (w : Watch) : Prop :=
  w.Works i .intrComplete ∧ ¬i.arb.riaki

instance (i : PassLines) (w : Watch) : Decidable (w.Completes i) :=
  inferInstanceAs (Decidable (_ ∧ _))

def Answers (i : PassLines) (w : Watch) : Prop :=
  w.Works i .intrVector ∧ i.arb.riaki ∧ i.arb.din

instance (i : PassLines) (w : Watch) : Decidable (w.Answers i) :=
  inferInstanceAs (Decidable (_ ∧ _ ∧ _))

def Acknowledges (i : PassLines) (w : Watch) : Prop :=
  w.Works i .grantCheck ∧ i.arb.riaki ∨ w.Completes i ∨ w.Works i .orphanComplete ∧ ¬i.arb.riaki

instance (i : PassLines) (w : Watch) : Decidable (w.Acknowledges i) :=
  inferInstanceAs (Decidable (_ ∨ _ ∨ _))

def worked (i : PassLines) (ticks : Nat) (w : Watch) : Watch :=
  { pru := w.loop i ticks
    time := w.time+ticks
    issued := w.issued && !i.init && !w.Starts i ticks
    passedOn :=
      if w.pru.data.func=none then
        np i.arb.grants &&
          (w.passedOn || np (w.pru.arb.forwardGrants i.arb).deviceForwardedGrantMask)
      else w.passedOn
    drove := if w.Answers i then some (bit2idx w.pru.arb.deviceGrantMask) else w.drove
    lastAck := if w.Acknowledges i then some (w.time+ticks) else w.lastAck }

def command (c : Command) (w : Watch) : Watch :=
  { w with
    pru := w.pru.command c
    issued :=
      match c with
      | .dma => w.issued || !w.pru.data.dma.cpuAccess
      | .dmaCancel => w.issued && !(w.pru.Cancelable && !w.pru.data.dma.cpuAccess)
      | _ => w.issued }

def pass (i : PassLines) (c : Option Command) (ticks : Nat) (w : Watch) : Watch :=
  match c with
  | some c => (w.worked i ticks).command c
  | none => w.worked i ticks

def step (w : Watch) : Action → Watch
  | .pass i c ticks => w.pass i c ticks
  | .putDma dma => { w with pru := w.pru.putDma dma }
  | .putIntr level vector handle value => { w with pru := w.pru.putIntr level vector handle value }
  | .putIntrCancel (some level) => { w with pru := w.pru.putIntrCancel (levelBit level) }
  | .putIntrCancel none => { w with pru := w.pru.putIntrCancel intrMask }
  | .ackIntr level =>
    { w with pru := { w.pru with arb := { w.pru.arb with
        intrMaster :=
          Function.update w.pru.arb.intrMaster level (w.pru.arb.intrMaster level).ack } } }
  | .ackInit => { w with pru := { w.pru with initEvent := w.pru.initEvent.ack } }
  | .inhibit on =>
    { w with pru := { w.pru with arb := { w.pru.arb with cpuBusInhibitDmr := on } } }

def Drives (i : PassLines) (ticks : Nat) (w : Watch) : Prop :=
  w.Works i .grantCheck ∧ np (w.loop i ticks).arb.driven.requests ∧ ¬w.pru.arb.cpuBusInhibitDmr

def Raises (i : PassLines) (ticks : Nat) (w : Watch) : Prop :=
  np w.pru.arb.driven.requests=false ∧ np (w.loop i ticks).arb.driven.requests ∧
    ¬w.pru.arb.cpuBusInhibitDmr

/-- Mastership and interrupts as they have to be in a pass. -/
structure Proper (i : PassLines) (ticks : Nat) (w : Watch) : Prop where
  /-- A transfer starts with SACK asserted for a DMG that stands and was not passed on, -/
  granted : w.Starts i ticks → (w.loop i ticks).arb.driven.sack ∧ i.arb.rdmgi ∧
    (w.worked i ticks).passedOn=false
  /-- for a command that stands. -/
  commanded : w.Starts i ticks → w.issued ∧ ¬i.init
  /-- DMR is driven for a command that stands, -/
  driven : w.Drives i ticks → w.issued ∧ ¬i.init
  /-- and not raised in an acknowledge or the hold-off after it. -/
  raised : w.Raises i ticks → ¬i.arb.riaki ∧
    ∀ t,w.lastAck=some t → t+holdoffTicks.toNat≤w.time+ticks
  /-- The vector driven is that of the level remembered, -/
  vector : w.Answers i → ∃ level,(w.worked i ticks).drove=some level ∧
    (w.loop i ticks).arb.driven.dal=w.pru.intr.vector level
  /-- and the end of the acknowledge signals one event of that level. -/
  completed : w.Completes i → ∃ level,w.drove=some level ∧ (w.loop i ticks).arb.intrMaster =
    Function.update w.pru.arb.intrMaster level (w.pru.arb.intrMaster level).signal
  /-- Nothing else signals one. -/
  quiet : ¬w.Completes i → (w.loop i ticks).arb.intrMaster=w.pru.arb.intrMaster

def Stale (i : PassLines) (w : Watch) : Prop :=
  w.pru.data.func=none ∧ i.init ∧ w.pru.arb.state=.dmaGrantRplySyncWait

/-- INIT comes and goes unseen while the PRU is master and a further DMA is requested. -/
def Unseen (i : PassLines) (w : Watch) : Prop :=
  w.pru.data.func≠none ∧ i.init ∧ np w.pru.arb.deviceRequestMask

def Snatches (i : PassLines) (w : Watch) : Prop :=
  w.Works i .grantCheck ∧ np i.arb.grants ∧ np w.pru.arb.deviceRequestSignalledMask=false ∧
    np w.pru.arb.deviceRequestMask ∧ ¬i.init

def Avoids (w : Watch) : Action → Prop
  | .pass i _ _ => ¬w.Stale i ∧ ¬w.Unseen i ∧ ¬w.Snatches i
  | _ => True

instance (w : Watch) (a : Action) : Decidable (w.Avoids a) :=
  match a with
  | .pass i _ _ =>
    have : Decidable (w.Stale i) := inferInstanceAs (Decidable (_ ∧ _ ∧ _))
    have : Decidable (w.Unseen i) := inferInstanceAs (Decidable (_ ∧ _ ∧ _))
    have : Decidable (w.Snatches i) := inferInstanceAs (Decidable (_ ∧ _ ∧ _ ∧ _ ∧ _))
    inferInstanceAs (Decidable (_ ∧ _ ∧ _))
  | .putDma _ | .putIntr .. | .putIntrCancel _ | .ackIntr _ | .ackInit | .inhibit _ =>
    isTrue trivial

/-- The run of the main loop and the ARM, with any step or with those that avoid the three. -/
def next (w : Watch) (a : Action) : Option Watch := some (w.step a)

end Watch

/-- What the acknowledges leave: the hold-off runs from the last one, or it is over. -/
def SmArb.Held (s : SmArb) (lastAck : Option Nat) (time : Nat) : Prop :=
  ∀ t,lastAck=some t → t≤time ∧
    (s.dmrHoldoffActive ∧ s.dmrHoldoffStart=BitVec.ofNat 32 t ∨ t+holdoffTicks.toNat≤time)

/-- What holds of the arbitration between passes. -/
structure SmArb.Sane (s : SmArb) (issued passedOn : Bool) (drove lastAck : Option Nat) (time : Nat) : Prop where
  notNoop : s.state≠.noop
  requested : np s.deviceRequestMask → issued
  waiting : s.state=.dmaGrantRplySyncWait →
    np s.deviceRequestMask ∧ np s.deviceRequestSignalledMask
  fresh : np s.deviceRequestSignalledMask → passedOn=false
  committed : s.dmrCommitted → np s.driven.requests
  held : s.Held lastAck time
  answering : s.state=.intrComplete → drove=some s.intrLevelIndex

namespace SmArb

theorem Held.later {s : SmArb} {lastAck : Option Nat} {time : Nat} (h : s.Held lastAck time)
    (ticks : Nat) : s.Held lastAck (time+ticks) := by
  intro t ht
  obtain ⟨hle,hr | hr⟩ := h t ht
  · exact ⟨by omega,.inl hr⟩
  · exact ⟨by omega,.inr (by omega)⟩

theorem ticks_le {t time : Nat} (hle : t≤time) (h : holdoffTicks≤BitVec.ofNat 32 time-BitVec.ofNat 32 t) :
    t+holdoffTicks.toNat≤time := by
  have hn := le_def.mp h
  rw [toNat_sub,toNat_ofNat,toNat_ofNat] at hn
  have hticks : holdoffTicks.toNat=10000 := by decide
  rw [hticks] at hn ⊢
  omega

theorem Held.holdoff {i : ArbLines} {s : SmArb} {lastAck : Option Nat} {time : Nat}
    (h : s.Held lastAck time) (hnow : i.now=BitVec.ofNat 32 time) :
    (s.holdoff i).Held (if i.riaki then some time else lastAck) time ∧
    ((s.holdoff i).dmrHoldoffActive=false → i.riaki=false ∧ ∀ t,lastAck=some t → t+holdoffTicks.toNat≤time) := by
  have hzero : ¬holdoffTicks≤BitVec.ofNat 32 time-BitVec.ofNat 32 time := by
    rw [BitVec.sub_self]; decide
  simp only [SmArb.holdoff,hnow]
  cases hr : i.riaki with
  | true =>
    simp only [if_true,true_and,if_neg hzero]
    refine ⟨fun t ht => ?_,fun h => by cases h⟩
    cases ht
    exact ⟨le_rfl,.inl ⟨rfl,rfl⟩⟩
  | false =>
    simp only [Bool.false_eq_true,if_false]
    split_ifs with hx
    · have hover (t : Nat) (ht : lastAck=some t) : t+holdoffTicks.toNat≤time := by
        obtain ⟨hle,⟨-,hs⟩ | hd⟩ := h t ht
        · exact ticks_le hle (hs ▸ hx.2)
        · exact hd
      exact ⟨fun t ht => ⟨(h t ht).1,.inr (hover t ht)⟩,fun _ => ⟨trivial,hover⟩⟩
    · refine ⟨h,fun ha => ⟨trivial,fun t ht => ?_⟩⟩
      obtain ⟨-,⟨hact,-⟩ | hd⟩ := h t ht
      · rw [hact] at ha; cases ha
      · exact hd

theorem holdoff_committed (i : ArbLines) (s : SmArb) (h : (s.holdoff i).dmrCommitted) : s.dmrCommitted := by
  simp only [holdoff] at h
  split_ifs at h <;> exact h

theorem commit_lines (s : SmArb) : np s.commit.driveRequests.driven.requests =
    (s.commit.dmrCommitted || s.cpuBusInhibitDmr) := by
  simp only [driveRequests,commit]
  by_cases hq : np s.deviceRequestMask <;> by_cases hb : s.cpuBusInhibitDmr <;>
    by_cases hc : s.dmrCommitted <;> by_cases ha : s.dmrHoldoffActive <;> simp [hq,hb,hc,ha]

theorem grantCheck_lines (i : ArbLines) (s : SmArb) : np (s.grantCheck i).driven.requests =
      ((s.grantCheck i).dmrCommitted || s.cpuBusInhibitDmr) := by
  obtain ⟨_,_,_,hh⟩ := s.holdoff_eq i
  obtain ⟨_,_,_,_,_,_,hg⟩ := s.grantCheck_eq i
  have hb : (s.holdoff i).cpuBusInhibitDmr=s.cpuBusInhibitDmr := by rw [hh]
  rw [hg,← hb]
  exact commit_lines (s.holdoff i)

theorem grantCheck_committed (i : ArbLines) (s : SmArb) (h : (s.grantCheck i).dmrCommitted) : np s.deviceRequestMask ∧
      (s.dmrCommitted ∨ (s.holdoff i).dmrHoldoffActive=false) := by
  obtain ⟨_,_,_,_,_,_,hg⟩ := s.grantCheck_eq i
  obtain ⟨_,_,_,hh⟩ := s.holdoff_eq i
  rw [hg] at h
  have hc : ((s.holdoff i).deviceRequestMask &&& bitNp≠0 &&
      ((s.holdoff i).dmrCommitted || !(s.holdoff i).dmrHoldoffActive))=true := h
  have hm : (s.holdoff i).deviceRequestMask=s.deviceRequestMask := by rw [hh]
  rw [hm] at hc
  simp only [Bool.and_eq_true,Bool.or_eq_true,Bool.not_eq_true',decide_eq_true_eq] at hc
  refine ⟨by simpa using hc.1,?_⟩
  obtain hd | hd := hc.2
  · exact .inl (s.holdoff_committed i hd)
  · exact .inr hd

variable {s : SmArb} {i : ArbLines} {issued passedOn : Bool} {drove lastAck : Option Nat}
  {time : Nat}

theorem Sane.grantCheck (h : s.Sane issued passedOn drove lastAck time)
    (hs : s.state=.grantCheck) (hnow : i.now=BitVec.ofNat 32 time) (hg : passedOn → np i.grants)
    (hn : ¬(np i.grants ∧ np s.deviceRequestSignalledMask=false ∧ np s.deviceRequestMask)) :
    (s.grantCheck i).Sane issued passedOn drove (if i.riaki then some time else lastAck) time := by
  obtain ⟨_,_,_,_,_,_,hc⟩ := s.grantCheck_eq i
  obtain ⟨_,_,_,hh⟩ := s.holdoff_eq i
  have hq : (s.grantCheck i).deviceRequestMask=s.deviceRequestMask := by
    rw [hc,hh]; rfl
  have hsig : (s.grantCheck i).deviceRequestSignalledMask=s.deviceRequestMask := by
    rw [hc]
  have hact : (s.grantCheck i).dmrHoldoffActive=(s.holdoff i).dmrHoldoffActive ∧
      (s.grantCheck i).dmrHoldoffStart=(s.holdoff i).dmrHoldoffStart := by
    rw [hc]; exact ⟨rfl,rfl⟩
  have hst := s.grantCheck_state i hs
  refine ⟨?_,fun hr => h.requested (hq ▸ hr),fun hw => ?_,fun hr => ?_,fun hr => ?_,
    fun t ht => ?_,fun hw => ?_⟩
  · obtain hst | ⟨hst,-⟩ | hst | hst := hst <;> rw [hst] <;> decide
  · rw [hw] at hst
    obtain hst | ⟨-,-,hst,-⟩ | hst | hst := hst
    · cases hst
    · exact ⟨by rw [hq]; exact hst,by rw [hsig]; exact hst⟩
    · cases hst
    · cases hst
  · rw [hsig] at hr
    by_contra hp
    rw [Bool.not_eq_false] at hp
    cases hd : np s.deviceRequestSignalledMask with
    | true => exact absurd (h.fresh hd) (by simp [hp])
    | false => exact hn ⟨hg hp,hd,hr⟩
  · rw [grantCheck_lines,hr]; rfl
  · rw [hact.1,hact.2]
    exact (h.held.holdoff hnow).1 t ht
  · rw [hw] at hst
    obtain hst | ⟨hst,-⟩ | hst | hst := hst <;> cases hst

theorem Sane.back (h : s.Sane issued passedOn drove lastAck time) :
    { s with state := .grantCheck : SmArb }.Sane issued passedOn drove lastAck time := by
  refine ⟨nofun,h.requested,?_,h.fresh,h.committed,h.held,?_⟩ <;> intro hw <;> cases hw

theorem Sane.acknowledged (h : s.Sane issued passedOn drove lastAck time) (d : Driven)
    (hd : d.requests=s.driven.requests) (ev : Nat → Event) : { s with
      driven := d,dmrHoldoffStart := BitVec.ofNat 32 time,dmrHoldoffActive := true
      intrMaster := ev,state := .grantCheck : SmArb }.Sane issued passedOn drove (some time)
        time := by
  refine ⟨nofun,h.requested,?_,h.fresh,fun hc => ?_,fun t ht => ?_,?_⟩
  · intro hw; cases hw
  · show np d.requests=true
    rw [hd]; exact h.committed hc
  · cases ht
    exact ⟨le_rfl,.inl ⟨rfl,rfl⟩⟩
  · intro hw; cases hw

theorem Sane.dmaGrantWait (h : s.Sane issued passedOn drove lastAck time) :
    (s.dmaGrantWait i).1.Sane (issued && !np (s.dmaGrantWait i).2) passedOn drove lastAck time ∧
    (np (s.dmaGrantWait i).2 → i.rdmgi ∧ (s.dmaGrantWait i).1.driven.sack) := by
  have hz : (issued && !np (0 : Mask))=issued := by
    rw [show np (0 : Mask)=false from rfl,Bool.not_false,Bool.and_true]
  have hno : ¬np (0 : Mask)=true := by decide
  rw [SmArb.dmaGrantWait]
  by_cases hr : i.rdmgi
  case neg =>
    rw [if_pos hr,hz]
    exact ⟨h.back,fun hf => absurd hf hno⟩
  rw [if_neg (not_not.mpr hr)]
  by_cases hb : i.sync ∨ i.rply
  · rw [if_pos hb,hz]
    exact ⟨h,fun hf => absurd hf hno⟩
  · rw [if_neg hb]
    refine ⟨⟨nofun,fun hq => ?_,?_,h.fresh,?_,h.held,?_⟩,fun _ => ⟨hr,rfl⟩⟩
    · simp at hq
    · intro hw; cases hw
    · intro hc; cases hc
    · intro hw; cases hw

theorem Sane.intrVector (h : s.Sane issued passedOn drove lastAck time) (v : Nat → Word) :
    (s.intrVector i v).Sane issued passedOn
      (if i.riaki ∧ i.din then some (bit2idx s.deviceGrantMask) else drove) lastAck time ∧
    (i.riaki ∧ i.din → (s.intrVector i v).driven.dal=v (bit2idx s.deviceGrantMask)) := by
  rw [SmArb.intrVector]
  by_cases hr : i.riaki
  case neg =>
    have hno : ¬(i.riaki=true ∧ i.din=true) := fun hf => hr hf.1
    rw [if_pos hr,if_neg hno]
    exact ⟨h.back,fun hf => absurd hf hno⟩
  rw [if_neg (not_not.mpr hr)]
  by_cases hd : i.din
  · rw [if_neg (not_not.mpr hd),if_pos ⟨hr,hd⟩]
    refine ⟨⟨nofun,fun hq => h.requested ?_,?_,h.fresh,?_,h.held,fun _ => rfl⟩,fun _ => rfl⟩
    · rw [np_and,Bool.and_eq_true] at hq; exact hq.1
    · intro hw; cases hw
    · intro hc; cases hc
  · have hno : ¬(i.riaki=true ∧ i.din=true) := fun hf => hd hf.2
    rw [if_pos hd,if_neg hno]
    exact ⟨h,fun hf => absurd hf hno⟩

theorem Sane.intrComplete (h : s.Sane issued passedOn drove lastAck time) (hnow : i.now=BitVec.ofNat 32 time) :
    (s.intrComplete i).1.Sane issued passedOn drove (if ¬i.riaki then some time else lastAck) time := by
  simp only [SmArb.intrComplete,hnow]
  split_ifs with hr
  · exact h
  · exact h.acknowledged { s.driven with rply := false,dal := 0 } rfl _

theorem Sane.orphanVector (h : s.Sane issued passedOn drove lastAck time) (v : Nat → Word) :
    (s.orphanVector i v).Sane issued passedOn drove lastAck time := by
  simp only [SmArb.orphanVector]
  split_ifs
  · refine ⟨nofun,h.requested,?_,h.fresh,h.committed,h.held,?_⟩ <;> intro hw <;> cases hw
  · exact h
  · exact h.back

theorem Sane.orphanComplete (h : s.Sane issued passedOn drove lastAck time) (hnow : i.now=BitVec.ofNat 32 time) :
    (s.orphanComplete i).Sane issued passedOn drove (if ¬i.riaki then some time else lastAck) time := by
  simp only [SmArb.orphanComplete,hnow]
  split_ifs with hr
  · exact h
  · exact h.acknowledged { s.driven with rply := false,dal := 0 } rfl _

theorem Sane.forwarded (h : s.Sane issued passedOn drove lastAck time) (i : ArbLines)
    (init : Bool) (hi : init → s.state≠.dmaGrantRplySyncWait) (ticks : Nat) :
    ({ s with deviceRequestMask := if init then 0 else s.deviceRequestMask : SmArb }.forwardGrants
      i).Sane (issued && !init) (np i.grants && (passedOn ||
        np (i.grants &&& ~~~s.deviceRequestSignalledMask))) drove lastAck (time+ticks) := by
  refine ⟨h.notNoop,fun hq => ?_,fun hw => ?_,fun hs => ?_,h.committed,h.held.later ticks,
    h.answering⟩
  · cases init with
    | true => exact absurd (show np (0 : Mask)=true from hq) (by decide)
    | false => exact Bool.and_eq_true_iff.mpr ⟨h.requested hq,rfl⟩
  · cases init with
    | true => exact absurd hw (hi rfl)
    | false => exact h.waiting hw
  · have hd : np s.deviceRequestSignalledMask=true := hs
    simp [h.fresh hd,hd]

theorem worker_granted (v : Nat → Word) (hn : s.state≠.noop)
    (hg : np (s.workerDevice i v).2) : s.state=.dmaGrantRplySyncWait := by
  have hno : ¬np (0 : Mask)=true := by decide
  rw [workerDevice] at hg
  cases hs : s.state with
  | dmaGrantRplySyncWait => rfl
  | noop => exact absurd hs hn
  | intrComplete =>
    rw [hs] at hg
    simp only [SmArb.intrComplete] at hg
    split_ifs at hg
    · exact absurd hg hno
    · simp at hg
  | grantCheck | intrVector | orphanVector | orphanComplete =>
    rw [hs] at hg
    exact absurd hg hno

theorem worker_intrMaster (v : Nat → Word) (hn : s.state≠.noop) : (s.workerDevice i v).1.intrMaster =
      if s.state=.intrComplete ∧ ¬i.riaki then
        Function.update s.intrMaster s.intrLevelIndex (s.intrMaster s.intrLevelIndex).signal else s.intrMaster := by
  rw [workerDevice]
  cases hs : s.state with
  | grantCheck =>
    obtain ⟨_,_,_,_,_,_,hc⟩ := s.grantCheck_eq i
    obtain ⟨_,_,_,hh⟩ := s.holdoff_eq i
    simp only [hc,hh,reduceCtorEq,false_and,if_false]
    rfl
  | dmaGrantRplySyncWait =>
    simp only [SmArb.dmaGrantWait,reduceCtorEq,false_and,if_false]
    split_ifs <;> rfl
  | intrVector =>
    simp only [SmArb.intrVector,reduceCtorEq,false_and,if_false]
    split_ifs <;> rfl
  | intrComplete =>
    simp only [SmArb.intrComplete,true_and]
    by_cases hr : i.riaki <;> simp [hr]
  | orphanVector =>
    simp only [SmArb.orphanVector,reduceCtorEq,false_and,if_false]
    split_ifs <;> rfl
  | orphanComplete =>
    simp only [SmArb.orphanComplete,reduceCtorEq,false_and,if_false]
    split_ifs <;> rfl
  | noop => exact absurd hs hn

theorem worker_raises (v : Nat → Word) (hn : s.state≠.noop)
    (hb : np s.driven.requests=false) (hr : np (s.workerDevice i v).1.driven.requests) : s.state=.grantCheck := by
  have hb' : ¬np s.driven.requests=true := by simp [hb]
  rw [workerDevice] at hr
  cases hs : s.state with
  | grantCheck => rfl
  | dmaGrantRplySyncWait =>
    simp only [hs,SmArb.dmaGrantWait] at hr
    split_ifs at hr
    all_goals first | exact absurd hr hb' | simp at hr
  | intrVector =>
    simp only [hs,SmArb.intrVector] at hr
    split_ifs at hr
    all_goals first | exact absurd hr hb' | simp at hr
  | intrComplete =>
    simp only [hs,SmArb.intrComplete] at hr
    split_ifs at hr <;> exact absurd hr hb'
  | orphanVector =>
    simp only [hs,SmArb.orphanVector] at hr
    split_ifs at hr <;> exact absurd hr hb'
  | orphanComplete =>
    simp only [hs,SmArb.orphanComplete] at hr
    split_ifs at hr <;> exact absurd hr hb'
  | noop => exact absurd hs hn

theorem Sane.master (h : s.Sane issued passedOn drove lastAck time) {issued' : Bool} (ended : Prop)
    [Decidable ended] (hi : np s.deviceRequestMask → issued') (ticks : Nat) :
    (if ended then { s with driven := { s.driven with sack := false } } else s).Sane issued'
      passedOn drove lastAck (time+ticks) := by
  split_ifs
  iterate 2
    exact ⟨h.notNoop,hi,h.waiting,h.fresh,h.committed,h.held.later ticks,h.answering⟩

theorem Sane.worker (h : s.Sane issued passedOn drove lastAck time)
    (hnow : i.now=BitVec.ofNat 32 time) (v : Nat → Word) (hg : passedOn → np i.grants) (hn : s.state=.grantCheck →
      ¬(np i.grants ∧ np s.deviceRequestSignalledMask=false ∧ np s.deviceRequestMask)) :
    (s.workerDevice i v).1.Sane (issued && !np (s.workerDevice i v).2) passedOn
      (if s.state=.intrVector ∧ i.riaki ∧ i.din then some (bit2idx s.deviceGrantMask) else drove)
      (if s.state=.grantCheck ∧ i.riaki ∨ s.state=.intrComplete ∧ ¬i.riaki ∨
        s.state=.orphanComplete ∧ ¬i.riaki then some time else lastAck) time := by
  have hz : (issued && !np (0 : Mask))=issued := by
    rw [show np (0 : Mask)=false from rfl,Bool.not_false,Bool.and_true]
  have hc : (issued && !np (s.intrComplete i).2)=issued := by
    rw [SmArb.intrComplete]
    split_ifs <;> simp
  rw [workerDevice]
  cases hs : s.state with
  | grantCheck => simpa [hz] using h.grantCheck hs hnow hg (hn hs)
  | dmaGrantRplySyncWait => simpa using h.dmaGrantWait.1
  | intrVector => simpa [hz] using (h.intrVector (i := i) v).1
  | intrComplete => simpa [hc] using h.intrComplete hnow
  | orphanVector => simpa [hz] using h.orphanVector (i := i) v
  | orphanComplete => simpa [hz] using h.orphanComplete hnow
  | noop => exact absurd hs h.notNoop

end SmArb

namespace Pru

def readied (i : PassLines) (s : Pru) : SmArb :=
  { s.arb with
    deviceRequestMask := if i.init then 0 else s.arb.deviceRequestMask }.forwardGrants i.arb

theorem initialization_eq (i : PassLines) (s : Pru) : ∃ st ev,s.initialization i = { s with
        arb := { s.arb with deviceRequestMask := if i.init then 0 else s.arb.deviceRequestMask }
        initState := st,initEvent := ev } := by
  rw [initialization]
  cases hi : i.init with
  | true =>
    simp only [if_true,not_true_eq_false,and_false,if_false]
    cases s.initState <;> exact ⟨_,_,rfl⟩
  | false =>
    simp only [Bool.false_eq_true,if_false]
    cases s.initState with
    | idle => exact ⟨_,_,rfl⟩
    | initAsserted =>
      simp only
      split_ifs <;> exact ⟨_,_,rfl⟩

theorem arbitrate_eq (i : PassLines) (s : Pru) : s.arbitrate i = { s with
      arb := (s.arb.workerDevice i.arb s.intr.vector).1
      data := if np (s.arb.workerDevice i.arb s.intr.vector).2 then
        { s.data with func := some .start } else s.data } := by
  rw [arbitrate]
  by_cases hg : np (s.arb.workerDevice i.arb s.intr.vector).2
  · rw [if_pos hg]
    exact if_pos ((and_bitNp_ne _).mpr hg)
  · rw [if_neg hg]
    exact if_neg (mt (and_bitNp_ne _).mp hg)

theorem slavePass_spec (i : PassLines) (s : Pru) : (s.slavePass i).arb=(if i.deviceregisterAcked then
      ((s.readied i).workerDevice i.arb s.intr.vector).1 else s.readied i) ∧
    (s.slavePass i).data=(if i.deviceregisterAcked ∧ np ((s.readied i).workerDevice i.arb s.intr.vector).2 then
        { s.data with func := some .start } else s.data) ∧ (s.slavePass i).intr=s.intr := by
  obtain ⟨st,ev,hi⟩ := s.initialization_eq i
  rw [slavePass,hi]
  cases ha : i.deviceregisterAcked with
  | false => simp [readied]
  | true =>
    simp only [if_true,true_and,arbitrate_eq]
    exact ⟨rfl,rfl,trivial⟩

end Pru

namespace Watch

/-- What holds of a watched PRU between passes. -/
structure Inv (w : Watch) : Prop where
  arb : w.pru.arb.Sane w.issued w.passedOn w.drove w.lastAck w.time
  intr : np w.pru.intr.priorityArbitrationBit=false

variable {w : Watch} {i : PassLines} {ticks : Nat}

def passed (i : PassLines) (w : Watch) : Bool :=
  np i.arb.grants && (w.passedOn || np (w.pru.arb.forwardGrants i.arb).deviceForwardedGrantMask)

theorem Inv.readied (h : w.Inv) (ticks : Nat) (hf : w.pru.data.func=none) (hs : ¬w.Stale i) :
    (w.pru.readied (w.lines i ticks)).Sane (w.issued && !i.init) (w.passed i) w.drove w.lastAck (w.time+ticks) :=
  h.arb.forwarded i.arb i.init (fun hi hw => hs ⟨hf,hi,hw⟩) ticks

theorem Inv.worker (h : w.Inv) (ticks : Nat) (hf : w.pru.data.func=none) (ha : i.deviceregisterAcked)
    (hs : ¬w.Stale i) (hn : ¬w.Snatches i) :
    ((w.pru.readied (w.lines i ticks)).workerDevice (w.lines i ticks).arb w.pru.intr.vector).1.Sane
      (w.issued && !i.init && !np ((w.pru.readied (w.lines i ticks)).workerDevice (w.lines i ticks).arb
          w.pru.intr.vector).2) (w.passed i) (w.worked i ticks).drove (w.worked i ticks).lastAck (w.time+ticks) := by
  have hwk (st : ArbState) : w.Works i st ↔ w.pru.arb.state=st :=
    ⟨fun h => h.2.2,fun h => ⟨hf,ha,h⟩⟩
  have hw := (h.readied ticks hf hs).worker (i := (w.lines i ticks).arb) rfl w.pru.intr.vector
    (fun hp => (Bool.and_eq_true_iff.mp hp).1) (fun hg hsn => hn ?_)
  · simp only [worked,Answers,Acknowledges,Completes,hwk]
    exact hw
  · obtain ⟨hgr,hsig,hq⟩ := hsn
    cases hi : i.init with
    | true =>
      have hz : np (if i.init then 0 else w.pru.arb.deviceRequestMask)=true := hq
      rw [if_pos hi] at hz
      exact absurd hz (by decide)
    | false =>
      have hz : np (if i.init then 0 else w.pru.arb.deviceRequestMask)=true := hq
      rw [if_neg (by simp [hi])] at hz
      exact ⟨(hwk _).mpr hg,hgr,hsig,hz,by simp [hi]⟩

theorem loop_slave (i : PassLines) (ticks : Nat) (hf : w.pru.data.func=none) :
    (w.loop i ticks).arb=(if i.deviceregisterAcked then
      ((w.pru.readied (w.lines i ticks)).workerDevice (w.lines i ticks).arb w.pru.intr.vector).1
      else w.pru.readied (w.lines i ticks)) ∧ (w.Starts i ticks ↔ i.deviceregisterAcked ∧ np ((w.pru.readied
      (w.lines i ticks)).workerDevice (w.lines i ticks).arb w.pru.intr.vector).2) ∧
    (w.loop i ticks).intr=w.pru.intr := by
  obtain ⟨harb,hdata,hintr⟩ := w.pru.slavePass_spec (w.lines i ticks)
  have hl : w.loop i ticks=w.pru.slavePass (w.lines i ticks) := if_pos hf
  have ha : (w.lines i ticks).deviceregisterAcked=i.deviceregisterAcked := rfl
  rw [Starts,hl,harb,hdata,hintr,ha]
  refine ⟨rfl,⟨fun ⟨_,h⟩ => ?_,fun h => ⟨hf,?_⟩⟩,rfl⟩
  · by_contra hc
    rw [if_neg hc,hf] at h
    cases h
  · rw [if_pos h]

theorem not_works (st : ArbState) (h : ¬i.deviceregisterAcked ∨ w.pru.data.func≠none) : ¬w.Works i st := by
  rintro ⟨hf,ha,-⟩
  obtain h | h := h
  · exact h ha
  · exact h hf

theorem worked_idle (ticks : Nat) (h : ∀ st,¬w.Works i st) :
    (w.worked i ticks).drove=w.drove ∧ (w.worked i ticks).lastAck=w.lastAck := by
  have ha : ¬w.Answers i := fun hc => h _ hc.1
  have hk : ¬w.Acknowledges i := by
    rintro (⟨hc,-⟩ | ⟨hc,-⟩ | ⟨hc,-⟩) <;> exact h _ hc
  exact ⟨if_neg ha,if_neg hk⟩

theorem Inv.worked (h : w.Inv) (hok : w.Avoids (.pass i none ticks)) : (w.worked i ticks).Inv := by
  obtain ⟨hs,hu,hn⟩ := hok
  by_cases hf : w.pru.data.func=none
  · obtain ⟨harb,hst,hintr⟩ := loop_slave i ticks hf
    have hp : (w.worked i ticks).passedOn=w.passed i := if_pos hf
    by_cases ha : i.deviceregisterAcked
    · have hw := h.worker ticks hf ha hs hn
      have hi : (w.worked i ticks).issued=(w.issued && !i.init && !np ((w.pru.readied
          (w.lines i ticks)).workerDevice (w.lines i ticks).arb w.pru.intr.vector).2) := by
        simp only [Watch.worked,hst,ha,true_and,Bool.decide_eq_true]
      rw [if_pos ha] at harb
      refine ⟨?_,?_⟩
      · rw [hp,hi]
        show (w.loop i ticks).arb.Sane _ _ _ _ _
        rw [harb]; exact hw
      · show np (w.loop i ticks).intr.priorityArbitrationBit=false
        rw [hintr]; exact h.intr
    · have hi : (w.worked i ticks).issued=(w.issued && !i.init) := by
        simp [Watch.worked,hst,ha]
      obtain ⟨hd,hl⟩ := worked_idle ticks fun st => not_works st (.inl ha)
      rw [if_neg ha] at harb
      refine ⟨?_,?_⟩
      · rw [hp,hi,hd,hl]
        show (w.loop i ticks).arb.Sane _ _ _ _ _
        rw [harb]; exact h.readied ticks hf hs
      · show np (w.loop i ticks).intr.priorityArbitrationBit=false
        rw [hintr]; exact h.intr
  · obtain ⟨hd,hl⟩ := worked_idle ticks fun st => not_works st (.inr hf)
    have hst : ¬w.Starts i ticks := fun hc => hf hc.1
    have hp : (w.worked i ticks).passedOn=w.passedOn := if_neg hf
    have hi : (w.worked i ticks).issued=(w.issued && !i.init) := by
      simp [Watch.worked,hst]
    have hloop : w.loop i ticks=w.pru.masterPass (w.lines i ticks) := if_neg hf
    refine ⟨?_,?_⟩
    · rw [hp,hi,hd,hl]
      show (w.loop i ticks).arb.Sane _ _ _ _ _
      rw [hloop]
      refine h.arb.master _ (fun hq => ?_) ticks
      rw [h.arb.requested hq,Bool.true_and,Bool.not_eq_true']
      exact Bool.eq_false_iff.mpr fun hinit => hu ⟨hf,hinit,hq⟩
    · show np (w.loop i ticks).intr.priorityArbitrationBit=false
      rw [hloop]; exact h.intr

theorem Inv.proper (h : w.Inv) (hok : w.Avoids (.pass i none ticks)) : w.Proper i ticks := by
  obtain ⟨hs,hu,hn⟩ := hok
  by_cases hf : w.pru.data.func=none
  case neg =>
    have hnw (st : ArbState) : ¬w.Works i st := not_works st (.inr hf)
    have hst : ¬w.Starts i ticks := fun hc => hf hc.1
    have hloop : w.loop i ticks=w.pru.masterPass (w.lines i ticks) := if_neg hf
    have hreq : (w.loop i ticks).arb.driven.requests=w.pru.arb.driven.requests ∧
        (w.loop i ticks).arb.intrMaster=w.pru.arb.intrMaster := by
      rw [hloop]
      simp only [Pru.masterPass]
      split_ifs <;> exact ⟨rfl,rfl⟩
    refine ⟨fun hc => absurd hc hst,fun hc => absurd hc hst,fun hc => absurd hc.1 (hnw _),
      fun hc => ?_,fun hc => absurd hc.1 (hnw _),fun hc => absurd hc.1 (hnw _),fun _ => hreq.2⟩
    obtain ⟨hb,hr,-⟩ := hc
    rw [hreq.1,hb] at hr
    cases hr
  obtain ⟨harb,hst,-⟩ := loop_slave i ticks hf
  have hsane := h.readied (i := i) ticks hf hs
  have hp : (w.worked i ticks).passedOn=w.passed i := if_pos hf
  by_cases ha : i.deviceregisterAcked
  case neg =>
    have hnw (st : ArbState) : ¬w.Works i st := not_works st (.inl ha)
    have hns : ¬w.Starts i ticks := fun hc => ha (hst.mp hc).1
    rw [if_neg ha] at harb
    refine ⟨fun hc => absurd hc hns,fun hc => absurd hc hns,fun hc => absurd hc.1 (hnw _),
      fun hc => ?_,fun hc => absurd hc.1 (hnw _),fun hc => absurd hc.1 (hnw _),
      fun _ => by rw [harb]; rfl⟩
    obtain ⟨hb,hr,-⟩ := hc
    rw [harb] at hr
    exact absurd (show np w.pru.arb.driven.requests=true from hr) (by simp [hb])
  rw [if_pos ha] at harb
  have hwk (st : ArbState) : w.Works i st ↔ (w.pru.readied (w.lines i ticks)).state=st :=
    ⟨fun h => h.2.2,fun h => ⟨hf,ha,h⟩⟩
  have hissued {q : Bool} (hq : (w.issued && !i.init)=q) (ht : q=true) :
      w.issued=true ∧ ¬i.init=true := by
    rw [← hq,Bool.and_eq_true,Bool.not_eq_true'] at ht
    exact ⟨ht.1,by simp [ht.2]⟩
  refine ⟨fun hc => ?_,fun hc => ?_,fun hc => ?_,fun hc => ?_,fun hc => ?_,fun hc => ?_,
    fun hc => ?_⟩
  · have hw := SmArb.worker_granted _ hsane.notNoop (hst.mp hc).2
    have hg := hsane.dmaGrantWait (i := (w.lines i ticks).arb)
    rw [SmArb.workerDevice,hw] at harb
    have hnp := (hst.mp hc).2
    rw [SmArb.workerDevice,hw] at hnp
    rw [harb,hp]
    exact ⟨(hg.2 hnp).2,(hg.2 hnp).1,hsane.fresh (hsane.waiting hw).2⟩
  · have hw := SmArb.worker_granted _ hsane.notNoop (hst.mp hc).2
    exact hissued rfl (hsane.requested (hsane.waiting hw).1)
  · obtain ⟨hw,hl,hb⟩ := hc
    have hw := (hwk _).mp hw
    rw [harb,SmArb.workerDevice,hw] at hl
    have hl : np ((w.pru.readied (w.lines i ticks)).grantCheck
      (w.lines i ticks).arb).driven.requests=true := hl
    rw [SmArb.grantCheck_lines,Bool.or_eq_true] at hl
    have hcm := hl.resolve_right hb
    exact hissued rfl (hsane.requested (SmArb.grantCheck_committed _ _ hcm).1)
  · obtain ⟨hb,hl,hi⟩ := hc
    rw [harb] at hl
    have hw := SmArb.worker_raises _ hsane.notNoop hb hl
    rw [SmArb.workerDevice,hw] at hl
    have hl : np ((w.pru.readied (w.lines i ticks)).grantCheck
      (w.lines i ticks).arb).driven.requests=true := hl
    rw [SmArb.grantCheck_lines,Bool.or_eq_true] at hl
    have hcm := (SmArb.grantCheck_committed _ _ (hl.resolve_right hi)).2
    have hact := hcm.resolve_left fun hd => by
      have hd : np w.pru.arb.driven.requests=true := hsane.committed hd
      rw [hb] at hd; cases hd
    obtain ⟨hr,hall⟩ := (hsane.held.holdoff rfl).2 hact
    exact ⟨by simpa [lines] using hr,hall⟩
  · obtain ⟨hw,hr,hd⟩ := hc
    have hv := (hsane.intrVector (i := (w.lines i ticks).arb) w.pru.intr.vector).2 ⟨hr,hd⟩
    refine ⟨bit2idx w.pru.arb.deviceGrantMask,if_pos ⟨hw,hr,hd⟩,?_⟩
    rw [harb,SmArb.workerDevice,(hwk _).mp hw]
    exact hv
  · obtain ⟨hw,hr⟩ := hc
    refine ⟨w.pru.arb.intrLevelIndex,hsane.answering ((hwk _).mp hw),?_⟩
    rw [harb,SmArb.worker_intrMaster _ hsane.notNoop,if_pos ⟨(hwk _).mp hw,hr⟩]
    rfl
  · rw [harb,SmArb.worker_intrMaster _ hsane.notNoop,if_neg fun hd => hc ⟨(hwk _).mpr hd.1,hd.2⟩]
    rfl

theorem Inv.takeDma (h : w.Inv) : (w.command .dma).Inv := by
  refine ⟨?_,h.intr⟩
  show (w.pru.takeDma).arb.Sane _ _ _ _ _
  simp only [Pru.takeDma,command]
  split_ifs with hc
  · simp only [hc,Bool.not_true,Bool.or_false]
    exact ⟨h.arb.notNoop,h.arb.requested,h.arb.waiting,h.arb.fresh,h.arb.committed,h.arb.held,
      h.arb.answering⟩
  · refine ⟨h.arb.notNoop,fun _ => by simp [hc],fun hw => ?_,h.arb.fresh,h.arb.committed,
      h.arb.held,h.arb.answering⟩
    exact ⟨by simp,(h.arb.waiting hw).2⟩

theorem Inv.cancelDma (h : w.Inv) : (w.command .dmaCancel).Inv := by
  refine ⟨?_,?_⟩
  · show (w.pru.cancelDma).arb.Sane _ _ _ _ _
    simp only [Pru.cancelDma,command]
    split_ifs with hc hcpu hwait
    · simp only [hcpu,Bool.not_true,Bool.and_false,Bool.not_false,Bool.and_true]
      exact ⟨h.arb.notNoop,h.arb.requested,h.arb.waiting,h.arb.fresh,h.arb.committed,h.arb.held,
        h.arb.answering⟩
    · exact ⟨nofun,fun hq => by simp at hq,nofun,h.arb.fresh,nofun,h.arb.held,nofun⟩
    · exact ⟨h.arb.notNoop,fun hq => by simp at hq,fun hw => absurd hw hwait,h.arb.fresh,nofun,
        h.arb.held,h.arb.answering⟩
    · simp only [hc,decide_false,Bool.false_and,Bool.not_false,Bool.and_true]
      exact h.arb
  · show np (w.pru.cancelDma).intr.priorityArbitrationBit=false
    rw [Pru.cancelDma]
    split_ifs <;> exact h.intr

theorem Inv.takeIntr (h : w.Inv) : (w.command .intr).Inv := by
  have hm : np (w.pru.arb.deviceRequestMask ||| w.pru.intr.priorityArbitrationBit) =
      np w.pru.arb.deviceRequestMask := by
    rw [np_or,h.intr,Bool.or_false]
  refine ⟨⟨h.arb.notNoop,fun hq => h.arb.requested (hm ▸ hq),fun hw => ?_,h.arb.fresh,
    h.arb.committed,h.arb.held,h.arb.answering⟩,h.intr⟩
  exact ⟨hm.trans (h.arb.waiting hw).1,(h.arb.waiting hw).2⟩

theorem Inv.cancelIntr (h : w.Inv) : (w.command .intrCancel).Inv := by
  have hm : np (w.pru.arb.deviceRequestMask &&& ~~~w.pru.intr.priorityArbitrationBit) =
      np w.pru.arb.deviceRequestMask := by
    rw [np_and,np_not,h.intr,Bool.not_false,Bool.and_true]
  refine ⟨⟨h.arb.notNoop,fun hq => h.arb.requested (hm ▸ hq),fun hw => ?_,h.arb.fresh,
    h.arb.committed,h.arb.held,h.arb.answering⟩,h.intr⟩
  exact ⟨hm.trans (h.arb.waiting hw).1,(h.arb.waiting hw).2⟩

theorem np_levelBit (level : Fin 4) : np (levelBit level)=false := by
  revert level
  decide

theorem Inv.step {a : Action} (h : w.Inv) (hok : w.Avoids a) : (w.step a).Inv := by
  cases a with
  | pass i c ticks =>
    have hw : (w.worked i ticks).Inv := h.worked hok
    cases c with
    | none => exact hw
    | some c =>
      cases c with
      | dma => exact hw.takeDma
      | dmaCancel => exact hw.cancelDma
      | intr => exact hw.takeIntr
      | intrCancel => exact hw.cancelIntr
  | putDma dma | ackInit => exact ⟨h.arb,h.intr⟩
  | putIntr level vector handle value => exact ⟨h.arb,np_levelBit level⟩
  | putIntrCancel level =>
    cases level with
    | none => exact ⟨h.arb,np_intrMask⟩
    | some level => exact ⟨h.arb,np_levelBit level⟩
  | ackIntr level | inhibit on =>
    exact ⟨⟨h.arb.notNoop,h.arb.requested,h.arb.waiting,h.arb.fresh,h.arb.committed,h.arb.held,
      h.arb.answering⟩,h.intr⟩

/-- The PRU as `main` starts it, over a mailbox the ARM has cleared. What `p` holds is what was in
memory before. -/
def start (p : Pru) (time : Nat) : Watch :=
  { pru := { p with
      arb := { p.arb with
        state := .grantCheck,deviceRequestMask := 0,deviceRequestSignalledMask := 0
        canceledRequestMask := 0,dmrHoldoffStart := BitVec.ofNat 32 time
        dmrHoldoffActive := false,dmrCommitted := false,deviceForwardedGrantMask := 0
        intrLevelIndex := 0,cpuRequest := false,cpuBusInhibitDmr := false
        pendingIntrRegisterHandle := fun _ => 0
        driven := { requests := 0,sack := false,rply := false,dal := 0 } }
      data := { p.data with func := none }
      intr := { p.intr with priorityArbitrationBit := 0 }
      initState := .idle }
    time := time,issued := false,passedOn := false,drove := none,lastAck := none }

theorem start_inv (p : Pru) (time : Nat) : (start p time).Inv := by
  refine ⟨⟨nofun,fun h => ?_,nofun,fun _ => rfl,nofun,nofun,nofun⟩,np_zero⟩
  exact absurd (show np (0 : Mask)=true from h) (by decide)

/-- In every run of the main loop that avoids the three, every pass has mastership and interrupts as
they have to be. -/
theorem run_proper (p : Pru) (time : Nat) (as : List Action) (w : Watch)
    (h : Run (Guarded Avoids next) (start p time) as w) (i : PassLines) (ticks : Nat)
    (hok : w.Avoids (.pass i none ticks)) : w.Proper i ticks := by
  have hinv : w.Inv := by
    refine h.invariant (P := Inv) (fun s a t hs hst => ?_) (start_inv p time)
    obtain ⟨ha,ht⟩ := hst
    cases ht
    exact hs.step ha
  exact hinv.proper hok

end Watch

/-- A PRU as it is before `main`, with everything zero. -/
def blankPru : Pru where
  arb := {
    state := .grantCheck,deviceRequestMask := 0,deviceRequestSignalledMask := 0,
    canceledRequestMask := 0,dmrHoldoffStart := 0,dmrHoldoffActive := false,
    dmrCommitted := false,deviceForwardedGrantMask := 0,deviceGrantMask := 0,
    intrLevelIndex := 0,cpuRequest := false,cpuBusInhibitDmr := false,
    pendingIntrRegisterHandle := fun _ => 0,pendingIntrRegisterValue := fun _ => 0,
    driven := { requests := 0,sack := false,rply := false,dal := 0 },
    registers := fun _ => 0,intrMaster := fun _ => ⟨0,0⟩ }
  data := {
    func := none,
    dma := {
      curStatus := .ready,buscycle := .dati,wordcount := 1,cpuAccess := false,curAddr := 0,
      startaddr := 0,words := fun _ => 0 },
    dataptr := 0,wordsLeft := 0,blockEndAddr := 0,blockDataStateFunc := none,
    stateTimeout := false,signaled := 0,cycles := [] }
  intr := {
    vector := fun _ => 0,priorityArbitrationBit := 0,levelIndex := 0,
    iopageRegisterValue := 0,iopageRegisterHandle := 0 }
  initState := .idle
  initEvent := ⟨0,0⟩

/-- The lines of a quiet bus, with DMG and INIT as given and SYNC under way or not. -/
def quietLines (dmg init sync : Bool) : PassLines where
  arb := {
    grants := if dmg then bitNp else 0,riaki := false,riakiRescue := false,rdmgi := dmg,
    sync := sync,rply := false,din := false,now := 0 }
  data := {
    emulatedRead := none,emulatedWrite := false,rply := false,timeoutReached := false,
    dal := 0,ref := false,init := init }
  init := init
  deviceregisterAcked := true
  initTimeout := false

/-- A DMA is requested, DMR raised, and DMG given while another cycle still runs. -/
def requestedDma : List Action :=
  [.pass (quietLines false false false) (some .dma) 1,.pass (quietLines false false false) none 1,
    .pass (quietLines true false true) none 1]

theorem run_proper_start : ∃ w,Run (Guarded Watch.Avoids Watch.next) (.start blankPru 0)
    requestedDma w ∧ w.Starts (quietLines true false false) 1 ∧ w.Proper (quietLines true false false) 1 := by
  obtain ⟨w,hrun,hw⟩ := run_of_foldlM Watch.Avoids Watch.next
    (fun w => w.Starts (quietLines true false false) 1 ∧
      w.Avoids (.pass (quietLines true false false) none 1)) requestedDma (.start blankPru 0)
    (by decide +kernel)
  rw [decide_eq_true_eq] at hw
  exact ⟨w,hrun,hw.1,Watch.run_proper _ _ _ _ hrun _ _ hw.2⟩

/-- INIT comes while the grant waits for the end of that cycle: the transfer starts all the same. And
one starts on a DMG that stood when the request came, and was passed on. -/
theorem stale_grant_starts : (∃ w,Run (Guarded (fun _ _ => True) Watch.next) (.start blankPru 0)
      (requestedDma++[.pass (quietLines true true true) none 1]) w ∧
      w.Starts (quietLines true false false) 1 ∧ w.issued=false) ∧
    ∃ w,Run (Guarded (fun _ _ => True) Watch.next) (.start blankPru 0)
      [.pass (quietLines true false false) (some .dma) 1,
        .pass (quietLines true false false) none 1,.pass (quietLines true false false) none 1] w ∧
      w.Starts (quietLines true false false) 1 ∧ (w.worked (quietLines true false false) 1).passedOn=true := by
  constructor
  · obtain ⟨w,hrun,hw⟩ := run_of_foldlM (fun _ _ => True) Watch.next
      (fun w => w.Starts (quietLines true false false) 1 ∧ w.issued=false)
      (requestedDma++[.pass (quietLines true true true) none 1]) (.start blankPru 0)
      (by decide +kernel)
    rw [decide_eq_true_eq] at hw
    exact ⟨w,hrun,hw⟩
  · obtain ⟨w,hrun,hw⟩ := run_of_foldlM (fun _ _ => True) Watch.next
      (fun w => w.Starts (quietLines true false false) 1 ∧
        (w.worked (quietLines true false false) 1).passedOn=true)
      [.pass (quietLines true false false) (some .dma) 1,
        .pass (quietLines true false false) none 1,.pass (quietLines true false false) none 1]
      (.start blankPru 0) (by decide +kernel)
    rw [decide_eq_true_eq] at hw
    exact ⟨w,hrun,hw⟩

end QUniLator.Adapter
