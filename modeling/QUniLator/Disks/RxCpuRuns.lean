import QUniLator.Disks.RxCpu

namespace QUniLator.Disks.Rx.Cpu

open List

structure Cleared (s : Cpu) : Prop where
  steps : s.programSteps=[]
  counter : s.programCounter=0
  failed : s.failed=true
  ran : s.ran <+: s.installed

/-- `n` steps of the program installed last were begun. -/
structure Begun (s : Cpu) (n : Nat) : Prop where
  steps : s.programSteps=s.installed
  le : n ≤ s.installed.length
  ran : s.ran=s.installed.take n

def Place (s : Cpu) : Prop :=
  match s.pc with
  | .idle | .check | .top =>
    (s.Begun s.programCounter ∨ s.Cleared) ∧
      (s.installing=false → s.programComplete=true → s.signalDone=true)
  | .step st => s.Begun (s.programCounter+1) ∧ s.installed[s.programCounter]? = some st
  | .waiting => s.Begun (s.programCounter+1) ∧ s.programCounter+1<s.installed.length ∧
      (s.complete=true ∨ s.byteIdx<s.byteCount)
  | .after => s.Begun (s.programCounter+1) ∧
      (s.installing=false → s.programCounter+1=s.installed.length → s.signalDone=true)
  | .failing => s.Cleared

theorem place_idle {s : Cpu} (hp : s.pc=.idle) (h : (s.Begun s.programCounter ∨ s.Cleared) ∧
    (s.installing=false → s.programComplete → s.signalDone)) : s.Place := by
  unfold Place
  rw [hp]
  exact h

/-- A program ends with a step that sets DONE, and has bytes to transfer where it transfers any. -/
structure Proper (s : Cpu) : Prop where
  last : ∀ st∈s.installed.getLast?,st.final=true
  bytes : s.installed.any Step.transfers=true → 0<s.byteCount
  address : s.functionCode=.readSector ∨ s.functionCode=.writeSector ∨
    s.functionCode=.writeSectorWithDeletedData → s.byteCount=2

structure Inv (s : Cpu) : Prop where
  place : s.Place
  proper : s.Proper
  rises : s.rises=if s.signalDone then 1 else 0
  waits : s.early=false
  request : s.transferRequest=true → s.pc=.waiting ∧ s.complete=false

section
variable {s : Cpu}

theorem programComplete_iff : s.programComplete ↔ s.programSteps.length ≤ s.programCounter := by
  unfold programComplete stepCurrent
  rw [Option.isNone_iff_eq_none,List.getElem?_eq_none_iff]

theorem Begun.getElem? {n : Nat} (h : s.Begun n) (hc : s.programComplete) (hn : n=s.programCounter) :
    s.ran=s.installed := by
  have hlen := programComplete_iff.mp hc
  rw [h.steps] at hlen
  rw [h.ran,hn]
  exact take_of_length_le hlen

theorem not_last {st : Step} (h : s.Proper) (hst : s.installed[s.programCounter]? = some st)
    (hf : st.final=false) : s.programCounter+1<s.installed.length := by
  obtain ⟨hlt,-⟩ := List.getElem?_eq_some_iff.mp hst
  by_contra hx
  have hlen : s.installed.length-1=s.programCounter := by omega
  have hl := h.last st (by rw [List.getLast?_eq_getElem?,hlen,hst]; rfl)
  rw [hl] at hf
  cases hf

theorem raiseDone_rises (h : s.rises=if s.signalDone then 1 else 0) : s.raiseDone.rises=1 := by
  show (if s.signalDone then s.rises else s.rises+1)=1
  rw [h]
  cases s.signalDone <;> rfl

theorem Inv.stepExecute (h : s.Inv) {st : Step} (hp : s.pc=.step st) (ok : Bool) : (s.stepExecute st ok).Inv := by
  have hplace := h.place
  unfold Place at hplace
  rw [hp] at hplace
  obtain ⟨hb,hst⟩ := hplace
  have hno : s.transferRequest=false := by
    by_contra hx
    have hr := (h.request (Bool.not_eq_false _ ▸ hx)).1
    rw [hp] at hr
    cases hr
  have hmem : st∈s.installed := mem_of_getElem? hst
  have hnl (hf : st.final=false) : s.programCounter+1<s.installed.length := not_last h.proper hst hf
  have htransfer (ht : st.transfers=true) (hf : st.final=false) :
      ({ s with byteIdx := 0,transferRequest := true,complete := false,pc := .waiting } : Cpu).Inv :=
    { place := ⟨⟨hb.steps,hb.le,hb.ran⟩,hnl hf,
        .inr (h.proper.bytes (List.any_eq_true.mpr ⟨st,hmem,ht⟩))⟩
      proper := ⟨h.proper.last,h.proper.bytes,h.proper.address⟩
      rises := h.rises
      waits := h.waits
      request := fun _ => ⟨rfl,rfl⟩ }
  have hmove (e : Bool) (hf : st.final=false) : ({ s with signalError := e,pc := .after } : Cpu).Inv :=
    { place := ⟨⟨hb.steps,hb.le,hb.ran⟩,fun _ hl => absurd hl (Nat.ne_of_lt (hnl hf))⟩
      proper := ⟨h.proper.last,h.proper.bytes,h.proper.address⟩
      rises := h.rises
      waits := h.waits
      request := fun hx => by rw [show s.transferRequest=true from hx] at hno; cases hno }
  have hdone : ({ s.stepDone with pc := .after } : Cpu).Inv :=
    { place := ⟨⟨hb.steps,hb.le,hb.ran⟩,fun _ _ => rfl⟩
      proper := ⟨h.proper.last,h.proper.bytes,h.proper.address⟩
      rises := raiseDone_rises h.rises
      waits := h.waits
      request := fun hx => by cases hx }
  cases st with
  | transferBufferWrite | transferBufferRead => exact htransfer rfl rfl
  | seek | headSettle | seekNext | sectorWrite | sectorRead | formatTrack => exact hmove _ rfl
  | initDone | doneReadErrorCode | done => exact hdone

theorem Inv.move (h : s.Inv) {pc : Pc} (hno : s.transferRequest=false)
    (hplace : ({ s with pc := pc } : Cpu).Place) : ({ s with pc := pc } : Cpu).Inv :=
  { place := hplace
    proper := ⟨h.proper.last,h.proper.bytes,h.proper.address⟩
    rises := h.rises
    waits := h.waits
    request := fun hx => by rw [show s.transferRequest=true from hx] at hno; cases hno }

theorem Inv.no_request (h : s.Inv) (hp : s.pc≠.waiting ∨ s.complete) : s.transferRequest=false := by
  by_contra hx
  obtain ⟨hw,hc⟩ := h.request (Bool.not_eq_false _ ▸ hx)
  obtain hp | hp := hp
  · exact hp hw
  · rw [hc] at hp
    cases hp

theorem Inv.goesOn (h : s.Inv) (hp : s.pc=.waiting) (hc : s.complete) : ({ s with pc := .after } : Cpu).Inv := by
  have hplace := h.place
  unfold Place at hplace
  rw [hp] at hplace
  obtain ⟨hb,hlt,-⟩ := hplace
  exact h.move (h.no_request (.inr hc)) ⟨⟨hb.steps,hb.le,hb.ran⟩,fun _ hl => absurd hl (Nat.ne_of_lt hlt)⟩

theorem Inv.woken (h : s.Inv) (hp : s.pc=.idle) : ({ s with pc := .check } : Cpu).Inv := by
  have hplace := h.place
  unfold Place at hplace
  rw [hp] at hplace
  obtain ⟨hb,hd⟩ := hplace
  refine h.move (h.no_request (.inl (by rw [hp]; exact fun hx => by cases hx))) ⟨?_,hd⟩
  obtain hb | hc := hb
  · exact .inl ⟨hb.steps,hb.le,hb.ran⟩
  · exact .inr ⟨hc.steps,hc.counter,hc.failed,hc.ran⟩

theorem Inv.wake (h : s.Inv) (hc : s.Careful .wake) {t : Cpu} (ht : s.wake=some t) : t.Inv := by
  unfold Cpu.wake at ht
  split at ht
  · rename_i hp
    cases ht
    exact h.woken hp
  · rename_i hp
    cases ht
    have hcomplete := hc hp
    have hsame : ({ s with pc := .after,early := s.early || !(s.complete || s.ran.isEmpty) } : Cpu) =
        { s with pc := .after } := by rw [hcomplete,Bool.true_or,Bool.not_true,Bool.or_false]
    rw [hsame]
    exact h.goesOn hp hcomplete
  · cases ht

theorem Inv.work (h : s.Inv) (ok : Bool) : (s.work ok).Inv := by
  have hplace := h.place
  unfold Place at hplace
  unfold Cpu.work
  cases hp : s.pc with
  | idle =>
    dsimp only
    split
    · exact h
    · exact h.woken hp
  | check =>
    rw [hp] at hplace
    obtain ⟨hb,hd⟩ := hplace
    have hno := h.no_request (.inl (by rw [hp]; exact fun hx => by cases hx))
    dsimp only
    split
    · have hran : s.ran <+: s.installed := by
        obtain hb | hc := hb
        · rw [hb.ran]
          exact List.take_prefix _ _
        · exact hc.ran
      exact
        { place := ⟨rfl,rfl,rfl,hran⟩
          proper := ⟨h.proper.last,h.proper.bytes,h.proper.address⟩
          rises := h.rises
          waits := h.waits
          request := fun hx => by rw [show s.transferRequest=true from hx] at hno; cases hno }
    · refine h.move hno ⟨?_,hd⟩
      obtain hb | hc := hb
      · exact .inl ⟨hb.steps,hb.le,hb.ran⟩
      · exact .inr ⟨hc.steps,hc.counter,hc.failed,hc.ran⟩
  | top =>
    rw [hp] at hplace
    obtain ⟨hb,hd⟩ := hplace
    have hno := h.no_request (.inl (by rw [hp]; exact fun hx => by cases hx))
    dsimp only
    split
    · refine h.move hno ⟨?_,hd⟩
      obtain hb | hc := hb
      · exact .inl ⟨hb.steps,hb.le,hb.ran⟩
      · exact .inr ⟨hc.steps,hc.counter,hc.failed,hc.ran⟩
    · rename_i st hst
      obtain hb | hc := hb
      · have hget : s.installed[s.programCounter]? = some st := by
          rw [← hb.steps]
          exact hst
        obtain ⟨hlt,-⟩ := List.getElem?_eq_some_iff.mp hget
        have hran : s.ran++[st]=s.installed.take (s.programCounter+1) := by
          rw [hb.ran,take_add_one,hget]
          rfl
        exact
          { place := ⟨⟨hb.steps,hlt,hran⟩,hget⟩
            proper := ⟨h.proper.last,h.proper.bytes,h.proper.address⟩
            rises := h.rises
            waits := h.waits
            request := fun hx => by rw [show s.transferRequest=true from hx] at hno; cases hno }
      · unfold stepCurrent at hst
        rw [hc.steps] at hst
        cases hst
  | step st => exact h.stepExecute hp ok
  | waiting =>
    dsimp only
    split
    · rename_i hc
      exact h.goesOn hp hc
    · exact h
  | after =>
    rw [hp] at hplace
    obtain ⟨hb,hd⟩ := hplace
    have hno := h.no_request (.inl (by rw [hp]; exact fun hx => by cases hx))
    have hnext : s.programComplete=false := by
      refine Bool.eq_false_iff.mpr fun hx => ?_
      have hlen := programComplete_iff.mp hx
      rw [hb.steps] at hlen
      exact Nat.not_succ_le_self _ (Nat.le_trans hb.le hlen)
    dsimp only
    unfold stepNext
    rw [hnext]
    refine
      { place := ⟨.inl ⟨hb.steps,hb.le,hb.ran⟩,fun hi hx => hd hi ?_⟩
        proper := ⟨h.proper.last,h.proper.bytes,h.proper.address⟩
        rises := h.rises
        waits := h.waits
        request := fun hx => by rw [show s.transferRequest=true from hx] at hno; cases hno }
    have hlen : s.programSteps.length ≤ s.programCounter+1 := programComplete_iff.mp hx
    rw [hb.steps] at hlen
    exact Nat.le_antisymm hb.le hlen
  | failing =>
    rw [hp] at hplace
    exact
      { place := ⟨.inr ⟨hplace.steps,hplace.counter,hplace.failed,hplace.ran⟩,fun _ _ => rfl⟩
        proper := ⟨h.proper.last,h.proper.bytes,h.proper.address⟩
        rises := raiseDone_rises h.rises
        waits := h.waits
        request := fun hx => by cases hx }

theorem program_last (c : Command) (isRx02 : Bool) : ∀ st∈(c.program isRx02).getLast?,st.final=true := by
  obtain ⟨f,doubleDensity,rx2wc,imageIsOpen⟩ := c
  intro st hst
  cases f with
  | setMediaDensity =>
    unfold Command.program at hst
    dsimp only at hst
    split at hst
    · cases hst
    · split at hst
      · cases hst
        rfl
      · rw [List.getLast?_concat] at hst
        cases hst
        rfl
  | readErrorCode => cases isRx02 <;> cases hst <;> rfl
  | _ =>
    cases hst
    rfl

theorem Inv.install {t : Cpu} (hp : t.pc=.idle) {steps : List Step} (hwaits : t.early=false)
    (hrises : t.rises=if t.signalDone then 1 else 0) (hno : t.transferRequest=false)
    (hproper : (t.install steps).Proper) (hdone : steps=[] → t.signalDone) : (t.install steps).Inv := by
  constructor
  case place =>
    refine place_idle hp ⟨.inl ⟨rfl,Nat.zero_le _,rfl⟩,fun _ hc => hdone ?_⟩
    have hlen : steps.length≤0 := programComplete_iff.mp hc
    exact length_eq_zero_iff.mp (Nat.le_zero.mp hlen)
  case proper => exact hproper
  case rises => exact hrises
  case waits => exact hwaits
  case request => exact fun hx => by rw [show t.transferRequest=true from hx] at hno; cases hno

theorem Inv.go (h : s.Inv) {c : Command} (hc : s.Careful (.go c)) : (s.go c).Inv := by
  obtain ⟨hp,-,-,hbytes⟩ := hc
  have hproper (t : Cpu) (hi : t.installed=c.program s.isRx02) (hf : t.functionCode=c.function)
      (hb : t.byteCount=c.byteCount s.isRx02) : t.Proper := by
    refine ⟨?_,?_,?_⟩
    · rw [hi]
      exact program_last c s.isRx02
    · rw [hi,hb]
      exact hbytes
    · rw [hf,hb]
      intro hx
      unfold Command.byteCount
      obtain hx | hx | hx := hx <;> rw [hx] <;> rfl
  have hprogram (hne : c.program s.isRx02≠[]) (e : Bool) :
      (({ s with functionCode := c.function,signalDone := false,signalError := e,transferRequest := false,
                 byteCount := c.byteCount s.isRx02,rises := 0 } : Cpu).install (c.program s.isRx02)).Inv :=
    Inv.install (t := { s with
      functionCode := c.function,signalDone := false,signalError := e,transferRequest := false,
      byteCount := c.byteCount s.isRx02,rises := 0 }) hp h.waits rfl rfl (hproper _ rfl rfl rfl)
      fun hx => absurd hx hne
  obtain ⟨f,doubleDensity,rx2wc,imageIsOpen⟩ := c
  cases f with
  | setMediaDensity =>
    unfold Cpu.go
    dsimp only [Cpu.install,Cpu.programClear]
    cases h02 : s.isRx02 with
    | true =>
      have hne : (⟨.setMediaDensity,doubleDensity,rx2wc,imageIsOpen⟩ : Command).program s.isRx02≠[] := by
        unfold Command.program
        rw [h02]
        cases imageIsOpen <;> exact cons_ne_nil _ _
      rw [h02] at hprogram hne
      rw [if_pos rfl]
      have hi := hprogram hne (!imageIsOpen)
      exact hi
    | false =>
      rw [if_neg Bool.false_ne_true]
      rw [h02] at hproper
      constructor
      case place =>
        exact place_idle hp ⟨.inl ⟨rfl,Nat.zero_le _,rfl⟩,fun _ _ => rfl⟩
      case proper => exact hproper _ rfl rfl rfl
      case rises => rfl
      case waits => exact h.waits
      case request => exact fun hx => by cases hx
  | readErrorCode =>
    refine hprogram ?_ false
    unfold Command.program
    dsimp only
    split <;> exact cons_ne_nil _ _
  | _ => exact hprogram (cons_ne_nil _ _) false

/-- The program, and the worker's place in it, stay. -/
structure SameProgram (s t : Cpu) : Prop where
  steps : t.programSteps=s.programSteps
  counter : t.programCounter=s.programCounter
  installed : t.installed=s.installed
  ran : t.ran=s.ran
  failed : t.failed=s.failed
  pc : t.pc=s.pc

theorem Place.keep {t : Cpu} (h : s.Place) (hst : SameProgram s t)
    (hd : t.installing=false → t.signalDone ∨ (s.installing=false ∧ t.signalDone=s.signalDone))
    (hw : s.pc=.waiting → s.complete ∨ s.byteIdx<s.byteCount →
      t.complete=true ∨ t.byteIdx<t.byteCount) : t.Place := by
  have hbegun {n : Nat} (hb : s.Begun n) : t.Begun n := by
    refine ⟨?_,?_,?_⟩
    · rw [hst.steps,hst.installed]
      exact hb.steps
    · rw [hst.installed]
      exact hb.le
    · rw [hst.ran,hst.installed]
      exact hb.ran
  have hcleared (hc : s.Cleared) : t.Cleared := by
    refine ⟨hst.steps.trans hc.steps,hst.counter.trans hc.counter,hst.failed.trans hc.failed,?_⟩
    rw [hst.ran,hst.installed]
    exact hc.ran
  have hcomplete : t.programComplete=s.programComplete := by
    unfold programComplete stepCurrent
    rw [hst.steps,hst.counter]
  have hdone {P : Prop} (hs : s.installing=false → P → s.signalDone=true) (hi : t.installing=false)
      (hp : P) : t.signalDone=true := by
    obtain hx | ⟨hx,hy⟩ := hd hi
    · exact hx
    · rw [hy]
      exact hs hx hp
  unfold Place at h ⊢
  rw [hst.pc]
  cases hp : s.pc with
  | idle | check | top =>
    rw [hp] at h
    refine ⟨?_,fun hi hx => hdone h.2 hi (hcomplete ▸ hx)⟩
    rw [hst.counter]
    exact h.1.imp hbegun hcleared
  | step st =>
    rw [hp] at h
    dsimp only
    rw [hst.counter,hst.installed]
    exact ⟨hbegun h.1,h.2⟩
  | waiting =>
    rw [hp] at h
    dsimp only
    rw [hst.counter,hst.installed]
    exact ⟨hbegun h.1,h.2.1,hw hp h.2.2⟩
  | after =>
    rw [hp] at h
    dsimp only
    rw [hst.counter,hst.installed]
    exact ⟨hbegun h.1,hdone h.2⟩
  | failing =>
    rw [hp] at h
    exact hcleared h

theorem Inv.initBegin (h : s.Inv) : s.initBegin.Inv :=
  { place := h.place.keep ⟨rfl,rfl,rfl,rfl,rfl,rfl⟩ (fun hx => by cases hx) fun _ hx => hx
    proper := ⟨h.proper.last,h.proper.bytes,h.proper.address⟩
    rises := rfl
    waits := h.waits
    request := fun hx => by cases hx }

theorem Inv.initInstall (h : s.Inv) (hc : s.Careful .initInstall) :
    (s.install [.seek,.sectorRead,.initDone]).Inv := by
  obtain ⟨hp,hd⟩ := hc
  have hno := h.no_request (.inl (by rw [hp]; exact fun hx => by cases hx))
  have hlast : ∀ st∈[Step.seek,.sectorRead,.initDone].getLast?,st.final=true := by
    intro st hst
    cases hst
    rfl
  exact Inv.install hp h.waits h.rises hno ⟨hlast,(fun hx => by cases hx),h.proper.address⟩ fun hx => by cases hx

theorem Inv.powerOff (h : s.Inv) : s.powerOff.Inv :=
  { place := h.place.keep ⟨rfl,rfl,rfl,rfl,rfl,rfl⟩ (fun _ => .inl rfl) fun _ hx => hx
    proper := ⟨h.proper.last,h.proper.bytes,h.proper.address⟩
    rises := raiseDone_rises h.rises
    waits := h.waits
    request := fun hx => by cases hx }

theorem Inv.powerOn (h : s.Inv) : ({ s with power := true } : Cpu).Inv :=
  { place := h.place.keep ⟨rfl,rfl,rfl,rfl,rfl,rfl⟩ (fun hi => .inr ⟨hi,rfl⟩) fun _ hx => hx
    proper := ⟨h.proper.last,h.proper.bytes,h.proper.address⟩
    rises := h.rises
    waits := h.waits
    request := h.request }

theorem Inv.byte (h : s.Inv) (hr : s.transferRequest) (e : Bool) {idx : Nat} (hidx : idx<s.byteCount) :
    ({ s with signalError := e,byteIdx := idx } : Cpu).Inv :=
  { place := h.place.keep ⟨rfl,rfl,rfl,rfl,rfl,rfl⟩ (fun hi => .inr ⟨hi,rfl⟩) fun _ _ => .inr hidx
    proper := ⟨h.proper.last,h.proper.bytes,h.proper.address⟩
    rises := h.rises
    waits := h.waits
    request := fun _ => h.request hr }

theorem Inv.lastByte (h : s.Inv) (e : Bool) (idx : Nat) :
    ({ s with signalError := e,byteIdx := idx } : Cpu).transferComplete.Inv :=
  { place := h.place.keep ⟨rfl,rfl,rfl,rfl,rfl,rfl⟩ (fun hi => .inr ⟨hi,rfl⟩) fun _ _ => .inl rfl
    proper := ⟨h.proper.last,h.proper.bytes,h.proper.address⟩
    rises := h.rises
    waits := h.waits
    request := fun hx => by cases hx }

theorem Inv.rxdbAfterRead (h : s.Inv) (hc : s.Careful .rxdbRead) : s.rxdbAfterRead.Inv := by
  unfold Cpu.rxdbAfterRead
  split
  · exact h
  · rename_i hmore
    obtain ⟨hnot,hlt⟩ := not_or.mp hmore
    have hr : s.transferRequest=true := by
      obtain hr | hx | hx := hc
      · exact hr
      · exact absurd hx hnot
      · exact absurd hx hlt
    split
    · split
      · rename_i hnext
        exact h.byte hr s.signalError hnext
      · exact h.lastByte s.signalError _
    · split
      · rename_i hnext
        exact h.byte hr s.signalError hnext
      · exact h.lastByte s.signalError _
    · exact h

theorem Inv.rxdbAfterWrite (h : s.Inv) {w : Nat} (hc : s.Careful (.rxdbWrite w)) : (s.rxdbAfterWrite w).Inv := by
  unfold Cpu.rxdbAfterWrite
  split
  · exact h
  · rename_i hmore
    obtain ⟨hnot,hlt⟩ := not_or.mp hmore
    have hr : s.transferRequest=true := by
      obtain hr | hx | hx := hc
      · exact hr
      · exact absurd hx hnot
      · exact absurd hx hlt
    have haddress (hf : s.functionCode=.readSector ∨ s.functionCode=.writeSector ∨
        s.functionCode=.writeSectorWithDeletedData) : (if s.byteIdx=0 then
          { s with signalError := s.signalError || decide (w%0x20<1 ∨ w%0x20 > sectorCount),byteIdx := 1 }
        else if s.byteIdx=1 then
          { s with signalError := s.signalError || decide (w%0x80 ≥ cylinderCount),byteIdx := 2 }.transferComplete
        else { s with byteIdx := s.byteIdx+1 } : Cpu).Inv := by
      have htwo := h.proper.address hf
      split
      · exact h.byte hr _ (by rw [htwo]; decide)
      · split
        · exact h.lastByte _ _
        · omega
    split
    · dsimp only
      split
      · exact h.lastByte s.signalError _
      · rename_i hnext
        exact h.byte hr s.signalError (Nat.lt_of_not_le hnext)
    · rename_i hf
      exact haddress (.inl hf)
    · rename_i hf
      exact haddress (.inr (.inl hf))
    · rename_i hf
      exact haddress (.inr (.inr hf))
    · split
      · exact h.lastByte _ s.byteIdx
      · exact h
    · exact h

theorem Inv.step (h : s.Inv) {e : Event} (hc : s.Careful e) {t : Cpu} (hs : s.step e=some t) : t.Inv := by
  cases e with
  | go c =>
    simp only [Cpu.step] at hs
    split at hs
    · cases hs
      exact h.go hc
    · cases hs
  | initBegin =>
    simp only [Cpu.step] at hs
    split at hs
    · cases hs
      exact h.initBegin
    · cases hs
  | initInstall =>
    simp only [Cpu.step] at hs
    split at hs
    · cases hs
      exact h.initInstall hc
    · cases hs
  | powerOn =>
    cases hs
    exact h.powerOn
  | powerOff =>
    cases hs
    exact h.powerOff
  | rxdbRead =>
    cases hs
    exact h.rxdbAfterRead hc
  | rxdbWrite w =>
    cases hs
    exact h.rxdbAfterWrite hc
  | wake => exact h.wake hc hs
  | work ok =>
    cases hs
    exact h.work ok

theorem Inv.start (isRx02 : Bool) : (start isRx02).Inv := by
  have hproper : (Cpu.start isRx02).Proper := by
    constructor
    case last => exact fun st hst => by cases hst
    case bytes => exact fun hx => by cases hx
    case address =>
      intro hx
      obtain hx | hx | hx := hx <;> cases hx
  exact
    { place := ⟨.inl ⟨rfl,Nat.zero_le _,rfl⟩,fun _ _ => rfl⟩
      proper := hproper
      rises := rfl
      waits := rfl
      request := fun hx => by cases hx }

theorem Inv.order (h : s.Inv) : s.ran <+: s.installed := by
  have hplace := h.place
  unfold Place at hplace
  cases hp : s.pc with
  | idle | check | top =>
    rw [hp] at hplace
    obtain ⟨hb | hc,-⟩ := hplace
    · rw [hb.ran]
      exact List.take_prefix _ _
    · exact hc.ran
  | step st | waiting | after =>
    rw [hp] at hplace
    rw [hplace.1.ran]
    exact List.take_prefix _ _
  | failing =>
    rw [hp] at hplace
    exact hplace.ran

theorem Inv.right (h : s.Inv) : s.Right := by
  constructor
  case order => exact h.order
  case waits => exact h.waits
  case once =>
    rw [h.rises]
    split <;> decide
  case ends =>
    intro hp hc hi
    have hplace := h.place
    unfold Place at hplace
    rw [hp] at hplace
    have hd := hplace.2 hi hc
    refine ⟨by rw [h.rises,hd]; rfl,hd,?_⟩
    obtain hb | hx := hplace.1
    · exact .inl (hb.getElem? hc rfl)
    · exact .inr hx.failed

def toQuiet (s : Cpu) : Nat :=
  let left := 6*(s.programSteps.length-s.programCounter)
  match s.pc with
  | .idle => if s.programComplete then 0 else left+6
  | .check => left+5
  | .top => left+3
  | .step _ => left+2
  | .waiting => left+1
  | .after => left
  | .failing => 4

theorem Inv.nearer (h : s.Inv) (hq : ¬s.Quiet) (ok : Bool) : (s.work ok).toQuiet<s.toQuiet := by
  have hplace := h.place
  unfold Place at hplace
  unfold Quiet at hq
  unfold Cpu.work
  cases hp : s.pc with
  | idle =>
    rw [hp] at hq
    have hc : s.programComplete=false := by
      refine Bool.eq_false_iff.mpr fun hx => hq (.inl ⟨rfl,hx⟩)
    dsimp only
    rw [hc]
    unfold toQuiet
    rw [hp]
    dsimp only
    rw [hc]
    exact Nat.lt_succ_self _
  | check =>
    dsimp only
    unfold toQuiet
    rw [hp]
    split
    · dsimp only [programClear]
      omega
    · dsimp only
      omega
  | top =>
    dsimp only
    unfold toQuiet
    rw [hp]
    split
    · rename_i hc
      have hcomplete : ({ s with pc := .idle } : Cpu).programComplete=true := by
        unfold programComplete stepCurrent
        unfold stepCurrent at hc
        dsimp only
        rw [hc]
        rfl
      dsimp only
      rw [hcomplete]
      exact Nat.succ_pos _
    · dsimp only
      omega
  | step st =>
    dsimp only
    unfold toQuiet
    rw [hp]
    cases st with
    | transferBufferWrite | transferBufferRead => exact Nat.lt_succ_self _
    | _ => exact Nat.lt_add_of_pos_right (Nat.succ_pos 1)
  | waiting =>
    rw [hp] at hplace hq
    have hc : s.complete=true := by
      obtain hc | hlt := hplace.2.2
      · exact hc
      · by_contra hx
        exact hq (.inr ⟨rfl,Bool.not_eq_true _ ▸ hx,hlt⟩)
    dsimp only
    rw [hc]
    unfold toQuiet
    rw [hp]
    exact Nat.lt_succ_self _
  | after =>
    rw [hp] at hplace
    have hb := hplace.1
    have hle := hb.le
    rw [← hb.steps] at hle
    have hnext : s.programComplete=false := by
      refine Bool.eq_false_iff.mpr fun hx => ?_
      have hlen := programComplete_iff.mp hx
      omega
    dsimp only
    unfold stepNext toQuiet
    rw [hnext,hp]
    dsimp only
    show 6*(s.programSteps.length-(s.programCounter+1))+5 < _
    omega
  | failing =>
    rw [hp] at hplace
    dsimp only
    unfold toQuiet
    rw [hp]
    show 6*(s.programSteps.length-s.programCounter)+3<4
    rw [hplace.steps,hplace.counter]
    decide

theorem Inv.comesQuiet (h : s.Inv) (oks : List Bool) (hl : s.toQuiet≤oks.length) :
    ∃ n≤oks.length,((oks.take n).foldl Cpu.work s).Quiet := by
  induction oks generalizing s with
  | nil =>
    by_cases hq : s.Quiet
    · exact ⟨0,Nat.le_refl _,hq⟩
    · have hlt := h.nearer hq true
      rw [length_nil] at hl
      omega
  | cons ok oks ih =>
    by_cases hq : s.Quiet
    · exact ⟨0,Nat.zero_le _,hq⟩
    · have hlt := h.nearer hq ok
      rw [length_cons] at hl
      obtain ⟨n,hn,hquiet⟩ := ih (h.work ok) (by omega)
      exact ⟨n+1,Nat.succ_le_succ hn,hquiet⟩

end

instance (s : Cpu) : (e : Event) → Decidable (s.Careful e)
  | .go _ => inferInstanceAs (Decidable (_ ∧ _ ∧ _ ∧ (_ → _)))
  | .initInstall => inferInstanceAs (Decidable (_ ∧ _))
  | .rxdbRead => inferInstanceAs (Decidable (_ ∨ _ ∨ _))
  | .rxdbWrite _ => inferInstanceAs (Decidable (_ ∨ _ ∨ _))
  | .wake => inferInstanceAs (Decidable (_ → _))
  | .initBegin | .powerOn | .powerOff | .work _ => .isTrue trivial

def askSector : List Event :=
  [.powerOn,.initBegin,.initInstall]++replicate 15 (.work true) ++
    [.go ⟨.readSector,false,0,true⟩]++replicate 4 (.work true)

end QUniLator.Disks.Rx.Cpu
