import QUniLator.Cpu34.References
import QUniLator.Cpu34.Stable
import QUniLator.Cpu34.Translation

/-! The mode of the processor is kept in the PSW, in the MMU and in which stack pointer R6 is. At an instruction
boundary they agree, unless a trap from another mode than kernel ended in the HALT of a double bus error at its
vector. -/

namespace QUniLator.Cpu34

open Attempt BitVec Function

namespace Kt11d

def modes (m : Kt11d) : (Mode × Mode × Space × Space) × Space × Mode :=
  ((m.mode,m.prevMode,m.space,m.prevSpace),m.accessSpace,m.accessMode)

section
variable (m : Kt11d)

theorem noteReference_modes (va : Word) : (m.noteReference va).modes=m.modes := by
  unfold noteReference
  split_ifs <;> rfl

theorem abort_modes (va : Word) (space : Space) (access : Access) : (m.abort va space access).modes=m.modes := by
  simp only [abort]
  split_ifs <;> rfl

theorem abortMode_modes (va : Word) : (m.abortMode va).modes=m.modes := by
  unfold abortMode
  split_ifs <;> rfl

theorem relocate_modes (va : Word) (space : Space) (access : Access) :
    (m.relocate va space access).1.modes=m.modes := by
  have hnote := m.noteReference_modes va
  have habort := (m.noteReference va).abort_modes va space access
  simp only [relocate]
  split_ifs
  · rfl
  · exact m.abortMode_modes va
  · exact habort.trans hnote
  · exact habort.trans hnote
  · exact hnote
  · exact hnote

theorem rebuildAll_modes : m.rebuildAll.modes=m.modes := by
  rw [rebuildAll_eq]
  rfl

theorem init_modes : m.init.modes=m.modes := rebuildAll_modes _

theorem writeReg_modes {m' : Kt11d} {pa : Uint} {w mask : Word}
    (h : m.writeReg pa w mask=some m') : m'.modes=m.modes := by
  obtain ⟨reg,-,rfl⟩ := Option.map_eq_some_iff.mp h
  cases reg with
  | mmr0 | mmr1 | mmr2 => exact rebuildAll_modes _
  | pdr idx | par idx => rfl

theorem instructionStart_modes : m.instructionStart.modes=m.modes := by
  unfold instructionStart
  split_ifs <;> rfl

theorem instructionFetched_modes (pc : Word) : (m.instructionFetched pc).modes=m.modes := by
  unfold instructionFetched
  split_ifs <;> rfl

theorem logRegister_modes (r : BitVec 4) (amount : Word) : (m.logRegister r amount).modes=m.modes := by
  simp only [logRegister]
  split_ifs <;> rfl

end

end Kt11d

/-- The modes agree; where `own` is true the access is the current mode's as well. -/
structure Settled (own : Bool) (s : State) : Prop where
  mode : s.mmu.mode=pswMode s.psw
  prevMode : s.mmu.prevMode=pswPrevMode s.psw
  space : s.mmu.space=modeSpace s.mmu.mode
  prevSpace : s.mmu.prevSpace=modeSpace s.mmu.prevMode
  accessSpace : own=true → s.mmu.accessSpace=s.mmu.space
  accessMode : own=true → s.mmu.accessMode=s.mmu.mode
  psw : s.psw &&& pswMask=s.psw
  sp : s.r rSP=s.sps (pswSp s.psw)
  other : ∀ sp,sp≠pswSp s.psw → s.stackpointer sp=s.sps sp

def Coherent (s : State) : Prop := Settled true s

section
variable {own : Bool} {s t : State}

theorem Settled.congr (h : Settled own s) (hm : t.mmu.modes=s.mmu.modes) (hp : t.psw=s.psw)
    (hr : t.r rSP=s.r rSP) (hsp : t.stackpointer=s.stackpointer) (hsps : t.sps=s.sps) : Settled own t := by
  simp only [Kt11d.modes,Prod.mk.injEq] at hm
  obtain ⟨⟨hmode,hprev,hspace,hprevSpace⟩,haccess,haccessMode⟩ := hm
  constructor
  · rw [hmode,hp,h.mode]
  · rw [hprev,hp,h.prevMode]
  · rw [hspace,hmode,h.space]
  · rw [hprevSpace,hprev,h.prevSpace]
  · intro ho
    rw [haccess,hspace,h.accessSpace ho]
  · intro ho
    rw [haccessMode,hmode,h.accessMode ho]
  · rw [hp,h.psw]
  · rw [hr,hp,hsps,h.sp]
  · intro sp hne
    rw [hsp,hsps,h.other sp (hp ▸ hne)]

theorem Settled.weaken (h : Settled own s) : Settled false s where
  mode := h.mode
  prevMode := h.prevMode
  space := h.space
  prevSpace := h.prevSpace
  accessSpace := by simp
  accessMode := by simp
  psw := h.psw
  sp := h.sp
  other := h.other

theorem Settled.setR (h : Settled own s) (i : BitVec 4) (v : Word) : Settled own (s.setR i v) := by
  by_cases hi : i=rSP
  · subst hi
    constructor
    · exact h.mode
    · exact h.prevMode
    · exact h.space
    · exact h.prevSpace
    · exact h.accessSpace
    · exact h.accessMode
    · exact h.psw
    · simp [State.setR]
    · intro sp hne
      have hn : sp≠pswSp s.psw := hne
      simp [State.setR,update_of_ne hn,h.other sp hn]
  · have hr : (s.setR i v).r rSP=s.r rSP := update_of_ne (Ne.symm hi) _ _
    exact h.congr rfl rfl hr rfl (if_neg hi)

theorem setCc_bit (psw : Word) (cc : Cc) {j : Nat} (hj : 4≤j) :
    ((psw &&& ~~~(0o17 : Word)) ||| cc.setWidth 16).getLsbD j=psw.getLsbD j := by
  by_cases hlt : j<16
  · interval_cases j <;> simp
  · rw [getLsbD_of_ge _ _ (by omega),getLsbD_of_ge _ _ (by omega)]

theorem setCc_field (psw : Word) (cc : Cc) {n : Nat} (hn : 4≤n) (k : Nat) :
    ((psw &&& ~~~(0o17 : Word)) ||| cc.setWidth 16).extractLsb' n k=psw.extractLsb' n k := by
  ext i hi
  rw [getElem_extractLsb',getElem_extractLsb',setCc_bit psw cc (by omega)]

theorem setCc_mask {psw : Word} (h : psw &&& pswMask=psw) (cc : Cc) :
    ((psw &&& ~~~(0o17 : Word)) ||| cc.setWidth 16) &&& pswMask = (psw &&& ~~~(0o17 : Word)) ||| cc.setWidth 16 := by
  have hcc : ∀ cc : Cc,cc.setWidth 16 &&& pswMask=cc.setWidth 16 := by decide
  have hrest : psw &&& ~~~(0o17 : Word) &&& pswMask=psw &&& ~~~(0o17 : Word) := by
    rw [BitVec.and_assoc,BitVec.and_comm (~~~(0o17 : Word)),← BitVec.and_assoc,h]
  rw [and_or_distrib_right,hcc,hrest]

theorem Settled.setCc (h : Settled own s) (cc : Cc) : Settled own (s.setCc cc) := by
  have hmode : pswMode (s.setCc cc).psw=pswMode s.psw := setCc_field _ _ (by decide) 2
  have hprev : pswPrevMode (s.setCc cc).psw=pswPrevMode s.psw := setCc_field _ _ (by decide) 2
  have hsp : pswSp (s.setCc cc).psw=pswSp s.psw := by rw [pswSp,hmode,pswSp]
  constructor
  · rw [hmode]
    exact h.mode
  · rw [hprev]
    exact h.prevMode
  · exact h.space
  · exact h.prevSpace
  · exact h.accessSpace
  · exact h.accessMode
  · exact setCc_mask h.psw cc
  · rw [hsp]
    exact h.sp
  · rw [hsp]
    exact h.other

section
variable (hsp : s.r rSP=s.sps (pswSp s.psw))
  (hother : ∀ sp,sp≠pswSp s.psw → s.stackpointer sp=s.sps sp)
include hsp hother

theorem switchSp_sps (newpsw : Word) : (s.switchSp newpsw).r rSP=s.sps (pswSp newpsw) ∧
    ∀ sp,sp≠pswSp newpsw → (s.switchSp newpsw).stackpointer sp=s.sps sp := by
  by_cases heq : pswSp s.psw=pswSp newpsw
  · have hs : s.switchSp newpsw=s := if_pos heq
    rw [hs,← heq]
    exact ⟨hsp,hother⟩
  · have hs : s.switchSp newpsw={ s with
        stackpointer := update s.stackpointer (pswSp s.psw) (s.r rSP)
        r := update s.r rSP (s.stackpointer (pswSp newpsw)) } := if_neg heq
    rw [hs]
    refine ⟨?_,?_⟩
    · change update s.r rSP (s.stackpointer (pswSp newpsw)) rSP=_
      rw [update_self]
      exact hother _ (Ne.symm heq)
    · intro sp hne
      have hold : sp=pswSp s.psw := by
        cases sp <;> cases hs : pswSp s.psw <;> cases hn : pswSp newpsw <;> simp_all
      rw [hold]
      exact (update_self _ _ s.stackpointer).trans hsp

theorem setPsw_coherent (newpsw : Word) : Coherent (s.setPsw newpsw) := by
  have hsps := switchSp_sps hsp hother (newpsw &&& pswMask)
  have heq : (s.switchSp (newpsw &&& pswMask)).sps=s.sps := by
    simp only [State.switchSp]
    split_ifs <;> rfl
  constructor
  · rfl
  · rfl
  · rfl
  · rfl
  · intro _
    rfl
  · intro _
    rfl
  · change newpsw &&& pswMask &&& pswMask=newpsw &&& pswMask
    rw [BitVec.and_assoc,BitVec.and_self]
  · exact hsps.1.trans (congrFun heq _).symm
  · intro sp hne
    exact (hsps.2 sp hne).trans (congrFun heq _).symm

end

theorem Settled.setPsw (h : Settled own s) (newpsw : Word) : Settled true (s.setPsw newpsw) :=
  setPsw_coherent h.sp h.other newpsw

theorem Settled.any (h : Settled true s) : Settled own s := by
  cases own with
  | true => exact h
  | false => exact h.weaken

theorem Settled.setStackpointer (h : Settled own s) (v : Word)
    (hne : s.mmu.prevSpace≠s.mmu.space) : Settled own (s.setStackpointer s.mmu.prevSpace v) := by
  have hcur : s.mmu.space=pswSp s.psw := by rw [h.space,h.mode,pswSp]
  constructor
  · exact h.mode
  · exact h.prevMode
  · exact h.space
  · exact h.prevSpace
  · exact h.accessSpace
  · exact h.accessMode
  · exact h.psw
  · have hn : pswSp s.psw≠s.mmu.prevSpace := hcur ▸ Ne.symm hne
    simp [State.setStackpointer,update_of_ne hn,h.sp]
  · intro sp hsp
    by_cases hs : sp=s.mmu.prevSpace
    · simp [State.setStackpointer,hs]
    · simp [State.setStackpointer,update_of_ne hs,h.other sp hsp]

theorem Settled.spaceRestore (h : Settled own s) : Settled true s.spaceRestore where
  mode := h.mode
  prevMode := h.prevMode
  space := h.space
  prevSpace := h.prevSpace
  accessSpace := by
    intro _
    rfl
  accessMode := by
    intro _
    rfl
  psw := h.psw
  sp := h.sp
  other := h.other

theorem Settled.setAccess (h : Settled own s) (space : Space) (mode : Mode) :
    Settled false { s with mmu := s.mmu.setAccess space mode } where
  mode := h.mode
  prevMode := h.prevMode
  space := h.space
  prevSpace := h.prevSpace
  accessSpace := by simp
  accessMode := by simp
  psw := h.psw
  sp := h.sp
  other := h.other

theorem Settled.withMmu (h : Settled own s) {mmu : Kt11d} (hm : mmu.modes=s.mmu.modes) :
    Settled own { s with mmu := mmu } :=
  h.congr hm rfl rfl rfl rfl

theorem Settled.refused (h : Settled own s) (vector : Word) : Settled own (s.refused vector) := by
  have hbe : Settled own { s with trapVector := vector,be := s.be+1 } := h.congr rfl rfl rfl rfl rfl
  simp only [State.refused,State.autoincUndo]
  split
  · exact (hbe.setR _ _).congr rfl rfl rfl rfl rfl
  · exact h.congr rfl rfl rfl rfl rfl

theorem Settled.completed (h : Settled own s) : Settled own s.completed :=
  h.congr rfl rfl rfl rfl rfl

theorem Settled.reads {bus : Bus} {b : Bool} {x : Option Unit} (h : Settled own s)
    (hr : Reads bus b s x t) : Settled own t := by
  have hmmu {mmu : Kt11d} {pa : Option Uint}
      (hm : s.mmu.relocate s.ba s.mmu.accessSpace .read=(mmu,pa)) : mmu.modes=s.mmu.modes := by
    have hmodes := s.mmu.relocate_modes s.ba s.mmu.accessSpace .read
    rwa [hm] at hmodes
  cases hr with
  | odd _ => exact h.refused 4
  | aborted hm => exact (h.withMmu (hmmu hm)).refused _
  | inside hm _ | answered hm _ => exact h.congr (hmmu hm) rfl rfl rfl rfl
  | @timeout mmu pa hm _ =>
    have hlog : Settled own { s with mmu := mmu,log := .dati (wordAddress pa)::s.log } :=
      h.congr (hmmu hm) rfl rfl rfl rfl
    exact hlog.refused 4

theorem Settled.stores {b : Bool} {x : Option Unit} (h : Settled own s) (hr : Stores b s x t) : Settled own t := by
  have hmmu {mmu : Kt11d} {pa : Option Uint}
      (hm : s.mmu.relocate s.ba s.mmu.accessSpace .write=(mmu,pa)) : mmu.modes=s.mmu.modes := by
    have hmodes := s.mmu.relocate_modes s.ba s.mmu.accessSpace .write
    rwa [hm] at hmodes
  cases hr with
  | odd _ => exact h.refused 4
  | aborted hm => exact (h.withMmu (hmmu hm)).refused _
  | inside hm ht =>
    have hs := h.withMmu (hmmu hm)
    obtain ⟨-,⟨mmu,mask,hw,rfl⟩ | rfl | ⟨psw,rfl⟩⟩ := writeInternal_cases ht
    · exact (hs.withMmu (Kt11d.writeReg_modes _ hw)).completed
    · exact hs.completed
    · exact (hs.setPsw psw).any.completed
  | @timeout mmu pa hm _ =>
    have hlog : Settled own { s with mmu := mmu,log := written b pa s.bdata::s.log } :=
      h.congr (hmmu hm) rfl rfl rfl rfl
    exact hlog.refused 4
  | answered hm _ => exact h.congr (hmmu hm) rfl rfl rfl rfl

end

section
variable (bus : Bus) (own : Bool)

theorem settled_dati (b : Bool) : Keeps (Settled own) (dati bus b) :=
  keeps_dati fun _ _ _ hs hr => hs.reads hr

theorem settled_dato (b : Bool) : Keeps (Settled own) (dato bus b) :=
  keeps_dato fun _ _ _ hs hr => hs.stores hr

end

theorem coherent_inPrevious {m : M Unit} (hm : Keeps (Settled false) m) : Keeps Coherent (inPrevious m) := by
  apply spec_bind (spec_change (Q := fun _ => Settled false) _ fun s hs => hs.setAccess _ _)
  intro _
  have hfail := spec_onFailure (E := Coherent) State.spaceRestore hm fun s hs => hs.spaceRestore
  exact spec_bind hfail fun _ => spec_change _ fun s hs => hs.spaceRestore

theorem coherent_stable (bus : Bus) : Stable bus Coherent Coherent where
  ba s v hs := hs.congr rfl rfl rfl rfl rfl
  bdata s v hs := hs.congr rfl rfl rfl rfl rfl
  setR s i v hs := hs.setR i v
  setCc s cc hs := hs.setCc cc
  setDestRef s destRef hs := hs.congr rfl rfl rfl rfl rfl
  autoincPending s r amount hs := hs.congr rfl rfl rfl rfl rfl
  autoincCommit s hs := hs.congr rfl rfl rfl rfl rfl
  instructionStart s hs := hs.withMmu (s.mmu.instructionStart_modes)
  instructionFetched s ir pc hs := hs.congr (s.mmu.instructionFetched_modes pc) rfl rfl rfl rfl
  logRegister s r amount hs := hs.withMmu (s.mmu.logRegister_modes r amount)
  checkStack s ba hs := hs.congr rfl rfl rfl rfl rfl
  dati b := settled_dati bus true b
  dato b := settled_dato bus true b
  datiPrev := coherent_inPrevious (settled_dati bus false false)
  datoPrev := coherent_inPrevious (settled_dato bus false false)
  setStackpointer s v hne hs := hs.setStackpointer v hne
  mtps s hs := hs.setPsw _
  rti s b hs := hs.setPsw _
  resetOpcode s hs := by
    unfold State.resetOpcode
    split_ifs
    · exact hs.congr s.mmu.init_modes rfl rfl rfl rfl
    · exact hs
  halt s _ hs := hs.congr rfl rfl rfl rfl rfl
  wait s hs := hs.congr rfl rfl rfl rfl rfl

theorem refused_mmu (s : State) (vector : Word) : (s.refused vector).mmu=s.mmu := by
  simp only [State.refused,State.autoincUndo]
  split <;> rfl

theorem Reads.modes {bus : Bus} {b : Bool} {s t : State} {x : Option Unit}
    (h : Reads bus b s x t) : t.mmu.modes=s.mmu.modes := by
  have hmmu {mmu : Kt11d} {pa : Option Uint}
      (hm : s.mmu.relocate s.ba s.mmu.accessSpace .read=(mmu,pa)) : mmu.modes=s.mmu.modes := by
    have hmodes := s.mmu.relocate_modes s.ba s.mmu.accessSpace .read
    rwa [hm] at hmodes
  cases h with
  | odd _ => rw [refused_mmu]
  | aborted hm | timeout hm _ => rw [refused_mmu,hmmu hm]
  | inside hm _ | answered hm _ => exact hmmu hm

/-- A vector is being read: the access is kernel mode's. -/
structure Vectoring (s : State) : Prop where
  settled : Settled false s
  access : s.mmu.accessSpace=.kernel ∧ s.mmu.accessMode=modeKernel

variable {s : State}

theorem Vectoring.coherent (h : Vectoring s) (hk : s.isKernel) : Coherent s := by
  have hmode : s.mmu.mode=modeKernel := h.settled.mode.trans (by simpa [State.isKernel] using hk)
  constructor
  · exact h.settled.mode
  · exact h.settled.prevMode
  · exact h.settled.space
  · exact h.settled.prevSpace
  · intro _
    rw [h.access.1,h.settled.space,hmode]
    rfl
  · intro _
    rw [h.access.2,hmode]
  · exact h.settled.psw
  · exact h.settled.sp
  · exact h.settled.other

theorem vectoring_word (bus : Bus) (ba : Word) : Keeps Vectoring (vectorWord bus ba) := by
  refine keeps_then (fun s hs => ⟨hs.settled.congr rfl rfl rfl rfl rfl,hs.access⟩) ?_
  have hdati : Keeps Vectoring (dati bus false) := by
    apply keeps_dati
    intro s x t hs hr
    have hm := hr.modes
    simp only [Kt11d.modes,Prod.mk.injEq] at hm
    exact ⟨hs.settled.reads hr,hm.2.1.trans hs.access.1,hm.2.2.trans hs.access.2⟩
  exact keeps_bind hdati fun _ => keeps_bind keeps_read fun _ => keeps_pure _

theorem loadVector_coherent (bus : Bus) (v : Word) :
    Spec (Settled false) (loadVector bus v) (fun _ => Coherent) Vectoring := by
  apply spec_bind (Q := fun _ => Vectoring)
  · exact spec_change _ fun s hs => ⟨hs.setAccess _ _,rfl,rfl⟩
  · intro _
    apply spec_bind (vectoring_word bus v)
    intro _
    apply spec_bind (vectoring_word bus _)
    intro _
    apply spec_bind (Q := fun _ => Coherent)
    · exact spec_change _ fun s hs => hs.settled.spaceRestore
    · intro _
      exact spec_pure _ fun s hs => hs

def VectorHalts (bus : Bus) (v : Word) (s : State) : Prop :=
  ∃ t,loadVector bus v (s.trapping v)=(none,t) ∧ 1<t.be ∧ t.isKernel=false

theorem trapSequence_coherent (bus : Bus) (inhov : Bool) (v : Word) (s : State) :
    Spec (fun u => u=s ∧ Settled false u) (trapSequence bus inhov v) (fun _ => Coherent)
      (fun t => Coherent t ∨ Vectoring t ∧ loadVector bus v (s.trapping v)=(none,t)) := by
  have hstable := coherent_stable bus
  have hpush (w : State → Word) : Spec Coherent (pushOut bus inhov w) (fun _ => Coherent)
      (fun t => Coherent t ∨ Vectoring t ∧ loadVector bus v (s.trapping v)=(none,t)) :=
    (hstable.pushOut inhov w).weaken (fun _ h => h) (fun _ _ h => h) (fun _ h => .inl h)
  have hload : Spec (fun u => u=s.trapping v ∧ Settled false u) (loadVector bus v)
      (fun _ => Coherent)
      (fun t => Coherent t ∨ Vectoring t ∧ loadVector bus v (s.trapping v)=(none,t)) := by
    rintro u ⟨rfl,hu⟩
    have h := loadVector_coherent bus v _ hu
    exact ⟨h.1,fun t ht => .inr ⟨h.2 t ht,ht⟩⟩
  apply spec_bind (Q := fun _ u => u=s.trapping v ∧ Settled false u)
  · apply spec_change
    rintro u ⟨rfl,hu⟩
    exact ⟨rfl,(hu.setR _ _).congr rfl rfl rfl rfl rfl⟩
  · intro _
    apply spec_bind (Q := fun _ u => u=s.trapping v ∧ Settled false u)
    · exact spec_read fun _ hu => hu
    · intro _
      apply spec_bind hload
      intro new
      apply spec_bind (Q := fun _ => Coherent) (spec_change _ fun u hu => hu.setPsw _)
      intro _
      apply spec_bind (hpush _)
      intro _
      apply spec_bind (hpush _)
      intro _
      exact spec_change _ fun u hu => hu.setR _ _

def Holds (a : Todo) : Prop :=
  match a.1 with
  | some (.be,_) => Settled false a.2 ∧ (1<a.2.be → Coherent a.2)
  | some (.trap _,_) => Settled false a.2
  | some (.service,_) => Coherent a.2
  | none => Coherent a.2

theorem Coherent.holds (h : Coherent s) (at_ : Option (Label × Locals)) : Holds (at_,s) := by
  rcases at_ with _ | ⟨label,loc⟩
  · exact h
  · cases label with
    | be => exact ⟨h.weaken,fun _ => h⟩
    | trap v => exact h.weaken
    | service => exact h

theorem begin_holds (bus : Bus) (h : Coherent s) : Holds (begin_ bus s) := by
  have hinstr := (coherent_stable bus).instruction s.psw s h
  by_cases hi : s.externalIntr=true
  · simp only [begin_,hi,if_true]
    exact h.weaken.congr rfl rfl rfl rfl rfl
  · simp only [begin_,hi]
    rcases ht : instruction bus s.psw s with ⟨goto,t⟩
    cases goto with
    | none => exact Coherent.holds (hinstr.2 t ht) _
    | some goto => cases goto <;> exact Coherent.holds (hinstr.1 _ t ht) _

theorem next_holds (bus : Bus) (at_ : Label × Locals) (h : Holds (some at_,s))
    (hv : ∀ v,at_.1=.trap v → ¬VectorHalts bus v s) : Holds (next bus at_ s) := by
  rcases at_ with ⟨label,loc⟩
  cases label with
  | be =>
    obtain ⟨hs,hbe⟩ := h
    simp only [next,atBe]
    by_cases hd : 1<s.be
    · rw [if_pos hd]
      exact (hbe hd).congr rfl rfl rfl rfl rfl
    · rw [if_neg hd]
      change Settled false (if loc.inTrap then s else s.restoreCc loc.oldpsw)
      split_ifs
      · exact hs
      · exact hs.setCc _
  | trap v =>
    have hseq := trapSequence_coherent bus loc.inhov v s s ⟨rfl,h⟩
    simp only [next,atTrap]
    rcases ht : trapSequence bus loc.inhov v s with ⟨x,t⟩
    cases x with
    | some _ => exact hseq.1 _ t ht
    | none =>
      obtain hc | ⟨hvec,hload⟩ := hseq.2 t ht
      · exact Coherent.holds hc _
      · refine ⟨hvec.settled,fun hbe => hvec.coherent ?_⟩
        by_contra hk
        exact hv v rfl ⟨t,hload,hbe,by simpa using hk⟩
  | service =>
    simp only [next,atService]
    have hs : Coherent s := h
    split_ifs
    · exact hs.weaken
    · exact hs.weaken.congr rfl rfl rfl rfl rfl
    · exact hs.weaken.congr rfl rfl rfl rfl rfl
    · exact hs

/-- In the step from `s` a trap's vector is refused that way. -/
def Strands (bus : Bus) (s : State) : Prop :=
  ∃ v loc t,Comes bus s (some (.trap v,loc),t) ∧ VectorHalts bus v t

theorem comes_holds (bus : Bus) {a : Todo} (h : Coherent s) (hn : ¬Strands bus s) (hc : Comes bus s a) : Holds a := by
  induction hc with
  | refl => exact begin_holds bus h
  | @tail a b hc hj ih =>
    obtain ⟨at_,hat,rfl⟩ := hj
    rcases a with ⟨_,t⟩
    subst hat
    apply next_holds bus at_ ih
    rintro v hv hhalts
    rcases at_ with ⟨label,loc⟩
    subst hv
    exact hn ⟨v,loc,t,hc,hhalts⟩

theorem steps_coherent (bus : Bus) {s t : State} (h : Coherent s) (hn : ¬Strands bus s)
    (ht : Steps bus s t) : Coherent t :=
  comes_holds bus h hn ht.comes

theorem zeroed_coherent : Coherent State.zeroed := by
  constructor
  all_goals first | rfl | (intro _; rfl) | (intro _ _; rfl)

theorem reset_coherent (h : Coherent s) : Coherent s.reset :=
  h.congr s.mmu.init_modes rfl rfl rfl rfl

theorem powerReset_coherent (h : Coherent s) : Coherent s.powerReset := by
  have hr := reset_coherent h
  apply setPsw_coherent
  · have hne : pswSp s.psw≠if pswSp s.psw=.kernel then Space.user else .kernel := by
      cases pswSp s.psw <;> decide
    exact hr.sp.trans (update_of_ne hne _ _).symm
  · intro sp hsp
    have heq : sp=if pswSp s.psw=.kernel then Space.user else .kernel := by
      have hsp : sp≠pswSp s.psw := hsp
      cases sp <;> cases hs : pswSp s.psw <;> simp_all
    rw [heq]
    exact (update_self _ _ s.sps).symm


theorem pwrupVectorFetch_coherent (bus : Bus) (h : Coherent s) : Coherent (pwrupVectorFetch bus s) := by
  have hword (ba : Word) : Keeps Coherent (vectorWord bus ba) :=
    keeps_bind (keeps_change _ fun s hs => hs.congr rfl rfl rfl rfl rfl) fun _ =>
      keeps_bind (settled_dati bus true false) fun _ => keeps_bind keeps_read fun _ => keeps_pure _
  have hload : Keeps Coherent (loadPowerUp bus) := by
    apply keeps_bind (hword _)
    intro _
    refine keeps_then (fun s hs => hs.setR _ _) ?_
    apply keeps_bind (hword _)
    intro _
    exact keeps_change _ fun s hs => hs.setPsw _
  have hs := hload s h
  unfold pwrupVectorFetch
  rcases ht : loadPowerUp bus s with ⟨x,t⟩
  cases x with
  | some _ => exact hs.1 _ t ht
  | none => exact (hs.2 t ht).congr rfl rfl rfl rfl rfl

def Act.Sound (bus : Bus) (s : State) (a : Act) : Prop :=
  a=.condstep → s.wakes=true → ¬Strands bus { s with state := .running }

theorem acts_coherent (bus : Bus) {s t : State} {a : Act} (h : Coherent s)
    (hn : a.Sound bus s) (ha : Acts bus s a t) : Coherent t := by
  cases a with
  | condstep =>
    simp only [Acts,Condsteps] at ha
    split_ifs at ha with hw
    · have hs : Coherent { s with state := .running } := h.congr rfl rfl rfl rfl rfl
      exact steps_coherent bus hs (hn rfl hw) ha
    · exact ha ▸ h
  | powerReset => exact ha ▸ powerReset_coherent h
  | reset => exact ha ▸ reset_coherent h
  | pwrfailTrap | setintr vec | setState state | setSw sw => exact ha ▸ h.congr rfl rfl rfl rfl rfl
  | pwrupVectorFetch => exact ha ▸ pwrupVectorFetch_coherent bus h
  | setPc pc => exact ha ▸ h.setR _ _

/-- A run of the processor from the memory it was created in. -/
theorem run_coherent (bus : Bus) (as : List Act) (t : State)
    (h : Run (fun s a t => a.Sound bus s ∧ Acts bus s a t) State.zeroed as t) : Coherent t :=
  h.invariant (P := Coherent) (fun _ _ _ hs ha => acts_coherent bus hs ha.1 ha.2) zeroed_coherent

def nops : Bus := ⟨fun _ _ => some 0o240,fun _ _ _ => true,fun _ _ _ => true⟩

def switchedOn : State := { State.zeroed.powerReset with state := .running }

/-- A processor switched on executes one of them. -/
theorem run_coherent_nop : ∃ t,Run (fun s a t => a.Sound nops s ∧ Acts nops s a t) State.zeroed
      [.powerReset,.setState .running,.condstep] t ∧ Coherent t := by
  have hbegin : (begin_ nops switchedOn).1 =
      some (.service,⟨false,false,0⟩) := by decide +kernel
  have hnext : (next nops (.service,⟨false,false,0⟩)
      (begin_ nops switchedOn).2).1=none := by
    decide +kernel
  have hsound : ¬Strands nops switchedOn := by
    rintro ⟨v,loc,t,hc,-⟩
    obtain ht | ⟨a,⟨at_,hat,rfl⟩,hc⟩ := hc.cases_head
    · rw [ht] at hbegin
      cases hbegin
    · obtain rfl := Option.some.inj (hbegin.symm.trans hat)
      obtain ht | ⟨a,⟨at_,hat,-⟩,-⟩ := hc.cases_head
      · rw [ht] at hnext
        cases hnext
      · cases hnext.symm.trans hat
  have hstep : ∃ t,finish nops 2 (begin_ nops switchedOn) =
      some t := by
    rw [← Option.isSome_iff_exists]
    decide +kernel
  obtain ⟨t,ht⟩ := hstep
  have hrun : Run (fun s a t => a.Sound nops s ∧ Acts nops s a t) State.zeroed
      [.powerReset,.setState .running,.condstep] t := by
    apply Run.cons ⟨(by intro h; cases h),rfl⟩
    apply Run.cons ⟨(by intro h; cases h),rfl⟩
    exact Run.cons ⟨fun _ _ => hsound,⟨2,ht⟩⟩ (.nil t)
  exact ⟨t,hrun,run_coherent nops _ t hrun⟩

/-- A kernel program that maps only its own page, shares it with user mode to be read, and starts user
mode at 021060: there a TRAP, whose vector's page is not resident, and an INC. -/
def strandProgram : List (Nat × List Word) :=
  [(0o021000,[0o012737,0o077406,0o172302,0o012737,0o000200,0o172342,
      0o012737,0o077402,0o177602,0o012737,0o000200,0o177642,
      0o012706,0o021100,0o012737,0o000001,0o177572,0o000002]),
    (0o021060,[0o104400,0o005237,0o020000]),
    (0o021100,[0o021060,0o170000])]

def strandMemory (pa : Uint) : Word :=
  (strandProgram.findSome? fun (first,ws) =>
    if first≤pa.toNat then ws[(pa.toNat-first)/2]? else none).getD 0

def strandBus : Bus where
  dati _ pa := if pa<0o760000 then some (strandMemory pa) else none
  dato _ pa _ := pa<0o760000
  datob _ pa _ := pa<0o760000

def strandActs : List Act :=
  [.powerReset,.setPc 0o021000,.setState .running]++List.replicate 8 .condstep

/-- The TRAP ends in a HALT with kernel access under a PSW that says user. -/
theorem strand_incoherent : ∃ t,Run (Acts strandBus) State.zeroed strandActs t ∧
    pswMode t.psw=modeUser ∧ t.mmu.accessSpace=.kernel ∧ ¬Coherent t := by
  have hp : (strandActs.foldlM (fun s a => if True then perform strandBus 10 s a else none)
      State.zeroed).any
        fun t => decide (pswMode t.psw=modeUser ∧ t.mmu.accessSpace=.kernel) := by
    decide +kernel
  obtain ⟨t,hrun,ht⟩ := run_of_foldlM (fun _ _ => True) (perform strandBus 10)
    (fun t => decide (pswMode t.psw=modeUser ∧ t.mmu.accessSpace=.kernel)) strandActs
    State.zeroed hp
  have hmode := (of_decide_eq_true ht).1
  have haccess := (of_decide_eq_true ht).2
  refine ⟨t,hrun.mono fun _ _ _ ha => perform_acts ha.2,hmode,haccess,?_⟩
  intro hc
  have hspace : t.mmu.space=.user := by rw [hc.space,hc.mode,hmode]; rfl
  rw [hc.accessSpace rfl,hspace] at haccess
  cases haccess

end QUniLator.Cpu34
