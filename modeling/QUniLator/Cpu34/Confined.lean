import QUniLator.Cpu34.Modes
import QUniLator.Cpu34.Operations

/-! User mode cannot reach what is the kernel's. -/

namespace QUniLator.Cpu34

open Attempt Function

def State.MmuSound (s : State) : Prop := s.mmu.Sound

section
variable {s t : State} {x : Option Unit} {b : Bool}

theorem Reads.mmuSound {bus : Bus} (h : Reads bus b s x t) (hs : s.MmuSound) : t.MmuSound := by
  have hrel := Kt11d.sound_relocate hs s.ba s.mmu.accessSpace .read
  cases h with
  | odd _ =>
    rw [State.MmuSound,refused_mmu]
    exact hs
  | aborted hm | timeout hm _ =>
    rw [hm] at hrel
    rw [State.MmuSound,refused_mmu]
    exact hrel
  | inside hm _ | answered hm _ =>
    rw [hm] at hrel
    exact hrel

theorem mmuSound_setPsw (hs : s.MmuSound) (psw : Word) : (s.setPsw psw).MmuSound := by
  have hswitch : (s.switchSp (psw &&& pswMask)).mmu=s.mmu := by
    simp only [State.switchSp]
    split_ifs <;> rfl
  change ((s.switchSp (psw &&& pswMask)).mmu.setModes _).Sound
  rw [hswitch]
  exact Kt11d.sound_setModes hs _

theorem Stores.mmuSound (h : Stores b s x t) (hs : s.MmuSound) : t.MmuSound := by
  have hrel := Kt11d.sound_relocate hs s.ba s.mmu.accessSpace .write
  cases h with
  | odd _ =>
    rw [State.MmuSound,refused_mmu]
    exact hs
  | aborted hm | timeout hm _ =>
    rw [hm] at hrel
    rw [State.MmuSound,refused_mmu]
    exact hrel
  | @inside mmu pa u hm ht =>
    rw [hm] at hrel
    have hu : { s with mmu := mmu }.MmuSound := hrel
    obtain ⟨-,⟨mmu',mask,hw,rfl⟩ | rfl | ⟨psw,rfl⟩⟩ := writeInternal_cases ht
    · exact Kt11d.sound_writeReg hrel hw
    · exact hu
    · exact mmuSound_setPsw hu psw
  | answered hm _ =>
    rw [hm] at hrel
    exact hrel

end

theorem mmuSound_dati (bus : Bus) (b : Bool) : Keeps State.MmuSound (dati bus b) :=
  keeps_dati fun _ _ _ hs hr => hr.mmuSound hs

theorem mmuSound_dato (bus : Bus) (b : Bool) : Keeps State.MmuSound (dato bus b) :=
  keeps_dato fun _ _ _ hs hr => hr.mmuSound hs

theorem mmuSound_inPrevious {m : M Unit} (hm : Keeps State.MmuSound m) : Keeps State.MmuSound (inPrevious m) := by
  refine keeps_then (fun s hs => Kt11d.sound_setAccess hs _ _) ?_
  apply keeps_bind (spec_onFailure State.spaceRestore hm fun s hs => Kt11d.sound_setAccess hs _ _)
  intro _
  exact keeps_change _ fun s hs => Kt11d.sound_setAccess hs _ _

theorem mmuSound_stable (bus : Bus) : Stable bus State.MmuSound State.MmuSound where
  ba s v hs := hs
  bdata s v hs := hs
  setR s i v hs := hs
  setCc s cc hs := hs
  setDestRef s destRef hs := hs.congr rfl rfl rfl rfl rfl rfl rfl rfl rfl
  autoincPending s r amount hs := hs
  autoincCommit s hs := hs
  instructionStart s hs := Kt11d.sound_apply hs .instructionStart
  instructionFetched s ir pc hs := Kt11d.sound_apply hs (.instructionFetched pc)
  logRegister s r amount hs := Kt11d.sound_apply hs (.logRegister r amount)
  checkStack s ba hs := hs
  dati b := mmuSound_dati bus b
  dato b := mmuSound_dato bus b
  datiPrev := mmuSound_inPrevious (mmuSound_dati bus false)
  datoPrev := mmuSound_inPrevious (mmuSound_dato bus false)
  setStackpointer s v _ hs := hs
  mtps s hs := mmuSound_setPsw hs _
  rti s b hs := mmuSound_setPsw hs _
  resetOpcode s hs := by
    unfold State.resetOpcode
    split_ifs
    · exact Kt11d.sound_init hs
    · exact hs
  halt s _ hs := hs
  wait s hs := hs

theorem mmuSound_vectorWord (bus : Bus) (ba : Word) : Keeps State.MmuSound (vectorWord bus ba) :=
  keeps_bind (keeps_change _ fun _ hs => hs) fun _ =>
    keeps_bind (mmuSound_dati bus false) fun _ => keeps_bind keeps_read fun _ => keeps_pure _

theorem mmuSound_trapSequence (bus : Bus) (inhov : Bool) (v : Word) :
    Keeps State.MmuSound (trapSequence bus inhov v) := by
  have hload : Keeps State.MmuSound (loadVector bus v) := by
    refine keeps_then (fun s hs => Kt11d.sound_setAccess hs _ _) ?_
    apply keeps_bind (mmuSound_vectorWord bus v)
    intro _
    apply keeps_bind (mmuSound_vectorWord bus _)
    intro _
    exact keeps_bind (keeps_change _ fun s hs => Kt11d.sound_setAccess hs _ _) fun _ => keeps_pure _
  refine keeps_then (fun s hs => hs.congr rfl rfl rfl rfl rfl rfl rfl rfl rfl) ?_
  apply keeps_bind keeps_read
  intro trapped
  apply keeps_bind hload
  intro new
  refine keeps_then (fun s hs => mmuSound_setPsw hs _) ?_
  apply keeps_bind ((mmuSound_stable bus).pushOut _ _)
  intro _
  apply keeps_bind ((mmuSound_stable bus).pushOut _ _)
  intro _
  exact keeps_change _ fun _ hs => hs

variable {s : State}

theorem mmuSound_begin (bus : Bus) (hs : s.MmuSound) : (begin_ bus s).2.MmuSound := by
  have hinstr := (mmuSound_stable bus).instruction s.psw s hs
  by_cases hi : s.externalIntr=true
  · simp only [begin_,hi,if_true]
    exact hs
  · simp only [begin_,hi]
    rcases ht : instruction bus s.psw s with ⟨goto,t⟩
    cases goto with
    | none => exact hinstr.2 t ht
    | some goto => cases goto <;> exact hinstr.1 _ t ht

theorem mmuSound_next (bus : Bus) (at_ : Label × Locals) (hs : s.MmuSound) : (next bus at_ s).2.MmuSound := by
  rcases at_ with ⟨label,loc⟩
  cases label with
  | be =>
    simp only [next,atBe]
    by_cases hbe : 1<s.be
    · rw [if_pos hbe]
      exact hs
    · rw [if_neg hbe]
      change (if loc.inTrap then s else s.restoreCc loc.oldpsw).MmuSound
      split_ifs <;> exact hs
  | trap v =>
    have hseq := mmuSound_trapSequence bus loc.inhov v s hs
    simp only [next,atTrap]
    rcases ht : trapSequence bus loc.inhov v s with ⟨x,t⟩
    cases x with
    | some _ => exact hseq.1 _ t ht
    | none => exact hseq.2 t ht
  | service =>
    simp only [next,atService]
    split_ifs <;> exact hs

theorem mmuSound_steps (bus : Bus) {s t : State} (hs : s.MmuSound) (ht : Steps bus s t) : t.MmuSound := by
  have hcomes (a : Todo) (hc : Comes bus s a) : a.2.MmuSound := by
    induction hc with
    | refl => exact mmuSound_begin bus hs
    | tail _ hj ih =>
      obtain ⟨at_,-,rfl⟩ := hj
      exact mmuSound_next bus at_ ih
  exact hcomes _ ht.comes

theorem mmuSound_acts (bus : Bus) {s t : State} {a : Act} (hs : s.MmuSound) (ha : Acts bus s a t) : t.MmuSound := by
  cases a with
  | condstep =>
    simp only [Acts,Condsteps] at ha
    split_ifs at ha
    · exact mmuSound_steps bus (s := { s with state := .running }) hs ha
    · exact ha ▸ hs
  | powerReset =>
    subst ha
    exact mmuSound_setPsw (s := { s.reset with
      externalIntr := false,mmu := .reset,stackpointer := fun _ => 0
      sps := update s.sps (if pswSp s.psw=.kernel then .user else .kernel) 0
      trapVector := 4,autoincReg := none }) Kt11d.sound_reset 0
  | reset => exact ha ▸ Kt11d.sound_init hs
  | pwrfailTrap | setintr vec | setState state | setPc pc | setSw sw => exact ha ▸ hs
  | pwrupVectorFetch =>
    have hload : Keeps State.MmuSound (loadPowerUp bus) := by
      apply keeps_bind (mmuSound_vectorWord bus _)
      intro _
      apply keeps_bind (keeps_change _ fun _ hs => by exact hs)
      intro _
      apply keeps_bind (mmuSound_vectorWord bus _)
      intro _
      exact keeps_change _ fun s hs => mmuSound_setPsw hs _
    have hend := hload s hs
    subst ha
    unfold pwrupVectorFetch
    rcases ht : loadPowerUp bus s with ⟨x,t⟩
    cases x with
    | some _ => exact hend.1 _ t ht
    | none => exact hend.2 t ht

theorem mmuSound_run (bus : Bus) {as : List Act} {t : State} (h : Run (Acts bus) State.zeroed as t) : t.MmuSound :=
  h.invariant (P := State.MmuSound) (fun _ _ _ hs ha => mmuSound_acts bus hs ha) Kt11d.sound_zeroed

/-- What an event of the bus does to memory, by words: a byte is the half its address says. -/
def BusEvent.store (mem : Uint → Word) : BusEvent → Uint → Word
  | .dato pa w => update mem pa w
  | .datob pa w => update mem (wordAddress pa)
      (Kt11d.masked (mem (wordAddress pa)) w (if pa.getLsbD 0 then 0o177400 else 0o377))
  | _ => mem

/-- Memory that was `mem` before everything in the log. -/
def memory (mem : Uint → Word) (log : List BusEvent) : Uint → Word :=
  log.foldr (fun e mem => e.store mem) mem

def UserWritable (m : Kt11d) (pa : Uint) : Prop :=
  ∃ va,¬acfForbids (m.pdr (pageIndex .user va)) .write ∧ inPage (m.pdr (pageIndex .user va)) va ∧
    wordAddress (BitVec.ofNat 32 (relocated (m.par (pageIndex .user va)) va))=pa

def NoIo (m : Kt11d) : Prop :=
  ∀ va,¬acfForbids (m.pdr (pageIndex .user va)) .read → inPage (m.pdr (pageIndex .user va)) va →
    relocated (m.par (pageIndex .user va)) va<0o760000

theorem store_other (mem : Uint → Word) (b : Bool) (pa at_ : Uint) (w : Word)
    (h : at_≠wordAddress pa) : (written b pa w).store mem at_=mem at_ := by
  cases b <;> exact update_of_ne h _ _

namespace Kt11d

/-- The unit `m` has the registers of `m0`, but for the W bits of user pages and what an abort or a
reference leaves in MMR0. -/
structure Kept (m0 m : Kt11d) : Prop where
  par : m.par=m0.par
  pdrKernel : ∀ i,i.toNat<8 → m.pdr i=m0.pdr i
  pdrUser : ∀ i,m.pdr i=m0.pdr i ∨ m.pdr i=m0.pdr i ||| pdrW
  mmr0 : m.mmr0 &&& (mmr0Maint ||| mmr0Enable)=m0.mmr0 &&& (mmr0Maint ||| mmr0Enable)

theorem pageIndex_user (va : Word) : 8≤(pageIndex .user va).toNat := by
  have hv := va.isLt
  rw [pageIndex,BitVec.toNat_add,BitVec.toNat_setWidth,BitVec.toNat_ushiftRight,Nat.shiftRight_eq_div_pow]
  simp [Space.first]
  omega

section
variable {m0 m : Kt11d} (h : Kept m0 m)
include h

theorem Kept.acf (i : BitVec 4) (access : Access) : acfForbids (m.pdr i) access ↔ acfForbids (m0.pdr i) access := by
  obtain hp | hp := h.pdrUser i
  · rw [hp]
  · rw [hp,← descriptor_denies i 0,descriptor_written,descriptor_denies]

theorem Kept.length (i : BitVec 4) (va : Word) : inPage (m.pdr i) va ↔ inPage (m0.pdr i) va := by
  obtain hp | hp := h.pdrUser i
  · rw [hp]
  · rw [hp,← descriptor_holds i 0,descriptor_written,descriptor_holds]

theorem Kept.withMmr0 (va bits : Word) (hbits : bits &&& (mmr0Maint ||| mmr0Enable)=0) (frozen : Bool) :
    Kept m0 { m with mmr0 := m.recordReference va bits,frozen := frozen } where
  par := h.par
  pdrKernel := h.pdrKernel
  pdrUser := h.pdrUser
  mmr0 := by
    rw [recordReference_and _ _ _ (by decide),BitVec.and_or_distrib_right,hbits,h.mmr0]
    simp

theorem Kept.withPdr {pdr : BitVec 4 → Word} (va : Word) (hp : pdr=m.pdr ∨
    pdr=update m.pdr (pageIndex .user va) (m.pdr (pageIndex .user va) ||| pdrW)) :
    (∀ i,i.toNat<8 → pdr i=m0.pdr i) ∧ ∀ i,pdr i=m0.pdr i ∨ pdr i=m0.pdr i ||| pdrW := by
  have hindex := pageIndex_user va
  obtain rfl | rfl := hp
  · exact ⟨h.pdrKernel,h.pdrUser⟩
  · refine ⟨?_,?_⟩
    · intro i hi
      have hne : i≠pageIndex .user va := by
        rintro rfl
        omega
      rw [update_of_ne hne]
      exact h.pdrKernel i hi
    · intro i
      by_cases hi : i=pageIndex .user va
      · subst hi
        rw [update_self]
        obtain hp | hp := h.pdrUser (pageIndex .user va)
        · exact .inr (by rw [hp])
        · exact .inr (by rw [hp,BitVec.or_assoc,BitVec.or_self])
      · rw [update_of_ne hi]
        exact h.pdrUser i

end

theorem causes_kept (illegal : Bool) (pdr va : Word) (access : Access) :
    causes illegal pdr va access &&& (mmr0Maint ||| mmr0Enable)=0 := by
  rw [← causes_aborts,BitVec.and_assoc,show mmr0Aborts &&& (mmr0Maint ||| mmr0Enable)=0 by decide]
  simp

theorem relocate_kept {m0 m : Kt11d} (h : Kept m0 m) (hs : m.Sound) (he : m.enabled)
    (hm : m.accessMode=modeUser) (va : Word) (access : Access) :
    Kept m0 (m.relocate va .user access).1 ∧ ∀ pa,(m.relocate va .user access).2=some pa →
      ¬acfForbids (m0.pdr (pageIndex .user va)) access ∧ inPage (m0.pdr (pageIndex .user va)) va ∧
      pa=BitVec.ofNat 32 (relocated (m0.par (pageIndex .user va)) va) ∧
      (m.relocate va .user access).1.mmr0 &&& mmr0Aborts=m.mmr0 &&& mmr0Aborts := by
  have hforbid : m.Forbidden va .user access ↔ acfForbids (m0.pdr (pageIndex .user va)) access ∨
      ¬inPage (m0.pdr (pageIndex .user va)) va := by
    rw [hs.forbidden_iff,h.acf,h.length,hm]
    simp [modeKernel,modeUser]
  rw [relocate_eq (hs.derived (.inl he)) (.inl he)]
  by_cases hf : m.Forbidden va .user access
  · rw [if_pos hf]
    refine ⟨?_,by simp⟩
    by_cases hfrozen : m.frozen=true
    · rw [if_pos hfrozen]
      exact h
    · rw [if_neg hfrozen]
      exact h.withMmr0 va _ (causes_kept _ _ _ _) true
  · rw [if_neg hf]
    rw [hforbid,not_or,not_not] at hf
    refine ⟨?_,?_⟩
    · have hmmr0 : (if m.frozen then m.mmr0 else m.recordReference va 0) &&& (mmr0Maint ||| mmr0Enable)
          = m0.mmr0 &&& (mmr0Maint ||| mmr0Enable) := by
        split_ifs
        · exact h.mmr0
        · exact (h.withMmr0 va 0 (by simp) true).mmr0
      have hset (c : Prop) [Decidable c] :
          (if c then update m.pdr (pageIndex .user va) (m.pdr (pageIndex .user va) ||| pdrW)
            else m.pdr)=m.pdr ∨
          (if c then update m.pdr (pageIndex .user va) (m.pdr (pageIndex .user va) ||| pdrW)
            else m.pdr) =
            update m.pdr (pageIndex .user va) (m.pdr (pageIndex .user va) ||| pdrW) := by
        split_ifs
        · exact .inr rfl
        · exact .inl rfl
      have hpdr := h.withPdr va (hset (access=.write ∧
        isOwnRegister (BitVec.ofNat 32 (relocated (m.par (pageIndex .user va)) va))=false))
      exact ⟨h.par,hpdr.1,hpdr.2,hmmr0⟩
    · rintro pa hpa
      obtain rfl := Option.some.inj hpa
      refine ⟨hf.1,hf.2,by rw [h.par],?_⟩
      change (if m.frozen then m.mmr0 else m.recordReference va 0) &&& mmr0Aborts=_
      split_ifs
      · rfl
      · rw [recordReference_and _ _ _ (by decide)]
        simp

end Kt11d

def pswPrivileged : Word := 0o170340

/-- The state `s` of a user program that began in `s0`. -/
structure Confined (s0 s : State) : Prop where
  psw : s.psw &&& pswPrivileged=s0.psw &&& pswPrivileged
  mmu : s0.mmu.Kept s.mmu
  kernelSp : s.stackpointer .kernel=s0.stackpointer .kernel
  memory : ∀ mem pa,¬UserWritable s0.mmu pa → memory mem s.log pa=memory mem s0.log pa
  init : s.log.count .init=s0.log.count .init

def NoAbort (s0 s : State) : Prop := s.mmu.mmr0 &&& mmr0Aborts=s0.mmu.mmr0 &&& mmr0Aborts

/-- A state in user mode that goes on. -/
structure InUser (s0 s : State) : Prop extends Confined s0 s where
  coherent : Coherent s
  sound : s.MmuSound
  noAbort : NoAbort s0 s
  halted : s.state=.halted → s0.state=.halted

/-- A state in which a reference of the user program has just failed. -/
structure Failed (s0 s : State) : Prop extends Confined s0 s where
  coherent : Coherent s
  noAbort : NoAbort s0 s ∨ s.trapVector=abortVector
  halted : s.state=.halted → s0.state=.halted

/-- A user program begins: relocation is on, and none of its pages is in the I/O page. -/
structure UserStart (s0 : State) : Prop where
  mode : pswMode s0.psw=modeUser
  prevMode : pswPrevMode s0.psw=modeUser
  enabled : s0.mmu.mmr0 &&& mmr0Enable≠0
  noIo : NoIo s0.mmu

theorem pswMode_privileged (psw : Word) : pswMode (psw &&& pswPrivileged)=pswMode psw := by
  ext i hi
  interval_cases i <;> simp [pswMode,pswPrivileged]

theorem pswPrevMode_privileged (psw : Word) : pswPrevMode (psw &&& pswPrivileged)=pswPrevMode psw := by
  ext i hi
  interval_cases i <;> simp [pswPrevMode,pswPrivileged]

theorem InUser.failed {s0 s : State} (h : InUser s0 s) : Failed s0 s :=
  ⟨h.toConfined,h.coherent,.inl h.noAbort,h.halted⟩

section
variable {s0 s t : State}

theorem Confined.congr (h : Confined s0 s) (hm : s0.mmu.Kept t.mmu)
    (hpsw : t.psw &&& pswPrivileged=s.psw &&& pswPrivileged)
    (hsp : t.stackpointer .kernel=s.stackpointer .kernel) (hlog : t.log=s.log) : Confined s0 t where
  psw := hpsw.trans h.psw
  mmu := hm
  kernelSp := hsp.trans h.kernelSp
  memory := by
    rw [hlog]
    exact h.memory
  init := by rw [hlog,h.init]

theorem Confined.user (h : Confined s0 s) (hu : UserStart s0) : pswMode s.psw=modeUser := by
  rw [← pswMode_privileged,h.psw,pswMode_privileged,hu.mode]

theorem Confined.prevUser (h : Confined s0 s) (hu : UserStart s0) : pswPrevMode s.psw=modeUser := by
  rw [← pswPrevMode_privileged,h.psw,pswPrevMode_privileged,hu.prevMode]

theorem InUser.access (h : InUser s0 s) (hu : UserStart s0) :
    s.mmu.accessSpace=.user ∧ s.mmu.accessMode=modeUser ∧ s.mmu.enabled=true := by
  have hmode : s.mmu.mode=modeUser := h.coherent.mode.trans (h.user hu)
  have hspace : s.mmu.space=.user := by
    rw [h.coherent.space,hmode]
    rfl
  refine ⟨(h.coherent.accessSpace rfl).trans hspace,(h.coherent.accessMode rfl).trans hmode,?_⟩
  have hbit : s.mmu.mmr0 &&& mmr0Enable=s0.mmu.mmr0 &&& mmr0Enable := by
    have hall : (mmr0Maint ||| mmr0Enable) &&& mmr0Enable=mmr0Enable := by decide
    have hm := congrArg (· &&& mmr0Enable) h.mmu.mmr0
    simp only [BitVec.and_assoc,hall] at hm
    exact hm
  rw [h.sound.enabled,decide_eq_true_eq,hbit]
  exact hu.enabled

/-- What changes neither the unit, the PSW, the log nor the kernel's stack pointer. -/
theorem InUser.congr (h : InUser s0 s) (hc : Coherent t) (hm : t.mmu=s.mmu)
    (hpsw : t.psw &&& pswPrivileged=s.psw &&& pswPrivileged)
    (hsp : t.stackpointer .kernel=s.stackpointer .kernel) (hlog : t.log=s.log)
    (hstate : t.state=.halted → s.state=.halted) : InUser s0 t where
  toConfined := h.toConfined.congr (hm ▸ h.mmu) hpsw hsp hlog
  coherent := hc
  sound := by
    rw [State.MmuSound,hm]
    exact h.sound
  noAbort := by
    rw [NoAbort,hm]
    exact h.noAbort
  halted ht := h.halted (hstate ht)

theorem Confined.event (h : Confined s0 s) {mmu : Kt11d} (hm : s0.mmu.Kept mmu) (e : BusEvent)
    (he : ∀ mem pa,¬UserWritable s0.mmu pa → e.store mem pa=mem pa) (hi : e≠.init) :
    Confined s0 { s with mmu := mmu,log := e::s.log } where
  psw := h.psw
  mmu := hm
  kernelSp := h.kernelSp
  memory mem pa hpa := (he _ pa hpa).trans (h.memory mem pa hpa)
  init := (List.count_cons_of_ne hi).trans h.init

theorem refused_frame (s : State) (vector : Word) :
    (s.refused vector).psw=s.psw ∧ (s.refused vector).stackpointer=s.stackpointer ∧
      (s.refused vector).log=s.log ∧ (s.refused vector).state=s.state ∧ (s.refused vector).trapVector=vector := by
  simp only [State.refused,State.autoincUndo]
  split <;> exact ⟨rfl,rfl,rfl,rfl,rfl⟩

theorem Confined.refused (h : Confined s0 s) (vector : Word) : Confined s0 (s.refused vector) := by
  obtain ⟨hpsw,hsp,hlog,-,-⟩ := refused_frame s vector
  exact h.congr (by rw [refused_mmu]; exact h.mmu) (by rw [hpsw]) (by rw [hsp]) hlog

theorem Failed.refused (h : Confined s0 s) (hc : Coherent s) (hstate : s.state=.halted →
    s0.state=.halted) (vector : Word) (hn : NoAbort s0 s ∨ vector=abortVector) : Failed s0 (s.refused vector) := by
  obtain ⟨-,-,-,hst,hvec⟩ := refused_frame s vector
  refine ⟨h.refused vector,Settled.refused hc vector,?_,?_⟩
  · rw [NoAbort,refused_mmu,hvec]
    exact hn
  · rw [hst]
    exact hstate

end

section
variable {s0 s t : State} (hu : UserStart s0) {bus : Bus} {b : Bool} {x : Option Unit}
include hu

theorem user_relocate (h : InUser s0 s) (access : Access) {mmu : Kt11d} {pa : Option Uint}
    (hr : s.mmu.relocate s.ba s.mmu.accessSpace access=(mmu,pa)) :
    s0.mmu.Kept mmu ∧ mmu.Sound ∧ mmu.modes=s.mmu.modes ∧
    ∀ p,pa=some p → p<0o760000 ∧ mmu.mmr0 &&& mmr0Aborts=s0.mmu.mmr0 &&& mmr0Aborts ∧
      (access=.write → UserWritable s0.mmu (wordAddress p)) := by
  obtain ⟨hspace,hmode,henabled⟩ := h.access hu
  obtain ⟨hkept,hok⟩ := Kt11d.relocate_kept h.mmu h.sound henabled hmode s.ba access
  have hsound := Kt11d.sound_relocate h.sound s.ba s.mmu.accessSpace access
  have hmodes := s.mmu.relocate_modes s.ba s.mmu.accessSpace access
  rw [hr] at hsound hmodes
  rw [hspace] at hr
  rw [hr] at hkept hok
  refine ⟨hkept,hsound,hmodes,?_⟩
  rintro p rfl
  obtain ⟨hacf,hin,rfl,hm⟩ := hok p rfl
  have hread : ¬acfForbids (s0.mmu.pdr (pageIndex .user s.ba)) .read := by
    unfold acfForbids at hacf ⊢
    tauto
  have hlt := hu.noIo s.ba hread hin
  refine ⟨?_,hm.trans h.noAbort,?_⟩
  · rw [BitVec.lt_def,BitVec.toNat_ofNat]
    exact lt_of_le_of_lt (Nat.mod_le _ _) hlt
  · rintro rfl
    exact ⟨s.ba,hacf,hin,rfl⟩

theorem user_reads (h : InUser s0 s) (hr : Reads bus b s x t) : Failed s0 t ∧ (x≠none → InUser s0 t) := by
  have hc := h.coherent.reads hr
  cases hr with
  | odd _ => exact ⟨.refused h.toConfined h.coherent h.halted 4 (.inl h.noAbort),by simp⟩
  | @aborted mmu hm =>
    obtain ⟨hkept,-,hmodes,-⟩ := user_relocate hu h .read hm
    have hs : Confined s0 { s with mmu := mmu } := h.toConfined.congr hkept rfl rfl rfl
    exact ⟨.refused hs (h.coherent.withMmu hmodes) h.halted _ (.inr rfl),by simp⟩
  | @inside mmu pa w hm hw =>
    obtain ⟨-,-,-,hok⟩ := user_relocate hu h .read hm
    have hnone : { s with mmu := mmu }.readInternal pa=none := if_pos (hok pa rfl).1
    rw [hnone] at hw
    cases hw
  | @timeout mmu pa hm _ =>
    obtain ⟨hkept,-,hmodes,hok⟩ := user_relocate hu h .read hm
    have hs := h.toConfined.event hkept (.dati (wordAddress pa)) (fun _ _ _ => rfl) (by simp)
    refine ⟨.refused hs (h.coherent.congr hmodes rfl rfl rfl rfl) h.halted 4 (.inl ?_),by simp⟩
    exact (hok pa rfl).2.1
  | @answered mmu pa w hm _ =>
    obtain ⟨hkept,hsound,-,hok⟩ := user_relocate hu h .read hm
    have hs := h.toConfined.event hkept (.dati (wordAddress pa)) (fun _ _ _ => rfl) (by simp)
    have hin : InUser s0 { s with
        mmu := mmu,log := .dati (wordAddress pa)::s.log,bdata := w }.completed :=
      ⟨hs.congr hkept rfl rfl rfl,hc,hsound,(hok pa rfl).2.1,h.halted⟩
    exact ⟨hin.failed,fun _ => hin⟩

theorem user_stores (h : InUser s0 s) (hr : Stores b s x t) : Failed s0 t ∧ (x≠none → InUser s0 t) := by
  have hc := h.coherent.stores hr
  have hevent {pa : Uint} (hw : UserWritable s0.mmu (wordAddress pa)) (mem : Uint → Word) (at_ : Uint)
      (hat : ¬UserWritable s0.mmu at_) : (written b pa s.bdata).store mem at_=mem at_ := by
    apply store_other
    rintro rfl
    exact hat hw
  have hinit (pa : Uint) : written b pa s.bdata≠.init := by
    cases b <;> simp [written]
  cases hr with
  | odd _ => exact ⟨.refused h.toConfined h.coherent h.halted 4 (.inl h.noAbort),by simp⟩
  | @aborted mmu hm =>
    obtain ⟨hkept,-,hmodes,-⟩ := user_relocate hu h .write hm
    have hs : Confined s0 { s with mmu := mmu } := h.toConfined.congr hkept rfl rfl rfl
    exact ⟨.refused hs (h.coherent.withMmu hmodes) h.halted _ (.inr rfl),by simp⟩
  | @inside mmu pa u hm ht =>
    obtain ⟨-,-,-,hok⟩ := user_relocate hu h .write hm
    have hlow := (writeInternal_cases ht).1
    have hlt := (hok pa rfl).1
    rw [BitVec.le_def] at hlow
    rw [BitVec.lt_def] at hlt
    omega
  | @timeout mmu pa hm _ =>
    obtain ⟨hkept,-,hmodes,hok⟩ := user_relocate hu h .write hm
    have hs := h.toConfined.event hkept _ (hevent ((hok pa rfl).2.2 rfl)) (hinit pa)
    refine ⟨.refused hs (h.coherent.congr hmodes rfl rfl rfl rfl) h.halted 4 (.inl ?_),by simp⟩
    exact (hok pa rfl).2.1
  | @answered mmu pa hm _ =>
    obtain ⟨hkept,hsound,-,hok⟩ := user_relocate hu h .write hm
    have hs := h.toConfined.event hkept _ (hevent ((hok pa rfl).2.2 rfl)) (hinit pa)
    have hin : InUser s0 { s with mmu := mmu,log := written b pa s.bdata::s.log }.completed :=
      ⟨hs.congr hkept rfl rfl rfl,hc,hsound,(hok pa rfl).2.1,h.halted⟩
    exact ⟨hin.failed,fun _ => hin⟩

theorem user_setAccess (h : InUser s0 s) : InUser s0 { s with mmu := s.mmu.setAccess .user modeUser } := by
  have hmode : s.mmu.mode=modeUser := h.coherent.mode.trans (h.user hu)
  have hspace : s.mmu.space=.user := by
    rw [h.coherent.space,hmode]
    rfl
  have hkept : s0.mmu.Kept (s.mmu.setAccess .user modeUser) :=
    ⟨h.mmu.par,h.mmu.pdrKernel,h.mmu.pdrUser,h.mmu.mmr0⟩
  have hsettled := Settled.setAccess h.coherent .user modeUser
  refine ⟨h.toConfined.congr hkept rfl rfl rfl,?_,Kt11d.sound_setAccess h.sound _ _,h.noAbort,h.halted⟩
  exact ⟨hsettled.mode,hsettled.prevMode,hsettled.space,hsettled.prevSpace,fun _ => hspace.symm,
    fun _ => hmode.symm,hsettled.psw,hsettled.sp,hsettled.other⟩

theorem user_spacePrev (h : InUser s0 s) : InUser s0 s.spacePrev := by
  have hmode : s.mmu.prevMode=modeUser := h.coherent.prevMode.trans (h.prevUser hu)
  have hspace : s.mmu.prevSpace=.user := by
    rw [h.coherent.prevSpace,hmode]
    rfl
  rw [State.spacePrev,hspace,hmode]
  exact user_setAccess hu h

theorem user_spaceRestore (h : InUser s0 s) : InUser s0 s.spaceRestore := by
  have hmode : s.mmu.mode=modeUser := h.coherent.mode.trans (h.user hu)
  have hspace : s.mmu.space=.user := by
    rw [h.coherent.space,hmode]
    rfl
  rw [State.spaceRestore,hspace,hmode]
  exact user_setAccess hu h

omit hu in
theorem failed_spaceRestore (h : Failed s0 s) : Failed s0 s.spaceRestore := by
  have hkept : s0.mmu.Kept s.spaceRestore.mmu :=
    ⟨h.mmu.par,h.mmu.pdrKernel,h.mmu.pdrUser,h.mmu.mmr0⟩
  exact ⟨h.toConfined.congr hkept rfl rfl rfl,Settled.spaceRestore h.coherent,h.noAbort,h.halted⟩

theorem user_dati : KeepsOr (InUser s0) (Failed s0) (dati bus b) :=
  keepsOr_dati fun _ _ _ hs hr => ⟨(user_reads hu hs hr).2,fun _ => (user_reads hu hs hr).1⟩

theorem user_dato : KeepsOr (InUser s0) (Failed s0) (dato bus b) :=
  keepsOr_dato fun _ _ _ hs hr => ⟨(user_stores hu hs hr).2,fun _ => (user_stores hu hs hr).1⟩

theorem user_inPrevious {m : M Unit} (hm : KeepsOr (InUser s0) (Failed s0) m) :
    KeepsOr (InUser s0) (Failed s0) (inPrevious m) := by
  refine keeps_then (fun s hs => user_spacePrev hu hs) ?_
  apply keeps_bind (spec_onFailure State.spaceRestore hm fun s hs => failed_spaceRestore hs)
  intro _
  exact keeps_change _ fun s hs => user_spaceRestore hu hs

omit hu in
theorem mask_privileged (psw : Word) : psw &&& pswMask &&& pswPrivileged=psw &&& pswPrivileged := by
  rw [BitVec.and_assoc,show pswMask &&& pswPrivileged=pswPrivileged by decide]

theorem user_setPsw (h : InUser s0 s) {psw : Word}
    (hp : psw &&& pswPrivileged=s.psw &&& pswPrivileged) : InUser s0 (s.setPsw psw) := by
  have hmode : pswMode (psw &&& pswMask)=modeUser := by
    rw [← pswMode_privileged,mask_privileged,hp,pswMode_privileged,h.user hu]
  have hsp : s.switchSp (psw &&& pswMask)=s := by
    apply if_pos
    rw [pswSp,pswSp,h.user hu,hmode]
  have hc := Settled.setPsw h.coherent psw
  have hkept : s0.mmu.Kept (s.mmu.setModes (psw &&& pswMask)) :=
    ⟨h.mmu.par,h.mmu.pdrKernel,h.mmu.pdrUser,h.mmu.mmr0⟩
  have hset : s.setPsw psw={ s with
      psw := psw &&& pswMask,mmu := s.mmu.setModes (psw &&& pswMask)
      log := .prioritylevelchange (((psw &&& pswMask) >>> 5) &&& 7)::s.log } := by
    simp only [State.setPsw,hsp]
  rw [hset] at hc ⊢
  have hevent := h.toConfined.event hkept
    (.prioritylevelchange (((psw &&& pswMask) >>> 5) &&& 7)) (fun _ _ _ => rfl) (by simp)
  refine ⟨?_,hc,Kt11d.sound_setModes h.sound _,h.noAbort,h.halted⟩
  exact hevent.congr hkept ((mask_privileged psw).trans hp) rfl rfl

omit hu in
theorem mtps_privileged (psw r : Word) : ((psw &&& (0xff00 ||| pswT)) |||
      (((r &&& (0o377 &&& ~~~pswT)) &&& ~~~pswPr) ||| (psw &&& pswPr))) &&& pswPrivileged =
    psw &&& pswPrivileged := by
  ext i hi
  interval_cases i <;> simp [pswT,pswPr,pswPrivileged]

omit hu in
theorem rti_privileged (psw b : Word) :
    ((b &&& ~~~(0o170000 ||| pswPr)) ||| (psw &&& (0o170000 ||| pswPr))) &&& pswPrivileged =
    psw &&& pswPrivileged := by
  ext i hi
  interval_cases i <;> simp [pswPr,pswPrivileged]

theorem InUser.notKernel (h : InUser s0 s) : s.isKernel=false := by
  rw [State.isKernel,h.user hu]
  rfl

omit hu in
theorem setCc_privileged (psw : Word) (cc : Cc) :
    ((psw &&& ~~~(0o17 : Word)) ||| cc.setWidth 16) &&& pswPrivileged=psw &&& pswPrivileged := by
  ext i hi
  interval_cases i <;> simp [pswPrivileged]

omit hu in
theorem InUser.withMmu (h : InUser s0 s) {mmu : Kt11d} (hpar : mmu.par=s.mmu.par)
    (hpdr : mmu.pdr=s.mmu.pdr) (hmmr0 : mmu.mmr0=s.mmu.mmr0) (hm : mmu.modes=s.mmu.modes)
    (hs : mmu.Sound) : InUser s0 { s with mmu := mmu } := by
  have hkept : s0.mmu.Kept mmu := by
    refine ⟨hpar.trans h.mmu.par,?_,?_,?_⟩
    · rw [hpdr]
      exact h.mmu.pdrKernel
    · rw [hpdr]
      exact h.mmu.pdrUser
    · rw [hmmr0]
      exact h.mmu.mmr0
  refine ⟨h.toConfined.congr hkept rfl rfl rfl,Settled.withMmu h.coherent hm,hs,?_,h.halted⟩
  rw [NoAbort,hmmr0]
  exact h.noAbort

theorem user_stable : Stable bus (InUser s0) (Failed s0) where
  ba s v hs := hs.congr (hs.coherent.congr rfl rfl rfl rfl rfl) rfl rfl rfl rfl id
  bdata s v hs := hs.congr (hs.coherent.congr rfl rfl rfl rfl rfl) rfl rfl rfl rfl id
  setR s i v hs := hs.congr (hs.coherent.setR i v) rfl rfl rfl rfl id
  setCc s cc hs := by
    refine hs.congr (hs.coherent.setCc cc) rfl ?_ rfl rfl id
    exact setCc_privileged _ _
  setDestRef s destRef hs :=
    hs.withMmu rfl rfl rfl rfl (hs.sound.congr rfl rfl rfl rfl rfl rfl rfl rfl rfl)
  autoincPending s r amount hs := hs.congr (hs.coherent.congr rfl rfl rfl rfl rfl) rfl rfl rfl rfl id
  autoincCommit s hs := hs.congr (hs.coherent.congr rfl rfl rfl rfl rfl) rfl rfl rfl rfl id
  instructionStart s hs := by
    have hsame : s.mmu.instructionStart.par=s.mmu.par ∧ s.mmu.instructionStart.pdr=s.mmu.pdr ∧
        s.mmu.instructionStart.mmr0=s.mmu.mmr0 := by
      unfold Kt11d.instructionStart
      split_ifs <;> exact ⟨rfl,rfl,rfl⟩
    exact hs.withMmu hsame.1 hsame.2.1 hsame.2.2 s.mmu.instructionStart_modes
      (Kt11d.sound_apply hs.sound .instructionStart)
  instructionFetched s ir pc hs := by
    have hsame : (s.mmu.instructionFetched pc).par=s.mmu.par ∧
        (s.mmu.instructionFetched pc).pdr=s.mmu.pdr ∧
        (s.mmu.instructionFetched pc).mmr0=s.mmu.mmr0 := by
      unfold Kt11d.instructionFetched
      split_ifs <;> exact ⟨rfl,rfl,rfl⟩
    have hin := hs.withMmu hsame.1 hsame.2.1 hsame.2.2 (s.mmu.instructionFetched_modes pc)
      (Kt11d.sound_apply hs.sound (.instructionFetched pc))
    exact hin.congr (hin.coherent.congr rfl rfl rfl rfl rfl) rfl rfl rfl rfl id
  logRegister s r amount hs := by
    have hsame : (s.mmu.logRegister r amount).par=s.mmu.par ∧
        (s.mmu.logRegister r amount).pdr=s.mmu.pdr ∧
        (s.mmu.logRegister r amount).mmr0=s.mmu.mmr0 := by
      simp only [Kt11d.logRegister]
      split_ifs <;> exact ⟨rfl,rfl,rfl⟩
    exact hs.withMmu hsame.1 hsame.2.1 hsame.2.2 (s.mmu.logRegister_modes r amount)
      (Kt11d.sound_apply hs.sound (.logRegister r amount))
  checkStack s ba hs := hs.congr (hs.coherent.congr rfl rfl rfl rfl rfl) rfl rfl rfl rfl id
  dati b := user_dati hu
  dato b := user_dato hu
  datiPrev := user_inPrevious hu (user_dati hu)
  datoPrev := user_inPrevious hu (user_dato hu)
  setStackpointer s v hne hs := by
    have hmode := hs.coherent.mode.trans (hs.user hu)
    have hprev := hs.coherent.prevMode.trans (hs.prevUser hu)
    rw [hs.coherent.prevSpace,hs.coherent.space,hmode,hprev] at hne
    exact absurd rfl hne
  mtps s hs := by
    apply user_setPsw hu hs
    simp only [State.mtpsPsw,hs.notKernel hu,Bool.false_eq_true,if_false]
    exact mtps_privileged _ _
  rti s b hs := by
    apply user_setPsw hu hs
    simp only [State.rtiPsw,hs.notKernel hu,Bool.false_eq_true,if_false]
    exact rti_privileged _ _
  resetOpcode s hs := by
    rw [State.resetOpcode,if_neg (by simp [hs.notKernel hu])]
    exact hs
  halt s hk hs := by
    rw [hs.notKernel hu] at hk
    cases hk
  wait s hs := hs.congr (hs.coherent.congr rfl rfl rfl rfl rfl) rfl rfl rfl rfl (by simp)

end

/-- What a run that begins in `s0` comes to before it enters kernel mode: it ends where a trap or an
interrupt begins. -/
inductive UserRun (bus : Bus) (s0 : State) : Todo → Prop
  | start : UserRun bus s0 (none,s0)
  | setintr {s : State} (h : UserRun bus s0 (none,s)) (vec : Word) :
      UserRun bus s0 (none,setintr s vec)
  | pwrfailTrap {s : State} (h : UserRun bus s0 (none,s)) : UserRun bus s0 (none,pwrfailTrap s)
  | condstep {s : State} (h : UserRun bus s0 (none,s)) (hw : s.wakes=true) :
      UserRun bus s0 (begin_ bus { s with state := .running })
  | jump {label : Label} {loc : Locals} {s : State} (h : UserRun bus s0 (some (label,loc),s))
      (hl : ∀ v,label≠.trap v) : UserRun bus s0 (next bus (label,loc) s)

/-- Nothing of the kernel's has changed, MMR0<15:13> by an abort only, and only a double bus error
halts. -/
def Kernelless (s0 : State) (a : Todo) : Prop :=
  Confined s0 a.2 ∧ (NoAbort s0 a.2 ∨ a.2.trapVector=abortVector ∧
      (a.2.state=.halted ∨ ∃ loc,a.1=some (.be,loc) ∨ a.1=some (.trap abortVector,loc))) ∧
    (a.2.state=.halted → s0.state=.halted ∨ 1<a.2.be)

/-- A state the processor has halted in by a double bus error. -/
structure DoubleError (s0 s : State) : Prop extends Confined s0 s where
  noAbort : NoAbort s0 s ∨ s.trapVector=abortVector
  halted : s.state=.halted
  be : 1<s.be

def UserAt (s0 : State) (a : Todo) : Prop :=
  match a.1 with
  | some (.be,_) => Failed s0 a.2
  | some (.trap v,_) => Failed s0 a.2 ∧
      (NoAbort s0 a.2 ∨ a.2.trapVector=abortVector ∧ v=abortVector)
  | some (.service,_) => InUser s0 a.2
  | none => InUser s0 a.2 ∨ DoubleError s0 a.2

section
variable {s0 s : State}

theorem Failed.setCc (h : Failed s0 s) (cc : Cc) : Failed s0 (s.setCc cc) :=
  ⟨h.toConfined.congr h.mmu (setCc_privileged _ _) rfl rfl,Settled.setCc h.coherent cc,h.noAbort,
    h.halted⟩

theorem userAt_begin (bus : Bus) (hu : UserStart s0) (h : InUser s0 s) : UserAt s0 (begin_ bus s) := by
  have hstable : Stable bus (InUser s0) (Failed s0) := user_stable hu
  have hinstr := hstable.instruction s.psw s h
  have htrap (u : State) (hs : InUser s0 u) (v : Word) (loc : Locals) :
      UserAt s0 (some (.trap v,loc),u) := ⟨hs.failed,.inl hs.noAbort⟩
  have hintr : InUser s0 { s with externalIntr := false,state := .running } :=
    h.congr (h.coherent.congr rfl rfl rfl rfl rfl) rfl rfl rfl rfl (by simp)
  by_cases hi : s.externalIntr=true
  · simp only [begin_,hi,if_true]
    exact htrap _ hintr _ _
  · simp only [begin_,hi]
    rcases ht : instruction bus s.psw s with ⟨goto,t⟩
    cases goto with
    | none => exact hinstr.2 t ht
    | some goto =>
      have hin := hinstr.1 _ t ht
      cases goto with
      | service oldpsw => exact hin
      | trap v => exact htrap t hin v _
      | done => exact .inl hin

theorem userAt_be (h : Failed s0 s) (loc : Locals) : UserAt s0 (atBe loc s) := by
  unfold atBe
  by_cases hbe : 1<s.be
  · rw [if_pos hbe]
    exact .inr ⟨h.toConfined.congr h.mmu rfl rfl rfl,h.noAbort,rfl,hbe⟩
  · rw [if_neg hbe]
    have hcc : Failed s0 (if loc.inTrap then s else s.restoreCc loc.oldpsw) := by
      split_ifs
      · exact h
      · exact h.setCc _
    have hvec : (if loc.inTrap then s else s.restoreCc loc.oldpsw).trapVector=s.trapVector := by
      split_ifs <;> rfl
    refine ⟨hcc,?_⟩
    obtain hn | hv := hcc.noAbort
    · exact .inl hn
    · exact .inr ⟨hv,hv⟩

theorem userAt_service (h : InUser s0 s) (loc : Locals) : UserAt s0 (atService loc s) := by
  have htrap (u : State) (hs : InUser s0 u) (v : Word) (loc : Locals) :
      UserAt s0 (some (.trap v,loc),u) := ⟨hs.failed,.inl hs.noAbort⟩
  have hstack : InUser s0 { s with trapStack := false } :=
    h.congr (h.coherent.congr rfl rfl rfl rfl rfl) rfl rfl rfl rfl id
  have hpwr : InUser s0 { s with trapPwr := false } :=
    h.congr (h.coherent.congr rfl rfl rfl rfl rfl) rfl rfl rfl rfl id
  unfold atService
  split_ifs
  · exact htrap s h _ _
  · exact htrap _ hstack _ _
  · exact htrap _ hpwr _ _
  · exact .inl h

theorem userAt_run (bus : Bus) (hu : UserStart s0) (hc : Coherent s0) (hs : s0.MmuSound) {a : Todo}
    (h : UserRun bus s0 a) : UserAt s0 a := by
  induction h with
  | start =>
    have hkept : s0.mmu.Kept s0.mmu := ⟨rfl,fun _ _ => rfl,fun _ => .inl rfl,rfl⟩
    exact .inl ⟨⟨rfl,hkept,rfl,fun _ _ _ => rfl,rfl⟩,hc,hs,rfl,id⟩
  | setintr _ vec ih =>
    obtain h | h := ih
    · exact .inl (h.congr (h.coherent.congr rfl rfl rfl rfl rfl) rfl rfl rfl rfl id)
    · exact .inr ⟨h.toConfined.congr h.mmu rfl rfl rfl,h.noAbort,h.halted,h.be⟩
  | pwrfailTrap _ ih =>
    obtain h | h := ih
    · exact .inl (h.congr (h.coherent.congr rfl rfl rfl rfl rfl) rfl rfl rfl rfl id)
    · exact .inr ⟨h.toConfined.congr h.mmu rfl rfl rfl,h.noAbort,h.halted,h.be⟩
  | condstep _ hw ih =>
    obtain h | h := ih
    · exact userAt_begin bus hu
        (h.congr (h.coherent.congr rfl rfl rfl rfl rfl) rfl rfl rfl rfl (by simp))
    · have hhalted := h.halted
      simp only [] at hhalted
      simp [State.wakes,hhalted] at hw
  | @jump label loc s _ hl ih =>
    cases label with
    | be => exact userAt_be ih loc
    | trap v => exact absurd rfl (hl v)
    | service => exact userAt_service ih loc

theorem UserAt.kernelless {a : Todo} (h : UserAt s0 a) : Kernelless s0 a := by
  rcases a with ⟨_ | ⟨label,loc⟩,s⟩
  · obtain h | h := h
    · exact ⟨h.toConfined,.inl h.noAbort,fun hs => .inl (h.halted hs)⟩
    · refine ⟨h.toConfined,?_,fun _ => .inr h.be⟩
      exact h.noAbort.imp_right fun hv => ⟨hv,.inl h.halted⟩
  · cases label with
    | be =>
      refine ⟨h.toConfined,?_,fun hs => .inl (h.halted hs)⟩
      exact h.noAbort.imp_right fun hv => ⟨hv,.inr ⟨loc,.inl rfl⟩⟩
    | trap v =>
      refine ⟨h.1.toConfined,?_,fun hs => .inl (h.1.halted hs)⟩
      refine h.2.imp_right ?_
      rintro ⟨hvec,rfl⟩
      exact ⟨hvec,.inr ⟨loc,.inr rfl⟩⟩
    | service => exact ⟨h.toConfined,.inl h.noAbort,fun hs => .inl (h.halted hs)⟩

end

/-- A user program, until it enters kernel mode: from a state the processor can come to, in which the
access is that of its mode. -/
theorem userRun_kernelless (bus : Bus) (as : List Act) (s0 : State) (a : Todo)
    (hrun : Run (Acts bus) State.zeroed as s0) (hu : UserStart s0) (hc : Coherent s0)
    (h : UserRun bus s0 a) : Kernelless s0 a :=
  (userAt_run bus hu hc (mmuSound_run bus hrun) h).kernelless

theorem noIo_of_par {m : Kt11d} (h : ∀ i,(m.par i).toNat<0o7400) : NoIo m := by
  intro va _ _
  have hpar := h (pageIndex .user va)
  unfold relocated
  omega

/-- A user program begins in `s`, checked by computing; `own` asks for the access of its mode. -/
def startsUser (own : Bool) (s : State) : Bool :=
  pswMode s.psw=modeUser && pswPrevMode s.psw=modeUser && s.mmu.mmr0 &&& mmr0Enable≠0 &&
    (∀ i,(s.mmu.par i).toNat<0o7400) && s.wakes &&
    (!own || s.mmu.mode=modeUser && s.mmu.prevMode=modeUser && s.mmu.space=.user &&
      s.mmu.prevSpace=.user && s.mmu.accessSpace=.user && s.mmu.accessMode=modeUser &&
      s.psw &&& pswMask=s.psw && s.r rSP=s.sps .user && s.stackpointer .kernel=s.sps .kernel)

theorem startsUser_start {own : Bool} (h : startsUser own s) : UserStart s ∧ s.wakes=true := by
  simp only [startsUser,Bool.and_eq_true,decide_eq_true_eq] at h
  obtain ⟨⟨⟨⟨⟨hmode,hprev⟩,he⟩,hpar⟩,hw⟩,-⟩ := h
  exact ⟨⟨hmode,hprev,he,noIo_of_par hpar⟩,hw⟩

theorem startsUser_coherent (h : startsUser true s) : Coherent s := by
  have hu := (startsUser_start h).1
  simp only [startsUser,Bool.and_eq_true,decide_eq_true_eq,Bool.not_true,Bool.false_or] at h
  obtain ⟨-,⟨⟨⟨⟨⟨⟨⟨⟨hm,hpm⟩,hs⟩,hps⟩,ha⟩,ham⟩,hpsw⟩,hsp⟩,hk⟩⟩ := h
  have huser : pswSp s.psw=.user := by
    rw [pswSp,hu.mode]
    rfl
  refine ⟨hm.trans hu.mode.symm,hpm.trans hu.prevMode.symm,?_,?_,?_,?_,hpsw,?_,?_⟩
  · rw [hs,hm]
    rfl
  · rw [hps,hpm]
    rfl
  · intro _
    rw [ha,hs]
  · intro _
    rw [ham,hm]
  · rw [huser,hsp]
  · intro sp hne
    rw [huser] at hne
    cases sp with
    | kernel => exact hk
    | user => exact absurd rfl hne

def userActs : List Act :=
  [.powerReset,.setPc 0o021000,.setState .running]++List.replicate 7 .condstep

/-- Its user program comes to a TRAP with all of the kernel's as it was. -/
theorem userRun_kernelless_trap : ∃ s0 a,UserRun strandBus s0 a ∧ a.1≠none ∧ Kernelless s0 a := by
  have hp : (userActs.foldlM (fun s a => if True then perform strandBus 10 s a else none)
      State.zeroed).any fun s => startsUser true s &&
        (begin_ strandBus { s with state := .running }).1.isSome := by
    decide +kernel
  obtain ⟨s0,hrun,hs⟩ := run_of_foldlM (fun _ _ => True) (perform strandBus 10)
    (fun s => startsUser true s && (begin_ strandBus { s with state := .running }).1.isSome) userActs
    State.zeroed hp
  rw [Bool.and_eq_true] at hs
  obtain ⟨hu,hw⟩ := startsUser_start hs.1
  have huser : UserRun strandBus s0 (begin_ strandBus { s0 with state := .running }) :=
    .condstep .start hw
  exact ⟨s0,_,huser,Option.isSome_iff_ne_none.mp hs.2,userRun_kernelless strandBus userActs s0 _
    (hrun.mono fun _ _ _ ha => perform_acts ha.2) hu (startsUser_coherent hs.1) huser⟩

def strandedActs : List Act := strandActs++[Act.setState .running]

/-- The next instruction stores at 020000, where user mode may not, and all its pages are read-only. -/
def storesStranded (s : State) : Bool :=
  startsUser false s && (∀ i : BitVec 4,8 ≤ i.toNat → acfForbids (s.mmu.pdr i) .write) &&
    memory (fun _ => 0) (begin_ strandBus { s with state := .running }).2.log 0o020000 ≠
      memory (fun _ => 0) s.log 0o020000

/-- A processor stranded with kernel access and then continued executes the INC of its user program in
kernel space. -/
theorem stranded_user_writes : ∃ s0 a,Run (Acts strandBus) State.zeroed strandedActs s0 ∧
    UserStart s0 ∧ UserRun strandBus s0 a ∧ ¬Kernelless s0 a := by
  have hp : (strandedActs.foldlM (fun s a => if True then perform strandBus 10 s a else none)
      State.zeroed).any storesStranded := by
    decide +kernel
  obtain ⟨s0,hrun,hs⟩ := run_of_foldlM (fun _ _ => True) (perform strandBus 10) storesStranded
    strandedActs State.zeroed hp
  simp only [storesStranded,Bool.and_eq_true,decide_eq_true_eq] at hs
  obtain ⟨⟨hstart,hacf⟩,hmem⟩ := hs
  obtain ⟨hu,hw⟩ := startsUser_start hstart
  refine ⟨s0,_,hrun.mono fun _ _ _ ha => perform_acts ha.2,hu,.condstep .start hw,?_⟩
  intro hk
  apply hmem
  apply hk.1.memory
  rintro ⟨va,hva,-,-⟩
  exact hva (hacf _ (Kt11d.pageIndex_user va))

end QUniLator.Cpu34
