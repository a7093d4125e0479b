import QUniLator.Cpu34.Step

/-! What the parts of an instruction keep, every instruction keeps. -/

namespace QUniLator.Cpu34

open Attempt

/-- `I` survives everything an instruction is made of, where no reference fails. One that does ends in
`E`. -/
structure Stable (bus : Bus) (I E : State → Prop) : Prop where
  ba : ∀ s v,I s → I { s with ba := v }
  bdata : ∀ s v,I s → I { s with bdata := v }
  setR : ∀ s i v,I s → I (s.setR i v)
  setCc : ∀ s cc,I s → I (s.setCc cc)
  setDestRef : ∀ s destRef,I s → I (s.setDestRef destRef)
  autoincPending : ∀ s r amount,I s → I (s.autoincPending r amount)
  autoincCommit : ∀ s,I s → I s.autoincCommit
  instructionStart : ∀ s,I s → I { s with mmu := s.mmu.instructionStart }
  instructionFetched : ∀ s ir pc,I s → I { s with ir := ir,mmu := s.mmu.instructionFetched pc }
  logRegister : ∀ s r amount,I s → I { s with mmu := s.mmu.logRegister r amount }
  checkStack : ∀ s ba,I s → I (s.checkStack ba)
  dati : ∀ b,KeepsOr I E (dati bus b)
  dato : ∀ b,KeepsOr I E (dato bus b)
  datiPrev : KeepsOr I E (inPrevious (Cpu34.dati bus false))
  datoPrev : KeepsOr I E (inPrevious (Cpu34.dato bus false))
  setStackpointer : ∀ s v,s.mmu.prevSpace≠s.mmu.space → I s →
    I (s.setStackpointer s.mmu.prevSpace v)
  mtps : ∀ s,I s → I (s.setPsw s.mtpsPsw)
  rti : ∀ s b,I s → I (s.setPsw (s.rtiPsw b))
  resetOpcode : ∀ s,I s → I s.resetOpcode
  halt : ∀ s,s.isKernel=true → I s → I { s with state := .halted }
  wait : ∀ s,I s → I { s with state := .waiting }

namespace Stable
variable {bus : Bus} {I E : State → Prop} (h : Stable bus I E)
include h

theorem addrInc (r : BitVec 4) (ai : Word) : KeepsOr I E (addrInc r ai) := by
  refine keeps_then (fun s hs => h.ba s _ hs) ?_
  refine keeps_then (fun s hs => h.autoincPending _ _ _ (h.setR s _ _ hs)) ?_
  exact keeps_change _ fun s hs => h.logRegister s _ _ hs

theorem addrDec (r : BitVec 4) (ai : Word) : KeepsOr I E (addrDec r ai) := by
  refine keeps_then (fun s hs => h.ba s _ hs) ?_
  apply keeps_bind (keeps_doIf fun _ => keeps_change _ fun s hs => h.checkStack s _ hs)
  intro _
  refine keeps_then (fun s hs => h.setR s _ _ hs) ?_
  exact keeps_change _ fun s hs => h.logRegister s _ _ hs

theorem addrIndex (r : BitVec 4) : KeepsOr I E (addrIndex bus r) := by
  refine keeps_then (fun s hs => h.ba s _ hs) ?_
  refine keeps_then (fun s hs => h.setR s _ _ hs) ?_
  apply keeps_bind (h.dati false)
  intro _
  exact keeps_change _ fun s hs => h.ba s _ hs

theorem addrMode (m : Field) (b : Bool) : KeepsOr I E (addrMode bus m b) := by
  apply keeps_ite
  · intro _
    exact keeps_change _ fun s hs => h.ba s _ hs
  · intro _
    have hbase : KeepsOr I E (addrBase bus m b) := keeps_ite (fun _ => h.addrInc _ _)
        (fun _ => keeps_ite (fun _ => h.addrDec _ _) (fun _ => h.addrIndex _))
    have hdeferred : KeepsOr I E (addrDeferred bus) :=
      keeps_bind (h.dati false) fun _ => keeps_change _ fun s hs => h.ba s _ hs
    exact keeps_bind hbase fun _ => keeps_doIf fun _ => hdeferred

theorem addrop (m : Field) (b : Bool) : KeepsOr I E (addrop bus m b) := by
  refine keeps_then (fun s hs => h.autoincCommit s hs) ?_
  apply keeps_bind keeps_read
  intro _
  refine keeps_then (fun s hs => h.setDestRef s _ hs) ?_
  apply keeps_bind (h.addrMode m b)
  intro _
  exact keeps_change _ fun s hs => h.setDestRef s _ hs

theorem fetchop (t : BitVec 4) (m : Field) (b : Bool) : KeepsOr I E (fetchop bus t m b) := by
  have hodd (s : State) (hs : I s) : I (s.oddByte b t) := by
    unfold State.oddByte
    split_ifs
    · exact h.setR s _ _ hs
    · exact hs
  have hword : KeepsOr I E (fetchWord bus t m b) := by
    apply keeps_ite
    · intro _
      exact keeps_change _ fun s hs => h.setR s _ _ hs
    · intro _
      exact keeps_bind (h.dati b) fun _ => keeps_change _ fun s hs => hodd _ (h.setR s _ _ hs)
  exact keeps_bind hword fun _ => keeps_doIf fun _ => keeps_change _ fun s hs => h.setR s _ _ hs

theorem rd (t : BitVec 4) (m : Field) (b : Bool) : KeepsOr I E (rd bus t m b) := by
  apply keeps_ite
  · intro _
    exact h.fetchop t m b
  · intro _
    refine keeps_then (fun s hs => h.setDestRef s _ hs) ?_
    exact keeps_bind (h.addrop m b) fun _ => h.fetchop t m b

theorem rdU (dst : Field) (b : Bool) : KeepsOr I E (rdU bus dst b) :=
  keeps_bind (h.rd _ _ _) fun _ => keeps_change _ fun s hs => h.setR s _ _ hs

theorem addrdest (m : Field) (b : Bool) : KeepsOr I E (addrdest bus m b) :=
  keeps_bind (keeps_change _ fun s hs => h.setDestRef s _ hs) fun _ => h.addrop m b

theorem writedest (dst : Field) (v : Word) (b : Bool) : KeepsOr I E (writedest bus dst v b) := by
  refine keeps_then (fun s hs => h.setDestRef s _ hs) ?_
  apply keeps_ite
  · intro _
    exact keeps_change _ fun s hs => h.setR s _ _ hs
  · intro _
    exact keeps_bind (keeps_change _ fun s hs => h.bdata s _ hs) fun _ => h.dato b

theorem writeWhole (dst : Field) (v : Word) (b : Bool) : KeepsOr I E (writeWhole bus dst v b) :=
  keeps_ite (fun _ => keeps_change _ fun s hs => h.setR s _ _ hs) (fun _ => h.writedest dst v b)

theorem push (s : State) (inhov : Bool) (hs : I s) : I (s.push inhov) := by
  have hp := h.setDestRef _ false (h.setR s rSP (s.r rSP-2) hs)
  unfold State.push
  cases inhov with
  | true => exact hp
  | false => exact h.checkStack _ _ hp

theorem pushOut (inhov : Bool) (w : State → Word) : KeepsOr I E (pushOut bus inhov w) := by
  refine keeps_then (fun s hs => h.push s inhov hs) ?_
  have hout (s : State) (hs : I s) : I { s with ba := s.r rSP,bdata := w s } :=
    h.bdata _ (w s) (h.ba s (s.r rSP) hs)
  exact keeps_bind (keeps_change _ hout) fun _ => h.dato false

theorem pop (s : State) (hs : I s) : I s.pop :=
  h.autoincPending _ _ _ (h.setR _ _ _ (h.ba s _ hs))

theorem popIn : KeepsOr I E (popIn bus) :=
  keeps_bind (keeps_change _ fun s hs => h.pop s hs) fun _ => h.dati false

theorem double (ir : Word) (b : Bool) (op : Double) (writes : Writes) : KeepsOr I E (double bus ir b op writes) := by
  apply keeps_bind (keeps_bind (h.rd _ _ _) fun _ => h.rd _ _ _)
  intro _
  apply keeps_bind keeps_read
  intro s
  refine keeps_then (fun s hs => h.setCc s _ hs) ?_
  cases writes with
  | result => exact h.writedest _ _ _
  | nothing => exact keeps_pure _
  | whole => exact h.writeWhole _ _ _

theorem single (ir : Word) (b : Bool) (op : Single) (writes : Writes) : KeepsOr I E (single bus ir b op writes) := by
  apply keeps_bind (h.rdU _ _)
  intro _
  apply keeps_bind keeps_read
  intro s
  refine keeps_then (fun s hs => h.setCc s _ hs) ?_
  cases writes with
  | result => exact h.writedest _ _ _
  | nothing => exact keeps_pure _
  | whole => exact h.writeWhole _ _ _

theorem eis (ir : Word) (op : State → BitVec 4 → State) (hop : ∀ s reg,I s → I (op s reg)) :
    KeepsOr I E (eis bus ir op) :=
  keeps_bind (h.rdU _ _) fun _ => keeps_change _ fun s hs => hop s _ hs

theorem mul (s : State) (reg : BitVec 4) (hs : I s) : I (s.mul reg) := by
  unfold State.mul
  split_ifs
  · exact h.setR _ _ _ (h.setCc s _ hs)
  · exact h.setR _ _ _ (h.setR _ _ _ (h.setCc s _ hs))

theorem div (s : State) (reg : BitVec 4) (hs : I s) : I (s.div reg) := by
  have hcc := h.setCc s (eisDiv (pair s.r reg) (s.r rDR)).2 hs
  cases hr : (eisDiv (pair s.r reg) (s.r rDR)).1 with
  | none =>
    simp only [State.div,hr]
    exact hcc
  | some result =>
    simp only [State.div,hr]
    exact h.setR _ _ _ (h.setR _ _ _ hcc)

theorem ash (s : State) (reg : BitVec 4) (hs : I s) : I (s.ash reg) :=
  h.setR _ _ _ (h.setCc s _ hs)

theorem ashc (s : State) (reg : BitVec 4) (hs : I s) : I (s.ashc reg) := by
  unfold State.ashc
  split_ifs
  · exact h.setR _ _ _ (h.setCc s _ hs)
  · exact h.setR _ _ _ (h.setR _ _ _ (h.setCc s _ hs))

theorem xor (ir : Word) : KeepsOr I E (xor bus ir) := by
  apply keeps_bind (h.rdU _ _)
  intro _
  apply keeps_bind keeps_read
  intro s
  refine keeps_then (fun s hs => h.setCc s _ hs) ?_
  exact h.writedest _ _ _

theorem sob (s : State) (ir : Word) (hs : I s) : I (s.sob ir) := by
  simp only [State.sob]
  split_ifs
  · exact h.setR s _ _ hs
  · exact h.setR _ _ _ (h.setR s _ _ hs)

theorem mark (ir : Word) : KeepsOr I E (mark bus ir) := by
  refine keeps_then (fun s hs => h.setR s _ _ hs) ?_
  refine keeps_then (fun s hs => h.setR s _ _ hs) ?_
  apply keeps_bind h.popIn
  intro _
  exact keeps_change _ fun s hs => h.setR s _ _ hs

theorem mtpsPsw (ir : Word) : KeepsOr I E (Cpu34.mtps bus ir) :=
  keeps_bind (h.rdU _ _) fun _ => keeps_change _ fun s hs => h.mtps s hs

theorem readPrevious (dst : Field) : KeepsOr I E (readPrevious bus dst) := by
  apply keeps_ite
  · intro _
    exact keeps_bind keeps_read fun _ => keeps_pure _
  · intro _
    apply keeps_bind (h.addrdest _ _)
    intro _
    apply keeps_bind h.datiPrev
    intro _
    exact keeps_bind keeps_read fun _ => keeps_pure _

theorem setPrevR (s : State) (r : BitVec 4) (v : Word) (hs : I s) : I (s.setPrevR r v) := by
  unfold State.setPrevR
  split_ifs with ho
  · simp only [State.otherSp,Bool.and_eq_true,decide_eq_true_eq] at ho
    exact h.setStackpointer s v ho.2 hs
  · exact h.setR s r v hs

theorem writePrevious (dst : Field) (b : Word) : KeepsOr I E (writePrevious bus dst b) := by
  apply keeps_ite
  · intro _
    exact keeps_change _ fun s hs => h.setPrevR s _ _ hs
  · intro _
    apply keeps_bind (h.addrdest _ _)
    intro _
    refine keeps_then (fun s hs => h.bdata s _ hs) ?_
    exact h.datoPrev

theorem mfpi (ir : Word) : KeepsOr I E (mfpi bus ir) := by
  apply keeps_bind (h.readPrevious _)
  intro b
  refine keeps_then (fun s hs => h.setCc s _ hs) ?_
  exact h.pushOut _ _

theorem mtpi (ir : Word) : KeepsOr I E (mtpi bus ir) := by
  apply keeps_bind h.popIn
  intro _
  apply keeps_bind (keeps_bind keeps_read fun _ => keeps_pure _)
  intro b
  refine keeps_then (fun s hs => h.setCc s _ hs) ?_
  exact h.writePrevious _ _

theorem fromPsw (ir : Word) (b : Bool) (v : Word → Word) : KeepsOr I E (fromPsw bus ir b v) := by
  apply keeps_bind (keeps_doIf fun _ => h.addrdest _ _)
  intro _
  apply keeps_bind (keeps_bind keeps_read fun _ => keeps_pure _)
  intro w
  refine keeps_then (fun s hs => h.setCc s _ hs) ?_
  exact h.writeWhole _ _ _

theorem jsr (ir : Word) : KeepsOr I E (jsr bus ir) := by
  apply keeps_bind (h.addrdest _ _)
  intro _
  refine keeps_then (fun s hs => h.setR s _ _ hs) ?_
  apply keeps_bind (h.pushOut _ _)
  intro _
  exact keeps_change _ fun s hs => h.setR _ _ _ (h.setR s _ _ hs)

theorem jmp (ir : Word) : KeepsOr I E (jmp bus ir) :=
  keeps_bind (h.addrdest _ _) fun _ => keeps_change _ fun s hs => h.setR s _ _ hs

theorem rts (ir : Word) : KeepsOr I E (rts bus ir) := by
  refine keeps_then (fun s hs => h.pop s hs) ?_
  refine keeps_then (fun s hs => h.setR s _ _ hs) ?_
  apply keeps_bind (h.dati false)
  intro _
  exact keeps_change _ fun s hs => h.setR s _ _ hs

theorem branch (s : State) (ir c : Word) (hs : I s) : I (s.branch ir c) := by
  unfold State.branch
  split_ifs
  · exact h.setR s _ _ hs
  · exact hs

theorem popPc : KeepsOr I E (popPc bus) :=
  keeps_bind h.popIn fun _ => keeps_change _ fun s hs => h.setR s _ _ hs

theorem rtiGoto (ir oldpsw : Word) : KeepsOr I E (Cpu34.rti bus ir oldpsw) := by
  apply keeps_bind h.popPc
  intro _
  apply keeps_bind h.popIn
  intro _
  apply keeps_read_bind
  intro s hs
  have hload : Spec (fun t => t=s) (change fun t : State => t.setPsw (s.rtiPsw s.bdata))
      (fun _ => I) E := by
    apply spec_change
    rintro t rfl
    exact h.rti t _ hs
  exact spec_bind hload (fun _ => keeps_pure _) s rfl

theorem haltGoto : KeepsOr I E Cpu34.halt := by
  apply keeps_read_bind
  intro s hs
  by_cases hk : s.isKernel=true
  · rw [if_pos hk]
    have hhalt : Spec (fun t => t=s) (change fun t : State => { t with state := .halted })
        (fun _ => I) E := by
      apply spec_change
      rintro t rfl
      exact h.halt t hk hs
    exact spec_bind hhalt (fun _ => keeps_pure _) s rfl
  · rw [if_neg hk]
    exact (keeps_pure reservedInstruction : KeepsOr I E _) s hs

theorem waitGoto : KeepsOr I E Cpu34.wait :=
  keeps_bind (keeps_change _ fun s hs => h.wait s hs) fun _ => keeps_pure _

omit h in
theorem served {m : M Unit} (oldpsw : Word) (hm : KeepsOr I E m) : KeepsOr I E (Cpu34.served oldpsw m) :=
  keeps_bind hm fun _ => keeps_pure _

section
variable (oldpsw ir : Word) {rest : M Goto} (hrest : KeepsOr I E rest)
include hrest

theorem doubleGroup : KeepsOr I E (doubleGroup bus oldpsw ir rest) := by
  simp only [Cpu34.doubleGroup]
  split_ifs
  all_goals first | exact hrest | exact keeps_pure _ | exact served _ (h.double _ _ _ _)

theorem extendedGroup : KeepsOr I E (extendedGroup bus oldpsw ir rest) := by
  simp only [Cpu34.extendedGroup]
  split_ifs
  · exact served _ (h.eis ir _ h.mul)
  · exact served _ (h.eis ir _ h.div)
  · exact served _ (h.eis ir _ h.ash)
  · exact served _ (h.eis ir _ h.ashc)
  · exact served _ (h.xor ir)
  · exact served _ (keeps_change _ fun s hs => h.sob s ir hs)
  · exact keeps_pure _
  · exact hrest

theorem singleGroup : KeepsOr I E (singleGroup bus oldpsw ir rest) := by
  have hop (op : Single) (writes : Writes) := served oldpsw (h.single ir (ir.getLsbD 15) op writes)
  simp only [Cpu34.singleGroup]
  iterate 12 refine keeps_ite (fun _ => hop _ _) fun _ => ?_
  exact hrest

theorem modeGroup : KeepsOr I E (modeGroup bus oldpsw ir rest) := by
  simp only [Cpu34.modeGroup]
  split_ifs
  · exact served _ (h.mtpsPsw ir)
  · exact served _ (h.mark ir)
  · exact served _ (h.mfpi ir)
  · exact served _ (h.mtpi ir)
  · exact served _ (h.fromPsw _ _ _)
  · exact served _ (h.fromPsw _ _ _)
  · exact hrest

theorem callGroup : KeepsOr I E (callGroup bus oldpsw ir rest) := by
  simp only [Cpu34.callGroup]
  split_ifs
  all_goals first | exact hrest | exact keeps_pure _ | exact served _ (h.jsr ir)

theorem branchGroup : KeepsOr I E (branchGroup oldpsw ir rest) := by
  simp only [Cpu34.branchGroup]
  split_ifs
  · exact served _ (keeps_change _ fun s hs => h.branch s _ _ hs)
  · exact hrest

theorem miscGroup : KeepsOr I E (miscGroup bus oldpsw ir rest) := by
  simp only [Cpu34.miscGroup]
  split_ifs
  · exact keeps_pure _
  · exact served _ (h.jmp ir)
  · exact served _ (h.rts ir)
  · exact served _ (keeps_change _ fun s hs => h.setCc s _ hs)
  · exact served _ (keeps_change _ fun s hs => h.setCc s _ hs)
  · exact keeps_pure _
  · exact served _ (h.single _ _ _ _)
  · exact hrest

end

theorem operateGroup (oldpsw ir : Word) : KeepsOr I E (operateGroup bus oldpsw ir) := by
  simp only [Cpu34.operateGroup]
  split_ifs
  · exact h.haltGoto
  · exact h.waitGoto
  · exact h.rtiGoto ir oldpsw
  · exact keeps_pure _
  · exact keeps_pure _
  · exact served _ (keeps_change _ fun s hs => h.resetOpcode s hs)
  · exact keeps_pure _

theorem execute (oldpsw ir : Word) : KeepsOr I E (execute bus oldpsw ir) := by
  apply h.doubleGroup
  apply h.extendedGroup
  apply h.singleGroup
  apply h.modeGroup
  apply h.callGroup
  apply h.branchGroup
  apply h.miscGroup
  exact h.operateGroup oldpsw ir

theorem fetch : KeepsOr I E (fetch bus) := by
  refine keeps_then (fun s hs => h.instructionStart s hs) ?_
  refine keeps_then (fun s hs => h.autoincCommit _ (h.setDestRef s _ hs)) ?_
  refine keeps_then (fun s hs => h.ba s _ hs) ?_
  apply keeps_bind (h.dati false)
  intro _
  refine keeps_then (fun s hs => h.instructionFetched s _ _ hs) ?_
  exact keeps_change _ fun s hs => h.setR s _ _ hs

theorem instruction (oldpsw : Word) : KeepsOr I E (instruction bus oldpsw) := by
  apply keeps_bind h.fetch
  intro _
  apply keeps_bind (keeps_bind keeps_read fun _ => keeps_pure _)
  intro ir
  exact h.execute oldpsw ir

end Stable

end QUniLator.Cpu34
