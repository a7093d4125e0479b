import Mathlib.Data.BitVec
import Mathlib.Tactic.IntervalCases
import QUniLator.Framework.Run

namespace QUniLator.Ethernet

abbrev Word := BitVec 16

/-! The bits of CSR -/

def csrRi : Word := 0x8000

def csrCa : Word := 0x2000

def csrOk : Word := 0x1000

def csrXi : Word := 0x0080

def csrIe : Word := 0x0040

def csrRl : Word := 0x0020

def csrXl : Word := 0x0010

def csrNi : Word := 0x0004

def csrSr : Word := 0x0002

def csrRwMask : Word := 0x074b

def csrW1Mask : Word := csrRi ||| csrXi

def csrXiri : Word := csrRi ||| csrXi

/-! The bits of VAR -/

def varMs : Word := 0x8000

def varOs : Word := 0x4000

def varRs : Word := 0x2000

def varSt : Word := 0x1c00

def varIv : Word := 0x03fc

def varId : Word := 0x0001

def varRwMask : Word := varMs ||| varRs ||| varIv ||| varId

/-- What the adapter has of the request: it waits in the tables, with the vector of the request object, or the PRU has
it, with the one it was given. -/
inductive Slot
  | free
  | waiting
  | onPru (vector : Word)
  deriving DecidableEq,Repr

/-- `delqa_c`, what its interrupt depends on. `vector` is the one of `intr_request`; `granted` tells that
the request raised last has been granted, and none was cancelled since. -/
structure Delqa where
  csr : Word
  var : Word
  deqnaLock : Bool
  deqnaMode : Bool
  interruptAsserted : Bool
  vector : Word
  slot : Slot
  granted : Bool

namespace Delqa

/-- `INTR()`. A request that is pending is not raised again. `busy` tells that the PRU has another
request of the level. -/
def intr (busy : Bool) (s : Delqa) : Delqa :=
  if s.slot=.free then
    { s with slot := if busy then .waiting else .onPru s.vector,granted := false }
  else s

def cancelIntr (s : Delqa) : Delqa := { s with slot := .free,granted := false }

def setInterrupt (busy : Bool) (s : Delqa) : Delqa :=
  if s.var &&& varIv=0 then s else ({ s with interruptAsserted := true } : Delqa).intr busy

def clearInterrupt (s : Delqa) : Delqa :=
  ({ s with interruptAsserted := false } : Delqa).cancelIntr

/-- The level of the interrupt, as `update_csr` has it -/
def wantIntr (s : Delqa) : Bool :=
  s.csr &&& csrIe≠0 && s.csr &&& csrXiri≠0 && s.var &&& varIv≠0

def present (busy : Bool) (s : Delqa) : Delqa :=
  if s.wantIntr && !s.interruptAsserted then s.setInterrupt busy
  else if s.wantIntr && s.interruptAsserted then s.intr busy
  else if !s.wantIntr && s.interruptAsserted then s.clearInterrupt
  else s

def updateCsr (setBits clearBits : Word) (busy : Bool) (s : Delqa) : Delqa :=
  ({ s with csr := (s.csr ||| setBits) &&& ~~~clearBits } : Delqa).present busy

def softwareReset (busy : Bool) (s : Delqa) : Delqa :=
  ((s.updateCsr (csrXl ||| csrRl) (~~~(csrXl ||| csrRl)) busy).updateCsr csrOk csrCa
    busy).clearInterrupt

def powerOnReset (busy : Bool) (s : Delqa) : Delqa :=
  ({ s with
    deqnaMode := s.deqnaLock,var := if s.deqnaLock then 0 else varMs,vector := 0 } :
      Delqa).softwareReset busy

def normalVar (data : Word) (s : Delqa) : Word × Bool :=
  let var := data &&& varRwMask
  let moved := (s.var ^^^ var) &&& varMs≠0
  let toDeqna := ~~~var &&& varMs≠0
  let mode := if moved then toDeqna else s.deqnaMode
  let var := if moved ∧ toDeqna then var &&& ~~~(varOs ||| varRs ||| varSt) else var
  (if var &&& varRs≠0 then var &&& ~~~varRs &&& ~~~varSt else var,mode)

def writeVar (data : Word) (s : Delqa) : Delqa :=
  let v := if s.deqnaLock then (data &&& (varIv ||| varId),s.deqnaMode) else s.normalVar data
  { s with var := v.1,deqnaMode := v.2,vector := data &&& varIv }

def writeCsr (data : Word) (busy : Bool) (s : Delqa) : Delqa :=
  let setBits := data &&& csrRwMask
  let clearBits := ((data ^^^ csrRwMask) &&& csrRwMask) ||| (data &&& csrW1Mask) |||
    (if data &&& csrXi≠0 then csrNi else 0)
  if s.csr &&& csrSr &&& ~~~data≠0 then s.softwareReset busy else s.updateCsr setBits clearBits busy

def activate (s : Delqa) : Option Delqa :=
  if s.slot=.waiting then some { s with slot := .onPru s.vector } else none

def grant (s : Delqa) : Option Delqa :=
  if s.slot=.free ∨ s.slot=.waiting then none
  else some { s with slot := .free,granted := true }

/-- What happens to the controller. The walks of the descriptor lists end in `rbdlDone`, `xbdlDone`
and `nxm`. -/
inductive Event
  | writeVar (data : Word)
  | writeCsr (data : Word)
  | writeRbdl
  | writeXbdl
  | rbdlDone (rl ri : Bool)
  | xbdlDone (xi : Bool)
  | xbdlMore
  | nxm
  | carrier (on : Bool)
  | init
  | dclo
  | activate
  | grant
  deriving DecidableEq,Repr

/-- One event. `busy` is what the adapter finds at the level. -/
def step (s : Delqa) (e : Event × Bool) : Option Delqa :=
  match e.1 with
  | .writeVar data => some (s.writeVar data)
  | .writeCsr data => some (s.writeCsr data e.2)
  | .writeRbdl => some (s.updateCsr 0 csrRl e.2)
  | .writeXbdl => some (s.updateCsr 0 csrXl e.2)
  | .rbdlDone rl ri => some (s.updateCsr ((if rl then csrRl else 0) ||| if ri then csrRi else 0) 0 e.2)
  | .xbdlDone xi => some (s.updateCsr (csrXl ||| if xi then csrXi else 0) 0 e.2)
  | .xbdlMore => some (s.updateCsr csrXi 0 e.2)
  | .nxm => some (s.updateCsr (csrNi ||| csrXi ||| csrXl ||| csrRl) 0 e.2)
  | .carrier on => some (if on then s.updateCsr csrCa 0 e.2 else s.updateCsr 0 csrCa e.2)
  | .init => some (s.powerOnReset e.2).cancelIntr
  | .dclo => some (s.powerOnReset e.2)
  | .activate => s.activate
  | .grant => s.grant

def start (deqnaLock : Bool) : Delqa where
  csr := 0
  var := 0
  deqnaLock := deqnaLock
  deqnaMode := false
  interruptAsserted := false
  vector := 0
  slot := .free
  granted := false

def Presented (s : Delqa) : Prop := s.slot≠.free ∨ s.granted

/-- A request stands exactly when the level is high, and carries the vector of VAR. -/
structure Right (s : Delqa) : Prop where
  level : s.Presented ↔ s.wantIntr
  waiting : s.slot=.waiting → s.vector=s.var &&& varIv
  onPru : ∀ v,s.slot=.onPru v → v=s.var &&& varIv

/-- A write of VAR, while IE is set and XI or RI is, leaves the vector as it is, or moves it from one
vector to another while the PRU does not have the request. -/
def keeps (s : Delqa) (e : Event × Bool) : Bool :=
  match e.1 with
  | .writeVar data =>
    !(s.csr &&& csrIe≠0 && s.csr &&& csrXiri≠0) || data &&& varIv=s.var &&& varIv ||
      data &&& varIv≠0 && s.var &&& varIv≠0 && (s.slot=.free || s.slot=.waiting)
  | .writeCsr _ | .writeRbdl | .writeXbdl | .rbdlDone _ _ | .xbdlDone _ | .xbdlMore | .nxm
  | .carrier _ | .init | .dclo | .activate | .grant => true

def completes : Event → Bool
  | .rbdlDone _ ri => ri
  | .xbdlDone xi => xi
  | .xbdlMore | .nxm => true
  | .writeVar _ | .writeCsr _ | .writeRbdl | .writeXbdl | .carrier _ | .init | .dclo | .activate
  | .grant => false

variable {s t : Delqa} {busy : Bool}

structure Inv (s : Delqa) : Prop where
  asserted : s.interruptAsserted=s.wantIntr
  presented : s.Presented ↔ s.interruptAsserted
  vector : s.vector=s.var &&& varIv
  onPru : ∀ v,s.slot=.onPru v → v=s.var &&& varIv

theorem Inv.right (h : s.Inv) : s.Right :=
  ⟨h.asserted ▸ h.presented,fun _ => h.vector,h.onPru⟩

theorem intr_pending (s : Delqa) (busy : Bool) : (s.intr busy).slot≠.free := by
  rw [intr]
  by_cases h : s.slot=.free
  · rw [if_pos h]
    cases busy <;> rintro ⟨⟩
  · rw [if_neg h]
    exact h

theorem Inv.intr (ha : s.interruptAsserted) (hw : s.wantIntr) (hv : s.vector=s.var &&& varIv)
    (hp : ∀ v,s.slot=.onPru v → v=s.var &&& varIv) : (s.intr busy).Inv := by
  have hpending := intr_pending s busy
  by_cases h : s.slot=.free
  · have he : s.intr busy =
        { s with slot := if busy then .waiting else .onPru s.vector,granted := false } := by
      rw [Delqa.intr,if_pos h]
    rw [he] at hpending ⊢
    refine ⟨ha.trans hw.symm,⟨fun _ => ha,fun _ => .inl hpending⟩,hv,fun v hs => ?_⟩
    cases busy with
    | true => cases hs
    | false =>
      cases hs
      exact hv
  · rw [Delqa.intr,if_neg h]
    exact ⟨ha.trans hw.symm,⟨fun _ => ha,fun _ => .inl h⟩,hv,hp⟩

theorem Inv.present (hpres : s.Presented ↔ s.interruptAsserted) (hv : s.vector=s.var &&& varIv)
    (hp : ∀ v,s.slot=.onPru v → v=s.var &&& varIv) : (s.present busy).Inv := by
  rw [Delqa.present]
  cases hw : s.wantIntr with
  | true =>
    cases ha : s.interruptAsserted with
    | true => exact Inv.intr ha hw hv hp
    | false =>
      have hiv : s.var &&& varIv≠0 := by
        rw [wantIntr,Bool.and_eq_true] at hw
        exact of_decide_eq_true hw.2
      show (s.setInterrupt busy).Inv
      rw [setInterrupt,if_neg hiv]
      exact Inv.intr (s := { s with interruptAsserted := true }) rfl hw hv hp
  | false =>
    cases ha : s.interruptAsserted with
    | true =>
      refine ⟨hw.symm,⟨?_,by rintro ⟨⟩⟩,hv,by rintro v ⟨⟩⟩
      rintro (hs | hg)
      · exact absurd rfl hs
      · cases hg
    | false => exact ⟨ha.trans hw.symm,hpres,hv,hp⟩

theorem Inv.updateCsr (h : s.Inv) (setBits clearBits : Word) : (s.updateCsr setBits clearBits busy).Inv :=
  Inv.present h.presented h.vector h.onPru

theorem present_csr (s : Delqa) (busy : Bool) :
    (s.present busy).csr=s.csr ∧ (s.present busy).var=s.var ∧ (s.present busy).vector=s.vector := by
  rw [Delqa.present,setInterrupt,clearInterrupt,cancelIntr,Delqa.intr,Delqa.intr]
  split_ifs <;> exact ⟨rfl,rfl,rfl⟩

theorem reset_ie (csr : Word) :
    (((((csr ||| (csrXl ||| csrRl)) &&& ~~~(~~~(csrXl ||| csrRl))) ||| csrOk) &&& ~~~csrCa) &&& csrIe)=0 := by
  rw [BitVec.not_not]
  ext i hi
  simp only [BitVec.getElem_and,BitVec.getElem_or,BitVec.getElem_not]
  interval_cases i <;> simp [csrXl,csrRl,csrOk,csrCa,csrIe]

theorem Inv.softwareReset (hv : s.vector=s.var &&& varIv) : (s.softwareReset busy).Inv := by
  unfold Delqa.softwareReset
  obtain ⟨hc,hr,hx⟩ := present_csr { s with csr := (s.csr ||| (csrXl ||| csrRl)) &&&
    ~~~(~~~(csrXl ||| csrRl)) } busy
  obtain ⟨hc',hr',hx'⟩ := present_csr { s.updateCsr (csrXl ||| csrRl) (~~~(csrXl ||| csrRl)) busy with
    csr := ((s.updateCsr (csrXl ||| csrRl) (~~~(csrXl ||| csrRl)) busy).csr ||| csrOk) &&&
      ~~~csrCa } busy
  have hwant : (((s.updateCsr (csrXl ||| csrRl) (~~~(csrXl ||| csrRl)) busy).updateCsr csrOk csrCa
      busy).clearInterrupt).wantIntr=false := by
    have hie := reset_ie s.csr
    rw [wantIntr]
    show (decide (((s.updateCsr (csrXl ||| csrRl) (~~~(csrXl ||| csrRl)) busy).updateCsr csrOk csrCa
      busy).csr &&& csrIe≠0) && _ && _)=false
    rw [Delqa.updateCsr,hc']
    show (decide ((((s.updateCsr (csrXl ||| csrRl) (~~~(csrXl ||| csrRl)) busy).csr ||| csrOk) &&&
      ~~~csrCa) &&& csrIe≠0) && _ && _)=false
    rw [Delqa.updateCsr,hc,hie]
    rfl
  refine ⟨hwant.symm,⟨?_,by rintro ⟨⟩⟩,?_,by rintro v ⟨⟩⟩
  · rintro (hs | hg)
    · exact absurd rfl hs
    · cases hg
  · show ((s.updateCsr _ _ busy).updateCsr csrOk csrCa busy).vector =
      ((s.updateCsr _ _ busy).updateCsr csrOk csrCa busy).var &&& varIv
    rw [Delqa.updateCsr,hx',hr']
    show (s.updateCsr _ _ busy).vector=(s.updateCsr _ _ busy).var &&& varIv
    rw [Delqa.updateCsr,hx,hr]
    exact hv

theorem Inv.powerOnReset (s : Delqa) (busy : Bool) : (s.powerOnReset busy).Inv := by
  unfold Delqa.powerOnReset
  refine Inv.softwareReset ?_
  show 0=(if s.deqnaLock then (0 : Word) else varMs) &&& varIv
  cases s.deqnaLock <;> decide

theorem iv_clear (x : Word) {mask : Word} (h : ~~~mask &&& varIv=varIv) : (x &&& ~~~mask) &&& varIv=x &&& varIv := by
  rw [BitVec.and_assoc,h]

theorem iv_keep (x : Word) {mask : Word} (h : mask &&& varIv=varIv) : (x &&& mask) &&& varIv=x &&& varIv := by
  rw [BitVec.and_assoc,h]

theorem writeVar_vector (data : Word) (s : Delqa) : (s.writeVar data).var &&& varIv=data &&& varIv := by
  show (if s.deqnaLock then (data &&& (varIv ||| varId),s.deqnaMode)
    else s.normalVar data).1 &&& varIv=_
  cases s.deqnaLock with
  | true => exact iv_keep data (by decide)
  | false =>
    show (s.normalVar data).1 &&& varIv=_
    have hrw : (data &&& varRwMask) &&& varIv=data &&& varIv := iv_keep data (by decide)
    have hmoved : ((data &&& varRwMask) &&& ~~~(varOs ||| varRs ||| varSt)) &&& varIv =
        data &&& varIv := (iv_clear _ (by decide)).trans hrw
    have htest {x : Word} (hx : x &&& varIv=data &&& varIv) :
        (x &&& ~~~varRs &&& ~~~varSt) &&& varIv=data &&& varIv :=
      ((iv_clear _ (by decide)).trans (iv_clear _ (by decide))).trans hx
    unfold normalVar
    dsimp only
    split_ifs
    · exact htest hmoved
    · exact hmoved
    · exact htest hrw
    · exact hrw

theorem Inv.writeVar (h : s.Inv) (data : Word)
    (hk : !(s.csr &&& csrIe≠0 && s.csr &&& csrXiri≠0) || data &&& varIv=s.var &&& varIv ||
      data &&& varIv≠0 && s.var &&& varIv≠0 && (s.slot=.free || s.slot=.waiting)) : (s.writeVar data).Inv := by
  have hiv := writeVar_vector data s
  have hwant : (s.writeVar data).wantIntr =
      (s.csr &&& csrIe≠0 && s.csr &&& csrXiri≠0 && data &&& varIv≠0) := by
    rw [wantIntr,hiv]
    rfl
  have hasserted : s.interruptAsserted=(s.writeVar data).wantIntr ∧
      ∀ v,s.slot=.onPru v → v=data &&& varIv := by
    rw [hwant,h.asserted,wantIntr]
    cases hhigh : (decide (s.csr &&& csrIe≠0) && decide (s.csr &&& csrXiri≠0)) with
    | false =>
      refine ⟨by rw [Bool.false_and,Bool.false_and],fun v hs => ?_⟩
      have hp := h.presented.mp (.inl (by rw [hs]; rintro ⟨⟩))
      rw [h.asserted,wantIntr,hhigh] at hp
      cases hp
    | true =>
      rw [hhigh] at hk
      simp only [Bool.not_true,Bool.false_or,Bool.or_eq_true,Bool.and_eq_true,
        decide_eq_true_eq] at hk
      obtain hsame | ⟨⟨hnew,hold⟩,hslot⟩ := hk
      · rw [hsame]
        exact ⟨rfl,h.onPru⟩
      · rw [decide_eq_true hnew,decide_eq_true hold]
        refine ⟨rfl,fun v hs => ?_⟩
        rw [hs] at hslot
        obtain ⟨⟨⟩⟩ | ⟨⟨⟩⟩ := hslot
  exact ⟨hasserted.1,h.presented,hiv.symm,fun v hs => (hasserted.2 v hs).trans hiv.symm⟩

theorem Inv.step (h : s.Inv) {e : Event × Bool} (hk : s.keeps e) (hs : s.step e=some t) : t.Inv := by
  obtain ⟨e,busy⟩ := e
  cases e with
  | writeVar data =>
    simp only [Delqa.step,Option.some.injEq] at hs
    subst hs
    exact h.writeVar data hk
  | writeCsr data =>
    simp only [Delqa.step,Option.some.injEq] at hs
    subst hs
    unfold Delqa.writeCsr
    dsimp only
    by_cases hsr : s.csr &&& csrSr &&& ~~~data≠0
    · rw [if_pos hsr]
      exact Inv.softwareReset h.vector
    · rw [if_neg hsr]
      exact h.updateCsr _ _
  | writeRbdl | writeXbdl | rbdlDone rl ri | xbdlDone xi | xbdlMore | nxm =>
    simp only [Delqa.step,Option.some.injEq] at hs
    subst hs
    exact h.updateCsr _ _
  | carrier on =>
    simp only [Delqa.step,Option.some.injEq] at hs
    subst hs
    cases on <;> exact h.updateCsr _ _
  | init | dclo =>
    simp only [Delqa.step,Option.some.injEq] at hs
    subst hs
    exact Inv.powerOnReset s busy
  | activate =>
    have hs : s.activate=some t := hs
    rw [activate] at hs
    split_ifs at hs with hw
    cases hs
    refine ⟨h.asserted,⟨fun _ => ?_,fun _ => .inl (by rintro ⟨⟩)⟩,h.vector,fun v hx => ?_⟩
    · exact h.presented.mp (.inl (by rw [hw]; rintro ⟨⟩))
    · cases hx
      exact h.vector
  | grant =>
    have hs : s.grant=some t := hs
    rw [grant] at hs
    split_ifs at hs with hw
    cases hs
    exact ⟨h.asserted,⟨fun _ => h.presented.mp (.inl fun hf => hw (.inl hf)),fun _ => .inr rfl⟩,h.vector,
      by rintro v ⟨⟩⟩

theorem start_inv (lock : Bool) : (start lock).Inv where
  asserted := by show false=(start lock).wantIntr; simp [wantIntr,start]
  presented := ⟨fun h => h.elim (fun hs => absurd rfl hs) id,fun h => .inr h⟩
  vector := by show (0 : Word)=0 &&& varIv; decide
  onPru := by rintro v ⟨⟩

theorem present_pending (hw : s.wantIntr) : (s.present busy).slot≠.free := by
  have hiv : s.var &&& varIv≠0 := by
    rw [wantIntr,Bool.and_eq_true] at hw
    exact of_decide_eq_true hw.2
  rw [Delqa.present,hw,Delqa.setInterrupt,if_neg hiv]
  cases s.interruptAsserted
  all_goals exact intr_pending _ busy

theorem updateCsr_pending (setBits clearBits : Word) (hw : (s.updateCsr setBits clearBits busy).wantIntr) :
    (s.updateCsr setBits clearBits busy).slot≠.free := by
  have hc := present_csr { s with csr := (s.csr ||| setBits) &&& ~~~clearBits } busy
  refine present_pending ?_
  rw [wantIntr,Delqa.updateCsr,hc.1,hc.2.1] at hw
  exact hw

/-- In any run where VAR is given no other vector under a high level, unless a request that the PRU does not have
moves with it, a request stands exactly when the level is high, with the vector of VAR, and is pending after each
completion that finds it high. -/
theorem interrupt_right (lock : Bool) {as : List (Event × Bool)} {s : Delqa}
    (h : Run (Guarded (fun s e => s.keeps e=true) step) (start lock) as s) :
    s.Right ∧ ∀ e t,s.step e=some t → completes e.1 → t.wantIntr → t.slot≠.free := by
  have hinv := h.invariant (P := Inv) (fun _ _ _ hs hn => hs.step hn.1 hn.2) (start_inv lock)
  refine ⟨hinv.right,?_⟩
  rintro ⟨e,busy⟩ t hs hc hw
  cases e with
  | rbdlDone rl ri | xbdlDone xi | xbdlMore | nxm =>
    simp only [Delqa.step,Option.some.injEq] at hs
    subst hs
    exact updateCsr_pending _ _ hw
  | writeVar data | writeCsr data | writeRbdl | writeXbdl | carrier on | init | dclo | activate
  | grant => cases hc

/-- A receive completion while the transmit interrupt has been granted and not handled -/
theorem interrupt_right_again : ∃ s : Delqa,s.slot=.onPru 0x100 ∧ s.granted=false ∧ s.Right := by
  obtain ⟨s,hs,hp⟩ := run_of_foldlM (fun s e => Delqa.keeps s e=true) step
    (fun s : Delqa => s.slot=.onPru 0x100 ∧ s.granted=false)
    [(.dclo,false),(.writeVar 0x8100,false),(.writeCsr 0x41,false),(.writeXbdl,false),
      (.xbdlDone true,false),(.grant,false),(.rbdlDone false true,false)] (start false) (by decide)
  obtain ⟨hslot,hgranted⟩ := of_decide_eq_true hp
  exact ⟨s,hslot,hgranted,(interrupt_right false hs).1⟩

/-- The vector is programmed after IE and a completion: no request is raised. -/
theorem interrupt_missing : ∃ s,Run (Guarded (fun _ _ => True) step) (start false)
      [(.dclo,false),(.writeCsr 0x40,false),(.writeXbdl,false),(.xbdlDone true,false),
        (.writeVar 0x8100,false)] s ∧ s.wantIntr ∧ ¬s.Presented ∧ ¬s.Right := by
  obtain ⟨s,hs,hp⟩ := run_of_foldlM (fun _ _ => True) step
    (fun s : Delqa => s.wantIntr ∧ s.slot=.free ∧ s.granted=false)
    [(.dclo,false),(.writeCsr 0x40,false),(.writeXbdl,false),(.xbdlDone true,false),
      (.writeVar 0x8100,false)] (start false) (by decide)
  obtain ⟨hwant,hslot,hgranted⟩ := of_decide_eq_true hp
  have hno : ¬s.Presented := by
    rintro (h | h)
    · exact h hslot
    · rw [hgranted] at h
      cases h
  exact ⟨s,hs,hwant,hno,fun hr => hno (hr.level.mpr hwant)⟩

end Delqa

end QUniLator.Ethernet
