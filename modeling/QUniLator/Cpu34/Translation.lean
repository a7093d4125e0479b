import QUniLator.Cpu34.Kt11d
import QUniLator.Framework.OneBitShift
import QUniLator.Framework.Run
import Mathlib.Data.Nat.Bitwise
import Mathlib.Tactic.IntervalCases

/-!
What the page registers say of a reference, and that the translation over the derived descriptors
does that.
-/

namespace QUniLator.Cpu34

def acfForbids (pdr : Word) (access : Access) : Prop :=
  pdr.toNat/2%4=0 ∨ pdr.toNat/2%4=2 ∨ pdr.toNat/2%4=1 ∧ access=.write

/-- The page's length field, counted from the end its direction says, takes in the block. -/
def inPage (pdr va : Word) : Prop :=
  if pdr.toNat/8%2=0 then va.toNat/64%128≤pdr.toNat/256%128
  else pdr.toNat/256%128≤va.toNat/64%128

def relocated (par va : Word) : Nat := (par.toNat%4096*64+va.toNat%8192)%2^18

instance (pdr : Word) (access : Access) : Decidable (acfForbids pdr access) :=
  inferInstanceAs (Decidable (pdr.toNat/2%4=0 ∨ pdr.toNat/2%4=2 ∨
    pdr.toNat/2%4=1 ∧ access=.write))

instance (pdr va : Word) : Decidable (inPage pdr va) :=
  inferInstanceAs (Decidable (if pdr.toNat/8%2=0 then va.toNat/64%128≤pdr.toNat/256%128
    else pdr.toNat/256%128≤va.toNat/64%128))

/-- MMR0<15:13> of an abort: what the page forbids. A mode that does not exist has no page. -/
def causes (illegal : Bool) (pdr va : Word) (access : Access) : Word :=
  if illegal then mmr0AbortNonresident
  else
    (if pdr.toNat/2%4=0 ∨ pdr.toNat/2%4=2 then mmr0AbortNonresident else 0) |||
    (if inPage pdr va then 0 else mmr0AbortLength) |||
    (if pdr.toNat/2%4=1 ∧ access=.write then mmr0AbortReadonly else 0)

section
variable (pdr va : Word)

theorem pdrAcf_toNat : (pdrAcf pdr).toNat=pdr.toNat/2%4 := field_toNat pdr 3 1 2 rfl

theorem pdrPlf_toNat : (pdrPlf pdr).toNat=pdr.toNat/256%128 := field_toNat pdr 0o177 8 7 rfl

theorem block_toNat : (block va).toNat=va.toNat/64%128 := by
  have h := field_toNat va 0o177 6 7 rfl
  rw [block,BitVec.toNat_setWidth,h]
  omega

theorem pdrEd_iff : pdr &&& pdrEd=0 ↔ pdr.toNat/8%2=0 := by
  have h := Nat.and_two_pow pdr.toNat 3
  have hbit := Nat.testBit_eq_decide_div_mod_eq (x := pdr.toNat) (i := 3)
  rw [← BitVec.toNat_inj,BitVec.toNat_and]
  change pdr.toNat &&& 2^3=0 ↔ _
  rw [h,hbit]
  simp

end

theorem descriptor_denies (idx : BitVec 4) (par pdr : Word) (access : Access) :
    (descriptor idx par pdr).denies access=true ↔ acfForbids pdr access := by
  have h := pdrAcf_toNat pdr
  cases access <;> simp [descriptor,Page.denies,acfForbids,← BitVec.toNat_inj,h] <;> omega

theorem holds_iff (lo span : BitVec 8) (p : Page) (va : Word) (hlo : p.blkLo=lo)
    (hspan : p.blkSpan=span) (h : lo.toNat+span.toNat<2^31) :
    p.holds (block va)=true ↔
      lo.toNat≤va.toNat/64%128 ∧ va.toNat/64%128≤lo.toNat+span.toNat := by
  have hb := block_toNat va
  have hl := lo.isLt
  simp only [Page.holds,hlo,hspan,Bool.not_eq_true',decide_eq_false_iff_not,BitVec.lt_def,
    BitVec.toNat_sub,BitVec.toNat_setWidth,hb]
  omega

theorem descriptor_holds (idx : BitVec 4) (par pdr va : Word) :
    (descriptor idx par pdr).holds (block va)=true ↔ inPage pdr va := by
  have hp := pdrPlf_toNat pdr
  have hplf : ((pdrPlf pdr).setWidth 8).toNat=pdr.toNat/256%128 := by
    rw [BitVec.toNat_setWidth,hp]
    omega
  have hrest : ((0o177-pdrPlf pdr).setWidth 8).toNat=127-pdr.toNat/256%128 := by
    rw [BitVec.toNat_setWidth,BitVec.toNat_sub,hp]
    simp
    omega
  by_cases hd : pdr &&& pdrEd=0#16
  · rw [holds_iff 0 ((pdrPlf pdr).setWidth 8) _ _ (by simp [descriptor,hd])
      (by simp [descriptor,hd]) (by rw [hplf]; simp; omega),hplf]
    simp [inPage,(pdrEd_iff pdr).mp hd]
  · rw [holds_iff ((pdrPlf pdr).setWidth 8) ((0o177-pdrPlf pdr).setWidth 8) _ _
      (by simp [descriptor,hd]) (by simp [descriptor,hd]) (by rw [hplf,hrest]; omega),hplf,
      hrest]
    simp [inPage,mt (pdrEd_iff pdr).mpr hd]
    omega

theorem pageIndex_page (space : Space) (va : Word) :
    (pageIndex space va &&& 7).toNat=va.toNat/8192 := by
  have hv := va.isLt
  rw [mask_toNat _ _ 3 rfl,pageIndex,BitVec.toNat_add,BitVec.toNat_setWidth,
    BitVec.toNat_ushiftRight,Nat.shiftRight_eq_div_pow]
  cases space <;> simp [Space.first] <;> omega

theorem descriptor_base (space : Space) (par pdr va : Word) :
    (((descriptor (pageIndex space va) par pdr).base+va.setWidth 32) &&& 0o777777).toNat =
      relocated par va := by
  have hv := va.isLt
  have hpage := pageIndex_page space va
  have hpaf := mask_toNat par parWritable 12 rfl
  rw [mask_toNat _ _ 18 rfl]
  simp only [descriptor,relocated,BitVec.toNat_add,BitVec.toNat_sub,BitVec.toNat_shiftLeft,
    BitVec.toNat_setWidth,hpage,hpaf,Nat.shiftLeft_eq]
  omega

theorem descriptor_written (idx : BitVec 4) (par pdr : Word) :
    descriptor idx par (pdr ||| pdrW)=descriptor idx par pdr := by
  have ha : pdrAcf (pdr ||| pdrW)=pdrAcf pdr := by
    rw [pdrAcf,BitVec.ushiftRight_or_distrib,BitVec.and_or_distrib_right]
    simp [pdrW,pdrAcf]
  have hp : pdrPlf (pdr ||| pdrW)=pdrPlf pdr := by
    simp [pdrW,pdrPlf,BitVec.ushiftRight_or_distrib]
  have hd : (pdr ||| pdrW) &&& pdrEd=pdr &&& pdrEd := by
    simp [pdrW,pdrEd,BitVec.and_or_distrib_right]
  simp only [descriptor,ha,hp,hd]

namespace Kt11d

theorem foldl_rebuild (l : List (BitVec 4)) (m : Kt11d) :
    l.foldl rebuild m =
      { m with page := fun i => if i∈l then descriptor i (m.par i) (m.pdr i) else m.page i } := by
  induction l generalizing m with
  | nil => simp
  | cons a l ih =>
    rw [List.foldl_cons,ih]
    simp only [rebuild,List.mem_cons,Kt11d.mk.injEq,true_and,and_true]
    funext i
    by_cases hl : i∈l
    · simp [hl]
    · by_cases ha : i=a
      · simp [ha]
      · simp [hl,ha]

theorem mem_indices : ∀ i,i∈indices := by decide

theorem rebuildAll_eq (m : Kt11d) : m.rebuildAll =
    { m with
      enabled := m.mmr0 &&& mmr0Enable≠0
      frozen := m.mmr0 &&& mmr0Aborts≠0
      maint := m.mmr0 &&& mmr0Maint≠0
      page := fun i => descriptor i (m.par i) (m.pdr i) } := by
  simp only [rebuildAll,foldl_rebuild,mem_indices,if_true]

/-- The cached flags are the MMR0 bits, and the mode of the next reference is known for illegal. -/
structure Flags (m : Kt11d) : Prop where
  enabled : m.enabled=decide (m.mmr0 &&& mmr0Enable≠0)
  frozen : m.frozen=decide (m.mmr0 &&& mmr0Aborts≠0)
  maint : m.maint=decide (m.mmr0 &&& mmr0Maint≠0)
  illegal : m.accessIllegal=(decide (m.accessMode≠modeKernel) && decide (m.accessMode≠modeUser))

def Derived (m : Kt11d) : Prop := ∀ i,m.page i=descriptor i (m.par i) (m.pdr i)

/-- What every operation keeps. The unit starts with descriptors that say nothing, but with relocation
off, and what turns relocation on derives them all. -/
structure Sound (m : Kt11d) : Prop extends Flags m where
  derived : m.enabled=true ∨ m.maint=true → m.Derived

def Forbidden (m : Kt11d) (va : Word) (space : Space) (access : Access) : Prop :=
  m.accessIllegal=true ∨ acfForbids (m.pdr (pageIndex space va)) access ∨
    ¬inPage (m.pdr (pageIndex space va)) va

instance (m : Kt11d) (va : Word) (space : Space) (access : Access) :
    Decidable (m.Forbidden va space access) :=
  inferInstanceAs (Decidable (m.accessIllegal=true ∨
    acfForbids (m.pdr (pageIndex space va)) access ∨ ¬inPage (m.pdr (pageIndex space va)) va))

def Active (m : Kt11d) : Prop := m.enabled=true ∨ m.maint=true ∧ m.destRef=true

theorem modeField (mode : Mode) :
    (mode.setWidth 16 <<< 5) &&& mmr0Mode=mode.setWidth 16 <<< 5 := by
  revert mode
  decide

theorem pageField (va : Word) : ((va >>> 13) <<< 1) &&& mmr0Page=(va >>> 13) <<< 1 := by
  ext i hi
  simp [mmr0Page]
  interval_cases i <;> simp

theorem recordReference_and (m : Kt11d) (va bits : Word) {mask : Word}
    (h : ~~~(mmr0Mode ||| mmr0Page) &&& mask=mask) :
    m.recordReference va bits &&& mask=(m.mmr0 ||| bits) &&& mask := by
  have hmode : mmr0Mode &&& mask=0 := by
    rw [← h,← BitVec.and_assoc,show mmr0Mode &&& ~~~(mmr0Mode ||| mmr0Page)=0 by decide]
    simp
  have hpage : mmr0Page &&& mask=0 := by
    rw [← h,← BitVec.and_assoc,show mmr0Page &&& ~~~(mmr0Mode ||| mmr0Page)=0 by decide]
    simp
  rw [recordReference,BitVec.and_or_distrib_right,BitVec.and_or_distrib_right,
    BitVec.and_or_distrib_right,← modeField,← pageField,BitVec.and_assoc,BitVec.and_assoc _ mmr0Mode,
    BitVec.and_assoc _ mmr0Page,h,hmode,hpage,BitVec.and_or_distrib_right]
  simp

theorem recordReference_mode (m : Kt11d) (va bits : Word)
    (h : bits &&& mmr0Mode=0) :
    m.recordReference va bits &&& mmr0Mode=m.accessMode.setWidth 16 <<< 5 := by
  rw [recordReference,BitVec.and_or_distrib_right,BitVec.and_or_distrib_right,
    BitVec.and_or_distrib_right,h,modeField,← pageField,BitVec.and_assoc,BitVec.and_assoc,
    show ~~~(mmr0Mode ||| mmr0Page) &&& mmr0Mode=0 by decide,
    show mmr0Page &&& mmr0Mode=0 by decide]
  simp

theorem recordReference_page (m : Kt11d) (va bits : Word)
    (h : bits &&& mmr0Page=0) :
    m.recordReference va bits &&& mmr0Page=(va >>> 13) <<< 1 := by
  rw [recordReference,BitVec.and_or_distrib_right,BitVec.and_or_distrib_right,
    BitVec.and_or_distrib_right,h,pageField,← modeField,BitVec.and_assoc,BitVec.and_assoc,
    show ~~~(mmr0Mode ||| mmr0Page) &&& mmr0Page=0 by decide,
    show mmr0Mode &&& mmr0Page=0 by decide]
  simp

theorem recordReference_twice (m : Kt11d) (va bits : Word) :
    { m with mmr0 := m.recordReference va 0 : Kt11d }.recordReference va bits =
      m.recordReference va bits := by
  have h : m.recordReference va 0 &&& ~~~(mmr0Mode ||| mmr0Page) =
      (m.mmr0 ||| 0) &&& ~~~(mmr0Mode ||| mmr0Page) := m.recordReference_and va 0 (by decide)
  rw [show m.mmr0 ||| 0=m.mmr0 by simp] at h
  simp only [recordReference] at h ⊢
  rw [h]

section
variable {m : Kt11d} {va : Word} {space : Space} {access : Access}

theorem causes_eq (pdr va : Word) (access : Access) {inside : Bool}
    (h : inside ↔ inPage pdr va) :
    (let bits :=
        if pdrAcf pdr=3 then 0
        else if pdrAcf pdr=1 then if access=.write then mmr0AbortReadonly else 0
        else mmr0AbortNonresident
      if inside then bits else bits ||| mmr0AbortLength)=causes false pdr va access := by
  have hacf := pdrAcf_toNat pdr
  have hlt : pdr.toNat/2%4<4 := Nat.mod_lt _ (by decide)
  simp only [causes,← BitVec.toNat_inj (x := pdrAcf pdr),hacf,h]
  generalize pdr.toNat/2%4=acf at hlt
  by_cases hin : inPage pdr va <;> interval_cases acf <;> cases access <;> (simp [hin]; try decide)

theorem abort_eq (hd : m.Derived) : m.abort va space access =
    if m.frozen then m
    else { m with
      mmr0 := m.recordReference va (causes false (m.pdr (pageIndex space va)) va access)
      frozen := true } := by
  have hin := descriptor_holds (pageIndex space va) (m.par (pageIndex space va))
    (m.pdr (pageIndex space va)) va
  rw [← hd] at hin
  rw [abort,← causes_eq _ _ access hin]

theorem noteReference_eq : m.noteReference va =
    { m with mmr0 := if m.frozen then m.mmr0 else m.recordReference va 0 } := by
  unfold noteReference
  split_ifs <;> rfl

theorem noteReference_page : (m.noteReference va).page=m.page := by rw [noteReference_eq]

theorem noteReference_pdr : (m.noteReference va).pdr=m.pdr := by rw [noteReference_eq]

theorem noteReference_abort (hd : m.Derived) :
    (m.noteReference va).abort va space access =
      if m.frozen then m
      else { m with
        mmr0 := m.recordReference va (causes false (m.pdr (pageIndex space va)) va access)
        frozen := true } := by
  cases hf : m.frozen with
  | true => simp [noteReference,abort,hf]
  | false =>
    have hnote : m.noteReference va={ m with mmr0 := m.recordReference va 0 } := by
      simp [noteReference,hf]
    rw [hnote,@abort_eq { m with mmr0 := m.recordReference va 0 } va space access hd,
      recordReference_twice]
    simp [hf]

theorem relocate_eq (hd : m.Derived) (ha : m.Active) : m.relocate va space access =
    if m.Forbidden va space access then
      (if m.frozen then m
        else { m with
          mmr0 := m.recordReference va
            (causes m.accessIllegal (m.pdr (pageIndex space va)) va access)
          frozen := true },none)
    else
      let pa := BitVec.ofNat 32 (relocated (m.par (pageIndex space va)) va)
      let idx := pageIndex space va
      ({ m with
        mmr0 := if m.frozen then m.mmr0 else m.recordReference va 0
        pdr := if access=.write ∧ isOwnRegister pa=false then
          Function.update m.pdr idx (m.pdr idx ||| pdrW) else m.pdr },some pa) := by
  have hactive : ¬(!m.enabled && !(m.maint && m.destRef))=true := by
    rcases ha with h | ⟨h,h'⟩ <;> simp [*]
  rw [relocate,if_neg hactive]
  by_cases hi : m.accessIllegal=true
  · have hforb : m.Forbidden va space access := Or.inl hi
    have hcause : causes m.accessIllegal (m.pdr (pageIndex space va)) va access =
        mmr0AbortNonresident := by simp [causes,hi]
    rw [if_pos hi,if_pos hforb,hcause]
    rfl
  · rw [Bool.not_eq_true] at hi
    have hdeny := descriptor_denies (pageIndex space va) (m.par (pageIndex space va))
      (m.pdr (pageIndex space va)) access
    have hin := descriptor_holds (pageIndex space va) (m.par (pageIndex space va))
      (m.pdr (pageIndex space va)) va
    have hbase := descriptor_base space (m.par (pageIndex space va)) (m.pdr (pageIndex space va)) va
    rw [← hd] at hdeny hin hbase
    have hpa : ((m.page (pageIndex space va)).base+va.setWidth 32) &&& 0o777777 =
        BitVec.ofNat 32 (relocated (m.par (pageIndex space va)) va) := by
      rw [← hbase,BitVec.ofNat_toNat,BitVec.setWidth_eq]
    have hidx : (m.page (pageIndex space va)).pdrIdx=pageIndex space va := by
      rw [hd]
      rfl
    have hok : ¬m.Forbidden va space access ↔
        ¬(m.page (pageIndex space va)).denies access=true ∧
          (m.page (pageIndex space va)).holds (block va)=true := by
      rw [hdeny,hin]
      simp [Forbidden,hi]
    have hcause : causes m.accessIllegal (m.pdr (pageIndex space va)) va access =
        causes false (m.pdr (pageIndex space va)) va access := by rw [hi]
    rw [if_neg (by simp [hi]),hcause]
    simp only [noteReference_page,hpa,hidx,noteReference_abort hd]
    by_cases hforb : m.Forbidden va space access
    · rw [if_pos hforb]
      rw [← not_iff_not,not_not,not_and_or,not_not,Bool.not_eq_true] at hok
      rcases hok.mp hforb with h | h
      · rw [if_pos h]
      · simp only [h,Bool.not_false,if_true,ite_self]
    · rw [if_neg hforb]
      obtain ⟨h1,h2⟩ := hok.mp hforb
      simp only [if_neg h1,h2,noteReference_pdr,Bool.not_true,Bool.false_eq_true,if_false,
        Bool.and_eq_true,decide_eq_true_eq,Bool.not_eq_true']
      by_cases hw : access=.write ∧
          isOwnRegister (BitVec.ofNat 32 (relocated (m.par (pageIndex space va)) va))=false
      · simp only [if_pos hw,noteReference_eq]
      · simp only [if_neg hw,noteReference_eq]

end

end Kt11d

end QUniLator.Cpu34
