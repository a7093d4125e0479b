import QUniLator.Cpu34.Translation

/-! Everything that changes the unit, and what it keeps. -/

namespace QUniLator.Cpu34.Kt11d

open Option Function

inductive Op where
  | reset
  | init
  | writeReg (pa : Uint) (w mask : Word)
  | setModes (psw : Word)
  | setAccess (space : Space) (mode : Mode)
  | setDestRef (destRef : Bool)
  | relocate (va : Word) (space : Space) (access : Access)
  | instructionStart
  | instructionFetched (pc : Word)
  | logRegister (reg : BitVec 4) (amount : Word)

def apply (m : Kt11d) : Op → Kt11d
  | .reset => reset
  | .init => m.init
  | .writeReg pa w mask => (m.writeReg pa w mask).getD m
  | .setModes psw => m.setModes psw
  | .setAccess space mode => m.setAccess space mode
  | .setDestRef destRef => { m with destRef := destRef }
  | .relocate va space access => (m.relocate va space access).1
  | .instructionStart => m.instructionStart
  | .instructionFetched pc => m.instructionFetched pc
  | .logRegister reg amount => m.logRegister reg amount

theorem sound_zeroed : Sound zeroed := by
  refine ⟨⟨by decide,by decide,by decide,by decide⟩,?_⟩
  rintro (h | h) <;> simp [zeroed] at h

section
variable {m : Kt11d}

/-- Deriving everything anew is sound whatever was there, but for the mode of the next reference. -/
theorem sound_rebuildAll (h : m.accessIllegal =
    (decide (m.accessMode≠modeKernel) && decide (m.accessMode≠modeUser))) : Sound m.rebuildAll := by
  rw [rebuildAll_eq]
  exact ⟨⟨rfl,rfl,rfl,h⟩,fun _ _ => rfl⟩

theorem sound_setAccess (h : Sound m) (space : Space) (mode : Mode) : Sound (m.setAccess space mode) :=
  ⟨⟨h.enabled,h.frozen,h.maint,rfl⟩,h.derived⟩

theorem sound_setModes (h : Sound m) (psw : Word) : Sound (m.setModes psw) :=
  ⟨⟨h.enabled,h.frozen,h.maint,rfl⟩,h.derived⟩

theorem sound_reset : Sound reset := sound_rebuildAll rfl

theorem sound_init (h : Sound m) : Sound m.init := by
  rw [init]
  exact sound_rebuildAll h.illegal

theorem sound_pairWritten (h : Sound m) {par pdr : BitVec 4 → Word} {idx : BitVec 4}
    (hpar : ∀ i,i≠idx → par i=m.par i) (hpdr : ∀ i,i≠idx → pdr i=m.pdr i) :
    Sound ({ m with par := par,pdr := pdr }.pairWritten idx) := by
  refine ⟨⟨h.enabled,h.frozen,h.maint,h.illegal⟩,?_⟩
  intro hon i
  by_cases hi : i=idx
  · subst hi
    simp [pairWritten,rebuild]
  · have hd := h.derived hon i
    simp [pairWritten,rebuild,hi,hpar i hi,hpdr i hi,hd]

theorem sound_writeReg (h : Sound m) {pa : Uint} {w mask : Word} {m' : Kt11d}
    (hw : m.writeReg pa w mask=some m') : Sound m' := by
  rw [writeReg,map_eq_some_iff] at hw
  obtain ⟨reg,-,rfl⟩ := hw
  cases reg with
  | mmr0 | mmr1 | mmr2 => exact sound_rebuildAll h.illegal
  | pdr idx =>
    apply sound_pairWritten h (fun _ _ => rfl)
    intro i hi
    rw [update_of_ne hi]
  | par idx =>
    refine sound_pairWritten h ?_ (fun _ _ => rfl)
    intro i hi
    rw [update_of_ne hi]

theorem Sound.congr {m' : Kt11d} (h : Sound m) (h0 : m'.mmr0=m.mmr0)
    (hpar : m'.par=m.par) (hpdr : m'.pdr=m.pdr) (hpage : m'.page=m.page)
    (he : m'.enabled=m.enabled) (hf : m'.frozen=m.frozen) (hm : m'.maint=m.maint)
    (hi : m'.accessIllegal=m.accessIllegal) (ha : m'.accessMode=m.accessMode) : Sound m' := by
  refine ⟨⟨?_,?_,?_,?_⟩,?_⟩
  · rw [he,h0,h.enabled]
  · rw [hf,h0,h.frozen]
  · rw [hm,h0,h.maint]
  · rw [hi,ha,h.illegal]
  · intro hon i
    rw [he,hm] at hon
    rw [hpage,hpar,hpdr,h.derived hon]

theorem causes_aborts (illegal : Bool) (pdr va : Word) (access : Access) :
    causes illegal pdr va access &&& mmr0Aborts=causes illegal pdr va access := by
  unfold causes
  split_ifs <;> decide

theorem causes_ne_zero {va : Word} {space : Space} {access : Access} (h : m.Forbidden va space access) :
    causes m.accessIllegal (m.pdr (pageIndex space va)) va access≠0 := by
  unfold Forbidden acfForbids at h
  unfold causes
  split_ifs <;> first | decide | (exfalso; tauto)

theorem sound_aborted (h : Sound m) {va bits : Word} (hne : bits≠0)
    (hbits : bits &&& mmr0Aborts=bits) (hf : m.frozen=false) :
    Sound { m with mmr0 := m.recordReference va bits,frozen := true } := by
  have hz (mask : Word) (hm : mmr0Aborts &&& mask=0) : bits &&& mask=0 := by
    rw [← hbits,BitVec.and_assoc,hm]
    simp
  have hkept (mask : Word) (hn : ~~~(mmr0Mode ||| mmr0Page) &&& mask=mask)
      (hm : mmr0Aborts &&& mask=0) : m.recordReference va bits &&& mask=m.mmr0 &&& mask := by
    rw [recordReference_and _ _ _ hn,BitVec.and_or_distrib_right,hz mask hm]
    simp
  refine ⟨⟨?_,?_,?_,h.illegal⟩,h.derived⟩
  · simp only [hkept mmr0Enable (by decide) (by decide),h.enabled]
  · have h0 : m.mmr0 &&& mmr0Aborts=0 := by simpa [h.frozen] using hf
    have hb : m.recordReference va bits &&& mmr0Aborts=bits := by
      rw [recordReference_and _ _ _ (by decide),BitVec.and_or_distrib_right,h0,hbits]
      simp
    rw [hb]
    exact (decide_eq_true hne).symm
  · simp only [hkept mmr0Maint (by decide) (by decide),h.maint]

theorem sound_noteReference (h : Sound m) (va : Word) : Sound (m.noteReference va) := by
  have hkept (mask : Word) (hn : ~~~(mmr0Mode ||| mmr0Page) &&& mask=mask) :
      (if m.frozen then m.mmr0 else m.recordReference va 0) &&& mask=m.mmr0 &&& mask := by
    split_ifs
    · rfl
    · rw [recordReference_and _ _ _ hn]
      simp
  rw [noteReference_eq]
  refine ⟨⟨?_,?_,?_,h.illegal⟩,h.derived⟩
  · rw [hkept mmr0Enable (by decide),h.enabled]
  · rw [hkept mmr0Aborts (by decide),h.frozen]
  · rw [hkept mmr0Maint (by decide),h.maint]

theorem sound_written (h : Sound m) (idx : BitVec 4) :
    Sound { m with pdr := update m.pdr idx (m.pdr idx ||| pdrW) } := by
  refine ⟨⟨h.enabled,h.frozen,h.maint,h.illegal⟩,?_⟩
  intro hon i
  have hd := h.derived hon i
  by_cases hi : i=idx
  · subst hi
    simp [hd,descriptor_written]
  · simp [hi,hd]

theorem sound_relocate (h : Sound m) (va : Word) (space : Space) (access : Access) :
    Sound (m.relocate va space access).1 := by
  by_cases ha : m.Active
  · have hd : m.Derived := h.derived (ha.imp_right And.left)
    rw [relocate_eq hd ha]
    by_cases hforb : m.Forbidden va space access
    · rw [if_pos hforb]
      cases hf : m.frozen with
      | true => simpa [hf] using h
      | false => simpa [hf] using sound_aborted h (causes_ne_zero hforb) (causes_aborts _ _ _ _) hf
    · rw [if_neg hforb]
      have hn := sound_noteReference h va
      rw [noteReference_eq] at hn
      by_cases hw : access=.write ∧
          isOwnRegister (BitVec.ofNat 32 (relocated (m.par (pageIndex space va)) va))=false
      · simp only [if_pos hw]
        exact sound_written hn (pageIndex space va)
      · simp only [if_neg hw]
        exact hn
  · have hoff : (!m.enabled && !(m.maint && m.destRef))=true := by
      simpa [Active,not_or,imp_iff_not_or] using ha
    rw [relocate,if_pos hoff]
    exact h

theorem sound_apply (h : Sound m) (op : Op) : Sound (m.apply op) := by
  cases op with
  | reset => exact sound_reset
  | init => exact sound_init h
  | writeReg pa w mask =>
    rw [apply]
    cases hw : m.writeReg pa w mask with
    | none => exact h
    | some m' => exact sound_writeReg h hw
  | setModes psw => exact sound_setModes h psw
  | setAccess space mode => exact sound_setAccess h space mode
  | setDestRef destRef => exact h.congr rfl rfl rfl rfl rfl rfl rfl rfl rfl
  | relocate va space access => exact sound_relocate h va space access
  | instructionStart =>
    rw [apply,instructionStart]
    split_ifs
    · exact h
    · exact h.congr rfl rfl rfl rfl rfl rfl rfl rfl rfl
  | instructionFetched pc =>
    rw [apply,instructionFetched]
    split_ifs
    · exact h
    · exact h.congr rfl rfl rfl rfl rfl rfl rfl rfl rfl
  | logRegister reg amount =>
    by_cases hl : (m.frozen || reg=7 || decide (2 ≤ m.mmr1Count))=true
    · rw [apply,logRegister,if_pos hl]
      exact h
    · rw [apply,logRegister,if_neg hl]
      exact h.congr rfl rfl rfl rfl rfl rfl rfl rfl rfl

/-- The unit after the operations `ops`. -/
def run (ops : List Op) : Kt11d := ops.foldl apply zeroed

theorem sound_run (ops : List Op) : Sound (run ops) := by
  induction ops using List.reverseRecOn with
  | nil => exact sound_zeroed
  | append_singleton ops op ih =>
    rw [run,List.foldl_append]
    exact sound_apply ih op

end

theorem wordAddress_toNat (pa : Uint) : (wordAddress pa).toNat=pa.toNat/2*2 := by
  have h : wordAddress pa=(pa >>> 1) <<< 1 := by
    ext i hi
    rw [wordAddress,BitVec.getElem_and,BitVec.getElem_not,
      show (1 : Uint)[i]=decide (i=0) from BitVec.getElem_one hi]
    cases i with
    | zero => simp
    | succ i => simp [Nat.add_comm 1,hi]
  have hlt := pa.isLt
  rw [h,BitVec.toNat_shiftLeft,BitVec.toNat_ushiftRight,Nat.shiftLeft_eq,Nat.shiftRight_eq_div_pow]
  omega

theorem isOwnRegister_iff (pa : Uint) : isOwnRegister pa ↔
    (0o772300≤pa.toNat ∧ pa.toNat≤0o772317) ∨ (0o772340≤pa.toNat ∧ pa.toNat≤0o772357) ∨
    (0o777572≤pa.toNat ∧ pa.toNat≤0o777577) ∨ (0o777600≤pa.toNat ∧ pa.toNat≤0o777617) ∨
    (0o777640≤pa.toNat ∧ pa.toNat≤0o777657) := by
  simp only [isOwnRegister,BitVec.lt_def,BitVec.le_def]
  split_ifs <;> simp <;> simp at * <;> omega

theorem lookup_isSome {pa : Uint} (ho : isOwnRegister pa) (he : pa.toNat%2=0) : (lookup pa).isSome=true := by
  have hr := (isOwnRegister_iff pa).mp ho
  simp only [lookup,ho,Bool.not_true,Bool.false_eq_true,if_false,← BitVec.toNat_inj,
    BitVec.le_def,Bool.and_eq_true,decide_eq_true_eq]
  split_ifs <;> simp
  all_goals simp at *
  all_goals omega

theorem isOwnRegister_eq (pa : Uint) : isOwnRegister pa=(lookup (wordAddress pa)).isSome := by
  have hp := wordAddress_toNat pa
  have hq : isOwnRegister (wordAddress pa)=true ↔ isOwnRegister pa=true := by
    rw [isOwnRegister_iff,isOwnRegister_iff,hp]
    omega
  cases ho : isOwnRegister pa with
  | true => exact (lookup_isSome (hq.mpr ho) (by rw [hp]; omega)).symm
  | false =>
    have hn : isOwnRegister (wordAddress pa)=false := by
      rw [← Bool.not_eq_true,hq,ho]
      simp
    simp [lookup,hn]
/-- What the page registers say of a reference: which are refused, and what MMR0 then records, or else
the physical address and the W bit. -/
def Follows (m m' : Kt11d) (va : Word) (space : Space) (access : Access) : Option Uint → Prop
  | none =>
    ((m.accessMode≠modeKernel ∧ m.accessMode≠modeUser) ∨
      acfForbids (m.pdr (pageIndex space va)) access ∨ ¬inPage (m.pdr (pageIndex space va)) va) ∧
    m'.pdr=m.pdr ∧ m'.mmr1=m.mmr1 ∧ m'.mmr2=m.mmr2 ∧ (m.frozen=true → m'.mmr0=m.mmr0) ∧ (m.frozen=false →
      m'.mmr0 &&& mmr0Aborts=causes m.accessIllegal (m.pdr (pageIndex space va)) va access ∧
      m'.mmr0 &&& mmr0Mode=m.accessMode.setWidth 16 <<< 5 ∧ m'.mmr0 &&& mmr0Page=(va >>> 13) <<< 1)
  | some pa =>
    ((m.accessMode=modeKernel ∨ m.accessMode=modeUser) ∧
      ¬acfForbids (m.pdr (pageIndex space va)) access ∧ inPage (m.pdr (pageIndex space va)) va) ∧
    pa.toNat=relocated (m.par (pageIndex space va)) va ∧ m'.pdr=if access=.write ∧ lookup (wordAddress pa)=none then
      update m.pdr (pageIndex space va) (m.pdr (pageIndex space va) ||| pdrW) else m.pdr

section
variable {m : Kt11d}

theorem Sound.forbidden_iff (h : Sound m) {va : Word} {space : Space} {access : Access} :
    m.Forbidden va space access ↔ (m.accessMode≠modeKernel ∧ m.accessMode≠modeUser) ∨
        acfForbids (m.pdr (pageIndex space va)) access ∨ ¬inPage (m.pdr (pageIndex space va)) va := by
  rw [Forbidden,h.illegal,Bool.and_eq_true,decide_eq_true_eq,decide_eq_true_eq]

theorem relocate_follows (h : Sound m) (ha : m.Active) (va : Word) (space : Space) (access : Access) :
    Follows m (m.relocate va space access).1 va space access (m.relocate va space access).2 := by
  have hd : m.Derived := h.derived (ha.imp_right And.left)
  rw [relocate_eq hd ha]
  by_cases hforb : m.Forbidden va space access
  · rw [if_pos hforb]
    refine ⟨h.forbidden_iff.mp hforb,?_,?_,?_,?_,?_⟩
    · split_ifs <;> rfl
    · split_ifs <;> rfl
    · split_ifs <;> rfl
    · intro hf
      rw [if_pos hf]
    · intro hf
      have h0 : m.mmr0 &&& mmr0Aborts=0 := by
        rw [h.frozen] at hf
        simpa using hf
      have hz (mask : Word) (hm : mmr0Aborts &&& mask=0) :
          causes m.accessIllegal (m.pdr (pageIndex space va)) va access &&& mask=0 := by
        rw [← causes_aborts,BitVec.and_assoc,hm]
        simp
      rw [if_neg (by simp [hf])]
      refine ⟨?_,m.recordReference_mode va _ (hz _ (by decide)),
        m.recordReference_page va _ (hz _ (by decide))⟩
      rw [m.recordReference_and _ _ (by decide),BitVec.and_or_distrib_right,h0,causes_aborts]
      simp
  · rw [if_neg hforb]
    have hok := mt h.forbidden_iff.mpr hforb
    rw [not_or,not_or,not_not] at hok
    refine ⟨⟨by tauto,hok.2.1,hok.2.2⟩,?_,?_⟩
    · rw [BitVec.toNat_ofNat,relocated]
      omega
    · simp only [isOwnRegister_eq,isSome_eq_false_iff,isNone_iff_eq_none]

end

/-- The fast path, whatever was done to the unit before, is what the page registers say, and the flags
it goes by are the bits of MMR0. -/
theorem relocate_registers (ops : List Op) : Flags (run ops) ∧ ∀ va space access,(run ops).Active →
      Follows (run ops) ((run ops).relocate va space access).1 va space access
        ((run ops).relocate va space access).2 := by
  have h := sound_run ops
  exact ⟨h.toFlags,fun va space access ha => relocate_follows h ha va space access⟩

end QUniLator.Cpu34.Kt11d
