import QUniLator.Cpu34.Step
import QUniLator.Framework.OneBitShift
import Mathlib.Tactic.IntervalCases

/-! The extended instructions against what they are: shifts bit by bit, the division, the product; and a
comparison with its branches. -/

namespace QUniLator.Cpu34

open Cc BitVec Function

def shiftCount (dr : Word) : Int := (dr.setWidth 6).toInt

def shiftedCc {w : Nat} (s : Shifted w) : Cc :=
  setIf (setIf (setIf (setIf 0 s.carry ccC) s.overflow ccV) (s.value=0) ccZ) s.value.msb ccN

def carryCc (carry overflow : Bool) : Cc := setIf (setIf 0 carry ccC) overflow ccV

theorem clear_carry (cc : Cc) : clear cc (ccN ||| ccZ ||| ccV)=carryCc (cc.getLsbD 0) false := by
  revert cc
  decide

theorem carryCc_carry (c v c' : Bool) : setIf (clear (carryCc c v) ccC) c' ccC=carryCc c' v := by
  revert c v c'
  decide

theorem carryCc_overflow (c v v' : Bool) : setIf (carryCc c v) v' ccV=carryCc c (v || v') := by
  revert c v v'
  decide

theorem carryCc_nz (c v z n : Bool) (h : ¬(z && n)) : setIf (setIf (clear (carryCc c v) (ccN ||| ccZ)) n ccN) z ccZ =
      setIf (setIf (carryCc c v) z ccZ) n ccN := by
  revert c v z n
  decide

theorem setnz_carryCc (c v : Bool) (w : Word) : setnz (carryCc c v) w=shiftedCc ⟨w,c,v⟩ := by
  have hs : sgn w=w.msb := (msb_eq_getLsbD_last w).symm
  have hzn : ¬(decide (w=0) && w.msb)=true := by
    rw [Bool.and_eq_true,decide_eq_true_eq]
    rintro ⟨rfl,h⟩
    cases h
  rw [setnz,hs,carryCc_nz _ _ _ _ hzn]
  rfl

/-- The loop of the left shifts, on a carrier that may be wider than the number. -/
theorem shiftLeft_left (top n : Nat) (htop : top<32) (b : Uint) (s : Shifted (top+1))
    (hb : b.setWidth (top+1)=s.value) : ∃ b',shiftLeft top n b (carryCc s.carry s.overflow) =
        (b',carryCc (Shifted.left^[n] s).carry (Shifted.left^[n] s).overflow) ∧
      b'.setWidth (top+1)=(Shifted.left^[n] s).value := by
  induction n generalizing b s with
  | zero => exact ⟨b,rfl,hb⟩
  | succ n ih =>
    have htopBit (x : Uint) : x.getLsbD top=(x.setWidth (top+1)).msb := by
      rw [msb_eq_getLsbD_last,getLsbD_setWidth]
      simp
    have hshift : (b <<< 1).setWidth (top+1)=s.value <<< 1 := by
      rw [← hb]
      ext i hi
      simp only [getElem_setWidth,getLsbD_shiftLeft,getElem_shiftLeft]
      rw [decide_eq_true (by omega : i<32)]
      cases i with
      | zero => simp
      | succ i => simp [getLsbD_eq_getElem (by omega : i<32)]
    obtain ⟨b',hloop,hval⟩ := ih (b <<< 1) s.left hshift
    refine ⟨b',?_,hval⟩
    have hv : ((b ^^^ b <<< 1).getLsbD top)=(s.value.msb != (s.value <<< 1).msb) := by
      rw [getLsbD_xor,htopBit,htopBit,hb,hshift]
    simp only [shiftLeft]
    rw [carryCc_carry,carryCc_overflow,hv,htopBit b,hb]
    exact hloop

theorem shiftCount_eq (dr : Word) : shiftCount dr =
    if 32≤(dr &&& 0o77).toNat then ((dr &&& 0o77).toNat : Int)-64 else (dr &&& 0o77).toNat := by
  have hsh : (dr.setWidth 6).toNat=(dr &&& 0o77).toNat := by
    rw [toNat_setWidth,toNat_and]
    exact (Nat.and_two_pow_sub_one_eq_mod dr.toNat 6).symm
  have hlt := (dr.setWidth 6).isLt
  rw [shiftCount,toInt_eq_toNat_cond,hsh]
  rw [hsh] at hlt
  split_ifs <;> omega

variable {w n : Nat}

theorem sshiftRight_out (x : BitVec w) (hn : w≤n) : x.sshiftRight n=if x.msb then BitVec.allOnes w else 0 := by
  ext i hi
  rw [getElem_sshiftRight,dif_neg (by omega)]
  cases x.msb <;> simp

theorem sshiftRight_parts (x : BitVec w) (hn : n≤w) :
    x.sshiftRight n=x >>> n ||| (if x.msb then BitVec.allOnes w else 0) <<< (w-n) := by
  ext i hi
  rw [getElem_sshiftRight,getElem_or,getElem_ushiftRight,getElem_shiftLeft]
  by_cases h : n+i<w
  · rw [dif_pos h,decide_eq_true (by omega : i<w-n)]
    simp [getLsbD_eq_getElem h]
  · rw [dif_neg h,decide_eq_false (by omega : ¬i<w-n),getLsbD_of_ge _ _ (by omega)]
    cases x.msb <;> simp

theorem right_carry_bit (s : Shifted w) (hn : n<w) : (Shifted.right^[n+1] s).carry=s.value.getLsbD n := by
  rw [Shifted.right_carry,getLsbD_sshiftRight,decide_eq_false (by omega : ¬w≤0)]
  simp [hn]

theorem right_carry_sign (s : Shifted w) (hw : 0<w) (hn : w≤n) : (Shifted.right^[n+1] s).carry=s.value.msb := by
  rw [Shifted.right_carry,getLsbD_sshiftRight,decide_eq_false (by omega : ¬w≤0),
    if_neg (by omega)]
  rfl

theorem setnz_sgn (cc : Cc) (w : Word) : setIf (setnz cc w) (sgn w) ccN=setnz cc w := by
  have h : ∀ (cc : Cc) (n z : Bool),
      setIf (setIf (setIf cc n ccN) z ccZ) n ccN=setIf (setIf cc n ccN) z ccZ := by
    decide
  exact h _ _ _

theorem shiftedCc_sgn (c v : Bool) (w : Word) : setIf (shiftedCc ⟨w,c,v⟩) (sgn w) ccN=shiftedCc ⟨w,c,v⟩ := by
  rw [← setnz_carryCc,setnz_sgn]

theorem right_eq {w : Nat} (v : BitVec w) (c : Bool) (n : Nat) : Shifted.right^[n+1] ⟨v,c,false⟩ =
    ⟨v.sshiftRight (n+1),(Shifted.right^[n+1] ⟨v,c,false⟩).carry,false⟩ :=
  Shifted.ext (Shifted.right_value _ _) rfl (Shifted.right_overflow _ _)

theorem eisAsh_right (c : Bool) (v : Word) (n : Nat) :
    (let mask : Word := if sgn v then 0o177777 else 0
    if 17≤n+1 then (mask,setnz (setIf (clear (carryCc c false) ccC) (mask≠0) ccC) mask)
    else
      let cc := setIf (clear (carryCc c false) ccC) (v.getLsbD n) ccC
      let b := v >>> (n+1) ||| mask <<< (16-(n+1))
      (b,setIf (setnz cc b) (sgn b) ccN)) =
    ((Shifted.right^[n+1] ⟨v,c,false⟩).value,shiftedCc (Shifted.right^[n+1] ⟨v,c,false⟩)) := by
  have hs : sgn v=v.msb := (msb_eq_getLsbD_last v).symm
  have hmask : (if sgn v then (0o177777 : Word) else 0) =
      if v.msb then BitVec.allOnes 16 else 0 := by rw [hs]; rfl
  by_cases h17 : 17≤n+1
  · have hout := sshiftRight_out v (by omega : 16≤n+1)
    have hc : (decide ((if v.msb then BitVec.allOnes 16 else 0)≠(0 : Word)))=v.msb := by
      cases v.msb <;> decide
    rw [right_eq,right_carry_sign _ (by decide) (by omega)]
    simp only [if_pos h17,hmask,carryCc_carry,setnz_carryCc,hout,hc]
  · have hparts := sshiftRight_parts v (by omega : n+1≤16)
    rw [right_eq,right_carry_bit _ (by omega)]
    simp only [if_neg h17,hmask,carryCc_carry,setnz_carryCc,shiftedCc_sgn,hparts]

theorem eisAsh_left (c : Bool) (v : Word) (n : Nat) : (if n=0 then (v,setnz (carryCc c false) v) else if 17≤n then
      (0,setIf (clear (setIf (carryCc c false) (v≠0) ccV) ccC) true ccZ) else
      let (b,cc) := shiftLeft 15 n (toUint v) (carryCc c false)
      (toWord b,setnz cc (toWord b))) =
    ((Shifted.left^[n] ⟨v,c,false⟩).value,shiftedCc (Shifted.left^[n] ⟨v,c,false⟩)) := by
  by_cases h0 : n=0
  · subst h0
    rw [if_pos rfl,setnz_carryCc]
    rfl
  by_cases h17 : 17≤n
  · obtain ⟨k,rfl⟩ : ∃ k,n=k+1 := ⟨n-1,by omega⟩
    have hout (i : Nat) (hi : 16 ≤ i) : v <<< i=0 := shiftLeft_eq_zero hi
    have hval : (Shifted.left^[k+1] ⟨v,c,false⟩).value=0 := by
      rw [Shifted.left_value,hout _ (by omega)]
    have hcarry : (Shifted.left^[k+1] ⟨v,c,false⟩).carry=false := by
      rw [Shifted.left_carry,hout _ (by omega)]
      rfl
    have hover : (Shifted.left^[k+1] ⟨v,c,false⟩).overflow=decide (v≠0) := by
      rw [Bool.eq_iff_iff,Shifted.left_overflow_out _ (by omega)]
      simp
    rw [if_neg h0,if_pos h17,shiftedCc,hval,hcarry,hover,carryCc_overflow]
    generalize decide (v≠0)=o
    clear hval hcarry hover
    revert c o
    decide
  · obtain ⟨b,hloop,hb⟩ := shiftLeft_left 15 n (by decide) (toUint v) ⟨v,c,false⟩
      (setWidth_setWidth_of_le v (by decide))
    have hword : toWord b=(Shifted.left^[n] ⟨v,c,false⟩).value := hb
    simp only [if_neg h0,if_neg h17,hloop,hword,setnz_carryCc]

theorem sixBits (dr : Word) : (dr &&& 0o77).toNat<64 := by
  rw [toNat_and]
  exact lt_of_le_of_lt Nat.and_le_right (by decide)

theorem eisAsh_shifts (cc : Cc) (v dr : Word) :
    eisAsh cc v dr=(((⟨v,cc.getLsbD 0,false⟩ : Shifted 16).by_ (shiftCount dr)).value,
      shiftedCc ((⟨v,cc.getLsbD 0,false⟩ : Shifted 16).by_ (shiftCount dr))) := by
  have hlt := sixBits dr
  simp only [eisAsh,Shifted.by_,shiftCount_eq,clear_carry]
  generalize (dr &&& 0o77).toNat=sh at hlt
  generalize cc.getLsbD 0=c
  by_cases h32 : 32 ≤ sh
  · rw [if_pos h32,if_pos h32,if_neg (by omega : ¬0≤(sh : Int)-64)]
    obtain ⟨n,hn⟩ : ∃ n,64-sh=n+1 := ⟨63-sh,by omega⟩
    have habs : ((sh : Int)-64).natAbs=n+1 := by omega
    rw [hn,habs]
    exact eisAsh_right c v n
  · rw [if_neg h32,if_neg h32,if_pos (Int.natCast_nonneg sh),Int.toNat_natCast]
    exact eisAsh_left c v sh

theorem eisAshc_shifts (cc : Cc) (val : Uint) (dr : Word) :
    eisAshc cc val dr=(((⟨val,cc.getLsbD 0,false⟩ : Shifted 32).by_ (shiftCount dr)).value,
      shiftedCc ((⟨val,cc.getLsbD 0,false⟩ : Shifted 32).by_ (shiftCount dr))) := by
  have hlt := sixBits dr
  have htop (x : Uint) : x.getLsbD 31=x.msb := (msb_eq_getLsbD_last x).symm
  simp only [eisAshc,Shifted.by_,shiftCount_eq,clear_carry,htop]
  generalize (dr &&& 0o77).toNat=sh at hlt
  generalize cc.getLsbD 0=c
  by_cases h32 : 32 ≤ sh
  · rw [if_pos h32,if_pos h32,if_neg (by omega : ¬0≤(sh : Int)-64)]
    obtain ⟨n,hn⟩ : ∃ n,64-sh=n+1 := ⟨63-sh,by omega⟩
    have habs : ((sh : Int)-64).natAbs=n+1 := by omega
    rw [hn,habs,right_eq]
    by_cases hall : 32≤n+1
    · have hout := sshiftRight_out val (by omega : 32≤n+1)
      have hc : (decide ((if val.msb then 0xffffffff else 0)≠(0 : Uint)))=val.msb := by
        cases val.msb <;> decide
      have hcarry : (Shifted.right^[n+1] ⟨val,c,false⟩).carry=val.msb := by
        rw [Shifted.right_carry,getLsbD_sshiftRight]
        obtain rfl : n=31 := by omega
        exact htop val
      simp only [if_pos hall,carryCc_carry,hc,hcarry,hout]
      rfl
    · have hparts := sshiftRight_parts val (by omega : n+1≤32)
      rw [right_carry_bit _ (by omega)]
      simp only [if_neg hall,carryCc_carry,hparts]
      rfl
  · rw [if_neg h32,if_neg h32,if_pos (Int.natCast_nonneg sh),Int.toNat_natCast]
    obtain ⟨b,hloop,hb⟩ := shiftLeft_left 31 sh (by decide) val ⟨val,c,false⟩ (setWidth_eq val)
    have hval : b=(Shifted.left^[sh] ⟨val,c,false⟩).value := (setWidth_eq b).symm.trans hb
    simp only [hloop,hval]
    rfl

/-- `q` and `rem` are quotient and remainder, the remainder with the sign of the dividend. -/
def DividesTo (n d q rem : Int) : Prop := n=q*d+rem ∧ rem.natAbs<d.natAbs ∧ 0 ≤ rem*n

theorem tdiv_dividesTo {n d : Int} (hd : d≠0) : DividesTo n d (n.tdiv d) (n.tmod d) := by
  refine ⟨?_,?_,?_⟩
  · rw [mul_comm]
    exact (Int.mul_tdiv_add_tmod n d).symm
  · rw [Int.natAbs_tmod]
    exact Nat.mod_lt _ (Int.natAbs_pos.mpr hd)
  · obtain hn | hn := le_total 0 n
    · exact mul_nonneg (Int.tmod_nonneg d hn) hn
    · have hneg : n.tmod d≤0 := by
        have h := Int.tmod_nonneg d (neg_nonneg.mpr hn)
        rw [Int.neg_tmod] at h
        omega
      exact mul_nonneg_of_nonpos_of_nonpos hneg hn

def FitsWord (q : Int) : Prop := -32768≤q ∧ q≤32767

instance (q : Int) : Decidable (FitsWord q) := inferInstanceAs (Decidable (_ ∧ _))

theorem ofInt_toInt {q : Int} (h : FitsWord q) : (BitVec.ofInt 16 q).toInt=q := by
  obtain ⟨h1,h2⟩ := h
  rw [toInt_ofInt,Int.bmod_eq_of_le (by omega) (by omega)]

theorem eisDiv_quotient (prod : Uint) {dr : Word} (hdr : dr≠0) :
    ∃ q rem,DividesTo prod.toInt dr.toInt q rem ∧ (if FitsWord q then
        (eisDiv prod dr).1=some (BitVec.ofInt 16 q,BitVec.ofInt 16 rem) ∧
          isSet (eisDiv prod dr).2 ccV=false ∧ FitsWord rem
      else (eisDiv prod dr).1=none ∧ isSet (eisDiv prod dr).2 ccV) := by
  have hd : dr.toInt≠0 := fun h => hdr (toInt_inj.mp h)
  have hdiv := tdiv_dividesTo (n := prod.toInt) hd
  refine ⟨_,_,hdiv,?_⟩
  have hlow := dr.toInt_lt
  have hhigh := dr.le_toInt
  by_cases hmin : prod.toInt = -2147483648 ∧ dr.toInt = -1
  · have hcond : (decide (prod.toInt = -2147483648) && decide (dr.toInt = -1))=true := by
      simp [hmin]
    have hbig : ¬FitsWord (prod.toInt.tdiv dr.toInt) := by
      rw [hmin.1,hmin.2]
      decide
    rw [if_neg hbig,eisDiv,if_neg hdr,if_pos hcond]
    exact ⟨rfl,rfl⟩
  · have hcond : ¬(decide (prod.toInt = -2147483648) && decide (dr.toInt = -1))=true := by
      simpa using hmin
    have hrem : FitsWord (prod.toInt.tmod dr.toInt) := by
      have h := hdiv.2.1
      constructor <;> omega
    have hv (o n z : Bool) : isSet (setIf (setIf (setIf 0 o ccV) n ccN) z ccZ) ccV=o := by
      revert o n z
      decide
    simp only [eisDiv,if_neg hdr,if_neg hcond,hv]
    have hbig : (decide (prod.toInt.tdiv dr.toInt < -32768) ||
        decide (32767<prod.toInt.tdiv dr.toInt))=decide (¬FitsWord (prod.toInt.tdiv dr.toInt)) := by
      rw [← Bool.decide_or,decide_eq_decide]
      unfold FitsWord
      omega
    by_cases hfit : FitsWord (prod.toInt.tdiv dr.toInt)
    · rw [decide_eq_false (not_not.mpr hfit)] at hbig
      rw [if_pos hfit,hbig]
      exact ⟨rfl,rfl,hrem⟩
    · rw [decide_eq_true hfit] at hbig
      rw [if_neg hfit,hbig]
      exact ⟨rfl,rfl⟩

theorem eisMul_product (v1 v2 : Word) : (eisMul v1 v2).1.toInt=v1.toInt*v2.toInt := by
  have hlow : -(2^30)≤v1.toInt*v2.toInt := le_toInt_mul_toInt
  have hhigh : v1.toInt*v2.toInt≤2^30 := toInt_mul_toInt_le
  change (v1.signExtend 32*v2.signExtend 32).toInt=_
  rw [toInt_mul,toInt_signExtend_of_le (by decide),
    toInt_signExtend_of_le (by decide)]
  apply Int.bmod_eq_of_le <;> omega

theorem setCc_cc (s : State) (cc : Cc) : (s.setCc cc).cc=cc := by
  simp only [State.cc,State.setCc]
  ext i hi
  interval_cases i <;> simp

abbrev general (reg : BitVec 3) : BitVec 4 := reg.setWidth 4

theorem general_bit (reg : BitVec 3) : (general reg).getLsbD 0=reg.getLsbD 0 := by
  revert reg
  decide

theorem general_pair {reg : BitVec 3} (h : reg.getLsbD 0=false) :
    general reg+1=general reg ||| 1 ∧ general reg ||| 1≠general reg := by
  revert reg
  decide

theorem pair_update (r : BitVec 4 → Word) {reg : BitVec 3} (h : reg.getLsbD 0=false) (hi lo : Word) :
    pair (update (update r (general reg ||| 1) lo) (general reg) hi) (general reg) = hi++lo := by
  rw [pair,update_self,update_of_ne (general_pair h).2,update_self]

theorem pair_update' (r : BitVec 4 → Word) {reg : BitVec 3} (h : reg.getLsbD 0=false) (hi lo : Word) :
    pair (update (update r (general reg) hi) (general reg ||| 1) lo) (general reg) = hi++lo := by
  rw [update_comm (Ne.symm (general_pair h).2),pair_update r h]

theorem halves (x : Uint) : toWord (x >>> 16)++toWord x=x := by
  ext i hi
  simp only [toWord,getElem_append,getElem_setWidth,getLsbD_ushiftRight]
  split_ifs with h
  · exact getLsbD_eq_getElem hi
  · rw [show 16+(i-16)=i by omega]
    exact getLsbD_eq_getElem hi

theorem ofInt_word (x : Uint) : BitVec.ofInt 16 x.toInt=toWord x := by
  apply eq_of_toInt_eq
  rw [toInt_ofInt,toInt_eq_toNat_bmod,Int.bmod_bmod_of_dvd (by decide),toWord,
    toInt_setWidth]

section
variable (s : State) (reg : BitVec 3)

theorem ashc_registers {val : Uint} {cc : Cc} (h : eisAshc s.cc (pair s.r (general reg)) (s.r rDR)=(val,cc)) :
    (s.ashc (general reg)).cc=cc ∧
      if reg.getLsbD 0 then (s.ashc (general reg)).r=update s.r (general reg) (toWord val)
      else pair (s.ashc (general reg)).r (general reg)=val ∧
        ∀ i,i≠general reg → i≠general reg ||| 1 → (s.ashc (general reg)).r i=s.r i := by
  simp only [State.ashc,h,general_bit]
  cases hodd : reg.getLsbD 0 with
  | true => exact ⟨setCc_cc s cc,rfl⟩
  | false =>
    rw [(general_pair hodd).1]
    refine ⟨setCc_cc s cc,?_,?_⟩
    · exact (pair_update' s.r hodd _ _).trans (halves val)
    · intro i h1 h2
      exact (update_of_ne h2 _ _).trans (update_of_ne h1 _ _)

theorem mul_registers {prod : Uint} {cc : Cc} (h : eisMul (s.r rDR) (s.r (general reg))=(prod,cc)) :
    if reg.getLsbD 0 then (s.mul (general reg)).r=update s.r (general reg) (toWord prod)
    else pair (s.mul (general reg)).r (general reg)=prod ∧
      ∀ i,i≠general reg → i≠general reg ||| 1 → (s.mul (general reg)).r i=s.r i := by
  simp only [State.mul,h,general_bit]
  cases hodd : reg.getLsbD 0 with
  | true => rfl
  | false =>
    rw [(general_pair hodd).1]
    refine ⟨?_,?_⟩
    · exact (pair_update s.r hodd _ _).trans (halves prod)
    · intro i h1 h2
      exact (update_of_ne h1 _ _).trans (update_of_ne h2 _ _)

theorem div_registers (hdr : s.r rDR≠0) : ∃ q rem,
    DividesTo (pair s.r (general reg)).toInt (s.r rDR).toInt q rem ∧ if FitsWord q then
      isSet (s.div (general reg)).cc ccV=false ∧ ((s.div (general reg)).r (general reg ||| 1)).toInt=rem ∧
      (reg.getLsbD 0=false → ((s.div (general reg)).r (general reg)).toInt=q) ∧
      ∀ i,i≠general reg → i≠general reg ||| 1 → (s.div (general reg)).r i=s.r i
    else isSet (s.div (general reg)).cc ccV=true ∧ (s.div (general reg)).r=s.r := by
  obtain ⟨q,rem,hdiv,hcase⟩ := eisDiv_quotient (pair s.r (general reg)) hdr
  refine ⟨q,rem,hdiv,?_⟩
  by_cases hfit : FitsWord q
  · rw [if_pos hfit] at hcase ⊢
    obtain ⟨hres,hv,hrem⟩ := hcase
    have hr : (s.div (general reg)).r=update
        (update s.r (general reg) (BitVec.ofInt 16 q)) (general reg ||| 1)
          (BitVec.ofInt 16 rem) := by
      simp only [State.div,hres]
      rfl
    have hcc : (s.div (general reg)).cc=(eisDiv (pair s.r (general reg)) (s.r rDR)).2 := by
      simp only [State.div,hres]
      exact setCc_cc s _
    rw [hcc,hr]
    refine ⟨hv,?_,?_,?_⟩
    · rw [update_self,ofInt_toInt hrem]
    · intro heven
      rw [update_of_ne (Ne.symm (general_pair heven).2),update_self,ofInt_toInt hfit]
    · intro i h1 h2
      rw [update_of_ne h2,update_of_ne h1]
  · rw [if_neg hfit] at hcase ⊢
    obtain ⟨hres,hv⟩ := hcase
    simp only [State.div,hres]
    exact ⟨(congrArg (isSet · ccV) (setCc_cc s _)).trans hv,rfl⟩

end

/-- The extended instructions with the operand in DR: shifts bit by bit, the product, and the division,
of which an odd register keeps the remainder, or the lower half of a product or a pair. -/
theorem eis_definitions (s : State) (reg : BitVec 3) :
    (let sh := (⟨s.r (general reg),s.cc.getLsbD 0,false⟩ : Shifted 16).by_ (shiftCount (s.r rDR))
    (s.ash (general reg)).r=update s.r (general reg) sh.value ∧
      (s.ash (general reg)).cc=shiftedCc sh) ∧
    (let sh := (⟨pair s.r (general reg),s.cc.getLsbD 0,false⟩ : Shifted 32).by_ (shiftCount (s.r rDR))
    (s.ashc (general reg)).cc=shiftedCc sh ∧
      if reg.getLsbD 0 then
        (s.ashc (general reg)).r=update s.r (general reg) (toWord sh.value)
      else pair (s.ashc (general reg)).r (general reg)=sh.value ∧
        ∀ i,i≠general reg → i≠general reg ||| 1 → (s.ashc (general reg)).r i=s.r i) ∧
    (s.r rDR≠0 → ∃ q rem,DividesTo (pair s.r (general reg)).toInt (s.r rDR).toInt q rem ∧
      if FitsWord q then
        isSet (s.div (general reg)).cc ccV=false ∧
        ((s.div (general reg)).r (general reg ||| 1)).toInt=rem ∧
        (reg.getLsbD 0=false → ((s.div (general reg)).r (general reg)).toInt=q) ∧
        ∀ i,i≠general reg → i≠general reg ||| 1 → (s.div (general reg)).r i=s.r i
      else isSet (s.div (general reg)).cc ccV=true ∧ (s.div (general reg)).r=s.r) ∧
    (let prod := (s.r rDR).toInt*(s.r (general reg)).toInt
    if reg.getLsbD 0 then
      (s.mul (general reg)).r=update s.r (general reg) (BitVec.ofInt 16 prod)
    else (pair (s.mul (general reg)).r (general reg)).toInt=prod ∧
      ∀ i,i≠general reg → i≠general reg ||| 1 → (s.mul (general reg)).r i=s.r i) := by
  refine ⟨⟨?_,?_⟩,?_,div_registers s reg,?_⟩
  · exact congrArg (update s.r (general reg)) (congrArg Prod.fst (eisAsh_shifts _ _ _))
  · exact (setCc_cc s _).trans (congrArg Prod.snd (eisAsh_shifts _ _ _))
  · exact ashc_registers s reg (eisAshc_shifts _ _ _)
  · have hprod := eisMul_product (s.r rDR) (s.r (general reg))
    have hreg := mul_registers s reg (Prod.mk.eta (p := eisMul (s.r rDR) (s.r (general reg)))).symm
    cases hodd : reg.getLsbD 0 with
    | true =>
      rw [hodd,if_pos rfl] at hreg
      rw [if_pos rfl,hreg,← hprod,ofInt_word]
    | false =>
      rw [hodd,if_neg (by decide)] at hreg
      rw [if_neg (by decide),hreg.1,hprod]
      exact ⟨rfl,hreg.2⟩

/-- R1 = 1 and DIV #3,R1: the pair 65537 gives 21845 and 2, of which R1 keeps the 2 alone. -/
theorem div_odd_keeps_remainder : ¬∀ (s : State) (reg : BitVec 3) (q rem : Int),s.r rDR≠0 →
    DividesTo (pair s.r (general reg)).toInt (s.r rDR).toInt q rem → FitsWord q →
    ((s.div (general reg)).r (general reg)).toInt*(s.r rDR).toInt+
      ((s.div (general reg)).r (general reg ||| 1)).toInt=(pair s.r (general reg)).toInt := by
  intro h
  have hdiv : DividesTo (pair ((State.zeroed.setR 1 1).setR rDR 3).r 1).toInt 3 21845 2 := by
    unfold DividesTo
    decide +kernel
  have heq := h ((State.zeroed.setR 1 1).setR rDR 3) 1 21845 2 (by decide) hdiv (by decide)
  revert heq
  decide +kernel

variable (by_ : Bool) (cc : Cc) (x y w : Word)

def signed : Int := if by_ then (w.setWidth 8).toInt else w.toInt

def unsigned : Nat := if by_ then (w.setWidth 8).toNat else w.toNat

theorem sgn_eq : sgn w=decide (w.toInt<0) := by
  rw [← msb_eq_toInt,msb_eq_getLsbD_last]
  rfl

theorem bxt_toInt : (bxt by_ w).toInt=signed by_ w := by
  cases by_ with
  | false => rfl
  | true => exact toInt_signExtend_of_le (by decide)

/-- The operand as a number, and its lower half or all of it -/
theorem operand : (bxt by_ w).toNat<65536 ∧
    (signed by_ w=(bxt by_ w).toNat ∧ (bxt by_ w).toNat<32768 ∨
      signed by_ w=(bxt by_ w).toNat-65536 ∧ 32768≤(bxt by_ w).toNat) ∧
    if by_ then unsigned by_ w<256 ∧ (signed by_ w=unsigned by_ w ∧ unsigned by_ w<128 ∨
      signed by_ w=unsigned by_ w-256 ∧ 128≤unsigned by_ w) else unsigned by_ w=(bxt by_ w).toNat := by
  have hlt := (bxt by_ w).isLt
  have hi := toInt_eq_toNat_cond (bxt by_ w)
  rw [bxt_toInt] at hi
  refine ⟨hlt,by omega,?_⟩
  cases by_ with
  | false => rfl
  | true =>
    have hb := (w.setWidth 8).isLt
    have hi := toInt_eq_toNat_cond (w.setWidth 8)
    simp only [signed,unsigned,if_true]
    omega

theorem difference_word : toWord (toUint x+toUint (~~~y)+1)=x-y ∧
    ((toUint x+toUint (~~~y)+1) &&& 0o200000=0 ↔ x.toNat<y.toNat) := by
  have hx := x.isLt
  have hy := y.isLt
  generalize hb : toUint x+toUint (~~~y)+1=b
  have hsum : b.toNat=x.toNat+(65535-y.toNat)+1 := by
    rw [← hb]
    simp [toUint]
    omega
  constructor
  · apply eq_of_toNat_eq
    rw [toWord,toNat_setWidth,hsum,toNat_sub]
    omega
  have hbit : b.getLsbD 16=decide (b.toNat/2^16%2=1) := Nat.testBit_eq_decide_div_mod_eq
  rw [show (0o200000 : Uint)=twoPow 32 16 by decide,and_twoPow]
  split_ifs with h
  · exact iff_of_false (by decide) (by simp only [hbit,decide_eq_true_eq] at h; omega)
  · exact iff_of_true rfl (by simp only [hbit,decide_eq_true_eq] at h; omega)

theorem difference_signed : (bxt by_ (bxt by_ x-bxt by_ y)).toInt =
    (signed by_ x-signed by_ y).bmod (if by_ then 256 else 65536) := by
  have h := toInt_sub (x := bxt by_ x) (y := bxt by_ y)
  rw [bxt_toInt,bxt_toInt] at h
  rw [bxt_toInt]
  cases by_ with
  | false => exact h
  | true =>
    rw [toInt_eq_toNat_bmod] at h
    have h8 : Int.bmod _ 256=Int.bmod _ 256 := congrArg (Int.bmod · 256) h
    rw [Int.bmod_bmod_of_dvd (by decide),Int.bmod_bmod_of_dvd (by decide)] at h8
    exact (toInt_setWidth ..).trans h8

theorem opCmp_codes : ∃ n v,
    (opCmp by_ cc (bxt by_ x) (bxt by_ y)).2 = setIf (setIf (carryCc (unsigned by_ x<unsigned by_ y) v)
        (signed by_ x=signed by_ y) ccZ) n ccN ∧ (n^^v)=decide (signed by_ x<signed by_ y) := by
  have hx := operand by_ x
  have hy := operand by_ y
  have hs := difference_signed by_ x y
  have ha := bxt_toInt by_ x
  have hb := bxt_toInt by_ y
  obtain ⟨hw,hc⟩ := difference_word (bxt by_ x) (bxt by_ y)
  have hc : decide (toUint (bxt by_ x)+toUint (~~~bxt by_ y)+1 &&& 0o200000=0) =
      decide (unsigned by_ x<unsigned by_ y) := by
    rw [decide_eq_decide,hc]
    cases by_ <;> simp only [if_true,Bool.false_eq_true,if_false] at hx hy <;> omega
  have hw : toWord (if by_ then toUint (sxt (toWord (toUint (bxt by_ x)+toUint (~~~bxt by_ y)+1)))
      else toUint (bxt by_ x)+toUint (~~~bxt by_ y)+1)=bxt by_ (bxt by_ x-bxt by_ y) := by
    rw [hw,← hw]
    cases by_ <;> simp [bxt,toWord,toUint]
  generalize bxt by_ (bxt by_ x-bxt by_ y)=w at hw hs
  rw [Int.bmod_def] at hs
  have hz : decide (w=0)=decide (signed by_ x=signed by_ y) := by
    rw [decide_eq_decide,← toInt_inj]
    cases by_ <;> simp at * <;> omega
  generalize hv : sgn ((bxt by_ x ^^^ bxt by_ y) &&& ~~~(bxt by_ y ^^^ w))=v
  have hn : (sgn w ^^ v)=decide (signed by_ x<signed by_ y) := by
    have hsgn (a b : Word) : sgn ((a ^^^ b) &&& ~~~(b ^^^ w))=((sgn a^^sgn b) && !(sgn b^^sgn w)) := by
      simp [sgn]
    rw [← hv,hsgn,sgn_eq,sgn_eq,sgn_eq,ha,hb]
    clear hv hz hsgn hc hw ha hb
    by_cases h1 : signed by_ x<0 <;> by_cases h2 : signed by_ y<0 <;>
      simp [h1,h2] <;> cases by_ <;> simp at hs hx hy <;> omega
  refine ⟨sgn w,v,?_,hn⟩
  have hcodes : ∀ (cc : Cc) (c v n z : Bool), (z && n)=false →
    setIf (setIf (clear (setIf (setIf (clear cc (ccV ||| ccC)) c ccC) v ccV) (ccN ||| ccZ)) n ccN) z ccZ =
      setIf (setIf (carryCc c v) z ccZ) n ccN := by decide
  simp only [opCmp,hw,hv,hc,setnz]
  rw [← hz]
  apply hcodes
  by_cases h0 : w=0
  · rw [h0]
    rfl
  · rw [decide_eq_false h0]
    rfl

/-- The branches behind a CMP or CMPB take the operands for what their names say, as numbers with or without a sign. -/
theorem branches_compare (by_ : Bool) (cc : Cc) (x y : Word) :
    let taken (code : Word) := (branchCodes code).getLsbD (opCmp by_ cc (bxt by_ x) (bxt by_ y)).2.toNat=true
    ((taken 0o001000 ↔ signed by_ x≠signed by_ y) ∧ (taken 0o001400 ↔ signed by_ x=signed by_ y)) ∧
    ((taken 0o002000 ↔ signed by_ y≤ signed by_ x) ∧ (taken 0o002400 ↔ signed by_ x<signed by_ y)) ∧
    ((taken 0o003000 ↔ signed by_ y<signed by_ x) ∧ (taken 0o003400 ↔ signed by_ x≤ signed by_ y)) ∧
    ((taken 0o101000 ↔ unsigned by_ y<unsigned by_ x) ∧ (taken 0o101400 ↔ unsigned by_ x≤unsigned by_ y)) ∧
    ((taken 0o103000 ↔ unsigned by_ y≤unsigned by_ x) ∧ (taken 0o103400 ↔ unsigned by_ x<unsigned by_ y)) := by
  obtain ⟨n,v,hcc,hs⟩ := opCmp_codes by_ cc x y
  have hx := operand by_ x
  have hy := operand by_ y
  have heq : signed by_ x=signed by_ y ↔ unsigned by_ x=unsigned by_ y := by
    cases by_ <;> simp only [if_true,Bool.false_eq_true,if_false] at hx hy <;> omega
  have ht : ∀ n v z c : Bool,let taken (code : Word) :=
      (branchCodes code).getLsbD (setIf (setIf (carryCc c v) z ccZ) n ccN).toNat
      (taken 0o001000=!z ∧ taken 0o001400=z) ∧ (taken 0o002000=!(n^^v) ∧ taken 0o002400=(n^^v)) ∧
      (taken 0o003000=!(z || (n^^v)) ∧ taken 0o003400=(z || (n^^v))) ∧
      (taken 0o101000=!(z || c) ∧ taken 0o101400=(z || c)) ∧ (taken 0o103000=!c ∧ taken 0o103400=c) := by
    decide
  have h := ht n v (signed by_ x=signed by_ y) (unsigned by_ x<unsigned by_ y)
  rw [← hcc,hs] at h
  simp only [h,Bool.not_eq_true',Bool.or_eq_true,Bool.or_eq_false_iff,decide_eq_true_eq,decide_eq_false_iff_not]
  refine ⟨⟨?_,?_⟩,⟨?_,?_⟩,⟨?_,?_⟩,⟨?_,?_⟩,?_,?_⟩ <;> first | trivial | omega

end QUniLator.Cpu34
