import Mathlib.Data.BitVec

namespace QUniLator

theorem field_toNat {w : Nat} (x m : BitVec w) (k n : Nat) (hm : m.toNat=2^n-1) :
    ((x >>> k) &&& m).toNat=x.toNat/2^k%2^n := by
  rw [BitVec.toNat_and,hm,Nat.and_two_pow_sub_one_eq_mod,BitVec.toNat_ushiftRight,Nat.shiftRight_eq_div_pow]

theorem mask_toNat {w : Nat} (x m : BitVec w) (n : Nat) (hm : m.toNat=2^n-1) : (x &&& m).toNat=x.toNat%2^n := by
  rw [BitVec.toNat_and,hm,Nat.and_two_pow_sub_one_eq_mod]

open Function

/-- A number that is shifted a bit at a time: the bit that was shifted out last, and whether the sign
has changed. -/
@[ext] structure Shifted (w : Nat) where
  value : BitVec w
  carry : Bool
  overflow : Bool
  deriving DecidableEq,Repr

namespace Shifted
variable {w : Nat} (s : Shifted w)

def left : Shifted w :=
  ⟨s.value <<< 1,s.value.msb,s.overflow || (s.value.msb != (s.value <<< 1).msb)⟩

def right : Shifted w := ⟨s.value.sshiftRight 1,s.value.getLsbD 0,s.overflow⟩

/-- `count` times to the left, or to the right where it is negative. -/
def by_ (count : Int) : Shifted w := if 0 ≤ count then left^[count.toNat] s else right^[count.natAbs] s

theorem left_value (n : Nat) : (left^[n] s).value=s.value <<< n := by
  induction n with
  | zero => simp
  | succ n ih =>
    rw [iterate_succ_apply',left,ih]
    exact (BitVec.shiftLeft_add s.value n 1).symm

theorem left_carry (n : Nat) : (left^[n+1] s).carry=(s.value <<< n).msb := by
  rw [iterate_succ_apply',left,left_value]

theorem left_overflow (n : Nat) : (left^[n] s).overflow ↔
    s.overflow=true ∨ ∃ i<n,(s.value <<< i).msb≠(s.value <<< (i+1)).msb := by
  induction n with
  | zero => simp
  | succ n ih =>
    rw [iterate_succ_apply',left,Bool.or_eq_true,ih,left_value,← BitVec.shiftLeft_add,bne_iff_ne,or_assoc]
    apply or_congr_right
    constructor
    · rintro (⟨i,hi,h⟩ | h)
      · exact ⟨i,hi.trans n.lt_succ_self,h⟩
      · exact ⟨n,n.lt_succ_self,h⟩
    · rintro ⟨i,hi,h⟩
      obtain hi | rfl := Nat.lt_succ_iff_lt_or_eq.mp hi
      · exact .inl ⟨i,hi,h⟩
      · exact .inr h

theorem msb_shiftLeft (x : BitVec w) (i : Nat) : (x <<< i).msb=(decide (i<w) && x.getLsbD (w-1-i)) := by
  rw [BitVec.msb_eq_getLsbD_last,BitVec.getLsbD_shiftLeft]
  by_cases hi : i<w
  · rw [decide_eq_true (by omega : w-1<w),decide_eq_false (by omega : ¬w-1 < i),decide_eq_true hi]
    rfl
  · by_cases hw : w=0
    · subst hw
      simp
    · rw [decide_eq_true (by omega : w-1 < i),decide_eq_false hi]
      simp

theorem left_overflow_out {n : Nat} (hn : w≤n) : (left^[n] s).overflow ↔ s.overflow ∨ s.value≠0 := by
  rw [left_overflow]
  apply or_congr_right
  constructor
  · rintro ⟨i,-,h⟩ h0
    simp [h0] at h
  · intro hne
    by_contra hall
    push Not at hall
    have hsame (k : Nat) (hk : k≤n) : (s.value <<< (n-k)).msb=(s.value <<< n).msb := by
      induction k with
      | zero => rfl
      | succ k ih =>
        rw [hall (n-(k+1)) (by omega),show n-(k+1)+1=n-k by omega]
        exact ih (by omega)
    apply hne
    ext i hi
    have hbit := hsame (n-(w-1-i)) (Nat.sub_le _ _)
    rw [show n-(n-(w-1-i))=w-1-i by omega,msb_shiftLeft,msb_shiftLeft,
      show w-1-(w-1-i)=i by omega,decide_eq_true (by omega : w-1-i<w),
      decide_eq_false (by omega : ¬n<w)] at hbit
    simpa [BitVec.getLsbD_eq_getElem hi] using hbit

theorem right_overflow (n : Nat) : (right^[n] s).overflow=s.overflow := by
  induction n with
  | zero => rfl
  | succ n ih => rw [iterate_succ_apply',right,ih]

theorem right_value (n : Nat) : (right^[n] s).value=s.value.sshiftRight n := by
  induction n with
  | zero => simp
  | succ n ih =>
    rw [iterate_succ_apply',right,ih]
    exact (BitVec.sshiftRight_add ..).symm

theorem right_carry (n : Nat) : (right^[n+1] s).carry=(s.value.sshiftRight n).getLsbD 0 := by
  rw [iterate_succ_apply',right,right_value]

end Shifted

end QUniLator
