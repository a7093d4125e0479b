import Mathlib.Data.List.Basic

namespace QUniLator

open List

/-- Which end of a byte holds the first bit. -/
inductive BitOrder where
  | lsb
  | msb
  deriving DecidableEq

def BitOrder.mask : BitOrder → Nat → UInt8
  | .lsb,k => 1 <<< UInt8.ofNat k
  | .msb,k => 0x80 >>> UInt8.ofNat k

/-- Bit `i` of a bitmap packed into bytes; a bit past its end is clear. -/
def getBit (o : BitOrder) (bm : List UInt8) (i : Nat) : Bool :=
  bm[i/8]?.getD 0 &&& o.mask (i%8) != 0

def setBit (o : BitOrder) (bm : List UInt8) (i : Nat) : List UInt8 :=
  bm.set (i/8) (bm[i/8]?.getD 0 ||| o.mask (i%8))

private theorem mask_ne_zero (o : BitOrder) (k : Nat) (hk : k<8) : o.mask k≠0 := by
  have h : ∀ k : Fin 8,o.mask k≠0 := by cases o <;> decide
  exact h ⟨k,hk⟩

private theorem mask_and (o : BitOrder) (j k : Nat) (hj : j<8) (hk : k<8) (hn : j≠k) : o.mask j &&& o.mask k=0 := by
  have h : ∀ j k : Fin 8,j≠k → o.mask j &&& o.mask k=0 := by cases o <;> decide
  exact h ⟨j,hj⟩ ⟨k,hk⟩ (by simpa using hn)

@[simp] theorem setBit_length (o : BitOrder) (bm : List UInt8) (i : Nat) : (setBit o bm i).length=bm.length := by
  simp [setBit]

theorem getBit_setBit (o : BitOrder) (bm : List UInt8) (i j : Nat) (hi : i/8<bm.length) :
    getBit o (setBit o bm i) j=(decide (j=i) || getBit o bm j) := by
  have hi8 := Nat.mod_lt i (show 0<8 by decide)
  have hj8 := Nat.mod_lt j (show 0<8 by decide)
  by_cases hb : j/8=i/8
  · have he : (setBit o bm i)[j/8]?.getD 0=bm[i/8]?.getD 0 ||| o.mask (i%8) := by
      simp [setBit,hb,hi]
    by_cases hji : j=i
    · subst j
      have hm : (bm[i/8]?.getD 0 ||| o.mask (i%8)) &&& o.mask (i%8)=o.mask (i%8) := by
        apply UInt8.toBitVec_inj.mp
        simp only [UInt8.toBitVec_and,UInt8.toBitVec_or]
        ext
        simp
        tauto
      simp [getBit,he,hm,mask_ne_zero o _ hi8]
    · have hm : (bm[i/8]?.getD 0 ||| o.mask (i%8)) &&& o.mask (j%8) =
          bm[j/8]?.getD 0 &&& o.mask (j%8) := by
        have hz := congrArg UInt8.toBitVec (mask_and o (i%8) (j%8) hi8 hj8 (by omega))
        apply UInt8.toBitVec_inj.mp
        simp only [UInt8.toBitVec_and,UInt8.toBitVec_or,hb] at hz ⊢
        rw [BitVec.and_comm,BitVec.and_or_distrib_left,BitVec.and_comm (UInt8.toBitVec (o.mask (j%8))) (UInt8.toBitVec (o.mask (i%8))),hz]
        simp [BitVec.and_comm]
      simp [getBit,he,hm,hji]
  · have he : (setBit o bm i)[j/8]?.getD 0=bm[j/8]?.getD 0 := by
      simp [setBit,getElem?_set_ne (Ne.symm hb)]
    have hji : j≠i := fun h => hb (by rw [h])
    simp [getBit,he,hji]

theorem getBit_foldl_setBit (o : BitOrder) (bm : List UInt8) (first n j : Nat)
    (h : first+n≤8*bm.length) : getBit o ((range' first n).foldl (setBit o) bm) j =
      (decide (first≤j ∧ j<first+n) || getBit o bm j) := by
  induction n generalizing first bm with
  | zero =>
    have hn : decide (first≤j ∧ j<first+0)=false := by
      rw [decide_eq_false_iff_not]
      omega
    rw [hn,Bool.false_or]
    rfl
  | succ n ih =>
    rw [range'_succ,foldl_cons,ih _ _ (by rw [setBit_length]; omega),
      getBit_setBit _ _ _ _ (by omega),← Bool.or_assoc,← Bool.decide_or]
    congr 1
    apply decide_eq_decide.mpr
    omega

@[simp] theorem foldl_setBit_length (o : BitOrder) (bm : List UInt8) (bs : List Nat) :
    (bs.foldl (setBit o) bm).length=bm.length := by
  induction bs generalizing bm with
  | nil => rfl
  | cons b bs ih => rw [foldl_cons,ih,setBit_length]

@[simp] theorem getBit_replicate_zero (o : BitOrder) (n i : Nat) : getBit o (replicate n 0) i=false := by
  by_cases h : i/8<n <;> simp [getBit,h]

theorem getBit_append_zero (o : BitOrder) (bm : List UInt8) (n i : Nat) :
    getBit o (bm++replicate n 0) i=getBit o bm i := by
  have he : (bm++replicate n 0)[i/8]?.getD 0=bm[i/8]?.getD 0 := by
    by_cases h : i/8<bm.length
    · simp [getElem?_append_left h]
    · by_cases h2 : i/8-bm.length<n <;>
        simp [getElem?_append_right (Nat.le_of_not_lt h),getElem?_eq_none (Nat.le_of_not_lt h),h2]
  simp only [getBit,he]

end QUniLator
