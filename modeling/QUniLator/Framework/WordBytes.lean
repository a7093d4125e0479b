import Mathlib.Data.BitVec
import QUniLator.Framework.Splice

namespace QUniLator.WordBytes

open BitVec

def low (w : BitVec 16) : BitVec 8 := w.setWidth 8

def high (w : BitVec 16) : BitVec 8 := (w >>> 8).setWidth 8

def wordAt (m : Nat → BitVec 8) (addr : Nat) : BitVec 16 := m (addr+1)++m addr

@[simp] theorem low_append (x y : BitVec 8) : low (y++x)=x := by
  ext i hi
  rw [low,getElem_setWidth]
  exact getLsbD_append.trans ((if_pos hi).trans (getLsbD_eq_getElem hi))

@[simp] theorem high_append (x y : BitVec 8) : high (y++x)=y := by
  ext i hi
  rw [high,getElem_setWidth,getLsbD_ushiftRight]
  refine getLsbD_append.trans ?_
  rw [if_neg (by omega),Nat.add_sub_cancel_left,getLsbD_eq_getElem hi]

theorem bytes_wordsAt (m : Nat → BitVec 8) (addr n : Nat) :
    ((List.range n).map fun k => wordAt m (addr+2*k)).flatMap (fun w => [low w,high w])=slice m addr (2*n) := by
  induction n with
  | zero => rfl
  | succ n ih =>
    have htwo : slice m (addr+2*n) 2=[m (addr+2*n),m (addr+2*n+1)] := rfl
    rw [List.range_succ,List.map_append,List.flatMap_append,ih,Nat.mul_succ,slice_append,htwo]
    simp [wordAt]

end QUniLator.WordBytes
