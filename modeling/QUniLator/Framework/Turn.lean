import Mathlib.Data.Nat.ModEq

namespace QUniLator

open Nat (mod_eq_of_lt)

/-- Numbers below `n` that are moved on by `s` in 32 bits stay apart by their rests. -/
def Turns (n s : Nat) : Prop := s+n≤2^32 ∨ 2^32%n=0

theorem turned_inj {n s : Nat} (h : Turns n s) {x y : Nat} (hx : x<n) (hy : y<n)
    (hxy : (x+s)%2^32%n=(y+s)%2^32%n) : x=y := by
  have hmod : (x+s)%n=(y+s)%n := by
    obtain h | h := h
    · rwa [mod_eq_of_lt (show x+s<2^32 by omega),mod_eq_of_lt (show y+s<2^32 by omega)] at hxy
    · rwa [Nat.mod_mod_of_dvd _ (Nat.dvd_of_mod_eq_zero h),
        Nat.mod_mod_of_dvd _ (Nat.dvd_of_mod_eq_zero h)] at hxy
  have hmod : x%n=y%n := Nat.ModEq.add_right_cancel' s hmod
  rwa [mod_eq_of_lt hx,mod_eq_of_lt hy] at hmod

theorem turns_of_inj {n s : Nat} (hs : s<2^32) (h : ∀ x y,x<n → y<n →
    (x+s)%2^32%n=(y+s)%2^32%n → x=y) : Turns n s := by
  by_contra hn
  obtain ⟨hlt,hmod⟩ := not_or.mp hn
  have hc : 2^32%n<n := Nat.mod_lt _ (by omega)
  have hd := Nat.div_add_mod (2^32) n
  -- The numbers from `2^32-s` on come to `0,1,…`, those below it end at the rest of `2^32-1`.
  have hlate : ∀ j,2^32-s+j<n → (2^32-s+j+s)%2^32%n=j := by
    intro j hj
    rw [show 2^32-s+j+s=2^32+j by omega,Nat.add_mod_left]
    by_cases hbig : j<2^32
    · rw [mod_eq_of_lt hbig,mod_eq_of_lt (by omega)]
    · have := h 0 (2^32) (by omega) (by omega) (by rw [Nat.add_mod_left,Nat.zero_add])
      omega
  by_cases hle : 2^32%n-1<n-(2^32-s)
  · have he := h (2^32-s-1) (2^32-s+(2^32%n-1)) (by omega) (by omega) (by
      rw [hlate _ (by omega),show 2^32-s-1+s=2^32-1 by omega,mod_eq_of_lt (show 2^32-1<2^32 by omega)]
      rw [show 2^32-1=2^32%n-1+n*(2^32/n) by omega,Nat.add_mul_mod_self_left,mod_eq_of_lt (by omega)])
    omega
  · have he := h (n-1-2^32%n) (2^32-s+(n-1-(2^32-s))) (by omega) (by omega) (by
      rw [hlate _ (by omega),mod_eq_of_lt (show n-1-2^32%n+s<2^32 by omega)]
      rw [show n-1-2^32%n+s=n-1-(2^32-s)+n*(2^32/n) by omega,Nat.add_mul_mod_self_left,
        mod_eq_of_lt (by omega)])
    omega

end QUniLator
