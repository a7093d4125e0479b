import Mathlib.Data.Nat.Basic
import Mathlib.Logic.Function.Basic

namespace QUniLator

open Function

theorem ring_inj {n a i j : Nat} (hi : a ≤ i) (hi' : i<a+n) (hj : a≤j) (hj' : j<a+n) (h : i%n=j%n) : i=j := by
  have hi2 := Nat.div_add_mod i n
  have hj2 := Nat.div_add_mod j n
  rw [h] at hi2
  have hn : 0<n := by omega
  have hm := Nat.mod_lt j hn
  generalize j%n=r at *
  have hq : i/n=j/n := by
    rcases Nat.lt_trichotomy (i/n) (j/n) with hlt | heq | hgt
    · have hmul := Nat.mul_le_mul_left n hlt
      rw [Nat.succ_eq_add_one,Nat.mul_add,Nat.mul_one] at hmul
      omega
    · exact heq
    · have hmul := Nat.mul_le_mul_left n hgt
      rw [Nat.succ_eq_add_one,Nat.mul_add,Nat.mul_one] at hmul
      omega
  rw [hq] at hi2
  omega

theorem ring_next (n a : Nat) : (a%n+1)%n=(a+1)%n := by
  rw [Nat.mod_add_mod]

/-- A ring of `n` slots with a flag each. Its producer has handed over `handed` entries, its consumer taken
`consumed`; the flag is set on those in between. -/
structure OwnerRing (n : Nat) (owner : Nat → Bool) (consumed handed : Nat) : Prop where
  pos : 0<n
  le : consumed≤handed
  room : handed ≤ consumed+n
  owned : ∀ i,consumed ≤ i → i<consumed+n → (owner (i%n)=true ↔ i<handed)

namespace OwnerRing

variable {n consumed handed : Nat} {owner owner' : Nat → Bool}

theorem congr (h : OwnerRing n owner consumed handed) (he : ∀ k,k<n → owner' k=owner k) :
    OwnerRing n owner' consumed handed := by
  refine ⟨h.pos,h.le,h.room,fun i hi hi' => ?_⟩
  rw [he _ (Nat.mod_lt i h.pos)]
  exact h.owned i hi hi'

theorem next_owned (h : OwnerRing n owner consumed handed) : owner (consumed%n) ↔ consumed<handed :=
  h.owned consumed (Nat.le_refl _) (by have := h.pos; omega)

theorem next_free (h : OwnerRing n owner consumed handed) : owner (handed%n)=false ↔ handed<consumed+n := by
  have hpos := h.pos
  have hroom := h.room
  obtain hlt | heq := Nat.lt_or_eq_of_le hroom
  · have ho := h.owned handed h.le hlt
    simp only [Nat.lt_irrefl,iff_false,Bool.not_eq_true] at ho
    simp [ho,hlt]
  · have ho := h.next_owned.mpr (by omega)
    rw [heq,Nat.add_mod_right,ho]
    simp

theorem owner_of_between (h : OwnerRing n owner consumed handed) {i : Nat} (hi : consumed ≤ i)
    (hi' : i<handed) : owner (i%n)=true :=
  (h.owned i hi (by have := h.room; omega)).mpr hi'

theorem consume (h : OwnerRing n owner consumed handed) (hlt : consumed<handed) :
    OwnerRing n (update owner (consumed%n) false) (consumed+1) handed := by
  have hroom := h.room
  refine ⟨h.pos,hlt,by omega,fun i hi hi' => ?_⟩
  by_cases hlast : i=consumed+n
  · rw [hlast,Nat.add_mod_right,update_self]
    simp
    omega
  · have hne : i%n≠consumed%n := by
      intro he
      have := ring_inj (a := consumed) (by omega) (by omega) (Nat.le_refl _) (by omega) he
      omega
    rw [update_of_ne hne]
    exact h.owned i (by omega) (by omega)

theorem hand (h : OwnerRing n owner consumed handed) (hlt : handed<consumed+n) :
    OwnerRing n (update owner (handed%n) true) consumed (handed+1) := by
  have hle := h.le
  refine ⟨h.pos,by omega,hlt,fun i hi hi' => ?_⟩
  by_cases hi2 : i=handed
  · rw [hi2,update_self]
    simp
  · have hne : i%n≠handed%n := by
      intro he
      exact hi2 (ring_inj (a := consumed) hi hi' hle hlt he)
    rw [update_of_ne hne,h.owned i hi hi']
    omega

end OwnerRing

end QUniLator
