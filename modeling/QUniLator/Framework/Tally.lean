import Mathlib.Data.Fintype.Card

/-!
How many members of a family are of a kind, and what a change of one of them does to that.
-/

namespace QUniLator

open Function

section
variable {ι α : Type*} [Fintype ι]

/-- How many values of the family `f` satisfy `g` -/
def tally (g : α → Bool) (f : ι → α) : Nat := (Finset.univ.filter fun i => g (f i)=true).card

omit [Fintype ι] in
theorem card_erase_add [DecidableEq ι] (S : Finset ι) (i : ι) : (S.erase i).card+(decide (i∈S)).toNat=S.card := by
  by_cases h : i∈S
  · rw [Finset.card_erase_of_mem h,decide_eq_true h]
    have := Finset.card_pos.mpr ⟨i,h⟩
    simp only [Bool.toNat_true]
    omega
  · rw [Finset.erase_eq_of_notMem h,decide_eq_false h]
    rfl

theorem tally_update [DecidableEq ι] (g : α → Bool) (f : ι → α) (i : ι) (a : α) :
    tally g (update f i a)+(g (f i)).toNat=tally g f+(g a).toNat := by
  unfold tally
  have he : (Finset.univ.filter fun j => g (update f i a j)=true).erase i =
      (Finset.univ.filter fun j => g (f j)=true).erase i := by
    ext j
    by_cases hj : j=i
    · simp [hj]
    · simp [hj,update_of_ne]
  have h1 := card_erase_add (Finset.univ.filter fun j => g (update f i a j)=true) i
  have h2 := card_erase_add (Finset.univ.filter fun j => g (f j)=true) i
  simp only [Finset.mem_filter,Finset.mem_univ,true_and,update_self,Bool.decide_eq_true] at h1 h2
  rw [he] at h1
  omega

variable {g : α → Bool}

theorem tally_pos {f : ι → α} {i : ι} (h : g (f i)) : 0<tally g f :=
  Finset.card_pos.mpr ⟨i,by simpa using h⟩

theorem tally_zero {f : ι → α} (h : tally g f=0) (i : ι) : g (f i)=false := by
  cases hi : g (f i) with
  | false => rfl
  | true => exact absurd (tally_pos hi) (by omega)

theorem tally_none {f : ι → α} (h : ∀ i,g (f i)=false) : tally g f=0 := by
  unfold tally
  rw [Finset.card_eq_zero,Finset.filter_eq_empty_iff]
  intro i _
  simp [h i]

end

end QUniLator
