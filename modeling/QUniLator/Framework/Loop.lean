import Mathlib.Tactic.SplitIfs

/-!
A loop that runs while a condition holds, with fuel, and what one of its states leads to.
-/

namespace QUniLator

section
variable {σ : Type*} (busy : σ → Bool) (step : σ → σ)

/-- `while (busy) step`. `none` means that the fuel was not enough. -/
def runWhile : Nat → σ → Option σ
  | 0,s => if busy s then none else some s
  | fuel+1,s => if busy s then runWhile fuel (step s) else some s

/-- The loop comes from `s` to `t`. -/
def Leads (s t : σ) : Prop :=
  ∃ k,∀ fuel,runWhile busy step (fuel+k) s=runWhile busy step fuel t

variable {busy step} {s t u : σ}

theorem Leads.refl (s : σ) : Leads busy step s s := ⟨0,fun _ => rfl⟩

theorem Leads.trans (h : Leads busy step s t) (h' : Leads busy step t u) : Leads busy step s u := by
  obtain ⟨j,hj⟩ := h
  obtain ⟨k,hk⟩ := h'
  refine ⟨k+j,fun fuel => ?_⟩
  rw [← Nat.add_assoc,hj,hk]

theorem Leads.one (h : busy s) : Leads busy step s (step s) := by
  refine ⟨1,fun fuel => ?_⟩
  rw [runWhile,if_pos h]

theorem Leads.ends (h : Leads busy step s t) (ht : busy t=false) : ∃ fuel,runWhile busy step fuel s=some t := by
  obtain ⟨k,hk⟩ := h
  refine ⟨0+k,?_⟩
  rw [hk,runWhile,ht]
  rfl

theorem runWhile_mono {m : Nat} (h : runWhile busy step m s=some t) (n : Nat) :
    runWhile busy step (m+n) s=some t := by
  induction m generalizing s with
  | zero =>
    unfold runWhile at h
    split_ifs at h with hs
    cases n with
    | zero =>
      rw [runWhile,if_neg hs]
      exact h
    | succ n =>
      rw [Nat.zero_add,runWhile,if_neg hs]
      exact h
  | succ m ih =>
    rw [Nat.add_right_comm]
    unfold runWhile at h ⊢
    split_ifs at h ⊢ with hs
    · exact ih h
    · exact h

theorem runWhile_unique {m n : Nat} (ht : runWhile busy step m s=some t)
    (hu : runWhile busy step n s=some u) : t=u := by
  have h1 := runWhile_mono ht n
  have h2 := runWhile_mono hu m
  rw [Nat.add_comm,h2] at h1
  exact (Option.some.inj h1).symm

theorem runWhile_ends {P : σ → Prop} (rank : σ → Nat)
    (hstep : ∀ s,P s → busy s → P (step s) ∧ rank (step s) < rank s) (h : P s) {n : Nat}
    (hn : rank s≤n) : ∃ t,runWhile busy step n s=some t ∧ P t ∧ busy t=false := by
  induction n generalizing s with
  | zero =>
    have hb : busy s=false := by
      rw [Bool.eq_false_iff]
      intro hb
      have := (hstep s h hb).2
      omega
    refine ⟨s,?_,h,hb⟩
    rw [runWhile,hb]
    rfl
  | succ n ih =>
    unfold runWhile
    split_ifs with hb
    · obtain ⟨hp,hlt⟩ := hstep s h hb
      exact ih hp (by omega)
    · exact ⟨s,rfl,h,Bool.eq_false_iff.mpr hb⟩

end

end QUniLator
