import Mathlib.Algebra.BigOperators.Group.List.Basic
import Mathlib.Algebra.Ring.Nat

/-!
Extents of a medium: ranges of blocks, and ranges laid one behind the other.
-/

namespace QUniLator

structure Extent where
  start : Nat
  count : Nat
  deriving DecidableEq,Repr

namespace Extent

def stop (r : Extent) : Nat := r.start+r.count

def Disjoint (r s : Extent) : Prop := r.stop ≤ s.start ∨ s.stop ≤ r.start

instance (r s : Extent) : Decidable (r.Disjoint s) := inferInstanceAs (Decidable (_ ∨ _))

def layOut (start : Nat) : List Nat → List Extent
  | [] => []
  | n::ns => ⟨start,n⟩::layOut (start+n) ns

theorem start_le_of_layOut {ns : List Nat} {start : Nat} {r : Extent} (h : r∈layOut start ns) :
    start ≤ r.start ∧ r.stop ≤ start+ns.sum := by
  induction ns generalizing start with
  | nil => simp [layOut] at h
  | cons n ns ih =>
    rcases List.mem_cons.mp h with rfl | h
    · simp [stop]
    · obtain ⟨hs,ht⟩ := ih h
      simp only [List.sum_cons]
      omega

theorem layOut_disjoint (start : Nat) (ns : List Nat) : (layOut start ns).Pairwise Disjoint := by
  induction ns generalizing start with
  | nil => exact .nil
  | cons n ns ih =>
    refine List.pairwise_cons.mpr ⟨fun r hr => .inl ?_,ih (start+n)⟩
    exact (start_le_of_layOut hr).1

theorem exists_first_of_layOut {ns : List Nat} (start : Nat) (h : 0<ns.sum) :
    ∃ n,0<n ∧ (⟨start,n⟩ : Extent)∈layOut start ns := by
  induction ns generalizing start with
  | nil => simp at h
  | cons n ns ih =>
    by_cases hn : n=0
    · subst hn
      obtain ⟨m,hm,hmem⟩ := ih start (by simpa using h)
      exact ⟨m,hm,List.mem_cons_of_mem _ hmem⟩
    · exact ⟨n,Nat.pos_of_ne_zero hn,List.mem_cons_self⟩

theorem disjoint_append {rs ss : List Extent} {b : Nat} (hr : rs.Pairwise Disjoint)
    (hs : ss.Pairwise Disjoint) (below : ∀ r∈rs,r.stop≤b) (above : ∀ s∈ss,b ≤ s.start) : (rs++ss).Pairwise Disjoint :=
  List.pairwise_append.mpr
    ⟨hr,hs,fun r hrs s hss => .inl (Nat.le_trans (below r hrs) (above s hss))⟩

end Extent

end QUniLator
