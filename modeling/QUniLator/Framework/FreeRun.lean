import Mathlib.Data.List.Range

/-! The lowest run of free places that is long enough. -/

namespace QUniLator

/-- The run of free places that the scan is in, and the start of the first one long enough, 0 for
none. -/
structure FreeRun where
  first : Nat
  length : Nat
  start : Nat
  deriving DecidableEq,Repr

namespace FreeRun

def none : FreeRun := ⟨0,0,0⟩

def look (used : Nat → Bool) (need : Nat) (r : FreeRun) (i : Nat) : FreeRun :=
  if used i then { r with length := 0 }
  else
    let first := if r.length=0 then i else r.first
    let length := r.length+1
    ⟨first,length,if r.start=0 ∧ need≤length then first else r.start⟩

/-- The places from 1 on, below `count`. -/
def scan (used : Nat → Bool) (need count : Nat) : FreeRun :=
  (List.range' 1 (count-1)).foldl (look used need) none

/-- What is known before place `i`. -/
structure Inv (used : Nat → Bool) (need i : Nat) (r : FreeRun) : Prop where
  free : ∀ j,r.first≤j → j < r.first+r.length → used j=false
  upTo : r.length≠0 → r.first+r.length=i
  first_pos : r.length≠0 → r.first≠0
  found : r.start≠0 → r.start+need ≤ i ∧ ∀ j,r.start≤j → j < r.start+need → used j=false

theorem Inv.look {used : Nat → Bool} {need i : Nat} {r : FreeRun} (h : Inv used need i r)
    (hi : i≠0) : Inv used need (i+1) (r.look used need i) := by
  cases hu : used i with
  | true =>
    simp only [FreeRun.look,hu,if_true]
    exact ⟨fun j h1 h2 => absurd h2 (Nat.not_lt.mpr h1),fun h0 => absurd rfl h0,
      fun h0 => absurd rfl h0,fun h0 => ⟨(h.found h0).1.trans (Nat.le_succ _),(h.found h0).2⟩⟩
  | false =>
    simp only [FreeRun.look,hu,Bool.false_eq_true,if_false]
    have hfree (j : Nat) (h1 : (if r.length=0 then i else r.first)≤j)
        (h2 : j<(if r.length=0 then i else r.first)+(r.length+1)) : used j=false := by
      have hup := h.upTo
      by_cases hj : j=i
      · rw [hj,hu]
      · split_ifs at h1 h2 with h0
        · omega
        · exact h.free j h1 (by have := hup h0; omega)
    have hfirst : (if r.length=0 then i else r.first)≠0 := by
      split_ifs with h0
      · exact hi
      · exact h.first_pos h0
    have hend : (if r.length=0 then i else r.first)+(r.length+1)=i+1 := by
      have hup := h.upTo
      split_ifs with h0
      · omega
      · have := hup h0
        omega
    refine ⟨hfree,fun _ => hend,fun _ => hfirst,?_⟩
    by_cases hstart : r.start=0 ∧ need ≤ r.length+1
    · simp only [if_pos hstart]
      exact fun _ => ⟨by omega,fun j h1 h2 => hfree j h1 (by omega)⟩
    · simp only [if_neg hstart]
      exact fun h0 => ⟨(h.found h0).1.trans (Nat.le_succ _),(h.found h0).2⟩

theorem Inv.scan (used : Nat → Bool) (need n i : Nat) (r : FreeRun) (h : Inv used need i r)
    (hi : i≠0) : Inv used need (i+n) ((List.range' i n).foldl (FreeRun.look used need) r) := by
  induction n generalizing i r with
  | zero => exact h
  | succ n ih =>
    have hnext := ih (i+1) (r.look used need i) (h.look hi) (Nat.succ_ne_zero i)
    rw [List.range'_succ,List.foldl_cons]
    rwa [Nat.add_right_comm] at hnext

theorem scan_found {used : Nat → Bool} {need count : Nat} (hcount : count≠0)
    (h : (scan used need count).start≠0) : (scan used need count).start+need ≤ count ∧
      ∀ j,(scan used need count).start≤j → j<(scan used need count).start+need → used j=false := by
  have hnone : Inv used need 1 none :=
    ⟨fun j _ h2 => absurd h2 (Nat.not_lt_zero j),fun h0 => absurd rfl h0,fun h0 => absurd rfl h0,
      fun h0 => absurd rfl h0⟩
  have hinv := Inv.scan used need (count-1) 1 none hnone (by decide)
  rw [show 1+(count-1)=count by omega] at hinv
  exact hinv.found h

end FreeRun

end QUniLator
