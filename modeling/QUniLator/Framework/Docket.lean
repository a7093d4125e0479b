import Mathlib.Data.List.Basic

namespace QUniLator

open List

/-- An entry of a docket: a command `κ` is accepted or cancelled, has an effect `ε`, or is finished. -/
inductive Entry (κ ε : Type*)
  | accepted (id : Nat) (c : κ)
  | cancelled (id : Nat)
  | did (id : Nat) (e : ε)
  | finished (id : Nat)
  deriving DecidableEq,Repr

namespace Entry

variable {κ ε : Type*}

def id : Entry κ ε → Nat
  | accepted id _ | cancelled id | did id _ | finished id => id

def Clash : Entry κ ε → Entry κ ε → Prop
  | did i _,cancelled j => i=j
  | finished i,finished j => i=j
  | _,_ => False

end Entry

open Entry

abbrev Docket (κ ε : Type*) := List (Entry κ ε)

namespace Docket

variable {κ ε : Type*} (l : Docket κ ε)

def Orderly : Prop := l.Pairwise fun new old => ¬new.Clash old

def Over (i : Nat) : Prop := cancelled i∈l ∨ finished i∈l

def Open (i : Nat) (c : κ) : Prop := accepted i c∈l ∧ ¬l.Over i

/-- Every number is below `n`. -/
def Below (n : Nat) : Prop := ∀ e∈l,e.id<n

variable {l}

theorem Orderly.nil : Orderly ([] : Docket κ ε) := Pairwise.nil

theorem Orderly.accepted (h : l.Orderly) (i : Nat) (c : κ) : Orderly (.accepted i c::l) :=
  pairwise_cons.mpr ⟨fun _ _ hc => hc,h⟩

theorem Orderly.cancelled (h : l.Orderly) (i : Nat) : Orderly (.cancelled i::l) :=
  pairwise_cons.mpr ⟨fun _ _ hc => hc,h⟩

theorem Orderly.did (h : l.Orderly) {i : Nat} (hi : Entry.cancelled i∉l) (e : ε) : Orderly (.did i e::l) := by
  refine pairwise_cons.mpr ⟨fun x hx hc => ?_,h⟩
  cases x with
  | cancelled j =>
    have hj : i=j := hc
    exact hi (hj ▸ hx)
  | accepted | did | finished => exact hc

theorem Orderly.finished (h : l.Orderly) {i : Nat} (hi : Entry.finished i∉l) : Orderly (.finished i::l) := by
  refine pairwise_cons.mpr ⟨fun x hx hc => ?_,h⟩
  cases x with
  | finished j =>
    have hj : i=j := hc
    exact hi (hj ▸ hx)
  | accepted | did | cancelled => exact hc

theorem Below.not_over {n : Nat} (h : l.Below n) : ¬l.Over n := by
  rintro (hm | hm)
  all_goals exact absurd (h _ hm) (Nat.lt_irrefl n)

theorem Below.cons {n m : Nat} (h : l.Below n) (hnm : n ≤ m) {e : Entry κ ε} (he : e.id < m) : Below (e::l) m :=
  forall_mem_cons.mpr ⟨he,fun x hx => Nat.lt_of_lt_of_le (h x hx) hnm⟩

variable {i j : Nat} {c : κ}

theorem Open.lt {n i : Nat} (ho : l.Open i c) (h : l.Below n) : i<n := h _ ho.1

theorem over_did {e : ε} : Over (.did j e::l) i ↔ l.Over i := by simp [Over]

theorem over_accepted : Over (.accepted j c::l) i ↔ l.Over i := by simp [Over]

theorem over_cancelled : Over (.cancelled j::l) i ↔ i=j ∨ l.Over i := by
  simp [Over,or_assoc]

theorem over_finished : Over (.finished j::l) i ↔ i=j ∨ l.Over i := by
  simp only [Over,mem_cons,reduceCtorEq,false_or,Entry.finished.injEq]
  exact or_left_comm

theorem Open.did (h : l.Open i c) (e : ε) : Open (.did j e::l) i c :=
  ⟨mem_cons_of_mem _ h.1,fun ho => h.2 (over_did.mp ho)⟩

theorem Open.not_cancelled {i : Nat} (h : l.Open i c) : Entry.cancelled i∉l :=
  fun hc => h.2 (.inl hc)

theorem Open.not_finished {i : Nat} (h : l.Open i c) : Entry.finished i∉l :=
  fun hc => h.2 (.inr hc)

theorem Orderly.count_finished [DecidableEq κ] [DecidableEq ε] (h : l.Orderly) (i : Nat) :
    List.count (.finished i) l≤1 := by
  induction l with
  | nil => exact Nat.zero_le _
  | cons e l ih =>
    obtain ⟨he,hl⟩ := pairwise_cons.mp h
    rw [count_cons]
    split_ifs with hei
    · have hi : e=.finished i := eq_of_beq hei
      have h0 := count_eq_zero.mpr fun hm => he (.finished i) hm (by rw [hi]; rfl)
      omega
    · exact ih hl

end Docket

end QUniLator
