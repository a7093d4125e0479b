import Mathlib.Logic.Relation
import Mathlib.Logic.Function.Iterate
import Mathlib.Tactic.Common

namespace QUniLator

def answers {σ ι ω : Type*} (step : σ → ι → σ) (answer : σ → ι → ω) : σ → List ι → List ω
  | _,[] => []
  | s,i::is => answer s i::answers step answer (step s i) is

theorem answers_refine {σ τ ι ω : Type*} {step : σ → ι → σ} {answer : σ → ι → ω}
    {step' : τ → ι → τ} {answer' : τ → ι → ω} (R : σ → τ → Prop) (ok : ι → Prop)
    (h : ∀ s t i,ok i → R s t → R (step s i) (step' t i) ∧ answer s i=answer' t i)
    (is : List ι) (hok : ∀ i∈is,ok i) {s : σ} {t : τ} (hs : R s t) :
    answers step answer s is=answers step' answer' t is := by
  induction is generalizing s t with
  | nil => rfl
  | cons i is ih =>
    have hi := h s t i (hok i List.mem_cons_self) hs
    rw [answers,answers,hi.2,ih (fun j hj => hok j (List.mem_cons_of_mem i hj)) hi.1]

/-- The states a run of `next` steps comes to from one that satisfies `init`. -/
def Reachable {σ : Type*} (init : σ → Prop) (next : σ → σ → Prop) (s : σ) : Prop :=
  ∃ s0,init s0 ∧ Relation.ReflTransGen next s0 s

section
variable {σ : Type*} {init : σ → Prop} {next : σ → σ → Prop}

theorem Reachable.start {s : σ} (h : init s) : Reachable init next s :=
  ⟨s,h,.refl⟩

theorem Reachable.step {s t : σ} (h : Reachable init next s) (hn : next s t) : Reachable init next t := by
  obtain ⟨s0,h0,hs⟩ := h
  exact ⟨s0,h0,hs.tail hn⟩

/-- What holds at the start and survives every step holds of every reachable state. -/
theorem Reachable.invariant {P : σ → Prop} (h0 : ∀ s,init s → P s)
    (hstep : ∀ s t,P s → next s t → P t) {s : σ} (h : Reachable init next s) : P s := by
  obtain ⟨s0,hi,hr⟩ := h
  induction hr with
  | refl => exact h0 _ hi
  | tail _ hn ih => exact hstep _ _ ih hn

end

/-- Where every step that is neither done nor bad lowers the rank, the steps from a state after which
none is bad are done within its rank. -/
theorem iterate_done {σ : Type*} {step : σ → σ} {done bad : σ → Prop} {rank : σ → Nat}
    (h : ∀ a,¬done a → ¬bad a → rank (step a) < rank a) (a : σ) (hb : ∀ k,¬bad (step^[k] a)) :
    ∃ k ≤ rank a,done (step^[k] a) := by
  induction hr : rank a using Nat.strongRecOn generalizing a with
  | ind r ih =>
    by_cases hd : done a
    · exact ⟨0,Nat.zero_le _,hd⟩
    · have hlt := h a hd (hb 0)
      obtain ⟨k,hk,hdone⟩ := ih (rank (step a)) (hr ▸ hlt) (step a) (fun k => hb (k+1)) rfl
      exact ⟨k+1,by omega,hdone⟩

/-- The states a machine goes through with the actions `as`, from `s` to `t`. `R s a t` is one step. -/
inductive Run {σ α : Type*} (R : σ → α → σ → Prop) : σ → List α → σ → Prop
  | nil (s : σ) : Run R s [] s
  | cons {s t u : σ} {a : α} {as : List α} (h : R s a t) (hs : Run R t as u) : Run R s (a::as) u

/-- The steps of a partial step function that `guard` lets pass. -/
def Guarded {σ α : Type*} (guard : σ → α → Prop) (step : σ → α → Option σ) (s : σ) (a : α) (t : σ) : Prop :=
  guard s a ∧ step s a=some t

section
variable {σ α : Type*} {R R' : σ → α → σ → Prop}

theorem Run.invariant {P : σ → Prop} (hstep : ∀ s a t,P s → R s a t → P t) {s t : σ}
    {as : List α} (h : Run R s as t) (h0 : P s) : P t := by
  induction h with
  | nil s => exact h0
  | cons h _ ih => exact ih (hstep _ _ _ h0 h)

theorem Run.mono (hr : ∀ s a t,R s a t → R' s a t) {s t : σ} {as : List α} (h : Run R s as t) : Run R' s as t := by
  induction h with
  | nil s => exact .nil s
  | cons h _ ih => exact .cons (hr _ _ _ h) ih

theorem Run.first (Q : σ → α → Prop) {s t : σ} {as : List α} (h : Run R s as t) :
    Run (fun s a t => R s a t ∧ ¬ Q s a) s as t ∨
    ∃ bs a cs u v,as=bs++a::cs ∧ Run R s bs u ∧ Q u a ∧ R u a v ∧ Run R v cs t := by
  induction h with
  | nil s => exact .inl (.nil s)
  | @cons s t u a as h hs ih =>
    by_cases hq : Q s a
    · exact .inr ⟨[],a,as,s,t,rfl,.nil s,hq,h,hs⟩
    · obtain hn | ⟨bs,b,cs,v,w,rfl,hbs,hv,hvw,hcs⟩ := ih
      · exact .inl (.cons ⟨h,hq⟩ hn)
      · exact .inr ⟨a::bs,b,cs,v,w,rfl,.cons h hbs,hv,hvw,hcs⟩

theorem run_of_foldlM (guard : σ → α → Prop) [∀ s a,Decidable (guard s a)]
    (step : σ → α → Option σ) (p : σ → Bool) (as : List α) (s : σ)
    (h : (as.foldlM (fun s a => if guard s a then step s a else none) s).any p) :
    ∃ t,Run (Guarded guard step) s as t ∧ p t := by
  induction as generalizing s with
  | nil => exact ⟨s,.nil s,by simpa using h⟩
  | cons a as ih =>
    rw [List.foldlM_cons,Option.bind_eq_bind] at h
    by_cases hg : guard s a
    · cases hu : step s a with
      | none => simp [hg,hu] at h
      | some u =>
        obtain ⟨t,ht,hp⟩ := ih u (by simpa [hg,hu] using h)
        exact ⟨t,.cons ⟨hg,hu⟩ ht,hp⟩
    · simp [hg] at h

end

theorem run_of_foldlM_eq {σ α : Type*} {step : σ → α → Option σ} {as : List α} {s t : σ}
    (h : as.foldlM step s=some t) : Run (fun s a t => step s a=some t) s as t := by
  induction as generalizing s with
  | nil =>
    obtain rfl := Option.some.inj h
    exact .nil _
  | cons a as ih =>
    rw [List.foldlM_cons,Option.bind_eq_bind] at h
    obtain ⟨u,hu,ht⟩ := Option.bind_eq_some_iff.mp h
    exact .cons hu (ih ht)

theorem eventually_done {σ : Type*} {x : Nat → σ} {p : σ → Prop} {f : σ → Nat}
    (hstep : ∀ n,¬p (x n) → f (x (n+1))≤f (x n))
    (hfair : ∀ n,¬p (x n) → ∃ m ≥ n,p (x m) ∨ f (x (m+1))<f (x m)) (n : Nat) : ∃ m ≥ n,p (x m) := by
  induction hr : f (x n) using Nat.strongRecOn generalizing n with
  | ind r ih =>
    by_cases hd : p (x n)
    · exact ⟨n,Nat.le_refl n,hd⟩
    obtain ⟨m,hm,hlow⟩ := hfair n hd
    -- up to the step that lowers the rank either all goes on or some state is done
    have hwalk : ∀ k,(∃ j ≥ n,p (x j)) ∨ f (x (n+k)) ≤ r := by
      intro k
      induction k with
      | zero => exact .inr (Nat.le_of_eq hr)
      | succ k ihk =>
        rcases ihk with h | h
        · exact .inl h
        · by_cases hk : p (x (n+k))
          · exact .inl ⟨n+k,Nat.le_add_right n k,hk⟩
          · exact .inr (Nat.le_trans (hstep (n+k) hk) h)
    rcases hlow with hdone | hlt
    · exact ⟨m,hm,hdone⟩
    · rcases hwalk (m-n) with h | h
      · exact h
      · rw [Nat.add_sub_cancel' hm] at h
        obtain ⟨j,hj,hdone⟩ := ih (f (x (m+1))) (Nat.lt_of_lt_of_le hlt h) (m+1) rfl
        exact ⟨j,by omega,hdone⟩

end QUniLator
