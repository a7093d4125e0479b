import Mathlib.Data.List.Basic

/-!
Programs with live asserts. A computation that reaches a failing one has no result: it is a value of
`Option`, and `none` is the end of the process.
-/

namespace QUniLator

open List

/-- `assert(p)` -/
def assert (p : Bool) : Option Unit := if p then some () else none

@[simp] theorem assert_true : assert true=some () := rfl

@[simp] theorem assert_false : assert false=none := rfl

theorem assert_bind {α : Type} (p : Bool) (x : Option α) : (assert p >>= fun _ => x)=if p then x else none := by
  cases p <;> rfl

theorem foldlM_congr {α σ : Type*} {f g : σ → α → Option σ} {as : List α} (s : σ)
    (h : ∀ s,∀ a∈as,f s a=g s a) : as.foldlM f s=as.foldlM g s := by
  induction as generalizing s with
  | nil => rfl
  | cons a as ih =>
    rw [foldlM_cons,foldlM_cons,h s a mem_cons_self]
    exact congrArg _ (funext fun t => ih t fun s b hb => h s b (mem_cons_of_mem a hb))

/-- A loop whose rounds all pass their asserts is the loop without them; `P` is what the rounds keep
for it. -/
theorem foldlM_passes {α β : Type} {P : β → Prop} {f : β → α → Option β} {g : β → α → β}
    (l : List α) (s : β) (hs : P s) (h : ∀ t a,a∈l → P t → f t a=some (g t a) ∧ P (g t a)) :
    l.foldlM f s=some (l.foldl g s) := by
  induction l generalizing s with
  | nil => rfl
  | cons a l ih =>
    obtain ⟨hf,hg⟩ := h s a mem_cons_self hs
    rw [foldlM_cons,hf,foldl_cons]
    exact ih (g s a) hg (fun t b hb => h t b (mem_cons_of_mem a hb))

/-- A computation on a state that may fail. The state stays as it is where it fails. -/
def Attempt (σ α : Type) := σ → Option α × σ

namespace Attempt
variable {σ α β : Type}

instance : Monad (Attempt σ) where
  pure a := fun s => (some a,s)
  bind m f := fun s =>
    match m s with
    | (some a,t) => f a t
    | (none,t) => (none,t)

def read : Attempt σ σ := fun s => (some s,s)

def change (f : σ → σ) : Attempt σ Unit := fun s => (some (),f s)

/-- `m` under a condition. -/
def doIf (c : Prop) [Decidable c] (m : Attempt σ Unit) : Attempt σ Unit := if c then m else pure ()

/-- `clean` is done where `m` fails. -/
def onFailure (m : Attempt σ α) (clean : σ → σ) : Attempt σ α := fun s =>
  match m s with
  | (some a,t) => (some a,t)
  | (none,t) => (none,clean t)

theorem bind_some {m : Attempt σ α} {f : α → Attempt σ β} {s t : σ} {a : α} (h : m s=(some a,t)) :
    (m >>= f) s=f a t := by
  change (match m s with | (some a,t) => f a t | (none,t) => (none,t))=_
  rw [h]

theorem bind_none {m : Attempt σ α} {f : α → Attempt σ β} {s t : σ} (h : m s=(none,t)) : (m >>= f) s=(none,t) := by
  change (match m s with | (some a,t) => f a t | (none,t) => (none,t))=_
  rw [h]

/-- From a state in `P` the computation ends in `Q` with its result, or fails in `E`. -/
def Spec (P : σ → Prop) (m : Attempt σ α) (Q : α → σ → Prop) (E : σ → Prop) : Prop :=
  ∀ s,P s → (∀ a t,m s=(some a,t) → Q a t) ∧ ∀ t,m s=(none,t) → E t

/-- The computation leaves `I` as it is, or fails in `E`. -/
def KeepsOr (I E : σ → Prop) (m : Attempt σ α) : Prop := Spec I m (fun _ => I) E

/-- Whatever the computation does, it leaves `I` as it is. -/
abbrev Keeps (I : σ → Prop) (m : Attempt σ α) : Prop := KeepsOr I I m

section
variable {P P' I : σ → Prop} {m : Attempt σ α} {f : α → Attempt σ β} {Q Q' : α → σ → Prop}
  {R : β → σ → Prop} {E E' : σ → Prop}

theorem spec_pure (a : α) (h : ∀ s,P s → Q a s) : Spec P (pure a) Q E := by
  intro s hs
  refine ⟨?_,?_⟩
  · rintro b t ⟨⟩
    exact h s hs
  · rintro t ⟨⟩

theorem spec_read {Q : σ → σ → Prop} (h : ∀ s,P s → Q s s) : Spec P read Q E := by
  intro s hs
  refine ⟨?_,?_⟩
  · rintro b t ⟨⟩
    exact h s hs
  · rintro t ⟨⟩

theorem spec_gets (f : σ → α) (h : ∀ s,P s → Q (f s) s) : Spec P (f <$> read) Q E := by
  intro s hs
  refine ⟨?_,?_⟩
  · rintro b t ⟨⟩
    exact h s hs
  · rintro t ⟨⟩

theorem spec_change {Q : Unit → σ → Prop} (g : σ → σ) (h : ∀ s,P s → Q () (g s)) : Spec P (change g) Q E := by
  intro s hs
  refine ⟨?_,?_⟩
  · rintro b t ⟨⟩
    exact h s hs
  · rintro t ⟨⟩

theorem spec_bind (hm : Spec P m Q E) (hf : ∀ a,Spec (Q a) (f a) R E) : Spec P (m >>= f) R E := by
  intro s hs
  have h := hm s hs
  change (∀ b t,(match m s with | (some a,t) => f a t | (none,t) => (none,t))=(some b,t) → R b t) ∧
    ∀ t,(match m s with | (some a,t) => f a t | (none,t) => (none,t))=(none,t) → E t
  cases hms : m s with
  | mk x u =>
    cases x with
    | none =>
      refine ⟨?_,?_⟩
      · rintro b t ⟨⟩
      · rintro t ⟨⟩
        exact h.2 u hms
    | some a => exact hf a u (h.1 a u hms)

theorem spec_then {P Q : σ → Prop} {g : σ → σ} {f : Unit → Attempt σ β} (h : ∀ s,P s → Q (g s))
    (hf : Spec Q (f ()) R E) : Spec P (change g >>= f) R E :=
  spec_bind (Q := fun _ => Q) (spec_change g h) fun _ => hf

theorem spec_onFailure (clean : σ → σ) (hm : Spec P m Q E') (he : ∀ s,E' s → E (clean s)) :
    Spec P (m.onFailure clean) Q E := by
  intro s hs
  have h := hm s hs
  unfold onFailure
  cases hms : m s with
  | mk x u =>
    cases x with
    | none =>
      refine ⟨?_,?_⟩
      · rintro b t ⟨⟩
      · rintro t ⟨⟩
        exact he u (h.2 u hms)
    | some a =>
      refine ⟨?_,?_⟩
      · rintro b t ⟨⟩
        exact h.1 a u hms
      · rintro t ⟨⟩

theorem Spec.weaken (h : Spec P m Q E) (hp : ∀ s,P' s → P s) (hq : ∀ a s,Q a s → Q' a s)
    (he : ∀ s,E s → E' s) : Spec P' m Q' E' := by
  intro s hs
  have hm := h s (hp s hs)
  exact ⟨fun a t ht => hq a t (hm.1 a t ht),fun t ht => he t (hm.2 t ht)⟩

theorem spec_ite {c : Prop} [Decidable c] {m' : Attempt σ α} (ht : c → Spec P m Q E)
    (hf : ¬c → Spec P m' Q E) : Spec P (if c then m else m') Q E := by
  by_cases hc : c
  · rw [if_pos hc]
    exact ht hc
  · rw [if_neg hc]
    exact hf hc

theorem spec_doIf {c : Prop} [Decidable c] {m : Attempt σ Unit} {Q : Unit → σ → Prop}
    (ht : c → Spec P m Q E) (hf : ¬c → ∀ s,P s → Q () s) : Spec P (doIf c m) Q E :=
  spec_ite ht (fun hc => spec_pure () (hf hc))

theorem keeps_pure (a : α) : KeepsOr I E (pure a : Attempt σ α) := spec_pure a (fun _ h => h)

theorem keeps_read : KeepsOr I E read := spec_read (fun _ h => h)

theorem keeps_change (g : σ → σ) (h : ∀ s,I s → I (g s)) : KeepsOr I E (change g) := spec_change g h

theorem keeps_bind (hm : KeepsOr I E m) (hf : ∀ a,KeepsOr I E (f a)) : KeepsOr I E (m >>= f) :=
  spec_bind hm hf

theorem keeps_then {g : σ → σ} {f : Unit → Attempt σ β} (h : ∀ s,I s → I (g s)) (hf : KeepsOr I E (f ())) :
    KeepsOr I E (change g >>= f) :=
  spec_then h hf

theorem keeps_ite {c : Prop} [Decidable c] {m' : Attempt σ α} (ht : c → KeepsOr I E m)
    (hf : ¬c → KeepsOr I E m') : KeepsOr I E (if c then m else m') :=
  spec_ite ht hf

theorem keeps_doIf {c : Prop} [Decidable c] {m : Attempt σ Unit} (h : c → KeepsOr I E m) : KeepsOr I E (doIf c m) :=
  spec_doIf h (fun _ _ hs => hs)

theorem keeps_read_bind {f : σ → Attempt σ β}
    (h : ∀ s,I s → (∀ b t,f s s=(some b,t) → I t) ∧ ∀ t,f s s=(none,t) → E t) : KeepsOr I E (read >>= f) :=
  fun s hs => h s hs

end

end Attempt

end QUniLator
