import Mathlib.Data.List.Basic

namespace QUniLator

/-- The state after the operations `ops`, done in order. -/
def replay {σ ω : Type*} (apply : σ → ω → σ) (s : σ) (ops : List ω) : σ := ops.foldl apply s

/-- `Q` holds wherever the sequence `ops` is cut short: after none of it, after all of it and
between any two operations. -/
def Cuts {σ ω : Type*} (apply : σ → ω → σ) (s : σ) (ops : List ω) (Q : σ → Prop) : Prop :=
  ∀ k,Q (replay apply s (ops.take k))

section
variable {σ ω : Type*} {apply : σ → ω → σ} {Q : σ → Prop}

@[simp] theorem replay_nil (s : σ) : replay apply s []=s := rfl

@[simp] theorem replay_cons (s : σ) (o : ω) (ops : List ω) :
    replay apply s (o::ops)=replay apply (apply s o) ops := rfl

theorem replay_append (s : σ) (as bs : List ω) : replay apply s (as++bs)=replay apply (replay apply s as) bs :=
  List.foldl_append

theorem Cuts.nil {s : σ} (h : Q s) : Cuts apply s [] Q := by
  intro k
  simpa using h

theorem Cuts.cons {s : σ} {o : ω} {ops : List ω} (h : Q s) (ht : Cuts apply (apply s o) ops Q) :
    Cuts apply s (o::ops) Q := by
  intro k
  cases k with
  | zero => simpa using h
  | succ k => simpa using ht k

theorem Cuts.append {s : σ} {as bs : List ω} (ha : Cuts apply s as Q)
    (hb : Cuts apply (replay apply s as) bs Q) : Cuts apply s (as++bs) Q := by
  induction as generalizing s with
  | nil => exact hb
  | cons o as ih =>
    refine Cuts.cons (by simpa using ha 0) (ih ?_ hb)
    intro k
    simpa using ha (k+1)

theorem Cuts.mono {s : σ} {ops : List ω} {R : σ → Prop} (h : Cuts apply s ops Q)
    (hr : ∀ t,Q t → R t) : Cuts apply s ops R :=
  fun k => hr _ (h k)

/-- A call that went from `s` to `t` and lengthened the log of operations from `as` to `bs`, with
`R` holding wherever it is cut short. -/
def Trail (apply : σ → ω → σ) (R : σ → Prop) (s : σ) (as : List ω) (t : σ) (bs : List ω) : Prop :=
  ∃ ops,bs=as++ops ∧ t=replay apply s ops ∧ Cuts apply s ops R

/-- The state after the first `k` operations of a call that lengthened the log from `as` to `bs`. -/
def cutAfter (apply : σ → ω → σ) (s : σ) (as bs : List ω) (k : Nat) : σ :=
  replay apply s ((bs.drop as.length).take k)

variable {R : σ → Prop} {s t u : σ} {as bs cs : List ω}

theorem Trail.quiet (h : R s) (hl : bs=as) (ht : t=s) : Trail apply R s as t bs :=
  ⟨[],by simp [hl],by simp [ht],.nil h⟩

theorem Trail.op (o : ω) (h : R s) (h' : R t) (hl : bs=as++[o]) (ht : t=apply s o) : Trail apply R s as t bs :=
  ⟨[o],hl,by simp [ht],.cons h (.nil (ht ▸ h'))⟩

theorem Trail.trans (h : Trail apply R s as t bs) (k : Trail apply R t bs u cs) : Trail apply R s as u cs := by
  obtain ⟨ops,hl,ht,hc⟩ := h
  obtain ⟨ops',kl,ku,kc⟩ := k
  refine ⟨ops++ops',by rw [kl,hl,List.append_assoc],by rw [replay_append,← ht,ku],?_⟩
  exact hc.append (ht ▸ kc)

theorem Trail.mono {R' : σ → Prop} (h : Trail apply R s as t bs) (hr : ∀ x,R x → R' x) :
    Trail apply R' s as t bs := by
  obtain ⟨ops,hl,ht,hc⟩ := h
  exact ⟨ops,hl,ht,hc.mono hr⟩

theorem Trail.cut (h : Trail apply R s as t bs) (k : Nat) : R (cutAfter apply s as bs k) := by
  obtain ⟨ops,rfl,-,hc⟩ := h
  rw [cutAfter,List.drop_left' rfl]
  exact hc k

end

end QUniLator
