import QUniLator.Adapter.InterruptPasses

namespace QUniLator.Adapter

open List Function

def Cancels (level : Fin 4) (commands : List IntrCommand) : Prop :=
  ∃ bits,IntrCommand.cancel bits∈commands ∧ bits.getLsbD level=true

def Hands (level : Fin 4) (commands : List IntrCommand) : Prop :=
  ∃ vector handle value,IntrCommand.intr level vector handle value∈commands

namespace IntrSystem

variable {ρ ι δ : Type} {b : Board ρ ι δ} {s t : IntrSystem ι} {level : Fin 4} {r : ι}

structure Quiet (level : Fin 4) (s : IntrSystem ι) : Prop where
  requests : s.pru.arb.requests level=false
  acknowledging : ¬s.pru.Acknowledging level
  event : s.event level=none

/-- How far the active request of a level is on the PRU. -/
inductive Stage (level : Fin 4) (r : ι) (s : IntrSystem ι) : Prop
  | requested (hq : s.pru.arb.requests level=true ∨ s.InitOwed) (he : ¬s.pru.arb.Ending level)
    (hv : s.event level=none) (ha : (s.raised (s.current r)).answers=[])
    (hh : (s.raised (s.current r)).handed=some (s.pru.intr.vector level))
  | ending (he : s.pru.arb.Ending level) (hn : s.ending=some (s.current r))
    (hv : s.event level=none) (vector : Word)
    (ha : (s.raised (s.current r)).answers=[vector])
    (hh : (s.raised (s.current r)).handed=some vector)
  | done (hv : s.event level=some (s.current r)) (vector : Word)
    (ha : (s.raised (s.current r)).answers=[vector])
    (hh : (s.raised (s.current r)).handed=some vector)

def Busy (level : Fin 4) (w : IntrWorker) : Prop := w=.retiring level ∨ w=.acking level

instance (level : Fin 4) (w : IntrWorker) : Decidable (Busy level w) :=
  inferInstanceAs (Decidable (_ ∨ _))

/-- The interrupt of a level, in the tables and on the PRU -/
structure LevelOk (level : Fin 4) (s : IntrSystem ι) : Prop where
  cancels : Cancels level s.todo → s.Quiet level ∨
    ∃ n,s.onPru level=some n ∧ (s.raised n).fate=.withdrawn
  hands : ¬Cancels level s.todo → Hands level s.todo → s.Quiet level
  free : ¬Cancels level s.todo → (s.arm.br level).active=none → s.Quiet level
  stage : ¬Cancels level s.todo → ¬Hands level s.todo → ∀ r,(s.arm.br level).active=some r →
    s.onPru level=some (s.current r) ∧ s.Stage level r
  once : s.event level≠none → s.pru.arb.requests level=false ∧ ¬s.pru.Acknowledging level
  ended : s.pru.arb.Ending level → s.pru.arb.requests level=false ∧ s.ending≠none
  events : (s.pru.arb.intrMaster level).signaled=(s.pru.arb.intrMaster level).acked+
    (if s.event level=none then 0 else 1)+if Busy level s.worker then 1 else 0

/-- What is known of the requests agrees with the tables. -/
structure Known (b : Board ρ ι δ) (s : IntrSystem ι) : Prop where
  scheduled : ∀ level t r,(s.arm.br level).slotRequest t=some r →
    s.current r<s.count ∧ (s.raised (s.current r)).fate=.pending ∧
      (s.raised (s.current r)).request=r
  pending : ∀ n<s.count,(s.raised n).fate=.pending →
    (s.arm.br (b.intrLevel (s.raised n).request)).slotRequest (b.intrSlot (s.raised n).request) =
      some (s.raised n).request ∧ s.current (s.raised n).request=n
  retired : ∀ n<s.count,(s.raised n).fate=.retired →
    ∃ vector,(s.raised n).answers=[vector] ∧ (s.raised n).handed=some vector
  waiting : ∀ level t r,(s.arm.br level).slotRequest t=some r →
    (s.arm.br level).active≠some r ∨ Hands level s.todo → (s.raised (s.current r)).answers=[]
  onPru : ∀ level n,s.onPru level=some n → n<s.count ∧ b.intrLevel (s.raised n).request=level
  own : s.mismatch=false

def PutOk (s : IntrSystem ι) : Prop :=
  match s.todo with
  | [] => s.put=false
  | .cancel bits::_ => s.put=true → s.pru.intr.priorityArbitrationBit=bits
  | .intr level vector _ _::_ => s.put=true →
    s.pru.intr.priorityArbitrationBit=levelBit level ∧ s.pru.intr.vector level=vector ∧
    ∃ r,(s.arm.br level).active=some r ∧ s.onPru level=some (s.current r) ∧
      (s.raised (s.current r)).handed=some vector

/-- The commands that an operation leaves: a level or all of them withdrawn, and the next request of
the level handed over, which is the active one. -/
inductive TodoOk (arm : IntrTables ι) : List IntrCommand → Prop
  | nil : TodoOk arm []
  | intr (level : Fin 4) (vector : Word) (handle : Nat) (value : Word) (r : ι)
    (ha : (arm.br level).active=some r) : TodoOk arm [.intr level vector handle value]
  | cancel (bits : Mask)
    (ha : ∀ level : Fin 4,bits.getLsbD level=true → (arm.br level).active=none) :
    TodoOk arm [.cancel bits]
  | both (level : Fin 4) (vector : Word) (handle : Nat) (value : Word) (r : ι)
    (ha : (arm.br level).active=some r) :
    TodoOk arm [.cancel (levelBit level),.intr level vector handle value]

structure Inv (b : Board ρ ι δ) (s : IntrSystem ι) : Prop where
  arm : s.arm.Inv b
  orderly : s.pru.arb.Orderly
  todo : TodoOk s.arm s.todo
  put : s.PutOk
  known : s.Known b
  level : ∀ level,s.LevelOk level

def Noted (i : PassLines) (level : Fin 4) (p : Pru) : Prop :=
  p.Answers i ∧ p.arb.Vectoring level ∨ Rescues i level p ∨ p.Completes i ∧ p.arb.Ending level

variable {i : PassLines}

theorem note_of_not (h : ¬Noted i level s.pru) : s.note i level=s := by
  obtain ⟨hv,hr,he⟩ : ¬(s.pru.Answers i ∧ s.pru.arb.Vectoring level) ∧
      ¬Rescues i level s.pru ∧ ¬(s.pru.Completes i ∧ s.pru.arb.Ending level) := by
    simpa only [Noted,not_or] using h
  rw [note,if_neg hv,if_neg hr,if_neg he]

@[simp] theorem answered_pru (s : IntrSystem ι) (level : Fin 4) (vector : Word) :
    (s.answered level vector).pru=s.pru := by
  rw [answered]
  cases s.onPru level <;> rfl

theorem note_pru (i : PassLines) (s : IntrSystem ι) (level : Fin 4) : (s.note i level).pru=s.pru := by
  rw [note]
  split_ifs
  · exact answered_pru s level _
  · exact answered_pru s level _
  · rfl
  · rfl

theorem note_foldl_of_not (levels : List (Fin 4))
    (h : ∀ level∈levels,¬Noted i level s.pru) : levels.foldl (note i) s=s := by
  induction levels with
  | nil => rfl
  | cons level levels ih =>
    rw [foldl_cons,note_of_not (h level mem_cons_self)]
    exact ih fun m hm => h m (mem_cons_of_mem level hm)

theorem note_foldl_one {m : Fin 4} (levels : List (Fin 4)) (hd : levels.Nodup)
    (hm : m∈levels) (h : ∀ level,level≠m → ¬Noted i level s.pru) : levels.foldl (note i) s=s.note i m := by
  induction levels with
  | nil => cases hm
  | cons level levels ih =>
    obtain ⟨hnot,hd⟩ := nodup_cons.mp hd
    rw [foldl_cons]
    by_cases hl : level=m
    · subst hl
      refine note_foldl_of_not levels fun q hq => ?_
      rw [note_pru]
      exact h q fun he => hnot (he ▸ hq)
    · rw [note_of_not (h level hl)]
      exact ih hd ((mem_cons.mp hm).resolve_left (Ne.symm hl))

theorem Noted.unique {p : Pru} (h : p.arb.Orderly) {m : Fin 4}
    (hl : Noted i level p) (hm : Noted i m p) : level=m := by
  obtain ⟨-,hl⟩ | ⟨-,hl,hli⟩ | ⟨-,hl,hli⟩ := hl <;> obtain ⟨-,hm⟩ | ⟨-,hm,hmi⟩ | ⟨-,hm,hmi⟩ := hm
  · obtain ⟨k,hk⟩ := h.accepted hl.1
    have h1 := hl.2
    have h2 := hm.2
    rw [hk,levelBit_getLsbD,decide_eq_true_eq] at h1 h2
    exact h1.symm.trans h2
  · have hs := hl.1; rw [hm] at hs; cases hs
  · have hs := hl.1; rw [hm] at hs; cases hs
  · have hs := hm.1; rw [hl] at hs; cases hs
  · exact Fin.ext (hli.symm.trans hmi)
  · rw [hl] at hm; cases hm
  · have hs := hm.1; rw [hl] at hs; cases hs
  · rw [hl] at hm; cases hm
  · exact Fin.ext (hli.symm.trans hmi)

theorem noted_cases (h : s.pru.arb.Orderly) : (∃ m,Noted i m s.pru ∧ (∀ level,level≠m → ¬Noted i level s.pru) ∧
      (finRange 4).foldl (note i) s=s.note i m) ∨
    (∀ level,¬Noted i level s.pru) ∧ (finRange 4).foldl (note i) s=s := by
  by_cases hn : ∃ m,Noted i m s.pru
  · obtain ⟨m,hm⟩ := hn
    have hother (level : Fin 4) (hl : level≠m) : ¬Noted i level s.pru :=
      fun hx => hl (hx.unique h hm)
    exact .inl ⟨m,hm,hother,note_foldl_one _ (nodup_finRange 4) (mem_finRange m) hother⟩
  · have hno : ∀ level,¬Noted i level s.pru := not_exists.mp hn
    exact .inr ⟨hno,note_foldl_of_not _ fun level _ => hno level⟩

theorem LevelOk.other (h : s.LevelOk level)
    (hp : s.pru.LevelPass i level t.pru) (hnv : ¬(s.pru.Answers i ∧ s.pru.arb.Vectoring level))
    (hne : ¬(s.pru.Completes i ∧ s.pru.arb.Ending level))
    (harm : t.arm=s.arm) (htodo : t.todo=s.todo) (hworker : t.worker=s.worker)
    (hcurrent : t.current=s.current) (hevent : t.event level=s.event level)
    (honPru : t.onPru level=s.onPru level) (hintr : t.pru.intr=s.pru.intr)
    (hfate : ∀ n,(t.raised n).fate=(s.raised n).fate)
    (hraised : ∀ r,(s.arm.br level).active=some r → ¬Hands level s.todo →
      t.raised (s.current r)=s.raised (s.current r)) (hending : s.pru.arb.Ending level → t.ending=s.ending)
    (howed : s.InitOwed ∨ s.pru.Clears i → t.InitOwed) : t.LevelOk level := by
  have hwithdrawn : (∃ n,s.onPru level=some n ∧ (s.raised n).fate=.withdrawn) →
      ∃ n,t.onPru level=some n ∧ (t.raised n).fate=.withdrawn := by
    rintro ⟨n,hn,hf⟩
    exact ⟨n,honPru.trans hn,(hfate n).trans hf⟩
  -- what the request bit of an active request comes to
  have hkeep (hl : s.pru.arb.requests level=true →
      t.pru.arb.requests level=true ∨ s.pru.Clears i)
      (hq : s.pru.arb.requests level=true ∨ s.InitOwed) :
      t.pru.arb.requests level=true ∨ t.InitOwed := by
    obtain hq | hq := hq
    · obtain hq | hq := hl hq
      · exact .inl hq
      · exact .inr (howed (.inr hq))
    · exact .inr (howed (.inl hq))
  have hevents (hm : t.pru.arb.intrMaster level=s.pru.arb.intrMaster level) :
      (t.pru.arb.intrMaster level).signaled=(t.pru.arb.intrMaster level).acked+
        (if t.event level=none then 0 else 1)+if Busy level t.worker then 1 else 0 := by
    rw [hm,hevent,hworker]; exact h.events
  cases hp with
  | kept hv he hr hl hm hd hc =>
    have hack : t.pru.Acknowledging level ↔ s.pru.Acknowledging level := or_congr hv he
    have hquiet (hq : s.Quiet level) : t.Quiet level := by
      refine ⟨?_,fun ha => hq.acknowledging (hack.mp ha),hevent.trans hq.event⟩
      by_contra hx
      rw [Bool.not_eq_false] at hx
      rw [hq.requests] at hr
      cases hr hx
    refine ⟨fun hx => ?_,fun hx hy => ?_,fun hx hy => ?_,fun hx hy r hr' => ?_,fun hx => ?_,
      fun hx => ?_,hevents hm⟩
    · rw [htodo] at hx
      exact (h.cancels hx).imp hquiet hwithdrawn
    · rw [htodo] at hx hy
      exact hquiet (h.hands hx hy)
    · rw [htodo] at hx
      rw [harm] at hy
      exact hquiet (h.free hx hy)
    · rw [htodo] at hx hy
      rw [harm] at hr'
      obtain ⟨hon,hst⟩ := h.stage hx hy r hr'
      have hra := hraised r hr' hy
      rw [← hcurrent] at hon hra
      refine ⟨honPru.trans hon,?_⟩
      cases hst with
      | requested hq hne' hv' ha hh =>
        rw [← hcurrent,← hra] at ha hh
        exact .requested (hkeep hl hq) (fun hx => hne' (he.mp hx)) (hevent.trans hv') ha
          (by rw [hintr]; exact hh)
      | ending he' hn' hv' vector ha hh =>
        rw [← hcurrent,← hra] at ha hh
        exact .ending (he.mpr he') (by rw [hending he',hcurrent]; exact hn') (hevent.trans hv')
          vector ha hh
      | done hv' vector ha hh =>
        rw [← hcurrent,← hra] at ha hh
        exact .done (by rw [hevent,hcurrent]; exact hv') vector ha hh
    · rw [hevent] at hx
      obtain ⟨hq,ha⟩ := h.once hx
      refine ⟨?_,fun hy => ha (hack.mp hy)⟩
      by_contra hz
      rw [Bool.not_eq_false] at hz
      rw [hq] at hr
      cases hr hz
    · obtain ⟨hq,hne'⟩ := h.ended (he.mp hx)
      refine ⟨?_,by rw [hending (he.mp hx)]; exact hne'⟩
      by_contra hz
      rw [Bool.not_eq_false] at hz
      rw [hq] at hr
      cases hr hz
  | accepted hs hv hq hr hm =>
    have hnq : ¬s.Quiet level := fun hx => by
      rw [hx.requests] at hq
      cases hq
    refine ⟨fun hx => ?_,fun hx hy => ?_,fun hx hy => ?_,fun hx hy r hr' => ?_,fun hx => ?_,
      fun hx => ?_,hevents hm⟩
    · rw [htodo] at hx
      exact .inr (hwithdrawn ((h.cancels hx).resolve_left hnq))
    · rw [htodo] at hx hy
      exact absurd (h.hands hx hy) hnq
    · rw [htodo] at hx
      rw [harm] at hy
      exact absurd (h.free hx hy) hnq
    · rw [htodo] at hx hy
      rw [harm] at hr'
      obtain ⟨hon,hst⟩ := h.stage hx hy r hr'
      have hra := hraised r hr' hy
      rw [← hcurrent] at hon hra
      refine ⟨honPru.trans hon,?_⟩
      cases hst with
      | requested hq' hne' hv' ha hh =>
        rw [← hcurrent,← hra] at ha hh
        refine .requested (.inl hr) (fun hx => ?_) (hevent.trans hv') ha (by rw [hintr]; exact hh)
        have h1 := hx.1
        rw [hv.1] at h1
        cases h1
      | ending he' =>
        have h1 := he'.1
        rw [hs] at h1
        cases h1
      | done hv' =>
        obtain ⟨hx,-⟩ := h.once (by rw [hv']; rintro ⟨⟩)
        rw [hq] at hx
        cases hx
    · rw [hevent] at hx
      obtain ⟨hx,-⟩ := h.once hx
      rw [hq] at hx
      cases hx
    · have h1 := hx.1
      rw [hv.1] at h1
      cases h1
  | abandoned hs hi ht hr hl hm =>
    have hnq : ¬s.Quiet level := fun hx => hx.acknowledging (.inl hs)
    have hnack : ¬t.pru.Acknowledging level := by
      rintro (hx | hx)
      all_goals have h1 := hx.1; rw [ht] at h1; cases h1
    have hsevent : s.event level=none := by
      by_contra hx
      exact (h.once hx).2 (.inl hs)
    refine ⟨fun hx => ?_,fun hx hy => ?_,fun hx hy => ?_,fun hx hy r hr' => ?_,fun hx => ?_,
      fun hx => absurd (.inr hx) hnack,hevents hm⟩
    · rw [htodo] at hx
      exact .inr (hwithdrawn ((h.cancels hx).resolve_left hnq))
    · rw [htodo] at hx hy
      exact absurd (h.hands hx hy) hnq
    · rw [htodo] at hx
      rw [harm] at hy
      exact absurd (h.free hx hy) hnq
    · rw [htodo] at hx hy
      rw [harm] at hr'
      obtain ⟨hon,hst⟩ := h.stage hx hy r hr'
      have hra := hraised r hr' hy
      rw [← hcurrent] at hon hra
      refine ⟨honPru.trans hon,?_⟩
      cases hst with
      | requested hq' hne' hv' ha hh =>
        rw [← hcurrent,← hra] at ha hh
        exact .requested (hkeep hl hq') (fun hx => hnack (.inr hx)) (hevent.trans hv') ha
          (by rw [hintr]; exact hh)
      | ending he' =>
        have h1 := he'.1
        rw [hs.1] at h1
        cases h1
      | done hv' => rw [hsevent] at hv'; cases hv'
    · exact absurd (hevent.trans hsevent) hx
  | driven hs hi => exact absurd ⟨hi,hs⟩ hnv
  | ended hs hi => exact absurd ⟨hi,hs⟩ hne

/-- For whom the vector of a level is driven: a request withdrawn, or the active one. -/
theorem LevelOk.vectoring (h : s.LevelOk level) (hv : s.pru.arb.Vectoring level) :
    (∃ n,s.onPru level=some n ∧ (s.raised n).fate=.withdrawn) ∨ ¬Cancels level s.todo ∧ ¬Hands level s.todo ∧
      ∃ r,(s.arm.br level).active=some r ∧ s.onPru level=some (s.current r) ∧ (s.raised (s.current r)).answers=[] ∧
        (s.raised (s.current r)).handed=some (s.pru.intr.vector level) := by
  have hnq : ¬s.Quiet level := fun hx => hx.acknowledging (.inl hv)
  by_cases hc : Cancels level s.todo
  · exact .inl ((h.cancels hc).resolve_left hnq)
  by_cases hh : Hands level s.todo
  · exact absurd (h.hands hc hh) hnq
  cases ha : (s.arm.br level).active with
  | none => exact absurd (h.free hc ha) hnq
  | some r =>
    obtain ⟨hon,hst⟩ := h.stage hc hh r ha
    refine .inr ⟨hc,hh,r,rfl,hon,?_⟩
    cases hst with
    | requested hq he hv' ha' hh' => exact ⟨ha',hh'⟩
    | ending he' =>
      have h1 := he'.1
      rw [hv.1] at h1
      cases h1
    | done hv' => exact absurd (.inl hv) (h.once (by rw [hv']; rintro ⟨⟩)).2

theorem LevelOk.onPru_of_vectoring (h : s.LevelOk level) (hv : s.pru.arb.Vectoring level) : s.onPru level≠none := by
  obtain ⟨n,hn,-⟩ | ⟨-,-,r,-,hn,-⟩ := h.vectoring hv <;> rw [hn] <;> rintro ⟨⟩

theorem LevelOk.driven (h : s.LevelOk level) (hv : s.pru.arb.Vectoring level)
    (he : t.pru.arb.Ending level) (hr : t.pru.arb.requests level=false)
    (hm : t.pru.arb.intrMaster level=s.pru.arb.intrMaster level)
    (harm : t.arm=s.arm) (htodo : t.todo=s.todo) (hworker : t.worker=s.worker)
    (hcurrent : t.current=s.current) (hevent : t.event=s.event)
    (honPru : t.onPru=s.onPru) (hending : t.ending=s.onPru level)
    (hraised : ∀ n,s.onPru level=some n → t.raised = update s.raised n { s.raised n with
        answers := s.pru.intr.vector level::(s.raised n).answers }) : t.LevelOk level := by
  have hnq : ¬s.Quiet level := fun hx => hx.acknowledging (.inl hv)
  have hsevent : s.event level=none := by
    by_contra hx
    exact (h.once hx).2 (.inl hv)
  refine ⟨fun hx => ?_,fun hx hy => ?_,fun hx hy => ?_,fun hx hy r hr' => ?_,fun hx => ?_,
    fun _ => ⟨hr,by rw [hending]; exact h.onPru_of_vectoring hv⟩,?_⟩
  · rw [htodo] at hx
    obtain ⟨n,hn,hf⟩ := (h.cancels hx).resolve_left hnq
    refine .inr ⟨n,honPru ▸ hn,?_⟩
    rw [hraised n hn,update_self]
    exact hf
  · rw [htodo] at hx hy
    exact absurd (h.hands hx hy) hnq
  · rw [htodo] at hx
    rw [harm] at hy
    exact absurd (h.free hx hy) hnq
  · rw [htodo] at hx hy
    rw [harm] at hr'
    obtain ⟨hon,hst⟩ := h.stage hx hy r hr'
    rw [hcurrent,honPru]
    refine ⟨hon,?_⟩
    cases hst with
    | requested hq' hne' hv' ha hh =>
      refine .ending he (by rw [hending,hcurrent]; exact hon) (by rw [hevent]; exact hv')
        (s.pru.intr.vector level) ?_ ?_
      · rw [hcurrent,hraised _ hon,update_self,ha]
      · rw [hcurrent,hraised _ hon,update_self]; exact hh
    | ending he' =>
      have h1 := he'.1
      rw [hv.1] at h1
      cases h1
    | done hv' => rw [hsevent] at hv'; cases hv'
  · rw [hevent] at hx
    exact absurd hsevent hx
  · rw [hm,hevent,hworker]
    exact h.events

theorem LevelOk.signalled (h : s.LevelOk level) (he : s.pru.arb.Ending level) (ht : t.pru.arb.state=.grantCheck)
    (hr : t.pru.arb.requests level → s.pru.arb.requests level)
    (hm : t.pru.arb.intrMaster level=(s.pru.arb.intrMaster level).signal)
    (harm : t.arm=s.arm) (htodo : t.todo=s.todo) (hworker : t.worker=s.worker)
    (hcurrent : t.current=s.current) (hevent : t.event level=s.ending)
    (honPru : t.onPru=s.onPru) (hraised : t.raised=s.raised) : t.LevelOk level := by
  have hnq : ¬s.Quiet level := fun hx => hx.acknowledging (.inr he)
  have hsevent : s.event level=none := by
    by_contra hx
    exact (h.once hx).2 (.inr he)
  obtain ⟨hreq,hend⟩ := h.ended he
  have htr : t.pru.arb.requests level=false := by
    by_contra hx
    rw [Bool.not_eq_false] at hx
    rw [hreq] at hr
    cases hr hx
  have hnack : ¬t.pru.Acknowledging level := by
    rintro (hx | hx)
    all_goals have h1 := hx.1; rw [ht] at h1; cases h1
  refine ⟨fun hx => ?_,fun hx hy => ?_,fun hx hy => ?_,fun hx hy r hr' => ?_,
    fun _ => ⟨htr,hnack⟩,fun hx => absurd (.inr hx) hnack,?_⟩
  · rw [htodo] at hx
    obtain ⟨n,hn,hf⟩ := (h.cancels hx).resolve_left hnq
    exact .inr ⟨n,honPru ▸ hn,hraised ▸ hf⟩
  · rw [htodo] at hx hy
    exact absurd (h.hands hx hy) hnq
  · rw [htodo] at hx
    rw [harm] at hy
    exact absurd (h.free hx hy) hnq
  · rw [htodo] at hx hy
    rw [harm] at hr'
    obtain ⟨hon,hst⟩ := h.stage hx hy r hr'
    rw [hcurrent,honPru]
    refine ⟨hon,?_⟩
    cases hst with
    | requested hq' hne' => exact absurd he hne'
    | ending he' hn' hv' vector ha hh =>
      refine .done (by rw [hevent,hcurrent]; exact hn') vector ?_ ?_
      · rw [hcurrent,hraised]; exact ha
      · rw [hcurrent,hraised]; exact hh
    | done hv' => rw [hsevent] at hv'; cases hv'
  · have hev := h.events
    rw [hsevent,if_pos rfl] at hev
    rw [hm,hevent,hworker,if_neg hend]
    show (s.pru.arb.intrMaster level).signaled+1=(s.pru.arb.intrMaster level).acked+1+_
    rw [hev]
    ring

theorem Known.answered (h : s.Known b) (vector : Word) (hn : ∀ n,s.onPru level=some n → (s.raised n).fate=.withdrawn ∨
      ¬Hands level s.todo ∧ ∃ r,(s.arm.br level).active=some r ∧ n=s.current r)
    (harm : s.arm.Inv b) : (s.answered level vector).Known b := by
  rw [IntrSystem.answered]
  cases ho : s.onPru level with
  | none => exact h
  | some n =>
    obtain ⟨hlt,hlev⟩ := h.onPru level n ho
    have hsame (m : Nat) : ((update s.raised n { s.raised n with
        answers := vector::(s.raised n).answers }) m).fate=(s.raised m).fate ∧
        ((update s.raised n { s.raised n with
        answers := vector::(s.raised n).answers }) m).request=(s.raised m).request := by
      by_cases hm : m=n
      · subst hm
        rw [update_self]
        exact ⟨rfl,rfl⟩
      · rw [update_of_ne hm]
        exact ⟨rfl,rfl⟩
    -- the request is not one that was retired, nor one that waits
    have hnot : (s.raised n).fate≠.retired := by
      obtain hw | ⟨-,r,hr,rfl⟩ := hn n ho
      · rw [hw]; decide
      · rw [(h.scheduled level _ r ((harm.level level).consistent.inSlot r hr)).2.1]; decide
    refine ⟨fun m u r hu => ?_,fun m hm hf => ?_,fun m hm hf => ?_,fun m u r hu hw => ?_,
      fun m k hk => ?_,h.own⟩
    · obtain ⟨h1,h2,h3⟩ := h.scheduled m u r hu
      exact ⟨h1,(hsame _).1.trans h2,(hsame _).2.trans h3⟩
    · have hp := h.pending m hm ((hsame m).1 ▸ hf)
      show (s.arm.br (b.intrLevel ((update s.raised n _) m).request)).slotRequest
        (b.intrSlot ((update s.raised n _) m).request) =
          some ((update s.raised n _) m).request ∧
          s.current ((update s.raised n _) m).request=m
      rw [(hsame m).2]
      exact hp
    · have hne : m≠n := by
        rintro rfl
        exact hnot ((hsame m).1 ▸ hf)
      show ∃ v,((update s.raised n _) m).answers=[v] ∧
        ((update s.raised n _) m).handed=some v
      rw [update_of_ne hne]
      exact h.retired m hm ((hsame m).1 ▸ hf)
    · have hne : s.current r≠n := by
        rintro rfl
        obtain ⟨-,hf,hq⟩ := h.scheduled m u r hu
        obtain hw' | ⟨hno,q,hq',hx⟩ := hn _ ho
        · rw [hf] at hw'; cases hw'
        · have hqs := (h.scheduled level _ q ((harm.level level).consistent.inSlot q hq')).2.2
          rw [← hx,hq] at hqs
          subst hqs
          have hm : m=level := by
            rw [← (harm.level m).level u r hu,← hlev,hq]
          subst hm
          obtain hw | hw := hw
          · exact hw hq'
          · exact hno hw
      show ((update s.raised n _) (s.current r)).answers=[]
      rw [update_of_ne hne]
      exact h.waiting m u r hu hw
    · obtain ⟨h1,h2⟩ := h.onPru m k hk
      exact ⟨h1,by rw [← h2]; exact congrArg b.intrLevel (hsame k).2⟩

theorem answered_eq (s : IntrSystem ι) (level : Fin 4) (vector : Word) :
    s.answered level vector={ s with raised := (s.answered level vector).raised } := by
  rw [answered]
  cases s.onPru level <;> rfl

theorem answered_raised {n : Nat} (vector : Word) (h : s.onPru level=some n) :
    (s.answered level vector).raised=update s.raised n { s.raised n with
      answers := vector::(s.raised n).answers } := by
  rw [answered,h]
  rfl

theorem answered_same (s : IntrSystem ι) (level : Fin 4) (vector : Word) (n : Nat) :
    ((s.answered level vector).raised n).fate=(s.raised n).fate ∧
    ((s.answered level vector).raised n).handed=(s.raised n).handed := by
  cases h : s.onPru level with
  | none => rw [answered,h]; exact ⟨rfl,rfl⟩
  | some m =>
    rw [answered_raised vector h]
    by_cases hn : n=m
    · subst hn
      rw [update_self]
      exact ⟨rfl,rfl⟩
    · rw [update_of_ne hn]
      exact ⟨rfl,rfl⟩

theorem answered_of_ne {n : Nat} (vector : Word) (h : s.onPru level≠some n) :
    (s.answered level vector).raised n=s.raised n := by
  cases ho : s.onPru level with
  | none => rw [answered,ho]
  | some m =>
    rw [answered_raised vector ho,update_of_ne]
    rintro rfl
    exact h ho

theorem Inv.onPru_ne (h : s.Inv b) {m : Fin 4} (hm : level≠m)
    (hr : (s.arm.br level).active=some r) : s.onPru m≠some (s.current r) := by
  intro ho
  have hin := (h.arm.level level).consistent.inSlot r hr
  obtain ⟨-,hl⟩ := h.known.onPru m _ ho
  rw [(h.known.scheduled level _ r hin).2.2,(h.arm.level level).level _ r hin] at hl
  exact hm hl

theorem PutOk.later (h : s.PutOk) (harm : t.arm=s.arm) (htodo : t.todo=s.todo)
    (hput : t.put=s.put) (hintr : t.pru.intr=s.pru.intr) (hcurrent : t.current=s.current)
    (honPru : t.onPru=s.onPru) (hhanded : ∀ n,(t.raised n).handed=(s.raised n).handed) : t.PutOk := by
  rw [PutOk] at h ⊢
  rw [htodo]
  match hs : s.todo with
  | [] => rw [hs] at h; rw [hput]; exact h
  | .cancel bits::_ => rw [hs] at h; rw [hput,hintr]; exact h
  | .intr level vector handle value::_ =>
    rw [hs] at h
    simp only [hput,hintr,harm,hcurrent,honPru,hhanded]
    exact h

theorem note_eq (i : PassLines) (s : IntrSystem ι) (level : Fin 4) : ∃ raised ending event,s.note i level =
      { s with raised := raised,ending := ending,event := event } := by
  rw [note]
  split_ifs
  · rw [answered_eq]
    exact ⟨_,_,s.event,rfl⟩
  · rw [answered_eq]
    exact ⟨_,s.ending,s.event,rfl⟩
  · exact ⟨s.raised,_,_,rfl⟩
  · exact ⟨s.raised,s.ending,s.event,rfl⟩

theorem worked_eq (h : s.pru.arb.Orderly) : ∃ raised ending event,s.worked i =
      { s with raised := raised,ending := ending,event := event,pru := s.pru.loop i } := by
  rw [IntrSystem.worked]
  obtain ⟨m,-,-,hf⟩ | ⟨-,hf⟩ := noted_cases (i := i) h
  · obtain ⟨raised,ending,event,hn⟩ := s.note_eq i m
    rw [hf,hn]
    exact ⟨raised,ending,event,rfl⟩
  · rw [hf]
    exact ⟨s.raised,s.ending,s.event,rfl⟩

theorem worked_owed (h : s.pru.arb.Orderly)
    (hi : s.pru.Clears i → (s.worked i).InitOwed) (ho : s.InitOwed ∨ s.pru.Clears i) : (s.worked i).InitOwed := by
  by_cases hc : s.pru.Clears i
  · exact hi hc
  · obtain ⟨raised,ending,event,hw⟩ := worked_eq (i := i) h
    have ho := ho.resolve_right hc
    rw [InitOwed,← Pru.loop_initEvent hc] at ho
    rw [hw]
    exact ho

/-- A pass keeps the invariant, where a rescue answers for withdrawn requests only and an INIT that is
seen is still to be handled. -/
theorem Inv.worked (h : s.Inv b) (hg : OneLine i.arb.grants)
    (hr : ∀ level,Rescues i level s.pru → ∀ n,s.onPru level=some n → (s.raised n).fate=.withdrawn)
    (hi : s.pru.Clears i → (s.worked i).InitOwed) : (s.worked i).Inv b := by
  have hp (level : Fin 4) := Pru.loop_pass h.orderly hg level
  obtain ⟨hord,hintr⟩ := Pru.loop_orderly h.orderly hg
  have howed := worked_owed h.orderly hi
  rw [IntrSystem.worked] at howed ⊢
  obtain ⟨m,hm,hother,hf⟩ | ⟨hno,hf⟩ := noted_cases (i := i) h.orderly
  case inr =>
    rw [hf] at howed ⊢
    refine ⟨h.arm,hord,h.todo,h.put.later rfl rfl rfl hintr rfl rfl fun _ => rfl,
      ⟨h.known.scheduled,h.known.pending,h.known.retired,h.known.waiting,h.known.onPru,h.known.own⟩,
      fun level => ?_⟩
    exact (h.level level).other (hp level) (fun hx => hno level (.inl hx))
      (fun hx => hno level (.inr (.inr hx))) rfl rfl rfl rfl rfl rfl hintr (fun _ => rfl)
      (fun _ _ _ => rfl) (fun _ => rfl) howed
  rw [hf] at howed ⊢
  -- the levels that the pass notes nothing of
  have hquiet (level : Fin 4) (hl : level≠m) :
      ¬(s.pru.Answers i ∧ s.pru.arb.Vectoring level) ∧
      ¬(s.pru.Completes i ∧ s.pru.arb.Ending level) :=
    ⟨fun hx => hother level hl (.inl hx),fun hx => hother level hl (.inr (.inr hx))⟩
  rw [note] at howed ⊢
  by_cases hv : s.pru.Answers i ∧ s.pru.arb.Vectoring m
  · rw [if_pos hv] at howed ⊢
    have hfor := (h.level m).vectoring hv.2
    have hknown : (s.answered m (s.pru.intr.vector m)).Known b := h.known.answered _ (fun n hn => by
      obtain ⟨k,hk,hfk⟩ | ⟨-,hh,r,hra,hk,-⟩ := hfor
      · rw [hk] at hn; cases hn; exact .inl hfk
      · rw [hk] at hn; cases hn; exact .inr ⟨hh,r,hra,rfl⟩) h.arm
    rw [answered_eq] at howed hknown ⊢
    refine ⟨h.arm,hord,h.todo,h.put.later rfl rfl rfl hintr rfl rfl fun n => (answered_same ..).2,
      ⟨hknown.scheduled,hknown.pending,hknown.retired,hknown.waiting,hknown.onPru,hknown.own⟩,
      fun level => ?_⟩
    by_cases hl : level=m
    · subst hl
      have hpl := hp level
      cases hpl with
      | kept _ _ _ _ _ hd => exact absurd hv hd
      | accepted hs =>
        have h1 := hv.2.1
        rw [hs] at h1
        cases h1
      | abandoned _ hi' => exact absurd hv.1 hi'
      | driven _ _ he hreq hmas =>
        exact (h.level level).driven hv.2 he hreq hmas rfl rfl rfl rfl rfl rfl rfl fun n hn =>
          answered_raised _ hn
      | ended he =>
        have h1 := hv.2.1
        rw [he.1] at h1
        cases h1
    · refine (h.level level).other (hp level) (hquiet level hl).1 (hquiet level hl).2 rfl rfl rfl rfl
        rfl rfl hintr (fun n => (answered_same ..).1) (fun r hra _ => ?_) (fun he => ?_) howed
      · exact answered_of_ne _ (h.onPru_ne hl hra)
      · have h1 := hv.2.1
        rw [he.1] at h1
        cases h1
  rw [if_neg hv] at howed ⊢
  by_cases hres : Rescues i m s.pru
  · rw [if_pos hres] at howed ⊢
    have hfate := hr m hres
    have hknown : (s.answered m (s.pru.intr.vector m)).Known b := h.known.answered _
      (fun n hn => .inl (hfate n hn)) h.arm
    rw [answered_eq] at howed hknown ⊢
    have hst : s.pru.arb.state=.orphanVector := hres.2.1
    refine ⟨h.arm,hord,h.todo,h.put.later rfl rfl rfl hintr rfl rfl fun n => (answered_same ..).2,
      ⟨hknown.scheduled,hknown.pending,hknown.retired,hknown.waiting,hknown.onPru,hknown.own⟩,
      fun level => ?_⟩
    refine (h.level level).other (hp level) (fun hx => ?_) (fun hx => ?_) rfl rfl rfl rfl
      rfl rfl hintr (fun n => (answered_same ..).1) (fun r hra _ => ?_) (fun _ => rfl) howed
    · have h1 := hx.2.1
      rw [hst] at h1
      cases h1
    · have h1 := hx.2.1
      rw [hst] at h1
      cases h1
    · refine answered_of_ne _ fun ho => ?_
      have hin := (h.arm.level level).consistent.inSlot r hra
      have hpend := (h.known.scheduled level _ r hin).2.1
      rw [hfate _ ho] at hpend
      cases hpend
  rw [if_neg hres] at howed ⊢
  by_cases hend : s.pru.Completes i ∧ s.pru.arb.Ending m
  case neg => exact absurd hm (by simp only [Noted,not_or]; exact ⟨hv,hres,hend⟩)
  rw [if_pos hend] at howed ⊢
  refine ⟨h.arm,hord,h.todo,h.put.later rfl rfl rfl hintr rfl rfl fun _ => rfl,
    ⟨h.known.scheduled,h.known.pending,h.known.retired,h.known.waiting,h.known.onPru,h.known.own⟩,
    fun level => ?_⟩
  by_cases hl : level=m
  · subst hl
    have hpl := hp level
    cases hpl with
    | kept _ _ _ _ _ _ hc => exact absurd hend hc
    | accepted hs =>
      have h1 := hend.2.1
      rw [hs] at h1
      cases h1
    | abandoned hs | driven hs =>
      have h1 := hend.2.1
      rw [hs.1] at h1
      cases h1
    | ended _ _ ht hreq hmas =>
      exact (h.level level).signalled hend.2 ht hreq hmas rfl rfl rfl rfl
        (update_self ..) rfl rfl
  · refine (h.level level).other (hp level) (hquiet level hl).1 (hquiet level hl).2 rfl rfl rfl rfl
      (update_of_ne hl ..) rfl hintr (fun _ => rfl) (fun _ _ _ => rfl) (fun he => ?_) howed
    exact absurd (Fin.ext (he.2.symm.trans hend.2.2)) hl

end IntrSystem

end QUniLator.Adapter
