import QUniLator.Mscp.Reset

namespace QUniLator.Mscp

open Port

def WorkerPc.generation : WorkerPc → Nat
  | .wait | .take => 0
  | .clearSA g | .reset g | .waiting g | .woken g | .clear g | .chain g | .commArea g => g
  | .check _ g | .publish _ g | .interrupt _ g => g

def WorkerPc.storing : WorkerPc → Bool
  | .commArea _ | .publish _ _ | .interrupt _ _ => true
  | _ => false

def WorkerPc.step : WorkerPc → Option InitStep
  | .check st _ | .publish st _ | .interrupt st _ => some st
  | .commArea _ => some .step4
  | _ => none

namespace State

variable {δ : Type} {c : Controller δ}

/-- A step that passes its check does so outside an IP write, and is not overtaken by 2^32 transitions. -/
def Timely (s : State δ) (a : Action) : Prop :=
  (∃ ok,a=.worker ok) → ∀ step generation,s.worker=.check step generation →
    s.port.stepCurrent generation → s.bus≠.ipZeroed ∧ s.port.stepGeneration<generation+2^32

variable {s t : State δ} {g : Nat} {a : Action} {ok : Bool}

theorem Polled.generation (h : s.Polled t) : s.port.stepGeneration≤t.port.stepGeneration := by
  cases h with
  | inside h => exact Nat.le_of_eq h.port.stepGeneration.symm
  | finish moreWork hp ht =>
    subst ht
    cases hps : s.pollState <;> simp [endOfPass,hps,broadcast]
  | fail code k hp ht =>
    subst ht
    simp [stateTransition]
  | _ => simp [*]

theorem chainTransition_generation (p : Port) (g : Nat) (st : InitStep) :
    p.stepGeneration≤(p.chainTransition g st).stepGeneration := by
  rw [chainTransition]
  split <;> simp [stateTransition]

theorem workerStep_generation (h : s.workerStep c ok=some t) : s.port.stepGeneration≤t.port.stepGeneration := by
  cases hw : s.worker <;> simp only [workerStep,hw] at h
  case wait =>
    split at h
    · cases h
      exact Nat.le_refl _
    · cases h
  case waiting => cases h
  case reset =>
    cases h
    rw [serverReset]
    split <;> exact Nat.le_refl _
  case chain g =>
    cases h
    exact chainTransition_generation s.port g .step1
  case interrupt =>
    cases h
    exact Nat.le_of_eq s.port.interrupt_same.stepGeneration.symm
  all_goals
    cases h
    exact Nat.le_refl _

theorem busStep_generation (h : s.busStep=some t) : s.port.stepGeneration≤t.port.stepGeneration ∧
    (s.bus=.ipZeroed → s.port.stepGeneration<t.port.stepGeneration) := by
  cases hb : s.bus <;> simp only [busStep,hb,Option.some.injEq] at h
  case idle => cases h
  case saTaken value step =>
    subst h
    refine ⟨?_,by simp⟩
    cases step <;> simp only [writeSA] <;> (try split) <;> exact Nat.le_refl _
  all_goals
    subst h
    simp [stateTransition,updateSA,initPolling,broadcast]

theorem step_generation (h : step c s a=some t) : s.port.stepGeneration≤t.port.stepGeneration ∧
    (s.bus=.ipZeroed → t.bus=.ipZeroed ∨ s.port.stepGeneration<t.port.stepGeneration) := by
  cases a with
  | poll ok =>
    have hp := pollStep_polled h
    exact ⟨hp.generation,fun hb => .inl (hp.bus.trans hb)⟩
  | worker ok => exact ⟨workerStep_generation h,fun hb => .inl ((workerStep_bus h).trans hb)⟩
  | bus => exact ⟨(busStep_generation h).1,fun hb => .inr ((busStep_generation h).2 hb)⟩
  | ipWrite | ipRead | saWrite | init =>
    obtain ⟨hb,rfl⟩ := access_eq_some h
    exact ⟨by simp [updateSA,stateTransition],by simp [hb]⟩
  | wakeWorker =>
    cases hw : s.worker <;> simp [step,hw] at h
    subst h
    exact ⟨Nat.le_refl _,.inl⟩
  | wakePoller =>
    simp only [step] at h
    split at h
    · cases h
      exact ⟨Nat.le_refl _,.inl⟩
    · cases h
  | _ =>
    cases h
    exact ⟨Nat.le_refl _,.inl⟩

/-- After an IP write that came at the generation `g`: only steps begun later are published. -/
structure Fresh (g : Nat) (s : State δ) : Prop where
  counted : g ≤ s.port.stepGeneration
  made : s.bus≠.ipZeroed → g<s.port.stepGeneration
  begun : s.worker.generation ≤ s.port.stepGeneration
  storing : s.worker.storing → g<s.worker.generation

theorem stepCurrent_eq {p : Port} (hc : p.stepCurrent g) (hb : g≤p.stepGeneration)
    (ho : p.stepGeneration<g+2^32) : p.stepGeneration=g := by
  simp only [stepCurrent,beq_iff_eq] at hc
  omega

theorem workerStep_begun (h : s.workerStep c ok=some t) (hb : s.worker.generation ≤ s.port.stepGeneration) :
    t.worker.generation ≤ s.port.stepGeneration ∧
    (t.worker.storing → s.worker.storing ∧ t.worker.generation=s.worker.generation ∨
      ∃ step,s.worker=.check step t.worker.generation ∧ s.port.stepCurrent t.worker.generation) := by
  cases hw : s.worker <;> rw [hw] at hb <;> simp only [workerStep,hw] at h
  case waiting => cases h
  case wait =>
    split at h
    · cases h
      simp [WorkerPc.generation,WorkerPc.storing]
    · cases h
  case take =>
    cases h
    cases hi : s.port.initStep <;> simp [WorkerPc.generation,WorkerPc.storing]
  case reset g =>
    cases h
    rw [serverReset]
    split <;> simpa [WorkerPc.generation,WorkerPc.storing] using hb
  case woken g =>
    cases h
    by_cases hps : s.pollState=.wait <;>
      simpa [hps,WorkerPc.generation,WorkerPc.storing] using hb
  case check st g =>
    cases h
    by_cases hc : s.port.stepCurrent g <;> by_cases h4 : st=.step4 <;>
      simp [hc,h4,WorkerPc.generation,WorkerPc.storing] <;> exact hb
  case publish st g =>
    cases h
    by_cases h1 : st=.step1 <;> simp [h1,WorkerPc.generation,WorkerPc.storing]
    exact hb
  all_goals
    cases h
    simp [WorkerPc.generation,WorkerPc.storing] at hb ⊢ <;> exact hb

theorem waking_generation {w w' : WorkerPc} (h : w'=w ∨ ∃ generation,w=.waiting generation ∧ w'=.woken generation) :
    w'.generation=w.generation ∧ w'.storing=w.storing := by
  obtain rfl | ⟨g,rfl,rfl⟩ := h
  · exact ⟨rfl,rfl⟩
  · exact ⟨rfl,rfl⟩

theorem step_begun (h : step c s a=some t) (hb : s.worker.generation ≤ s.port.stepGeneration) :
    t.worker.generation≤t.port.stepGeneration := by
  have hg := (step_generation h).1
  by_cases ha : ∃ ok,a=.worker ok
  · obtain ⟨ok,rfl⟩ := ha
    exact Nat.le_trans (workerStep_begun h hb).1 hg
  · rw [(waking_generation (step_worker (fun ok h => ha ⟨ok,h⟩) h)).1]
    exact Nat.le_trans hb hg

theorem step_fresh (hs : s.Fresh g) (ht : s.Timely a) (h : step c s a=some t) : t.Fresh g := by
  obtain ⟨hg,hz⟩ := step_generation h
  have hmade : t.bus≠.ipZeroed → g<t.port.stepGeneration := by
    intro hb
    by_cases hs' : s.bus=.ipZeroed
    · exact Nat.lt_of_le_of_lt hs.counted ((hz hs').resolve_left hb)
    · exact Nat.lt_of_lt_of_le (hs.made hs') hg
  refine ⟨Nat.le_trans hs.counted hg,hmade,step_begun h hs.begun,?_⟩
  by_cases ha : ∃ ok,a=.worker ok
  · obtain ⟨ok,rfl⟩ := ha
    obtain ⟨hb,hst⟩ := workerStep_begun h hs.begun
    intro hts
    obtain ⟨hss,he⟩ | ⟨step,hw,hc⟩ := hst hts
    · exact he ▸ hs.storing hss
    · -- the check names the generation the port is at
      obtain ⟨hz',ho⟩ := ht ⟨ok,rfl⟩ step t.worker.generation hw hc
      have he := stepCurrent_eq hc hb ho
      exact he ▸ hs.made hz'
  · obtain ⟨he,hst⟩ := waking_generation (step_worker (fun ok h => ha ⟨ok,h⟩) h)
    rw [he,hst]
    exact hs.storing

def PublishesStep1 (s : State δ) (a : Action) : Prop :=
  (∃ ok,a=.worker ok) ∧ ∃ generation,s.worker=.publish .step1 generation

/-- No write to SA begins with the step, and no port error stores its code with it. -/
def Untouched (s : State δ) (a : Action) : Prop :=
  (∀ value,a≠.saWrite value) ∧ ((∃ ok,a=.poll ok) → ∀ code k,s.poller≠.errorSA code k)

/-- After an IP write at the generation `g`, up to the new step-1 code. -/
structure Silent (g : Nat) (s : State δ) : Prop where
  zero : s.port.sa=0
  fresh : s.Fresh g
  bus : s.bus=.idle ∨ s.bus=.ipZeroed ∨ s.bus=.doorbell
  early : s.port.initStep=.uninitialized ∨ s.port.initStep=.step1 ∨
    s.port.stepGeneration=g ∧ s.bus=.ipZeroed
  step : ∀ st,s.worker.step=some st → st=.step1 ∨ s.worker.generation≤g

theorem waking_step {w w' : WorkerPc}
    (h : w'=w ∨ ∃ generation,w=.waiting generation ∧ w'=.woken generation) : w'.step=w.step := by
  obtain rfl | ⟨g,rfl,rfl⟩ := h
  · rfl
  · rfl

/-- A step that leaves the port, and the adapter's thread at most at a doorbell. -/
theorem Silent.keep (hs : s.Silent g) (hf : t.Fresh g)
    (hsa : t.port.sa=s.port.sa) (hi : t.port.initStep=s.port.initStep)
    (hg : t.port.stepGeneration=s.port.stepGeneration) (hb : t.bus=s.bus)
    (hw : t.worker.step=s.worker.step) (hwg : t.worker.generation=s.worker.generation) : t.Silent g :=
  ⟨hsa.trans hs.zero,hf,by rw [hb]; exact hs.bus,by rw [hi,hg,hb]; exact hs.early,
    by rw [hw,hwg]; exact hs.step⟩

theorem pollStep_silent (hs : s.Silent g) (hf : t.Fresh g)
    (hu : s.Untouched (.poll ok)) (h : s.pollStep c ok=some t) : t.Silent g := by
  have hw := waking_step (step_worker (a := .poll ok) (c := c) (by simp) h)
  have hwg := (waking_generation (step_worker (a := .poll ok) (c := c) (by simp) h)).1
  cases pollStep_polled h with
  | sleep hp hw' ht => exact hs.keep hf (ht ▸ rfl) (ht ▸ rfl) (ht ▸ rfl) (ht ▸ rfl) hw hwg
  | begin hp hw' ht => exact hs.keep hf (ht ▸ rfl) (ht ▸ rfl) (ht ▸ rfl) (ht ▸ rfl) hw hwg
  | finish moreWork hp ht =>
    subst ht
    refine hs.keep hf ?_ ?_ ?_ ?_ hw hwg <;>
      cases hps : s.pollState <;> simp [endOfPass,hps,broadcast]
  | fail code k hp ht =>
    subst ht
    exact ⟨hs.zero,hf,hs.bus,.inl rfl,hs.step⟩
  | inside h =>
    have hsa := h.sa.resolve_right (by
      rintro ⟨code,k,hp,-⟩
      exact hu.2 ⟨ok,rfl⟩ code k hp)
    exact hs.keep hf hsa h.port.initStep h.port.stepGeneration h.bus hw hwg

theorem workerStep_silent (hs : s.Silent g)
    (hf : t.Fresh g) (hp : ¬ s.PublishesStep1 (.worker ok)) (h : s.workerStep c ok=some t) : t.Silent g := by
  have hstep := hs.step
  have hstoring := hs.fresh.storing
  cases hw : s.worker <;> rw [hw] at hstep hstoring <;> simp only [workerStep,hw] at h
  case waiting => cases h
  case wait =>
    split at h
    · cases h
      exact ⟨hs.zero,hf,hs.bus,hs.early,by simp [WorkerPc.step]⟩
    · cases h
  case take =>
    cases h
    refine ⟨hs.zero,hf,hs.bus,hs.early,?_⟩
    obtain he | he | ⟨he,-⟩ := hs.early
    · simp [he,WorkerPc.step]
    · simp [he,WorkerPc.step]
    · intro st _
      right
      exact he ▸ hf.begun
  case clearSA =>
    cases h
    exact ⟨rfl,hf,hs.bus,hs.early,by simp [WorkerPc.step]⟩
  case reset =>
    cases h
    rw [serverReset] at hf ⊢
    split
    all_goals exact ⟨hs.zero,by simpa [*] using hf,hs.bus,hs.early,by simp [WorkerPc.step]⟩
  case woken =>
    cases h
    refine ⟨hs.zero,hf,hs.bus,hs.early,?_⟩
    by_cases hps : s.pollState=.wait <;> simp [hps,WorkerPc.step]
  case clear =>
    cases h
    exact ⟨hs.zero,hf,hs.bus,hs.early,by simp [WorkerPc.step]⟩
  case chain g' =>
    cases h
    refine ⟨?_,hf,hs.bus,?_,by simp [WorkerPc.step]⟩
    · simp only [chainTransition]
      split <;> exact hs.zero
    · simp only [chainTransition]
      split
      · exact .inr (.inl rfl)
      · exact hs.early
  case check st g' =>
    cases h
    refine ⟨hs.zero,hf,hs.bus,hs.early,?_⟩
    by_cases hc : s.port.stepCurrent g' <;> by_cases h4 : st=.step4 <;>
      simp [hc,h4,WorkerPc.step,WorkerPc.generation] at hstep ⊢ <;> exact hstep
  case publish st g' =>
    -- a step other than the first one would be one begun before the write
    obtain rfl | hle := hstep st rfl
    · exact absurd ⟨⟨ok,rfl⟩,g',hw⟩ hp
    · exact absurd (hstoring rfl) (Nat.not_lt.mpr hle)
  case commArea g' =>
    obtain h4 | hle := hstep .step4 rfl
    · cases h4
    · exact absurd (hstoring rfl) (Nat.not_lt.mpr hle)
  case interrupt =>
    cases h
    refine ⟨by simpa using hs.zero,hf,hs.bus,?_,by simp [WorkerPc.step]⟩
    rw [s.port.interrupt_same.initStep,s.port.interrupt_same.stepGeneration]
    exact hs.early

theorem busStep_silent (hs : s.Silent g) (hf : t.Fresh g) (h : s.busStep=some t) : t.Silent g := by
  obtain hb | hb | hb := hs.bus <;> simp only [busStep,hb,Option.some.injEq] at h
  · cases h
  · subst h
    exact ⟨hs.zero,hf,.inl rfl,.inl rfl,hs.step⟩
  · subst h
    have hw := broadcast_worker { s with
      pollState := .initRun,host := { s.host with rung := s.host.handed.length } }
    refine ⟨hs.zero,hf,.inl rfl,?_,?_⟩
    · have he := hs.early
      simpa [hb,initPolling,broadcast] using he
    · intro st hst
      simp only [initPolling] at hst ⊢
      rw [(waking_generation hw).1]
      exact hs.step st (waking_step hw ▸ hst)

theorem step_silent (hs : s.Silent g) (ht : s.Timely a)
    (hu : s.Untouched a) (hp : ¬ s.PublishesStep1 a) (h : step c s a=some t) : t.Silent g := by
  have hf := step_fresh hs.fresh ht h
  cases a with
  | poll ok => exact pollStep_silent hs hf hu h
  | worker ok => exact workerStep_silent hs hf hp h
  | bus => exact busStep_silent hs hf h
  | saWrite value => exact absurd rfl (hu.1 value)
  | ipWrite =>
    obtain ⟨hb,rfl⟩ := access_eq_some h
    have he := hs.early
    refine ⟨rfl,hf,.inr (.inl rfl),?_,hs.step⟩
    simp only [hb,reduceCtorEq,and_false,or_false] at he
    simpa [updateSA] using he.imp_right .inl
  | init =>
    obtain ⟨hb,rfl⟩ := access_eq_some h
    exact ⟨hs.zero,hf,hs.bus,.inl rfl,hs.step⟩
  | ipRead =>
    obtain ⟨hb,rfl⟩ := access_eq_some h
    have he := hs.early
    refine ⟨hs.zero,hf,?_,?_,hs.step⟩
    · cases s.port.isRunning <;> simp
    · simp only [hb,reduceCtorEq,and_false,or_false] at he
      exact he.imp_right .inl
  | wakeWorker =>
    have hw := step_worker (by simp) h
    cases hw' : s.worker <;> simp [State.step,hw'] at h
    subst h
    exact hs.keep hf rfl rfl rfl rfl (waking_step hw) (waking_generation hw).1
  | wakePoller =>
    simp only [State.step] at h
    split at h
    · cases h
      exact hs.keep hf rfl rfl rfl rfl rfl rfl
    · cases h
  | _ =>
    cases h
    exact hs.keep hf rfl rfl rfl rfl rfl rfl

theorem start_begun {drives : δ} {mem : Memory} {guard : State δ → Action → Prop}
    {as : List Action} {s : State δ} (h : Runs c guard (start drives mem) as s) :
    s.worker.generation ≤ s.port.stepGeneration :=
  h.invariant (P := fun s => s.worker.generation ≤ s.port.stepGeneration)
    (fun _ _ _ hs hr => step_begun hr.2 hs) (Nat.le_refl 0)

/-- **A superseded step is not published.** `u` is what an IP write makes of a state with no step between its check
and its store. What is stored and interrupted afterwards belongs to later steps, and SA is zero up to the first step-1
code. -/
theorem superseded_unpublished {drives : δ} {mem : Memory} {guard : State δ → Action → Prop}
    {as : List Action} {s u : State δ} (h : Runs c guard (start drives mem) as s)
    (hc : s.worker.storing=false) (hu : step c s .ipWrite=some u) :
    (∀ bs t,Runs c Timely u bs t → t.worker.storing → s.port.stepGeneration<t.worker.generation) ∧
    ∀ bs t,Runs c (fun s a => s.Timely a ∧ s.Untouched a) u bs t → t.port.sa=0 ∨ ∃ ds a es v w,bs=ds++a::es ∧
        Runs c (fun s a => s.Timely a ∧ s.Untouched a) u ds v ∧ v.PublishesStep1 a ∧
        s.port.stepGeneration<v.worker.generation ∧ step c v a=some w ∧
        Runs c (fun s a => s.Timely a ∧ s.Untouched a) w es t := by
  obtain ⟨hb,rfl⟩ := access_eq_some hu
  have hbegun := start_begun h
  have hf : Fresh s.port.stepGeneration
      { s with port := s.port.updateSA 0,bus := .ipZeroed } :=
    ⟨Nat.le_refl _,by simp,hbegun,by simp [hc]⟩
  have hfresh : ∀ {guard bs t},(∀ s a,guard s a → Timely s a) →
      Runs c guard { s with port := s.port.updateSA 0,bus := .ipZeroed } bs t →
      t.Fresh s.port.stepGeneration := fun hg h =>
    h.invariant (P := Fresh s.port.stepGeneration)
      (fun _ _ _ hs hr => step_fresh hs (hg _ _ hr.1) hr.2) hf
  constructor
  · intro bs t ht hst
    exact (hfresh (fun _ _ h => h) ht).storing hst
  · intro bs t ht
    obtain hq | ⟨ds,a,es,v,w,rfl,hds,hv,hvw,hes⟩ := ht.first PublishesStep1
    · have hz : t.Silent s.port.stepGeneration := by
        refine hq.invariant (P := Silent s.port.stepGeneration)
          (fun _ _ _ hs hr => step_silent hs hr.1.1.1 hr.1.1.2 hr.2 hr.1.2) ?_
        refine ⟨rfl,hf,.inr (.inl rfl),.inr (.inr ⟨rfl,rfl⟩),fun _ _ => .inr hbegun⟩
      exact .inl hz.zero
    · obtain ⟨g,hg⟩ := hv.2
      have hlt := (hfresh (fun _ _ h => h.1) hds).storing (by simp [hg,WorkerPc.storing])
      exact .inr ⟨ds,a,es,v,w,rfl,hds,hv,hlt,hvw.2,hes⟩

/-- An IP write to an operating port, with the worker at rest. -/
theorem superseded_unpublished_operating : ∃ as s u,
    Runs .bare (fun _ _ => True) (start () .blank) as s ∧ s.port.initStep=.complete ∧
    step .bare s .ipWrite=some u ∧ u.port.sa=0 ∧ ∀ bs t,Runs .bare Timely u bs t → t.worker.storing →
      s.port.stepGeneration<t.worker.generation := by
  obtain ⟨s,hs,hp⟩ := run_of_foldlM (fun _ _ => True) (step .bare)
    (fun s => s.port.initStep == .complete && s.bus == .idle && s.worker == .wait)
    handshake (start () .blank) (by decide +kernel)
  simp only [Bool.and_eq_true,beq_iff_eq] at hp
  obtain ⟨⟨hi,hb⟩,hw⟩ := hp
  have hu : step .bare s .ipWrite =
      some { s with port := s.port.updateSA 0,bus := .ipZeroed } := by
    simp [State.step,access,hb]
  exact ⟨_,s,_,hs,hi,hu,rfl,(superseded_unpublished hs (by rw [hw]; rfl) hu).1⟩

/-- The IP write comes between the check of step 1 and its store: the zero it stores does not stay. -/
theorem superseded_published : ∃ as s u t,
    Runs .bare (fun _ _ => True) (start () .blank) as s ∧ step .bare s .ipWrite=some u ∧
    u.worker.generation ≤ s.port.stepGeneration ∧ u.PublishesStep1 (.worker true) ∧
    step .bare u (.worker true)=some t ∧ t.port.sa≠0 := by
  obtain ⟨s,hs,hp⟩ := run_of_foldlM (fun _ _ => True) (step .bare)
    (fun s => s.worker == .publish .step1 2 && s.bus == .idle && s.port.stepGeneration == 2)
    ([.ipWrite,.bus]++List.replicate 9 (.worker true)) (start () .blank) (by decide +kernel)
  simp only [Bool.and_eq_true,beq_iff_eq] at hp
  obtain ⟨⟨hw,hb⟩,hg⟩ := hp
  refine ⟨_,s,{ s with port := s.port.updateSA 0,bus := .ipZeroed },_,hs,
    by simp [State.step,access,hb],by simp [hw,hg,WorkerPc.generation],⟨⟨_,rfl⟩,2,hw⟩,
    by simp only [State.step,workerStep,hw]; rfl,?_⟩
  simp only [Port.stepCode,Port.updateSA]
  decide

end State

end QUniLator.Mscp
