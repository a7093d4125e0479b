import QUniLator.Mscp.Steps

namespace QUniLator.Mscp.State

variable {δ : Type} {c : Controller δ}

/-- The step calls `GetNextCommand`: a scan of the command ring begins. -/
def BeginsScan (s : State δ) (a : Action) : Prop :=
  (∃ ok,a=.poll ok) ∧ (∃ q,s.poller=.ring q) ∧ s.pollState≠.initRestart

/-- The step is the critical section in which the server's `Reset` asks the polling thread to stop. -/
def Resets (s : State δ) (a : Action) : Prop :=
  (∃ ok,a=.worker ok) ∧ ∃ generation,s.worker=.reset generation

/-- A doorbell the polling thread has yet to answer with a scan. -/
structure Called (s : State δ) : Prop where
  awake : s.poller≠.blocked
  state : s.pollState=.initRun ∨ s.pollState=.run ∧ (s.poller=.top ∨ ∃ q,s.poller=.ring q)

theorem initPolling_called (s : State δ) : Called { s.initPolling with bus := .idle } := by
  refine ⟨?_,.inl rfl⟩
  simp only [initPolling,broadcast]
  split
  · simp
  · assumption

theorem Polled.called {s t : State δ} {ok : Bool} (h : s.Polled t) (hs : s.Called)
    (hscan : ¬ s.BeginsScan (.poll ok)) : t.Called := by
  obtain ⟨hb,hst⟩ := hs
  cases h with
  | sleep hp hw => simp [hw] at hst
  | begin hp hw ht =>
    subst ht
    refine ⟨by simp,.inr ⟨?_,.inr ⟨_,rfl⟩⟩⟩
    obtain hi | ⟨hr,-⟩ := hst
    · simp [hi]
    · simp [hr]
  | finish moreWork hp ht =>
    obtain hi | ⟨-,hp'⟩ := hst
    · subst ht
      simp only [endOfPass,hi]
      exact ⟨by simp,.inr ⟨rfl,.inl rfl⟩⟩
    · simp [hp] at hp'
  | fail code k hp ht =>
    obtain hi | ⟨-,hp'⟩ := hst
    · subst ht
      exact ⟨by cases k <;> simp [afterError],.inl hi⟩
    · simp [hp] at hp'
  | inside h =>
    have hawake : t.poller≠.blocked := by
      intro ht
      have := h.after
      simp [ht,PollerPc.inPass] at this
    obtain hi | ⟨hr,ht | hq⟩ := hst
    · exact ⟨hawake,.inl (h.pollState.trans hi)⟩
    · have := h.before
      simp [ht,PollerPc.inPass] at this
    · exact absurd ⟨⟨ok,rfl⟩,hq,by simp [hr]⟩ hscan

theorem step_called {s t : State δ} {a : Action} (hs : s.Called) (hscan : ¬ s.BeginsScan a)
    (hreset : ¬ s.Resets a) (h : step c s a=some t) : t.Called := by
  have moved : t.pollState=s.pollState → t.poller=s.poller → t.Called := by
    intro hps hp
    exact ⟨hp ▸ hs.awake,by rw [hps,hp]; exact hs.state⟩
  cases a with
  | poll ok => exact (pollStep_polled h).called hs hscan
  | worker ok =>
    obtain ⟨g,hw,-⟩ | ⟨g,-,rfl⟩ | ⟨-,-,-,hps,hp⟩ := workerStep_sync h
    · exact absurd ⟨⟨ok,rfl⟩,g,hw⟩ hreset
    · exact moved rfl rfl
    · exact moved hps hp
  | bus =>
    obtain ⟨-,rfl⟩ | ⟨-,hps,hp,-⟩ := busStep_sync h
    · exact initPolling_called s
    · exact moved hps hp
  | _ =>
    obtain ⟨hps,hp | ⟨hp,-⟩,-⟩ := outside_sync (by constructor) h
    · exact moved hps hp
    · exact absurd hp hs.awake

/-- **No doorbell is lost.** After an `InitPolling` the polling thread does not block before a scan of the command
ring has begun, in a run without a `Reset`. -/
theorem doorbell_scanned {s u t : State δ} {as : List Action} (hd : s.bus=.doorbell)
    (hi : step c s .bus=some u) (h : Runs c (fun s a => ¬ s.Resets a) u as t) (ht : t.poller=.blocked) :
    ∃ bs a cs v w,as=bs++a::cs ∧ Runs c (fun s a => ¬ s.Resets a) u bs v ∧
      v.BeginsScan a ∧ step c v a=some w ∧ Runs c (fun s a => ¬ s.Resets a) w cs t := by
  have hu : u.Called := by
    obtain ⟨-,rfl⟩ | ⟨hn,-⟩ := busStep_sync hi
    · exact initPolling_called s
    · exact absurd hd hn
  obtain hq | ⟨bs,a,cs,v,w,rfl,hbs,hv,hvw,hcs⟩ := h.first BeginsScan
  · have hc : t.Called := hq.invariant (P := Called)
      (fun _ _ _ hc hr => step_called hc hr.2 hr.1.1 hr.1.2) hu
    exact absurd ht hc.awake
  · exact ⟨bs,a,cs,v,w,rfl,hbs,hv,hvw.2,hcs⟩

def rungAsleep : State Unit :=
  { start () .blank with
    port := { Port.start with
      initStep := .complete,ringBase := 64,commandRingLength := 1,responseRingLength := 1 }
    bus := .doorbell
    poller := .blocked }

theorem doorbell_scanned_asleep : ∃ t,∃ bs a cs v w, List.replicate 6 (.poll true)=bs++a::cs ∧
    Runs .bare (fun s a => ¬ s.Resets a) { rungAsleep.initPolling with bus := .idle } bs v ∧
    v.BeginsScan a ∧ step .bare v a=some w ∧
    Runs .bare (fun s a => ¬ s.Resets a) w cs t := by
  have polls : ∀ s : State Unit,¬ s.Resets (.poll true) := by
    rintro s ⟨⟨ok,h⟩,-⟩
    cases h
  have h : Runs .bare (fun s a => ¬ s.Resets a) { rungAsleep.initPolling with bus := .idle }
      (List.replicate 6 (.poll true)) _ :=
    .cons ⟨polls _,rfl⟩ (.cons ⟨polls _,rfl⟩ (.cons ⟨polls _,rfl⟩ (.cons ⟨polls _,rfl⟩
      (.cons ⟨polls _,rfl⟩ (.cons ⟨polls _,rfl⟩ (.nil _))))))
  exact ⟨_,doorbell_scanned (s := rungAsleep) rfl rfl h rfl⟩

end QUniLator.Mscp.State
