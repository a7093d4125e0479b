import QUniLator.Mscp.Steps

namespace QUniLator.Mscp.State

open PollerPc

variable {δ : Type} {c : Controller δ}

/-- `Reset` waits for the polling thread, which is asleep, and nobody is to wake either. -/
def Stuck (s : State δ) : Prop :=
  (∃ generation,s.worker=.waiting generation) ∧ s.pollState=.wait ∧ s.poller=.blocked

/-- The step is an `InitPolling` while the server's `Reset` waits: it erases the pending
`InitRestart`. -/
def ErasesReset (s : State δ) (a : Action) : Prop :=
  a=.bus ∧ s.bus=.doorbell ∧ s.worker.awaiting

instance (s : State δ) (a : Action) : Decidable (s.ErasesReset a) :=
  inferInstanceAs (Decidable (_ ∧ _ ∧ _))

/-- The polling thread has been asked to stop, and is on its way to the end of a pass. -/
def Stopping (s : State δ) : Prop :=
  s.pollState=.initRestart ∧ s.poller≠.blocked

/-- A waiting `Reset` waits for a pass that ends; a woken one does too, or finds it ended. -/
structure Awaited (s : State δ) : Prop where
  busy : s.poller.inPass → s.pollState≠.wait
  waiting : ∀ generation,s.worker=.waiting generation → s.Stopping
  woken : ∀ generation,s.worker=.woken generation → s.Stopping ∨ s.pollState=.wait

variable {s : State δ}

theorem Awaited.not_stuck (h : s.Awaited) : ¬ s.Stuck := by
  rintro ⟨⟨g,hw⟩,-,hb⟩
  exact (h.waiting g hw).2 hb

theorem Awaited.keep {s t : State δ} (hs : s.Awaited) (hps : t.pollState=s.pollState)
    (hp : t.poller=s.poller ∨ s.poller=.blocked ∧ t.poller=.top)
    (hw : t.worker=s.worker ∨ (∀ generation,t.worker≠.waiting generation) ∧
      ∀ generation,t.worker=.woken generation → ∃ g,s.worker=.waiting g) : t.Awaited := by
  have hstop : s.Stopping → t.Stopping := by
    rintro ⟨hr,hb⟩
    refine ⟨hps.trans hr,?_⟩
    obtain hp | ⟨-,hp⟩ := hp <;> rw [hp]
    · exact hb
    · simp
  refine ⟨?_,?_,?_⟩
  · rw [hps]
    obtain hp | ⟨-,hp⟩ := hp <;> rw [hp]
    · exact hs.busy
    · simp [inPass]
  · intro g hg
    obtain hw | ⟨hn,-⟩ := hw
    · exact hstop (hs.waiting g (hw ▸ hg))
    · exact absurd hg (hn g)
  · intro g hg
    obtain hw | ⟨-,hn⟩ := hw
    · exact (hs.woken g (hw ▸ hg)).imp hstop hps.trans
    · obtain ⟨g',hg'⟩ := hn g hg
      exact .inl (hstop (hs.waiting g' hg'))

theorem endOfPass_awaited {moreWork : Bool} (hs : s.Awaited)
    (hp : s.poller=.endPass moreWork) : (s.endOfPass moreWork).Awaited := by
  have hbusy := hs.busy (by simp [hp,inPass])
  cases hps : s.pollState with
  | wait => exact absurd hps hbusy
  | initRestart =>
    -- the one branch that broadcasts
    refine ⟨by simp [endOfPass,hps,inPass],?_,fun _ _ => .inr ?_⟩
    · intro g hg
      simp only [endOfPass,hps,broadcast] at hg
      cases hw : s.worker <;> simp [hw] at hg
    · simp [endOfPass,hps,broadcast]
  | initRun | run =>
    have hn : ∀ g,s.worker≠.waiting g ∧ s.worker≠.woken g := by
      intro g
      refine ⟨fun h => ?_,fun h => ?_⟩
      · simpa [hps] using (hs.waiting g h).1
      · simpa [Stopping,hps] using hs.woken g h
    refine ⟨by simp [endOfPass,hps,inPass],fun g hg => absurd ?_ (hn g).1,
      fun g hg => absurd ?_ (hn g).2⟩
    all_goals simpa [endOfPass,hps] using hg

theorem Polled.awaited {s t : State δ} (h : s.Polled t) (hs : s.Awaited) : t.Awaited := by
  cases h with
  | sleep hp hw ht =>
    subst ht
    refine ⟨by simp [inPass],?_,fun _ _ => .inr hw⟩
    intro g hg
    simpa [hw] using (hs.waiting g hg).1
  | begin hp hw ht =>
    have hstop : s.Stopping → t.Stopping := by
      rintro ⟨hr,-⟩
      subst ht
      simp [Stopping,hr]
    subst ht
    refine ⟨?_,fun g hg => hstop (hs.waiting g hg),fun g hg => .inl (hstop ?_)⟩
    · intro _
      cases hps : s.pollState <;> simp [hps] at hw ⊢
    · exact (hs.woken g hg).resolve_right hw
  | finish moreWork hp ht =>
    subst ht
    exact endOfPass_awaited hs hp
  | fail code k hp ht =>
    have hbusy := hs.busy (by simp [hp,inPass])
    have hstop : s.Stopping → t.Stopping := by
      rintro ⟨hr,-⟩
      subst ht
      exact ⟨hr,by cases k <;> simp [afterError]⟩
    subst ht
    exact ⟨fun _ => hbusy,fun g hg => hstop (hs.waiting g hg),
      fun g hg => .inl (hstop ((hs.woken g hg).resolve_right hbusy))⟩
  | inside h =>
    have hbusy := hs.busy h.before
    have hstop : s.Stopping → t.Stopping := by
      rintro ⟨hr,-⟩
      refine ⟨h.pollState.trans hr,fun hb => ?_⟩
      have := h.after
      simp [hb,inPass] at this
    exact ⟨fun _ => h.pollState ▸ hbusy,fun g hg => hstop (hs.waiting g (h.worker ▸ hg)),
      fun g hg => .inl (hstop ((hs.woken g (h.worker ▸ hg)).resolve_right hbusy))⟩

theorem serverReset_awaited {generation : Nat} (hs : s.Awaited) : (s.serverReset generation).Awaited := by
  rw [serverReset]
  split
  · exact ⟨hs.busy,fun g hg => by simp at hg,fun g hg => by simp at hg⟩
  · refine ⟨fun _ => by simp [broadcast],fun g _ => ⟨by simp [broadcast],?_⟩,fun g hg => by simp at hg⟩
    by_cases hb : s.poller=.blocked <;> simp [broadcast,hb]

theorem initPolling_awaited (hn : s.worker.awaiting=false) : Awaited { s.initPolling with bus := .idle } := by
  have hw : s.initPolling.worker=s.worker := by
    simp only [initPolling,broadcast]
    split
    · rename_i hw
      simp [hw,WorkerPc.awaiting] at hn
    · rfl
  refine ⟨fun _ => by simp [initPolling,broadcast],fun g hg => ?_,fun g hg => ?_⟩
  all_goals simp [hw.symm.trans hg,WorkerPc.awaiting] at hn

theorem step_awaited {s t : State δ} {a : Action} (hs : s.Awaited) (hn : ¬ s.ErasesReset a)
    (h : step c s a=some t) : t.Awaited := by
  cases a with
  | poll ok => exact (pollStep_polled h).awaited hs
  | worker ok =>
    obtain ⟨g,-,rfl⟩ | ⟨g,hw,rfl⟩ | ⟨-,-,ht,hps,hp⟩ := workerStep_sync h
    · exact serverReset_awaited hs
    · by_cases hps : s.pollState=.wait
      · exact ⟨hs.busy,fun g hg => by simp [hps] at hg,fun g hg => by simp [hps] at hg⟩
      · exact ⟨hs.busy,fun g' _ => (hs.woken g hw).resolve_right hps,
          fun g hg => by simp [hps] at hg⟩
    · refine hs.keep hps (.inl hp) (.inr ⟨fun g hg => ?_,fun g hg => ?_⟩)
      all_goals simp [hg,WorkerPc.awaiting] at ht
  | bus =>
    obtain ⟨hd,rfl⟩ | ⟨-,hps,hp,hw⟩ := busStep_sync h
    · exact initPolling_awaited (by simpa [ErasesReset,hd] using hn)
    · exact hs.keep hps (.inl hp) (.inl hw)
  | _ =>
    obtain ⟨hps,hp,hw⟩ := outside_sync (by constructor) h
    refine hs.keep hps hp (hw.imp_right ?_)
    rintro ⟨g,hg,ht⟩
    exact ⟨by simp [ht],fun _ _ => ⟨g,hg⟩⟩

theorem start_awaited {drives : δ} {mem : Memory} : (start drives mem).Awaited := by
  refine ⟨?_,?_,?_⟩ <;> simp [start,inPass]

/-- **A pending reset is released.** In a run in which no doorbell comes between the server's `Reset`
and the end of its wait, a waiting `Reset` waits for a pass that has been asked to stop. -/
theorem reset_released {drives : δ} {mem : Memory} {as : List Action} {t : State δ}
    (h : Runs c (fun s a => ¬ s.ErasesReset a) (start drives mem) as t) :
    ¬ t.Stuck ∧ ∀ generation,t.worker=.waiting generation → t.Stopping := by
  have ht : t.Awaited := h.invariant (P := Awaited)
    (fun _ _ _ hs hr => step_awaited hs hr.1 hr.2) start_awaited
  exact ⟨ht.not_stuck,ht.waiting⟩

def handshake : List Action :=
  [.ipWrite,.bus]++List.replicate 10 (.worker true) ++
  [.saWrite 0x8000,.bus,.bus]++List.replicate 5 (.worker true) ++
  [.saWrite 64,.bus,.bus]++List.replicate 5 (.worker true) ++
  [.saWrite 0,.bus,.bus]++List.replicate 6 (.worker true) ++
  [.saWrite 1,.bus,.bus,.bus]++List.replicate 2 (.worker true)

/-- A pass begins, and the host initialises the port meanwhile. -/
theorem reset_released_midpass : ∃ as t,Runs .bare (fun s a => ¬ s.ErasesReset a)
    (start () .blank) as t ∧ t.worker=.waiting 7 ∧ ¬ t.Stuck ∧ t.Stopping := by
  obtain ⟨t,ht,hw⟩ := run_of_foldlM (fun s a => ¬ s.ErasesReset a) (step .bare)
    (fun t => t.worker == .waiting 7)
    (handshake++[.ipRead,.bus,.poll true,.poll true,.ipWrite,.bus] ++
      List.replicate 4 (.worker true)) (start () .blank) (by decide +kernel)
  have hw : t.worker=.waiting 7 := by simpa using hw
  exact ⟨_,t,ht,hw,(reset_released ht).1,(reset_released ht).2 7 hw⟩

/-- A second doorbell passes its test, the pass fails on a DMA, `Reset` waits for the pass to end, and
the doorbell's `InitPolling` erases what it asked for. -/
theorem reset_stuck : ∃ as t,Runs .bare (fun _ _ => True) (start () .blank) as t ∧ t.Stuck := by
  obtain ⟨t,ht,hs⟩ := run_of_foldlM (fun _ _ => True) (step .bare)
    (fun t => t.worker == .waiting 7 && t.pollState == .wait && t.poller == .blocked)
    (handshake++[.ipRead,.bus,.poll true,.poll true,.ipRead,.poll false,.poll true,.poll true,
      .worker true,.worker true,.worker true,.worker true,.bus,.worker true] ++
      List.replicate 8 (.poll true)) (start () .blank) (by decide +kernel)
  simp only [Bool.and_eq_true,beq_iff_eq] at hs
  exact ⟨_,t,ht,⟨7,hs.1.1⟩,hs.1.2,hs.2⟩

end QUniLator.Mscp.State
