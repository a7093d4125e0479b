import QUniLator.Mscp.Reset

namespace QUniLator.Mscp.State

variable {δ : Type} {c : Controller δ}

def ShowsError (code : Nat) (s : State δ) : Prop :=
  s.port.sa=portError ||| code ∧ s.port.initStep=.uninitialized

def Unattended (_ : State δ) (a : Action) : Prop :=
  a≠.ipWrite ∧ a≠.init

def Alone (_ : State δ) (a : Action) : Prop :=
  (∃ ok,a=.worker ok) ∨ ∃ ok,a=.poll ok

instance (s : State δ) (a : Action) : Decidable (Alone s a) :=
  match a with
  | .worker ok => isTrue (.inl ⟨ok,rfl⟩)
  | .poll ok => isTrue (.inr ⟨ok,rfl⟩)
  | .saWrite _ | .ipWrite | .ipRead | .init | .bus | .wakeWorker | .wakePoller
  | .writeDescriptor _ _ | .writePacket _ _ | .command _ _ | .collect | .giveBack _ _ =>
    isFalse fun h => by obtain ⟨_,h⟩ | ⟨_,h⟩ := h <;> cases h

def KeepsError (c : Controller δ) (code : Nat) (s : State δ) : Prop :=
  ∀ as t,Runs c Unattended s as t → t.ShowsError code ∧ t.log.executed=s.log.executed

theorem portError_ne_zero (code : Nat) : portError ||| code≠0 := by
  intro h
  have hb := congrArg (fun n => Nat.testBit n 15) h
  simp [Nat.testBit_or,portError,show Nat.testBit 32768 15=true from rfl] at hb

variable {code : Nat}

theorem portError_ne_wrap : portError ||| code≠0x4000 := by
  intro h
  have hb := congrArg (fun n => Nat.testBit n 15) h
  simp [Nat.testBit_or,portError,show Nat.testBit 16384 15=false from rfl,
    show Nat.testBit 32768 15=true from rfl] at hb

theorem portError_ne_step1 (hc : code<8) (n : Nat) : step1Code ||| n≠portError ||| code := by
  intro h
  have hb := congrArg (fun n => Nat.testBit n 11) h
  have hn : Nat.testBit code 11=false := Nat.testBit_lt_two_pow (by omega)
  simp [Nat.testBit_or,portError,step1Code,hn,show Nat.testBit 2048 11=true from rfl,
    show Nat.testBit 32768 11=false from rfl] at hb

def Overwrites (c : Controller δ) (code : Nat) (s : State δ) : Prop :=
  ∃ as t,Runs c Alone s as t ∧ t.port.sa≠portError ||| code

theorem Overwrites.worker {s t : State δ} (ok : Bool)
    (h : s.workerStep c ok=some t) (ht : Overwrites c code t) : Overwrites c code s := by
  obtain ⟨as,u,hr,hu⟩ := ht
  exact ⟨.worker ok::as,u,.cons ⟨.inl ⟨ok,rfl⟩,h⟩ hr,hu⟩

theorem Overwrites.poll {s t : State δ} (ok : Bool)
    (h : s.pollStep c ok=some t) (ht : Overwrites c code t) : Overwrites c code s := by
  obtain ⟨as,u,hr,hu⟩ := ht
  exact ⟨.poll ok::as,u,.cons ⟨.inr ⟨ok,rfl⟩,h⟩ hr,hu⟩

/-- The worker has a transition to the uninitialized state to process. -/
structure Owed (s : State δ) : Prop where
  nextStep : s.port.nextStep
  initStep : s.port.initStep=.uninitialized

section
variable {code : Nat} {s : State δ}
variable {g : Nat}

theorem overwrites_of_clearSA (hw : s.worker=.clearSA g) : Overwrites c code s := by
  refine .worker true (by simp only [workerStep,hw]; rfl) ⟨[],_,.nil _,?_⟩
  exact (portError_ne_zero code).symm

theorem overwrites_of_take (hi : s.port.initStep=.uninitialized) (hw : s.worker=.take) : Overwrites c code s := by
  refine .worker true (by simp only [workerStep,hw,hi]; rfl) ?_
  exact overwrites_of_clearSA rfl

theorem overwrites_of_wait (hs : s.Owed) (hw : s.worker=.wait) : Overwrites c code s := by
  refine .worker true (by simp only [workerStep,hw,hs.nextStep,if_true]; rfl) ?_
  exact overwrites_of_take hs.initStep rfl

theorem overwrites_of_interrupt {st : InitStep} (hs : s.Owed)
    (hw : s.worker=.interrupt st g) : Overwrites c code s := by
  refine .worker true (by simp only [workerStep,hw]; rfl) ?_
  have hsame := s.port.interrupt_same
  exact overwrites_of_wait ⟨hsame.nextStep.trans hs.nextStep,hsame.initStep.trans hs.initStep⟩ rfl

theorem overwrites_of_publish {st : InitStep} (hs : s.Owed) (hw : s.worker=.publish st g) : Overwrites c code s := by
  by_cases h1 : st=.step1
  · refine .worker true (by simp only [workerStep,hw,h1,if_true]; rfl) ?_
    exact overwrites_of_wait ⟨hs.nextStep,hs.initStep⟩ rfl
  · refine .worker true (by simp only [workerStep,hw,h1,if_false]; rfl) ?_
    exact overwrites_of_interrupt ⟨hs.nextStep,hs.initStep⟩ rfl

theorem overwrites_of_commArea (hs : s.Owed) (hw : s.worker=.commArea g) : Overwrites c code s := by
  refine .worker true (by simp only [workerStep,hw]; rfl) ?_
  exact overwrites_of_publish ⟨hs.nextStep,hs.initStep⟩ rfl

theorem overwrites_of_check {st : InitStep} (hs : s.Owed) (hw : s.worker=.check st g) : Overwrites c code s := by
  cases hc : s.port.stepCurrent g with
  | false =>
    refine .worker true (by simp only [workerStep,hw,hc]; rfl) ?_
    exact overwrites_of_wait ⟨hs.nextStep,hs.initStep⟩ rfl
  | true =>
    by_cases h4 : st=.step4
    · refine .worker true (by simp only [workerStep,hw,hc,h4,if_true]; rfl) ?_
      exact overwrites_of_commArea ⟨hs.nextStep,hs.initStep⟩ rfl
    · refine .worker true (by simp only [workerStep,hw,hc,h4,if_true,if_false]; rfl) ?_
      exact overwrites_of_publish ⟨hs.nextStep,hs.initStep⟩ rfl

theorem overwrites_of_step1 (hcode : code<8) (hn : s.port.nextStep)
    (hi : s.port.initStep=.step1) (hw : s.worker=.wait) : Overwrites c code s := by
  refine .worker true (by simp only [workerStep,hw,hn,if_true]; rfl) ?_
  refine .worker true (by simp only [workerStep,hi]; rfl) ?_
  refine .worker true (by simp only [workerStep,Port.stepCurrent,beq_self_eq_true,if_true]; rfl) ?_
  refine .worker true (by simp only [workerStep]; rfl) ⟨[],_,.nil _,?_⟩
  simp only [Port.updateSA,Port.stepCode,Nat.or_assoc]
  exact portError_ne_step1 hcode _

theorem overwrites_of_chain (hcode : code<8) (hs : s.Owed) (hw : s.worker=.chain g) : Overwrites c code s := by
  refine .worker true (by simp only [workerStep,hw]; rfl) ?_
  rw [Port.chainTransition]
  split
  · exact overwrites_of_step1 hcode rfl rfl rfl
  · exact overwrites_of_wait ⟨hs.nextStep,hs.initStep⟩ rfl

theorem overwrites_of_clear (hcode : code<8) (hs : s.Owed) (hw : s.worker=.clear g) : Overwrites c code s := by
  refine .worker true (by simp only [workerStep,hw]; rfl) ?_
  exact overwrites_of_chain hcode ⟨hs.nextStep,hs.initStep⟩ rfl

theorem overwrites_of_woken (hcode : code<8) (hs : s.Owed) (hw : s.worker=.woken g)
    (hps : s.pollState=.wait) : Overwrites c code s := by
  refine .worker true (by simp only [workerStep,hw,hps,if_true]; rfl) ?_
  exact overwrites_of_clear hcode ⟨hs.nextStep,hs.initStep⟩ rfl

/-! A pass that has been asked to stop comes to its end, which wakes the worker. -/

theorem overwrites_of_endPass {m : Bool} (hcode : code<8) (hs : s.Owed)
    (hw : s.worker.awaiting) (hr : s.pollState=.initRestart) (hp : s.poller=.endPass m) : Overwrites c code s := by
  refine .poll true (by simp only [pollStep,hp]; rfl) ?_
  simp only [endOfPass,hr]
  cases hw' : s.worker <;> simp [hw',WorkerPc.awaiting] at hw
  case waiting g =>
    exact overwrites_of_woken hcode ⟨hs.nextStep,hs.initStep⟩ (g := g) (by simp [broadcast]) rfl
  case woken g =>
    exact overwrites_of_woken hcode ⟨hs.nextStep,hs.initStep⟩ (g := g) (by simp [broadcast]) rfl

theorem overwrites_of_linger {n : Nat} (hcode : code<8) (hs : s.Owed)
    (hw : s.worker.awaiting) (hr : s.pollState=.initRestart) (hp : s.poller=.linger n) : Overwrites c code s := by
  refine .poll true (by simp only [pollStep,hp,hr,reduceCtorEq,and_false,if_false]; rfl) ?_
  exact overwrites_of_endPass hcode ⟨hs.nextStep,hs.initStep⟩ hw rfl rfl

theorem overwrites_of_exec {q : Queue} (hcode : code<8) (hs : s.Owed)
    (hw : s.worker.awaiting) (hr : s.pollState=.initRestart) (hp : s.poller=.exec q) : Overwrites c code s := by
  have ended : s.pollStep c true =
      some { s with poller := if 0<q.msgCount then .linger 0 else .endPass false } := by
    simp only [pollStep,hp,hr]
    cases q.messages <;> rfl
  refine .poll true ended ?_
  by_cases hc : 0<q.msgCount
  · simp only [hc,if_true]
    exact overwrites_of_linger hcode ⟨hs.nextStep,hs.initStep⟩ hw hr rfl
  · simp only [hc,if_false]
    exact overwrites_of_endPass hcode ⟨hs.nextStep,hs.initStep⟩ hw hr rfl

theorem overwrites_of_stopping {k : AfterError} (hcode : code<8) (hs : s.Owed)
    (hw : s.worker.awaiting) (hr : s.pollState=.initRestart) (hp : s.poller=afterError k) : Overwrites c code s := by
  cases k with
  | fetch n => exact overwrites_of_exec hcode hs hw hr hp
  | post q r =>
    refine .poll true (by simp only [pollStep,hp,afterError,hr,if_true]; rfl) ?_
    exact overwrites_of_exec hcode ⟨hs.nextStep,hs.initStep⟩ hw rfl rfl
  | pending n =>
    refine .poll true (by simp only [pollStep,hp,afterError,hr,reduceCtorEq,if_false]; rfl) ?_
    exact overwrites_of_linger hcode ⟨hs.nextStep,hs.initStep⟩ hw rfl rfl

theorem overwrites_of_reset {k : AfterError} (hcode : code<8) (hs : s.Owed)
    (hw : s.worker=.reset g) (hp : s.poller=afterError k) : Overwrites c code s := by
  refine .worker true (by simp only [workerStep,hw]; rfl) ?_
  rw [serverReset]
  split
  · exact overwrites_of_clear hcode ⟨hs.nextStep,hs.initStep⟩ rfl
  · refine overwrites_of_stopping (k := k) hcode ⟨hs.nextStep,hs.initStep⟩ rfl rfl ?_
    have hn : s.poller≠.blocked := by
      rw [hp]
      cases k <;> simp [afterError]
    simpa [broadcast,hn] using hp

theorem overwrites_of_owed {k : AfterError} (hcode : code<8) (hs : s.Owed) (ha : s.Awaited)
    (hp : s.poller=afterError k) : Overwrites c code s := by
  cases hw : s.worker with
  | wait => exact overwrites_of_wait hs hw
  | take => exact overwrites_of_take hs.initStep hw
  | clearSA g => exact overwrites_of_clearSA hw
  | reset g => exact overwrites_of_reset hcode hs hw hp
  | waiting g =>
    exact overwrites_of_stopping hcode hs (by rw [hw]; rfl) (ha.waiting g hw).1 hp
  | woken g =>
    obtain hst | hps := ha.woken g hw
    · exact overwrites_of_stopping hcode hs (by rw [hw]; rfl) hst.1 hp
    · exact overwrites_of_woken hcode hs hw hps
  | clear g => exact overwrites_of_clear hcode hs hw
  | chain g => exact overwrites_of_chain hcode hs hw
  | check st g => exact overwrites_of_check hs hw
  | commArea g => exact overwrites_of_commArea hs hw
  | publish st g => exact overwrites_of_publish hs hw
  | interrupt st g => exact overwrites_of_interrupt hs hw

theorem KeepsError.step {t : State δ} {a : Action} (h : KeepsError c code s)
    (ha : Unattended s a) (hst : step c s a=some t) : KeepsError c code t := by
  intro as u hr
  have hu := h (a::as) u (.cons ⟨ha,hst⟩ hr)
  have ht := h [a] t (.cons ⟨ha,hst⟩ (.nil t))
  exact ⟨hu.1,hu.2.trans ht.2.symm⟩

theorem KeepsError.shows (h : KeepsError c code s) : s.ShowsError code :=
  (h [] s (.nil s)).1

theorem not_keepsError_idle (hb : s.bus=.idle) : ¬ KeepsError c code s := by
  intro h
  have hi := h.shows.2
  have h1 := h.step (t := { s with bus := .saTaken 0x4000 .uninitialized }) (a := .saWrite 0x4000)
    ⟨by simp,by simp⟩ (by simp [State.step,access,hb,hi])
  have h2 := h1.step (a := .bus) ⟨by simp,by simp⟩ rfl
  exact portError_ne_wrap h2.shows.1.symm

theorem not_keepsError : ¬ KeepsError c code s := by
  intro h
  have hbus : Unattended s .bus := ⟨by simp,by simp⟩
  have next : ∀ {t : State δ},t.bus=.saGo ∨ (∃ st,t.bus=.saNext st) → ¬ KeepsError c code t := by
    intro t ht hk
    have hgo : ∀ {u : State δ},u.bus=.saGo → ¬ KeepsError c code u := by
      intro u hu hk
      have h1 := hk.step (t := { u with port := u.port.updateSA 0,bus := .idle }) (a := .bus)
        ⟨by simp,by simp⟩ (by simp [State.step,busStep,hu])
      exact portError_ne_zero code h1.shows.1.symm
    obtain hgo' | ⟨st,hst⟩ := ht
    · exact hgo hgo' hk
    · have h1 := hk.step (a := .bus) ⟨by simp,by simp⟩
        (by simp only [State.step,busStep,hst]; rfl)
      by_cases hc : st=.complete
      · exact hgo (by simp [hc]) h1
      · exact not_keepsError_idle (by simp [hc]) h1
  cases hb : s.bus with
  | idle => exact not_keepsError_idle hb h
  | ipZeroed | doorbell =>
    have h1 := h.step hbus (by simp only [State.step,busStep,hb]; rfl)
    exact not_keepsError_idle rfl h1
  | saGo => exact next (.inl hb) h
  | saNext st => exact next (.inr ⟨st,hb⟩) h
  | saTaken value st =>
    have h1 := h.step hbus (by simp only [State.step,busStep,hb]; rfl)
    cases st <;> simp only [writeSA] at h1
    case uninitialized | step1 =>
      split at h1
      · exact not_keepsError_idle rfl h1
      · exact next (.inr ⟨_,rfl⟩) h1
    case step2 | step3 => exact next (.inr ⟨_,rfl⟩) h1
    case step4 =>
      split at h1
      · exact next (.inr ⟨_,rfl⟩) h1
      · exact not_keepsError_idle rfl h1
    case complete => exact not_keepsError_idle rfl h1

end

/-- **A fatal port error does not stay visible.** After its transition the worker and the polling thread by themselves
come to overwrite SA, unless a doorbell has erased the reset the worker waits for; and no error is kept until the next
initialisation. -/
theorem portError_overwritten {s t : State δ} {code : Nat} {k : AfterError} {ok : Bool}
    (hcode : code<8) (hp : s.poller=.errorReset code k) (ht : step c s (.poll ok)=some t) : ¬ KeepsError c code t ∧
    (s.Awaited → ∃ as u,Runs c Alone t as u ∧ u.port.sa≠portError ||| code) := by
  refine ⟨not_keepsError,fun ha => ?_⟩
  have hta := step_awaited ha (by simp [ErasesReset]) ht
  simp only [State.step,pollStep,hp,Option.some.injEq] at ht
  subst ht
  exact overwrites_of_owed hcode ⟨rfl,rfl⟩ hta rfl

def failedScan : List Action :=
  handshake++[.ipRead,.bus,.poll true,.poll true,.poll false,.poll true]

theorem portError_overwritten_scan : ∃ s t, Runs .bare (fun s a => ¬ s.ErasesReset a) (start () .blank) failedScan s ∧
    s.poller=.errorReset portErrorPacketRead (.fetch 0) ∧ step .bare s (.poll true)=some t ∧
    ∃ as u,Runs .bare Alone t as u ∧ u.port.sa≠portError ||| portErrorPacketRead := by
  obtain ⟨s,hs,hp⟩ := run_of_foldlM (fun s a => ¬ s.ErasesReset a) (step .bare)
    (fun s => s.poller == .errorReset portErrorPacketRead (.fetch 0)) failedScan
    (start () .blank) (by decide +kernel)
  rw [beq_iff_eq] at hp
  have ht : step .bare s (.poll true) =
      some { s with port := s.port.stateTransition .uninitialized,poller := .exec ⟨[],0⟩ } := by
    simp only [State.step,pollStep,hp,afterError]
  have ha : s.Awaited := hs.invariant (P := Awaited)
    (fun _ _ _ hs hr => step_awaited hs hr.1 hr.2) start_awaited
  exact ⟨s,_,hs,hp,ht,(portError_overwritten (by decide) hp ht).2 ha⟩

/-- The worker's own processing of the transition stores zero over the error. -/
theorem portError_lost : ∃ s t as u,Runs .bare (fun _ _ => True) (start () .blank) failedScan s ∧
    step .bare s (.poll true)=some t ∧ t.ShowsError portErrorPacketRead ∧ Runs .bare Alone t as u ∧ u.port.sa=0 := by
  obtain ⟨s,hs,hp⟩ := run_of_foldlM (fun _ _ => True) (step .bare)
    (fun s => (step .bare s (.poll true)).any fun t =>
      t.port.sa == 0x8001 && t.port.initStep == .uninitialized &&
      ((List.replicate 3 (.worker true)).foldlM
        (fun s a => if Alone s a then step .bare s a else none) t).any (fun u => u.port.sa == 0))
    failedScan (start () .blank) (by decide +kernel)
  obtain ⟨t,ht,hp⟩ := (Option.any_eq_true _ _).mp hp
  simp only [Bool.and_eq_true,beq_iff_eq] at hp
  obtain ⟨⟨hsa,hi⟩,hp⟩ := hp
  obtain ⟨u,hu,hz⟩ := run_of_foldlM Alone (step .bare) (fun u => u.port.sa == 0) _ t hp
  exact ⟨s,t,_,u,hs,ht,⟨hsa,hi⟩,hu,by simpa using hz⟩

end QUniLator.Mscp.State
