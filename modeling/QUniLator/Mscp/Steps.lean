import QUniLator.Framework.Run
import QUniLator.Mscp.System

namespace QUniLator.Mscp

open Option

def PollerPc.inPass : PollerPc → Bool
  | .top | .blocked => false
  | _ => true

/-- The worker is in the wait of the server's `Reset`. -/
def WorkerPc.awaiting : WorkerPc → Bool
  | .waiting _ | .woken _ => true
  | _ => false

/-- What a pass leaves alone in the port, short of a port error. -/
structure Port.Same (p q : Port) : Prop where
  initStep : q.initStep=p.initStep
  nextStep : q.nextStep=p.nextStep
  stepGeneration : q.stepGeneration=p.stepGeneration
  step1Value : q.step1Value=p.step1Value
  ringBase : q.ringBase=p.ringBase
  commandRingLength : q.commandRingLength=p.commandRingLength
  responseRingLength : q.responseRingLength=p.responseRingLength

theorem Port.Same.refl (p : Port) : p.Same p :=
  ⟨rfl,rfl,rfl,rfl,rfl,rfl,rfl⟩

theorem Port.interrupt_same (p : Port) : p.Same p.interrupt := by
  rw [interrupt]
  split
  · exact ⟨rfl,rfl,rfl,rfl,rfl,rfl,rfl⟩
  · exact .refl p

@[simp] theorem Port.interrupt_sa (p : Port) : p.interrupt.sa=p.sa := by
  rw [interrupt]
  split <;> rfl

@[simp] theorem Port.interrupt_commandRingPointer (p : Port) :
    p.interrupt.commandRingPointer=p.commandRingPointer := by
  rw [interrupt]
  split <;> rfl

@[simp] theorem Port.interrupt_responseRingPointer (p : Port) :
    p.interrupt.responseRingPointer=p.responseRingPointer := by
  rw [interrupt]
  split <;> rfl

namespace State

variable {δ : Type}

structure Inside (s t : State δ) : Prop where
  before : s.poller.inPass
  after : t.poller.inPass
  pollState : t.pollState=s.pollState
  bus : t.bus=s.bus
  worker : t.worker=s.worker
  host : t.host=s.host
  port : s.port.Same t.port
  sa : t.port.sa=s.port.sa ∨ ∃ code k,s.poller=.errorSA code k ∧ t.port.sa=portError ||| code
  commandRingPointer : t.port.commandRingPointer=s.port.commandRingPointer ∨
    t.port.commandRingPointer=(s.port.commandRingPointer+1)%s.port.commandRingLength
  responseRingPointer : t.port.responseRingPointer=s.port.responseRingPointer ∨
    t.port.responseRingPointer=(s.port.responseRingPointer+1)%s.port.responseRingLength

/-- What a step of the polling thread is: it goes to sleep, begins a pass, ends one, makes the
transition of a port error, or works inside a pass. -/
inductive Polled (s t : State δ) : Prop
  | sleep (hp : s.poller=.top) (hw : s.pollState=.wait) (ht : t={ s with poller := .blocked })
  | begin (hp : s.poller=.top) (hw : s.pollState≠.wait)
      (ht : t={ s with
        pollState := if s.pollState=.initRun then .run else s.pollState
        poller := .ring ⟨[],0⟩ })
  | finish (moreWork : Bool) (hp : s.poller=.endPass moreWork) (ht : t=s.endOfPass moreWork)
  | fail (code : Nat) (k : AfterError) (hp : s.poller=.errorReset code k)
      (ht : t={ s with port := s.port.stateTransition .uninitialized,poller := afterError k })
  | inside (h : s.Inside t)

variable {s t : State δ} {c : Controller δ}

theorem Inside.move (hs : s.poller.inPass) (ht : t.poller.inPass)
    (hps : t.pollState=s.pollState) (hb : t.bus=s.bus) (hw : t.worker=s.worker)
    (hh : t.host=s.host) (hp : t.port=s.port) : s.Inside t :=
  ⟨hs,ht,hps,hb,hw,hh,hp ▸ .refl _,.inl (by rw [hp]),.inl (by rw [hp]),.inl (by rw [hp])⟩

theorem Inside.interrupt (hs : s.poller.inPass) (ht : t.poller.inPass)
    (hps : t.pollState=s.pollState) (hb : t.bus=s.bus) (hw : t.worker=s.worker)
    (hh : t.host=s.host) (hp : t.port=s.port.interrupt) : s.Inside t :=
  ⟨hs,ht,hps,hb,hw,hh,hp ▸ s.port.interrupt_same,.inl (by simp [hp]),.inl (by simp [hp]),
    .inl (by simp [hp])⟩

theorem afterError_inPass (k : AfterError) : (afterError k).inPass=true := by
  cases k <;> rfl

theorem pollStep_polled {ok : Bool} (h : s.pollStep c ok=some t) : s.Polled t := by
  cases hp : s.poller with
  | blocked => simp [pollStep,hp] at h
  | top =>
    simp only [pollStep,hp,some.injEq] at h
    split at h
    · exact .sleep hp ‹_› h.symm
    · exact .begin hp ‹_› h.symm
  | endPass moreWork =>
    simp only [pollStep,hp,some.injEq] at h
    exact .finish moreWork hp h.symm
  | errorReset code k =>
    simp only [pollStep,hp,some.injEq] at h
    exact .fail code k hp h.symm
  | errorSA code k =>
    simp only [pollStep,hp,some.injEq] at h
    subst h
    exact .inside ⟨by simp [hp,PollerPc.inPass],rfl,rfl,rfl,rfl,rfl,⟨rfl,rfl,rfl,rfl,rfl,rfl,rfl⟩,
      .inr ⟨code,k,hp,rfl⟩,.inl rfl,.inl rfl⟩
  | advance q flag m =>
    simp only [pollStep,hp,some.injEq] at h
    subst h
    exact .inside ⟨by simp [hp,PollerPc.inPass],by cases flag <;> rfl,rfl,rfl,rfl,rfl,
      ⟨rfl,rfl,rfl,rfl,rfl,rfl,rfl⟩,.inl rfl,.inr rfl,.inl rfl⟩
  | postAdvance q =>
    simp only [pollStep,hp,some.injEq] at h
    subst h
    exact .inside ⟨by simp [hp,PollerPc.inPass],rfl,rfl,rfl,rfl,rfl,⟨rfl,rfl,rfl,rfl,rfl,rfl,rfl⟩,
      .inl rfl,.inl rfl,.inr rfl⟩
  | interruptCommand | interruptResponse =>
    simp only [pollStep,hp,some.injEq] at h
    subst h
    exact .inside (.interrupt (by simp [hp,PollerPc.inPass]) rfl rfl rfl rfl rfl rfl)
  | exec q =>
    simp only [pollStep,hp,some.injEq] at h
    subst h
    refine .inside (.move (by simp [hp,PollerPc.inPass]) ?_ rfl rfl rfl rfl rfl)
    cases q.messages with
    | nil => by_cases hc : 0<q.msgCount <;> simp [hc,PollerPc.inPass]
    | cons m ms =>
      by_cases hr : s.pollState=.initRestart <;> by_cases hc : 0<q.msgCount <;>
        simp [hr,hc,PollerPc.inPass]
  | _ =>
    simp only [pollStep,hp,some.injEq,getNextCommand,postResponse,portErrorAt] at h
    subst h
    refine .inside (.move (by simp [hp,PollerPc.inPass]) ?_ ?_ ?_ ?_ ?_ ?_) <;>
      repeat (first | rfl | split)

theorem access_eq_some {s t u : State δ} (h : s.access t=some u) : s.bus=.idle ∧ u=t := by
  rw [access] at h
  split at h
  · exact ⟨‹_›,(some.inj h).symm⟩
  · cases h

theorem busStep_sync (h : s.busStep=some t) : (s.bus=.doorbell ∧ t={ s.initPolling with bus := .idle }) ∨
    (s.bus≠.doorbell ∧ t.pollState=s.pollState ∧ t.poller=s.poller ∧ t.worker=s.worker) := by
  cases hb : s.bus with
  | idle => simp [busStep,hb] at h
  | doorbell =>
    simp only [busStep,hb,some.injEq] at h
    exact .inl ⟨rfl,h.symm⟩
  | saTaken value step =>
    simp only [busStep,hb,some.injEq] at h
    subst h
    right
    cases step <;> simp only [writeSA] <;> (try split) <;> simp
  | _ =>
    simp only [busStep,hb,some.injEq] at h
    subst h
    simp

/-- Only the worker's critical sections touch what the polling thread and it share: the one that asks
for a reset, and the one in which its wait ends or goes on. -/
theorem workerStep_sync {ok : Bool} (h : s.workerStep c ok=some t) :
    (∃ generation,s.worker=.reset generation ∧ t=s.serverReset generation) ∨
    (∃ generation,s.worker=.woken generation ∧ t={ s with
      worker := if s.pollState=.wait then .clear generation else .waiting generation }) ∨
    ((∀ generation,s.worker≠.reset generation) ∧ s.worker.awaiting=false ∧
      t.worker.awaiting=false ∧ t.pollState=s.pollState ∧ t.poller=s.poller) := by
  cases hw : s.worker with
  | waiting => simp [workerStep,hw] at h
  | reset generation =>
    simp only [workerStep,hw,some.injEq] at h
    exact .inl ⟨generation,rfl,h.symm⟩
  | woken generation =>
    simp only [workerStep,hw,some.injEq] at h
    exact .inr (.inl ⟨generation,rfl,h.symm⟩)
  | wait =>
    simp only [workerStep,hw] at h
    split at h
    · cases h
      simp [WorkerPc.awaiting]
    · cases h
  | take =>
    simp only [workerStep,hw,some.injEq] at h
    subst h
    cases s.port.initStep <;> simp [WorkerPc.awaiting]
  | check step generation =>
    simp only [workerStep,hw,some.injEq] at h
    subst h
    by_cases hc : s.port.stepCurrent generation <;> by_cases h4 : step=.step4 <;>
      simp [hc,h4,WorkerPc.awaiting]
  | publish step generation =>
    simp only [workerStep,hw,some.injEq] at h
    subst h
    by_cases h1 : step=.step1 <;> simp [h1,WorkerPc.awaiting]
  | _ =>
    simp only [workerStep,hw,some.injEq] at h
    subst h
    simp [WorkerPc.awaiting]

/-- The steps of no thread: an access that begins, a wake-up, or the guest at its memory. -/
inductive Outside : Action → Prop
  | ipWrite : Outside .ipWrite
  | ipRead : Outside .ipRead
  | saWrite (value : Nat) : Outside (.saWrite value)
  | init : Outside .init
  | wakeWorker : Outside .wakeWorker
  | wakePoller : Outside .wakePoller
  | writeDescriptor (address : Nat) (d : Descriptor) : Outside (.writeDescriptor address d)
  | writePacket (envelope : Nat) (packet : Message) : Outside (.writePacket envelope packet)
  | command (envelope : Nat) (flag : Bool) : Outside (.command envelope flag)
  | collect : Outside .collect
  | giveBack (envelope : Nat) (flag : Bool) : Outside (.giveBack envelope flag)

theorem outside_sync {a : Action} (ha : Outside a) (h : step c s a=some t) :
    t.pollState=s.pollState ∧ (t.poller=s.poller ∨ s.poller=.blocked ∧ t.poller=.top) ∧ (t.worker=s.worker ∨
      ∃ generation,s.worker=.waiting generation ∧ t.worker=.woken generation) := by
  cases ha with
  | ipWrite | ipRead | saWrite | init =>
    obtain ⟨-,rfl⟩ := access_eq_some h
    simp
  | wakeWorker =>
    cases hw : s.worker <;> simp [step,hw] at h
    subst h
    simp
  | wakePoller =>
    simp only [step] at h
    split at h
    · cases h
      simp [*]
    · cases h
  | _ =>
    cases h
    simp

theorem broadcast_worker (s : State δ) : s.broadcast.worker=s.worker ∨
    ∃ generation,s.worker=.waiting generation ∧ s.broadcast.worker=.woken generation := by
  cases hw : s.worker <;> simp [broadcast,hw]

theorem step_worker {a : Action} (ha : ∀ ok,a≠.worker ok) (h : step c s a=some t) : t.worker=s.worker ∨
    ∃ generation,s.worker=.waiting generation ∧ t.worker=.woken generation := by
  cases a with
  | worker ok => exact absurd rfl (ha ok)
  | poll ok =>
    cases pollStep_polled h with
    | sleep hp hw ht | begin hp hw ht | fail code k hp ht => exact .inl (ht ▸ rfl)
    | inside h => exact .inl h.worker
    | finish moreWork hp ht =>
      subst ht
      cases hps : s.pollState with
      | initRestart =>
        simp only [endOfPass,hps]
        exact broadcast_worker { s with pollState := .wait }
      | _ =>
        simp only [endOfPass,hps]
        exact .inl trivial
  | bus =>
    obtain ⟨-,rfl⟩ | ⟨-,-,-,hw⟩ := busStep_sync h
    · exact broadcast_worker { s with
        pollState := .initRun,host := { s.host with rung := s.host.handed.length } }
    · exact .inl hw
  | _ => exact (outside_sync (by constructor) h).2.2

theorem Polled.bus (h : s.Polled t) : t.bus=s.bus := by
  cases h with
  | inside h => exact h.bus
  | finish moreWork hp ht =>
    subst ht
    cases hps : s.pollState <;> simp [endOfPass,hps,broadcast]
  | _ => simp [*]

theorem workerStep_bus {ok : Bool} (h : s.workerStep c ok=some t) : t.bus=s.bus := by
  cases hw : s.worker <;> simp only [workerStep,hw] at h
  case wait =>
    split at h
    · cases h
      rfl
    · cases h
  case waiting => cases h
  case reset =>
    cases h
    rw [serverReset]
    split <;> rfl
  all_goals
    cases h
    rfl

/-- The runs whose steps `guard` lets pass. -/
abbrev Runs (c : Controller δ) (guard : State δ → Action → Prop) : State δ → List Action → State δ → Prop :=
  Run (Guarded guard (step c))

end State

end QUniLator.Mscp
