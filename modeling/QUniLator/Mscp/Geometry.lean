import QUniLator.Mscp.Reset

namespace QUniLator.Mscp

open Bool List

def InitStep.handshaking : InitStep → Bool
  | .step1 | .step2 | .step3 | .step4 => true
  | _ => false

def WorkerPc.resetting : WorkerPc → Bool
  | .clearSA _ | .reset _ | .waiting _ | .woken _ | .clear _ | .chain _ => true
  | _ => false

/-- The server's `Reset` has begun. -/
def WorkerPc.pastReset : WorkerPc → Bool
  | .waiting _ | .woken _ | .clear _ | .chain _ => true
  | _ => false

/-- The server's `Reset` has returned. -/
def WorkerPc.clearing : WorkerPc → Bool
  | .clear _ | .chain _ => true
  | _ => false

/-- The polling thread is in `GetNextCommand`, in `PostResponse` or in `CommandPending` past its
guard. -/
def PollerPc.usesRings : PollerPc → Bool
  | .readDescriptor _ | .readLength _ _ _ | .readMessage _ _ _ _ | .giveBack _ _ _ _
  | .advance _ _ _ | .markCommand _ _ | .interruptCommand _ _ | .postDescriptor _ _
  | .postLength _ _ _ _ | .postMessage _ _ _ _ | .postGiveBack _ _ _ _ | .markResponse _
  | .interruptResponse _ | .postAdvance _ | .pendingRead _ => true
  | _ => false

theorem PollerPc.usesRings_inPass {pc : PollerPc} (h : pc.usesRings) : pc.inPass := by
  cases pc <;> first | rfl | cases h

/-- The rings are those of the last step 1 value, with both pointers inside. -/
structure Port.Ringed (p : Port) : Prop where
  responseRingLength : p.responseRingLength=Port.responseLength p.step1Value
  commandRingLength : p.commandRingLength=Port.commandLength p.step1Value
  responseRingPointer : p.responseRingPointer<p.responseRingLength
  commandRingPointer : p.commandRingPointer<p.commandRingLength

theorem Port.responseLength_pow (value : Nat) : ∃ k,responseLength value=2^k :=
  ⟨_,Nat.one_shiftLeft _⟩

theorem Port.commandLength_pow (value : Nat) : ∃ k,commandLength value=2^k :=
  ⟨_,Nat.one_shiftLeft _⟩

theorem Port.responseLength_pos (value : Nat) : 0 < responseLength value := by
  obtain ⟨k,hk⟩ := responseLength_pow value
  rw [hk]
  exact Nat.two_pow_pos k

theorem Port.commandLength_pos (value : Nat) : 0<commandLength value := by
  obtain ⟨k,hk⟩ := commandLength_pow value
  rw [hk]
  exact Nat.two_pow_pos k

theorem Port.writeStep1_ringed {p : Port} (value : Nat) (hr : p.responseRingPointer=0)
    (hc : p.commandRingPointer=0) : (p.writeStep1 value).Ringed := by
  refine ⟨rfl,rfl,?_,?_⟩
  · simpa [writeStep1,hr] using responseLength_pos value
  · simpa [writeStep1,hc] using commandLength_pos value

theorem Port.Ringed.congr {p q : Port} (h : p.Ringed) (hv : q.step1Value=p.step1Value)
    (hr : q.responseRingLength=p.responseRingLength) (hc : q.commandRingLength=p.commandRingLength)
    (hrp : q.responseRingPointer=p.responseRingPointer)
    (hcp : q.commandRingPointer=p.commandRingPointer) : q.Ringed :=
  ⟨by rw [hr,hv]; exact h.responseRingLength,by rw [hc,hv]; exact h.commandRingLength,
    by rw [hrp,hr]; exact h.responseRingPointer,by rw [hcp,hc]; exact h.commandRingPointer⟩

namespace State

variable {δ : Type} {c : Controller δ}

/-- No pass is in progress, and none is to begin. -/
structure Parked (s : State δ) : Prop where
  pollState : s.pollState=.wait
  poller : s.poller.inPass=false
  bus : s.bus≠.doorbell

/-- A write to SA that the port takes as a step 1 value while it is uninitialized. -/
def WritesEarly (s : State δ) (a : Action) : Prop :=
  ∃ value,a=.saWrite value ∧ s.port.initStep=.uninitialized ∧ Port.wrapBit value=false

/-- The server's `Reset` begins between the test of a doorbell and its `InitPolling`. -/
def ResetsRung (s : State δ) (a : Action) : Prop :=
  (∃ ok,a=.worker ok) ∧ (∃ generation,s.worker=.reset generation) ∧ s.bus=.doorbell

/-- What holds of the port, the worker and the adapter's thread between them. -/
structure Settled (s : State δ) : Prop where
  busy : s.poller.inPass → s.pollState≠.wait
  rings : s.Parked ∨ s.port.Ringed
  resetting : s.worker.resetting → s.port.initStep=.uninitialized
  rung : s.worker.pastReset → s.bus≠.doorbell
  cleared : s.worker.clearing → s.Parked
  pointers : (∃ generation,s.worker=.chain generation) ∨ s.port.initStep=.step1 →
    s.port.responseRingPointer=0 ∧ s.port.commandRingPointer=0
  handshaking : s.port.initStep.handshaking → s.Parked
  answered : s.port.initStep≠.uninitialized → s.port.initStep≠.step1 → s.port.Ringed
  taken : ∀ value step,s.bus=.saTaken value step → (step.handshaking → s.port.initStep=step) ∧
    (step=.uninitialized → Port.wrapBit value=true)
  next : ∀ step,s.bus=.saNext step → s.port.initStep.handshaking ∧ s.port.Ringed ∧
    step≠.uninitialized ∧ step≠.step1

theorem start_settled {drives : δ} {mem : Memory} : (start drives mem).Settled := by
  refine ⟨?_,.inl ⟨rfl,rfl,?_⟩,?_,?_,?_,?_,?_,?_,?_,?_⟩ <;>
    simp [start,Port.start,PollerPc.inPass,WorkerPc.resetting,WorkerPc.pastReset,
      WorkerPc.clearing,InitStep.handshaking]

theorem Settled.inPass {s : State δ} (hs : s.Settled) (hp : s.poller.inPass) :
    ¬ s.Parked ∧ s.port.Ringed ∧ s.port.initStep.handshaking=false ∧ s.worker.clearing=false := by
  have hn : ¬ s.Parked := by
    intro h
    rw [h.poller] at hp
    cases hp
  refine ⟨hn,hs.rings.resolve_left hn,?_,?_⟩
  · exact eq_false_iff.mpr fun h => hn (hs.handshaking h)
  · exact eq_false_iff.mpr fun h => hn (hs.cleared h)

theorem waking_classes {w w' : WorkerPc} (h : w'=w ∨ ∃ generation,w=.waiting generation ∧ w'=.woken generation) :
    w'.resetting=w.resetting ∧ w'.pastReset=w.pastReset ∧ w'.clearing=w.clearing ∧
    ∀ generation,w'=.chain generation → w=.chain generation := by
  obtain rfl | ⟨g,rfl,rfl⟩ := h
  · exact ⟨rfl,rfl,rfl,fun _ h => h⟩
  · exact ⟨rfl,rfl,rfl,fun _ h => by cases h⟩

variable {s t : State δ}

theorem Settled.keep (hs : s.Settled) (hbusy : t.poller.inPass → t.pollState≠.wait)
    (hpark : s.Parked → t.Parked) (hring : s.port.Ringed → t.port.Ringed) (hi : t.port.initStep=s.port.initStep)
    (hp : s.Parked → t.port.responseRingPointer=s.port.responseRingPointer ∧
      t.port.commandRingPointer=s.port.commandRingPointer) (hb : t.bus=s.bus) (hw : t.worker=s.worker ∨
      ∃ generation,s.worker=.waiting generation ∧ t.worker=.woken generation) : t.Settled := by
  obtain ⟨hw1,hw2,hw3,hw4⟩ := waking_classes hw
  refine ⟨hbusy,hs.rings.imp hpark hring,?_,?_,?_,?_,?_,?_,?_,?_⟩
  · rw [hw1,hi]
    exact hs.resetting
  · rw [hw2,hb]
    exact hs.rung
  · rw [hw3]
    exact fun h => hpark (hs.cleared h)
  · rintro (⟨g,hg⟩ | h1)
    · have hg := hw4 g hg
      obtain ⟨hr,hc⟩ := hp (hs.cleared (by rw [hg]; rfl))
      rw [hr,hc]
      exact hs.pointers (.inl ⟨g,hg⟩)
    · rw [hi] at h1
      obtain ⟨hr,hc⟩ := hp (hs.handshaking (by rw [h1]; rfl))
      rw [hr,hc]
      exact hs.pointers (.inr h1)
  · rw [hi]
    exact fun h => hpark (hs.handshaking h)
  · rw [hi]
    exact fun h h' => hring (hs.answered h h')
  · rw [hb,hi]
    exact hs.taken
  · rw [hb,hi]
    exact fun st h => ⟨(hs.next st h).1,hring (hs.next st h).2.1,(hs.next st h).2.2⟩

theorem Inside.ringed (h : s.Inside t) (hr : s.port.Ringed) : t.port.Ringed := by
  refine ⟨?_,?_,?_,?_⟩
  · rw [h.port.responseRingLength,h.port.step1Value]
    exact hr.responseRingLength
  · rw [h.port.commandRingLength,h.port.step1Value]
    exact hr.commandRingLength
  · rw [h.port.responseRingLength]
    obtain hp | hp := h.responseRingPointer <;> rw [hp]
    · exact hr.responseRingPointer
    · exact Nat.mod_lt _ (Nat.zero_lt_of_lt hr.responseRingPointer)
  · rw [h.port.commandRingLength]
    obtain hp | hp := h.commandRingPointer <;> rw [hp]
    · exact hr.commandRingPointer
    · exact Nat.mod_lt _ (Nat.zero_lt_of_lt hr.commandRingPointer)

theorem Settled.uninitialized (hs : s.Settled) (hpoll : t.pollState=s.pollState)
    (hp : t.poller.inPass=s.poller.inPass)
    (ht : t.port=s.port.stateTransition .uninitialized) (hw : t.worker=s.worker)
    (hb : t.bus=s.bus ∨ t.bus=.idle) (hbus : s.poller.inPass ∨ t.bus=.idle) : t.Settled := by
  have hring : s.port.Ringed → t.port.Ringed := fun h => by
    rw [ht]
    exact h.congr rfl rfl rfl rfl rfl
  have hd : s.bus≠.doorbell → t.bus≠.doorbell := by
    intro hn
    obtain hb | hb := hb <;> rw [hb]
    · exact hn
    · simp
  have hpark : s.Parked → t.Parked := fun h =>
    ⟨hpoll.trans h.pollState,hp.trans h.poller,hd h.bus⟩
  -- an access that is under way has the handshake around it, and no pass
  have hfree : ∀ st,t.bus=.saNext st ∨ (∃ v,t.bus=.saTaken v st ∧ st.handshaking) → False := by
    intro st h
    have hpass : s.poller.inPass := by
      obtain hpass | hidle := hbus
      · exact hpass
      · rw [hidle] at h
        simp at h
    obtain ⟨-,-,hi,-⟩ := hs.inPass hpass
    obtain hb | hb := hb <;> rw [hb] at h
    · obtain h | ⟨v,h,hst⟩ := h
      · rw [(hs.next st h).1] at hi
        cases hi
      · rw [(hs.taken v st h).1 hst] at hi
        rw [hi] at hst
        cases hst
    · simp at h
  have hi : t.port.initStep=.uninitialized := by rw [ht]; rfl
  refine ⟨by rw [hp,hpoll]; exact hs.busy,hs.rings.imp hpark hring,fun _ => hi,
    by rw [hw]; exact fun h => hd (hs.rung h),by rw [hw]; exact fun h => hpark (hs.cleared h),?_,
    by simp [hi,InitStep.handshaking],by simp [hi],?_,?_⟩
  · rintro (h | h)
    · rw [ht]
      exact hs.pointers (.inl (hw ▸ h))
    · rw [hi] at h
      cases h
  · intro v st h
    refine ⟨fun hst => absurd (.inr ⟨v,h,hst⟩) (hfree st),?_⟩
    obtain hb | hb := hb <;> rw [hb] at h
    · exact (hs.taken v st h).2
    · cases h
  · exact fun st h => absurd (.inl h) (hfree st)

theorem pollStep_settled {ok : Bool} (hs : s.Settled) (h : s.pollStep c ok=some t) : t.Settled := by
  have hw := step_worker (a := .poll ok) (c := c) (by simp) h
  cases pollStep_polled h with
  | sleep hp hw' ht =>
    subst ht
    exact hs.keep (by simp [PollerPc.inPass]) (fun h => ⟨h.pollState,rfl,h.bus⟩) id rfl
      (fun _ => ⟨rfl,rfl⟩) rfl (.inl rfl)
  | begin hp hw' ht =>
    subst ht
    refine hs.keep (fun _ => ?_) (fun h => absurd h.pollState hw') id rfl (fun _ => ⟨rfl,rfl⟩) rfl
      (.inl rfl)
    cases hps : s.pollState <;> simp [hps] at hw' ⊢
  | finish moreWork hp ht =>
    have hpass : s.poller.inPass := by simp [hp,PollerPc.inPass]
    have hport : t.port=s.port := by
      subst ht
      cases hps : s.pollState <;> simp [endOfPass,hps,broadcast]
    have htop : t.poller=.top := by
      subst ht
      cases hps : s.pollState <;> simp [endOfPass,hps]
    exact hs.keep (by simp [htop,PollerPc.inPass]) (fun h => absurd h (hs.inPass hpass).1)
      (fun h => hport ▸ h) (by rw [hport]) (fun _ => by simp [hport]) (pollStep_polled h).bus hw
  | fail code k hp ht =>
    have hpass : s.poller.inPass := by simp [hp,PollerPc.inPass]
    subst ht
    exact hs.uninitialized rfl ((afterError_inPass k).trans hpass.symm) rfl rfl (.inl rfl)
      (.inl hpass)
  | inside h =>
    have hn := (hs.inPass h.before).1
    exact hs.keep (fun _ => h.pollState ▸ hs.busy h.before) (fun h => absurd h hn) h.ringed
      h.port.initStep (fun h => absurd h hn) h.bus (.inl h.worker)

theorem Settled.work (hs : s.Settled) (hps : t.pollState=s.pollState)
    (hpo : t.poller=s.poller) (hb : t.bus=s.bus) (hi : t.port.initStep=s.port.initStep)
    (hring : s.port.Ringed → t.port.Ringed) (hpt : t.port.responseRingPointer=s.port.responseRingPointer ∧
      t.port.commandRingPointer=s.port.commandRingPointer) (hr : t.worker.resetting → s.port.initStep=.uninitialized)
    (hpr : t.worker.pastReset → s.bus≠.doorbell) (hcl : t.worker.clearing → s.Parked)
    (hch : ∀ generation,t.worker=.chain generation →
      s.port.responseRingPointer=0 ∧ s.port.commandRingPointer=0) : t.Settled := by
  have hpark : s.Parked → t.Parked := fun h =>
    ⟨hps.trans h.pollState,by rw [hpo]; exact h.poller,by rw [hb]; exact h.bus⟩
  refine ⟨by rw [hpo,hps]; exact hs.busy,hs.rings.imp hpark hring,by rw [hi]; exact hr,
    by rw [hb]; exact hpr,fun h => hpark (hcl h),?_,by rw [hi]; exact fun h => hpark (hs.handshaking h),
    by rw [hi]; exact fun h h' => hring (hs.answered h h'),by rw [hb,hi]; exact hs.taken,?_⟩
  · rw [hpt.1,hpt.2,hi]
    rintro (⟨g,hg⟩ | h1)
    · exact hch g hg
    · exact hs.pointers (.inr h1)
  · rw [hb,hi]
    exact fun st h => ⟨(hs.next st h).1,hring (hs.next st h).2.1,(hs.next st h).2.2⟩

theorem Settled.unanswered {s : State δ} (hs : s.Settled) (hi : s.port.initStep=.uninitialized) :
    (∀ value step,s.bus=.saTaken value step → step.handshaking=false) ∧ ∀ step,s.bus≠.saNext step := by
  refine ⟨fun v st h => eq_false_iff.mpr fun hst => ?_,fun st h => ?_⟩
  · rw [← (hs.taken v st h).1 hst,hi] at hst
    cases hst
  · have hn := (hs.next st h).1
    rw [hi] at hn
    cases hn

theorem serverReset_settled {s : State δ} {g : Nat} (hs : s.Settled) (hw : s.worker=.reset g)
    (hb : s.bus≠.doorbell) : (s.serverReset g).Settled := by
  have hi := hs.resetting (by rw [hw]; rfl)
  rw [serverReset]
  split
  · refine hs.work rfl rfl rfl rfl id ⟨rfl,rfl⟩ (fun _ => hi) (fun _ => hb) (fun _ => ?_) (by simp)
    refine ⟨‹_›,?_,hb⟩
    exact eq_false_iff.mpr fun hp => absurd ‹_› (hs.busy hp)
  · rename_i hps
    have hn : ¬ s.Parked := fun h => hps h.pollState
    obtain ⟨hun1,hun2⟩ := hs.unanswered hi
    refine ⟨fun _ => by simp [broadcast],.inr (hs.rings.resolve_left hn),fun _ => hi,fun _ => hb,
      by simp [WorkerPc.clearing],?_,?_,?_,?_,?_⟩
    · rintro (⟨g',hg⟩ | h1)
      · cases hg
      · have h1' : s.port.initStep=.step1 := h1
        rw [hi] at h1'
        cases h1'
    · intro h
      exact absurd (hs.handshaking h) hn
    · exact hs.answered
    · exact hs.taken
    · exact hs.next

theorem workerStep_settled {ok : Bool} (hs : s.Settled)
    (hr : ¬ s.ResetsRung (.worker ok)) (h : s.workerStep c ok=some t) : t.Settled := by
  have hresetting := hs.resetting
  have hrung := hs.rung
  have hcleared := hs.cleared
  have hpointers := hs.pointers
  cases hw : s.worker <;> rw [hw] at hresetting hrung hcleared hpointers <;>
    simp only [workerStep,hw] at h
  case waiting => cases h
  case wait =>
    split at h
    · cases h
      exact hs.work rfl rfl rfl rfl (fun h => h.congr rfl rfl rfl rfl rfl) ⟨rfl,rfl⟩
        (by simp [WorkerPc.resetting]) (by simp [WorkerPc.pastReset]) (by simp [WorkerPc.clearing])
        (by simp)
    · cases h
  case take =>
    cases h
    refine hs.work rfl rfl rfl rfl id ⟨rfl,rfl⟩ ?_ ?_ ?_ ?_ <;> cases s.port.initStep <;>
      simp [WorkerPc.resetting,WorkerPc.pastReset,WorkerPc.clearing]
  case clearSA g =>
    cases h
    exact hs.work rfl rfl rfl rfl (fun h => h.congr rfl rfl rfl rfl rfl) ⟨rfl,rfl⟩
      (fun _ => hresetting rfl) (by simp [WorkerPc.pastReset]) (by simp [WorkerPc.clearing])
      (by simp)
  case reset g =>
    cases h
    exact serverReset_settled hs hw fun hb => hr ⟨⟨ok,rfl⟩,⟨g,hw⟩,hb⟩
  case woken g =>
    cases h
    by_cases hps : s.pollState=.wait
    · simp only [hps,if_true]
      refine hs.work hps.symm rfl rfl rfl id ⟨rfl,rfl⟩ (fun _ => hresetting rfl)
        (fun _ => hrung rfl) (fun _ => ⟨hps,?_,hrung rfl⟩) (by simp)
      exact eq_false_iff.mpr fun hp => absurd hps (hs.busy hp)
    · simp only [hps,if_false]
      exact hs.work rfl rfl rfl rfl id ⟨rfl,rfl⟩ (fun _ => hresetting rfl) (fun _ => hrung rfl)
        (by simp [WorkerPc.clearing]) (by simp)
  case clear g =>
    cases h
    have hi := hresetting rfl
    have hp := hcleared rfl
    obtain ⟨hun1,hun2⟩ := hs.unanswered hi
    refine ⟨hs.busy,.inl ⟨hp.pollState,hp.poller,hp.bus⟩,fun _ => hi,fun _ => hp.bus,
      fun _ => ⟨hp.pollState,hp.poller,hp.bus⟩,fun _ => ⟨rfl,rfl⟩,
      fun _ => ⟨hp.pollState,hp.poller,hp.bus⟩,fun h => absurd hi h,hs.taken,
      fun st h => absurd h (hun2 st)⟩
  case chain g =>
    cases h
    have hi := hresetting rfl
    have hp := hcleared rfl
    simp only [Port.chainTransition]
    split
    · obtain ⟨hun1,hun2⟩ := hs.unanswered hi
      refine ⟨hs.busy,.inl ⟨hp.pollState,hp.poller,hp.bus⟩,by simp [WorkerPc.resetting],
        by simp [WorkerPc.pastReset],by simp [WorkerPc.clearing],fun _ => hpointers (.inl ⟨g,rfl⟩),
        fun _ => ⟨hp.pollState,hp.poller,hp.bus⟩,fun _ h => absurd rfl h,fun v st h => ?_,
        fun st h => absurd h (hun2 st)⟩
      refine ⟨fun hst => ?_,(hs.taken v st h).2⟩
      rw [hun1 v st h] at hst
      cases hst
    · exact hs.work rfl rfl rfl rfl id ⟨rfl,rfl⟩ (by simp [WorkerPc.resetting])
        (by simp [WorkerPc.pastReset]) (by simp [WorkerPc.clearing]) (by simp)
  case check st g =>
    cases h
    refine hs.work rfl rfl rfl rfl id ⟨rfl,rfl⟩ ?_ ?_ ?_ ?_ <;>
      by_cases hc : s.port.stepCurrent g <;> by_cases h4 : st=.step4 <;>
      simp [hc,h4,WorkerPc.resetting,WorkerPc.pastReset,WorkerPc.clearing]
  case publish st g =>
    cases h
    refine hs.work rfl rfl rfl rfl (fun h => h.congr rfl rfl rfl rfl rfl) ⟨rfl,rfl⟩ ?_ ?_ ?_ ?_ <;>
      by_cases h1 : st=.step1 <;>
      simp [h1,WorkerPc.resetting,WorkerPc.pastReset,WorkerPc.clearing]
  case commArea g =>
    cases h
    exact hs.work rfl rfl rfl rfl id ⟨rfl,rfl⟩ (by simp [WorkerPc.resetting])
      (by simp [WorkerPc.pastReset]) (by simp [WorkerPc.clearing]) (by simp)
  case interrupt st g =>
    cases h
    have hsame := s.port.interrupt_same
    exact hs.work rfl rfl rfl hsame.initStep
      (fun h => h.congr hsame.step1Value hsame.responseRingLength hsame.commandRingLength
        (by simp) (by simp)) (by simp) (by simp [WorkerPc.resetting])
      (by simp [WorkerPc.pastReset]) (by simp [WorkerPc.clearing]) (by simp)

theorem Settled.answer (hs : s.Settled) (hps : t.pollState=s.pollState)
    (hpo : t.poller=s.poller) (hw : t.worker=s.worker) (hd : t.bus≠.doorbell)
    (hring : s.port.Ringed → t.port.Ringed) (hi : t.port.initStep=s.port.initStep)
    (hpt : t.port.responseRingPointer=s.port.responseRingPointer ∧
      t.port.commandRingPointer=s.port.commandRingPointer) (ht : ∀ value step,t.bus≠.saTaken value step)
    (hn : ∀ step,t.bus=.saNext step → s.port.initStep.handshaking ∧ t.port.Ringed ∧
      step≠.uninitialized ∧ step≠.step1) : t.Settled := by
  have hpark : s.Parked → t.Parked := fun h =>
    ⟨hps.trans h.pollState,by rw [hpo]; exact h.poller,hd⟩
  refine ⟨by rw [hpo,hps]; exact hs.busy,hs.rings.imp hpark hring,
    by rw [hw,hi]; exact hs.resetting,fun _ => hd,by rw [hw]; exact fun h => hpark (hs.cleared h),
    by rw [hpt.1,hpt.2,hi,hw]; exact hs.pointers,
    by rw [hi]; exact fun h => hpark (hs.handshaking h),
    by rw [hi]; exact fun h h' => hring (hs.answered h h'),
    fun v st h => absurd h (ht v st),by rw [hi]; exact hn⟩

theorem writeSA_settled {s : State δ} {value : Nat} {st : InitStep} (hs : s.Settled)
    (hb : s.bus=.saTaken value st) : (s.writeSA value st).Settled := by
  obtain ⟨hst,hwrap⟩ := hs.taken value st hb
  have echo : Settled { s with port := s.port.updateSA value,bus := .idle } :=
    hs.answer rfl rfl rfl (by simp) (fun h => h.congr rfl rfl rfl rfl rfl) rfl ⟨rfl,rfl⟩ (by simp)
      (by simp)
  cases st with
  | uninitialized =>
    simp only [writeSA,hwrap rfl,if_true]
    exact echo
  | step1 =>
    simp only [writeSA]
    split
    · exact echo
    · have hi := hst rfl
      obtain ⟨hr,hc⟩ := hs.pointers (.inr hi)
      have hring := Port.writeStep1_ringed value hr hc
      exact hs.answer rfl rfl rfl (by simp) (fun _ => hring) rfl ⟨rfl,rfl⟩ (by simp)
        (by simp [hi,InitStep.handshaking,hring])
  | step2 | step3 =>
    have hi := hst rfl
    have hring := hs.answered (by simp [hi]) (by simp [hi])
    simp only [writeSA]
    refine hs.answer rfl rfl rfl (by simp) (fun h => h.congr rfl rfl rfl rfl rfl) rfl ⟨rfl,rfl⟩
      (by simp) ?_
    simp [hi,InitStep.handshaking,hring.congr,Port.writeStep2,Port.writeStep3]
  | step4 =>
    have hi := hst rfl
    have hring := hs.answered (by simp [hi]) (by simp [hi])
    simp only [writeSA]
    generalize (value &&& 0x1 != 0)=go
    refine hs.answer rfl rfl rfl ?_ id rfl ⟨rfl,rfl⟩ ?_ ?_ <;>
      cases go <;> simp [hi,InitStep.handshaking,hring]
  | complete =>
    simp only [writeSA]
    exact hs.answer rfl rfl rfl (by simp) id rfl ⟨rfl,rfl⟩ (by simp) (by simp)

theorem initPolling_settled {s : State δ} (hs : s.Settled) (hb : s.bus=.doorbell) :
    Settled { s.initPolling with bus := .idle } := by
  have hn : ¬ s.Parked := fun h => h.bus hb
  have hw := broadcast_worker { s with
    pollState := .initRun,host := { s.host with rung := s.host.handed.length } }
  obtain ⟨hw1,hw2,hw3,hw4⟩ := waking_classes hw
  refine ⟨fun _ => by simp [initPolling,broadcast],.inr (hs.rings.resolve_left hn),?_,by simp,?_,
    ?_,fun h => absurd (hs.handshaking h) hn,hs.answered,by simp,by simp⟩
  · exact fun h => hs.resetting (hw1 ▸ h)
  · exact fun h => absurd (hs.cleared (hw3 ▸ h)) hn
  · rintro (⟨g,hg⟩ | h1)
    · exact hs.pointers (.inl ⟨g,hw4 g hg⟩)
    · exact hs.pointers (.inr h1)

theorem busStep_settled (hs : s.Settled) (h : s.busStep=some t) : t.Settled := by
  cases hb : s.bus <;> simp only [busStep,hb,Option.some.injEq] at h
  case idle => cases h
  case ipZeroed =>
    subst h
    exact hs.uninitialized rfl rfl rfl rfl (.inr rfl) (.inr rfl)
  case doorbell =>
    subst h
    exact initPolling_settled hs hb
  case saTaken value st =>
    subst h
    exact writeSA_settled hs hb
  case saGo =>
    subst h
    exact hs.answer rfl rfl rfl (by simp) (fun h => h.congr rfl rfl rfl rfl rfl) rfl ⟨rfl,rfl⟩
      (by simp) (by simp)
  case saNext st =>
    subst h
    obtain ⟨hi,hring,hu,h1⟩ := hs.next st hb
    have hp := hs.handshaking hi
    have hnr : s.worker.resetting=false := by
      refine eq_false_iff.mpr fun hr => ?_
      rw [hs.resetting hr] at hi
      cases hi
    have hd : (if st=.complete then BusPc.saGo else .idle)≠.doorbell := by
      split <;> simp
    have hpark : Parked { s with
        port := s.port.stateTransition st
        bus := if st=.complete then .saGo else .idle } := ⟨hp.pollState,hp.poller,hd⟩
    refine ⟨hs.busy,.inl hpark,by simp [hnr],fun _ => hd,fun _ => hpark,?_,fun _ => hpark,
      fun _ _ => hring.congr rfl rfl rfl rfl rfl,fun v st' h => ?_,fun st' h => ?_⟩
    · rintro (⟨g,hg⟩ | h1')
      · have hr : s.worker.resetting := by rw [show s.worker=.chain g from hg]; rfl
        rw [hnr] at hr
        cases hr
      · exact absurd h1' h1
    all_goals
      simp only at h
      split at h <;> cases h

theorem step_settled {a : Action} (hs : s.Settled) (he : ¬ s.WritesEarly a)
    (hr : ¬ s.ResetsRung a) (h : step c s a=some t) : t.Settled := by
  cases a with
  | poll ok => exact pollStep_settled hs h
  | worker ok => exact workerStep_settled hs hr h
  | bus => exact busStep_settled hs h
  | ipWrite =>
    obtain ⟨hb,rfl⟩ := access_eq_some h
    exact hs.answer rfl rfl rfl (by simp) (fun h => h.congr rfl rfl rfl rfl rfl) rfl ⟨rfl,rfl⟩
      (by simp) (by simp)
  | init =>
    obtain ⟨hb,rfl⟩ := access_eq_some h
    exact hs.uninitialized rfl rfl rfl rfl (.inl rfl) (.inr hb)
  | ipRead =>
    obtain ⟨hb,rfl⟩ := access_eq_some h
    cases hrun : s.port.isRunning with
    | false =>
      exact hs.answer rfl rfl rfl (by simp) id rfl ⟨rfl,rfl⟩ (by simp) (by simp)
    | true =>
      have hi : s.port.initStep=.complete := by simpa [Port.isRunning] using hrun
      have hring := hs.answered (by simp [hi]) (by simp [hi])
      have hnr : s.worker.resetting=false := by
        refine eq_false_iff.mpr fun hr => ?_
        rw [hs.resetting hr] at hi
        cases hi
      have hnp : s.worker.pastReset=false ∧ s.worker.clearing=false := by
        cases hw : s.worker <;> simp [hw,WorkerPc.resetting] at hnr <;> exact ⟨rfl,rfl⟩
      refine ⟨hs.busy,.inr hring,hs.resetting,by simp [hnp.1],by simp [hnp.2],hs.pointers,
        by simp [hi,InitStep.handshaking],fun _ _ => hring,by simp,by simp⟩
  | saWrite value =>
    obtain ⟨hb,rfl⟩ := access_eq_some h
    have hpark : s.Parked → Parked { s with bus := .saTaken value s.port.initStep } :=
      fun h => ⟨h.pollState,h.poller,by simp⟩
    refine ⟨hs.busy,hs.rings.imp_left hpark,hs.resetting,by simp,fun h => hpark (hs.cleared h),
      hs.pointers,fun h => hpark (hs.handshaking h),hs.answered,fun v st h => ?_,by simp⟩
    simp only [BusPc.saTaken.injEq] at h
    obtain ⟨rfl,rfl⟩ := h
    refine ⟨fun _ => rfl,fun hi => ?_⟩
    by_contra hw
    exact he ⟨value,rfl,hi,eq_false_iff.mpr hw⟩
  | wakeWorker =>
    have hw := step_worker (by simp) h
    cases hw' : s.worker <;> simp [State.step,hw'] at h
    subst h
    exact hs.keep hs.busy (fun h => ⟨h.pollState,h.poller,h.bus⟩) id rfl (fun _ => ⟨rfl,rfl⟩) rfl hw
  | wakePoller =>
    simp only [State.step] at h
    split at h
    · cases h
      exact hs.keep (by simp [PollerPc.inPass]) (fun h => ⟨h.pollState,rfl,h.bus⟩) id rfl
        (fun _ => ⟨rfl,rfl⟩) rfl (.inl rfl)
    · cases h
  | _ =>
    cases h
    exact hs.keep hs.busy (fun h => ⟨h.pollState,h.poller,h.bus⟩) id rfl (fun _ => ⟨rfl,rfl⟩) rfl
      (.inl rfl)

instance (s : State δ) (a : Action) : Decidable (s.WritesEarly a) :=
  match a with
  | .saWrite value =>
    decidable_of_iff (s.port.initStep=.uninitialized ∧ Port.wrapBit value=false)
      ⟨fun h => ⟨value,rfl,h⟩,fun ⟨_,h,hi⟩ => by cases h; exact hi⟩
  | .ipWrite | .ipRead | .init | .bus | .worker _ | .poll _ | .wakeWorker | .wakePoller
  | .writeDescriptor _ _ | .writePacket _ _ | .command _ _ | .collect | .giveBack _ _ =>
    isFalse fun ⟨_,h,_⟩ => by cases h

instance (s : State δ) (a : Action) : Decidable (s.ResetsRung a) :=
  match a with
  | .worker ok =>
    match hw : s.worker with
    | .reset g =>
      decidable_of_iff (s.bus=.doorbell) ⟨fun h => ⟨⟨ok,rfl⟩,⟨g,hw⟩,h⟩,fun h => h.2.2⟩
    | .wait | .take | .clearSA _ | .waiting _ | .woken _ | .clear _ | .chain _ | .check _ _
    | .commArea _ | .publish _ _ | .interrupt _ _ =>
      isFalse fun ⟨_,⟨_,h⟩,_⟩ => by rw [hw] at h; cases h
  | .saWrite _ | .ipWrite | .ipRead | .init | .bus | .poll _ | .wakeWorker | .wakePoller
  | .writeDescriptor _ _ | .writePacket _ _ | .command _ _ | .collect | .giveBack _ _ =>
    isFalse fun ⟨⟨_,h⟩,_⟩ => by cases h

/-- **The ring geometry is valid whenever a ring is used**, in every run in which no step 1 value is
taken while the port is uninitialized and no server reset begins between a doorbell's test and its
`InitPolling`. -/
theorem geometry_valid {drives : δ} {mem : Memory} {as : List Action} {t : State δ}
    (h : Runs c (fun s a => ¬ s.WritesEarly a ∧ ¬ s.ResetsRung a) (start drives mem) as t) (hu : t.poller.usesRings) :
    (∃ k,t.port.responseRingLength=2^k) ∧ (∃ k,t.port.commandRingLength=2^k) ∧
    t.port.responseRingLength=Port.responseLength t.port.step1Value ∧
    t.port.commandRingLength=Port.commandLength t.port.step1Value ∧
    t.port.responseRingPointer<t.port.responseRingLength ∧ t.port.commandRingPointer<t.port.commandRingLength := by
  have hs : t.Settled := h.invariant (P := Settled)
    (fun _ _ _ hs hr => step_settled hs hr.1.1 hr.1.2 hr.2) start_settled
  obtain ⟨-,hr,-,-⟩ := hs.inPass (PollerPc.usesRings_inPass hu)
  refine ⟨?_,?_,hr.responseRingLength,hr.commandRingLength,hr.responseRingPointer,
    hr.commandRingPointer⟩
  · rw [hr.responseRingLength]
    exact Port.responseLength_pow _
  · rw [hr.commandRingLength]
    exact Port.commandLength_pow _

/-- A handshake for rings of one entry, and a first scan. -/
theorem geometry_valid_first : ∃ as t,
    Runs .bare (fun s a => ¬ s.WritesEarly a ∧ ¬ s.ResetsRung a) (start () .blank) as t ∧
    t.poller=.readDescriptor ⟨[],0⟩ ∧ (∃ k,t.port.commandRingLength=2^k) ∧
    t.port.commandRingPointer<t.port.commandRingLength := by
  obtain ⟨t,ht,hp⟩ := run_of_foldlM (fun s a => ¬ s.WritesEarly a ∧ ¬ s.ResetsRung a) (step .bare)
    (fun t => t.poller == .readDescriptor ⟨[],0⟩)
    (handshake++[.ipRead,.bus,.poll true,.poll true]) (start () .blank) (by decide +kernel)
  have hp : t.poller=.readDescriptor ⟨[],0⟩ := by simpa using hp
  obtain ⟨-,hc,-,-,-,hlt⟩ := geometry_valid ht (by rw [hp]; rfl)
  exact ⟨_,t,ht,hp,hc,hlt⟩

/-- The host answers step 1 before the worker has reset the port, which then clears the lengths. -/
theorem geometry_cleared : ∃ as t,Runs .bare (fun _ _ => True) (start () .blank) as t ∧
    t.poller.usesRings ∧ t.port.commandRingLength=0 ∧ t.port.responseRingLength=0 := by
  obtain ⟨t,ht,hp⟩ := run_of_foldlM (fun _ _ => True) (step .bare)
    (fun t => t.poller.usesRings && t.port.commandRingLength == 0 && t.port.responseRingLength == 0)
    ([.init]++replicate 4 (.worker true)++[.saWrite 0x8000,.bus,.bus] ++
      replicate 7 (.worker true)++[.saWrite 64,.bus,.bus,.saWrite 0,.bus,.bus,
      .saWrite 1,.bus,.bus,.bus,.ipRead,.bus,.poll true,.poll true]) (start () .blank)
    (by decide +kernel)
  simp only [and_eq_true,beq_iff_eq] at hp
  exact ⟨_,t,ht,hp.1.1,hp.1.2,hp.2⟩

end State

end QUniLator.Mscp
