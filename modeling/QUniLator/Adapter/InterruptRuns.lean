import QUniLator.Adapter.InterruptSteps
import QUniLator.Adapter.Tables

namespace QUniLator.Adapter

namespace IntrSystem

variable {ρ ι δ : Type} [DecidableEq ι] [DecidableEq δ]

def OnTheWay (level : Fin 4) (n : Nat) (s : IntrSystem ι) : Prop :=
  s.pru.arb.Ending level ∧ s.ending=some n ∨ s.event level=some n

def Settled (level : Fin 4) (s : IntrSystem ι) : Prop :=
  s.Unlocked ∧ ¬s.InitOwed ∧ ¬s.pru.arb.Ending level ∧ (s.pru.arb.intrMaster level).isAcked=true

/-- No interrupt is lost, doubled or given another's vector. -/
structure Exact (b : Board ρ ι δ) (s : IntrSystem ι) : Prop where
  recorded : ∀ n<s.count,(s.raised n).fate=.pending →
    (s.arm.br (b.intrLevel (s.raised n).request)).slotRequest (b.intrSlot (s.raised n).request) =
      some (s.raised n).request ∧ s.current (s.raised n).request=n
  answered : ∀ n<s.count,(s.raised n).fate≠.withdrawn →
    (s.raised n).fate=.pending ∧ (s.raised n).answers=[] ∨
    ∃ vector,(s.raised n).answers=[vector] ∧ (s.raised n).handed=some vector ∧
      ((s.raised n).fate=.retired ∨ s.OnTheWay (b.intrLevel (s.raised n).request) n)
  own : s.mismatch=false
  requested : ∀ level,s.Settled level →
    (s.pru.arb.requests level=true ↔ (s.arm.br level).active≠none)

/-- What the callers keep to, and the bus: a device changes its own registers, a vector is one of two
words, and at most one grant line stands. -/
def Called (b : Board ρ ι δ) : IntrAction ι δ → Prop
  | .intr r register _ => ∀ x∈register,x.device=b.device r
  | .setVector _ vector => vector &&& 3=0
  | .pass i _ | .dmaPass i _ => OneLine i.arb.grants
  | _ => True

instance (b : Board ρ ι δ) : DecidablePred (Called b)
  | .intr r register _ => inferInstanceAs (Decidable (∀ x∈register,x.device=b.device r))
  | .setVector _ vector => inferInstanceAs (Decidable (vector &&& 3=0))
  | .pass i _ | .dmaPass i _ => inferInstanceAs (Decidable (OneLine i.arb.grants))
  | .cancelIntr _ | .putCommand | .putDma _ | .dispatch _ | .ackIntr | .initSeen | .cancelAll
  | .goOn => isTrue trivial

/-- An INIT that a pass sees is one that the worker is still to handle: it has just begun, or the tables
are not cleared for it yet. -/
def InitAhead (s : IntrSystem ι) : Prop :=
  ({ s with pru := { s.pru with
      initEvent := if s.pru.initState=.idle then s.pru.initEvent.signal else s.pru.initEvent } } :
    IntrSystem ι).InitOwed

instance (s : IntrSystem ι) : Decidable s.InitAhead := inferInstanceAs (Decidable (InitOwed _))

/-- A rescue answers for a request withdrawn, and INIT does not outlast the clearing of the tables. -/
def PassOk (i : PassLines) (s : IntrSystem ι) : Prop :=
  (∀ level,Rescues i level s.pru → ∀ n∈s.onPru level,(s.raised n).fate=.withdrawn) ∧
  (s.pru.Clears i → s.InitAhead)

instance (i : PassLines) (p : Pru) : Decidable (p.Clears i) := inferInstanceAs (Decidable (_ ∧ _))

instance (i : PassLines) (s : IntrSystem ι) : Decidable (s.PassOk i) :=
  inferInstanceAs (Decidable (_ ∧ _))

/-- No request is cancelled while another object is in its slot, the PRU withdraws none whose
acknowledge or event is under way, and the passes are as above. -/
def Avoids (b : Board ρ ι δ) (s : IntrSystem ι) : IntrAction ι δ → Prop
  | .cancelIntr r => ∀ q∈(s.arm.br (b.intrLevel r)).slotRequest (b.intrSlot r),q=r
  | .pass i take => s.PassOk i ∧ (take=true → (s.worked i).Withdrawable)
  | .dmaPass i _ => s.PassOk i
  | _ => True

instance (b : Board ρ ι δ) (s : IntrSystem ι) : DecidablePred (s.Avoids b)
  | .cancelIntr r => inferInstanceAs (Decidable (∀ q∈(s.arm.br (b.intrLevel r)).slotRequest
      (b.intrSlot r),q=r))
  | .pass .. => inferInstanceAs (Decidable (_ ∧ _))
  | .dmaPass i _ => inferInstanceAs (Decidable (s.PassOk i))
  | .intr .. | .setVector .. | .putCommand | .putDma _ | .dispatch _ | .ackIntr | .initSeen
  | .cancelAll | .goOn => isTrue trivial

/-- No request was made yet, and nothing is under way. -/
structure Start (s : IntrSystem ι) : Prop where
  br : ∀ level,s.arm.br level=.init
  vector : ∀ r,s.arm.vector r &&& 3=0
  todo : s.todo=[]
  put : s.put=false
  state : s.pru.arb.state=.grantCheck
  requests : ∀ level : Fin 4,s.pru.arb.requests level=false
  events : ∀ level : Fin 4,(s.pru.arb.intrMaster level).isAcked=true
  worker : s.worker=.idle
  count : s.count=0
  onPru : ∀ level,s.onPru level=none
  event : ∀ level,s.event level=none
  own : s.mismatch=false

variable {b : Board ρ ι δ} {s t : IntrSystem ι}

omit [DecidableEq ι] [DecidableEq δ] in
theorem Start.inv (h : s.Start) : s.Inv b := by
  have hnone (level : Fin 4) (u : Slot) : (s.arm.br level).slotRequest u=none := by rw [h.br]; rfl
  refine ⟨⟨fun level => ?_,h.vector⟩,⟨?_,fun hx => ?_,fun hx => ?_⟩,h.todo ▸ .nil,.of_not h.put,
    ⟨fun level u r hr => ?_,?_,?_,fun level u r hr => ?_,fun level n hn => ?_,h.own⟩,fun level => ?_⟩
  · rw [h.br]; exact IntrTables.init_kept b level
  · rw [h.state]; decide
  · rw [h.state] at hx; cases hx
  · rw [h.state] at hx; cases hx
  · rw [hnone] at hr; cases hr
  · rw [h.count]; exact fun n hn => absurd hn n.not_lt_zero
  · rw [h.count]; exact fun n hn => absurd hn n.not_lt_zero
  · rw [hnone] at hr; cases hr
  · rw [h.onPru] at hn; cases hn
  · refine .of_quiet ⟨h.requests level,fun hx => ?_,h.event level⟩ (h.todo ▸ not_cancels_nil)
      (.inr (by rw [h.br]; rfl)) ?_
    · obtain ⟨hx,-⟩ | ⟨hx,-⟩ := hx <;> rw [h.state] at hx <;> cases hx
    · have he := h.events level
      rw [Event.isAcked,decide_eq_true_eq] at he
      rw [h.worker,if_neg (by simp [Busy]),add_zero]
      exact he

omit [DecidableEq ι] [DecidableEq δ] in
theorem InitAhead.worked {i : PassLines} (h : s.InitAhead) (ho : s.pru.arb.Orderly)
    (hc : s.pru.Clears i) : (s.worked i).InitOwed := by
  obtain ⟨raised,ending,event,hw⟩ := worked_eq (i := i) ho
  rw [hw]
  have hinit : (s.pru.loop i).initEvent =
      if s.pru.initState=.idle then s.pru.initEvent.signal else s.pru.initEvent := by
    rw [Pru.loop,if_pos hc.1,(s.pru.slavePass_arb i).2.2]
    rw [Pru.initialization,if_pos hc.2]
    cases hst : s.pru.initState with
    | idle =>
      simp only [if_pos hc.2]
      rfl
    | initAsserted =>
      simp only
      rw [if_neg fun hx => hx.2 hc.2]
      rfl
  rw [InitAhead,← hinit] at h
  exact h

omit [DecidableEq ι] [DecidableEq δ] in
theorem Inv.pass {i : PassLines} (h : s.Inv b) (hg : OneLine i.arb.grants) (hp : s.PassOk i) : (s.worked i).Inv b :=
  h.worked hg hp.1 fun hc => (hp.2 hc).worked h.orderly hc

theorem Inv.step (h : s.Inv b) {a : IntrAction ι δ} (hc : Called b a) (ha : s.Avoids b a)
    (ht : s.step b a=some t) : t.Inv b := by
  cases a with
  | intr r register blocking =>
    rw [IntrSystem.step] at ht
    split_ifs at ht with hu
    obtain ⟨u,hu',hi⟩ := h.intr hu.1 r register hc blocking
    rw [hu'] at ht
    cases ht
    exact hi
  | setVector r vector =>
    obtain ⟨arm,harm,hi⟩ := h.setVector r hc
    rw [IntrSystem.step,harm] at ht
    cases ht
    exact hi
  | cancelIntr r =>
    rw [IntrSystem.step] at ht
    split_ifs at ht with hu
    obtain ⟨u,hu',hi⟩ := h.cancelIntr hu.1 r ha
    rw [hu'] at ht
    cases ht
    exact hi
  | putCommand =>
    rw [IntrSystem.step] at ht
    split_ifs at ht
    cases ht
    exact h.putCommand
  | pass i take =>
    obtain ⟨hp,hw⟩ := ha
    have hi := h.pass hc hp
    rw [IntrSystem.step] at ht
    split_ifs at ht with htake hput <;> cases ht
    · refine hi.taken ?_ (hw htake)
      obtain ⟨raised,ending,event,he⟩ := worked_eq (i := i) h.orderly
      rw [he]
      exact hput
    · exact hi
  | dmaPass i cancel =>
    have hi := h.pass hc ha
    rw [IntrSystem.step] at ht
    split_ifs at ht with hu hcancel
    · cases ht
      exact hi.dmaOnly (dmaOnly_cancelDma _)
    · cases ht
      exact hi.dmaOnly (dmaOnly_takeDma _)
  | putDma dma =>
    rw [IntrSystem.step] at ht
    split_ifs at ht
    cases ht
    exact h.dmaOnly (dmaOnly_putDma _ dma)
  | dispatch level =>
    rw [IntrSystem.step] at ht
    split_ifs at ht with hu
    obtain ⟨u,hd,hi⟩ := h.dispatch hu.1.1 hu.2.1 level hu.2.2
    rw [hd] at ht
    cases ht
    exact hi
  | ackIntr =>
    rw [IntrSystem.step] at ht
    split at ht <;> cases ht
    exact h.ackIntr _ ‹_›
  | initSeen =>
    rw [IntrSystem.step] at ht
    split_ifs at ht with hi
    cases ht
    refine h.atWork _ (fun level => ?_) (by rw [handlingInit,handlingInit,hi.1]; rfl)
    rw [hi.1]
    simp [Busy]
  | cancelAll =>
    rw [IntrSystem.step] at ht
    split_ifs at ht with hu
    cases ht
    exact h.cancelAll hu.1.1 hu.2
  | goOn => exact h.goOn ht

omit [DecidableEq ι] [DecidableEq δ] in
theorem TodoOk.active_of_cancels {arm : IntrTables ι} {todo : List IntrCommand}
    (h : TodoOk arm todo) {level : Fin 4} (hc : Cancels level todo) (hh : ¬Hands level todo) :
    (arm.br level).active=none := by
  cases h with
  | nil => exact absurd hc not_cancels_nil
  | intr => exact absurd (cancels_intr.mp hc) not_cancels_nil
  | cancel bits ha => exact ha level ((cancels_cancel.mp hc).resolve_right not_cancels_nil)
  | both m vector handle value r ha =>
    obtain hb | hx := cancels_cancel.mp hc
    · rw [levelBit_getLsbD,decide_eq_true_eq] at hb
      subst hb
      exact absurd (hands_cancel.mpr (hands_intr.mpr (.inl rfl))) hh
    · exact absurd (cancels_intr.mp hx) not_cancels_nil

omit [DecidableEq ι] [DecidableEq δ] in
theorem Inv.exact (h : s.Inv b) : s.Exact b := by
  refine ⟨h.known.pending,fun n hn hf => ?_,h.known.own,fun level hs => ?_⟩
  · cases hfate : (s.raised n).fate with
    | withdrawn => exact absurd hfate hf
    | retired =>
      obtain ⟨vector,ha,hh⟩ := h.known.retired n hn hfate
      exact .inr ⟨vector,ha,hh,.inl rfl⟩
    | pending =>
      obtain ⟨hslot,hcur⟩ := h.known.pending n hn hfate
      have hwait := h.known.waiting _ _ _ hslot
      rw [hcur] at hwait
      by_cases hw : (s.arm.br (b.intrLevel (s.raised n).request)).active≠some (s.raised n).request ∨
          Hands (b.intrLevel (s.raised n).request) s.todo
      · exact .inl ⟨rfl,hwait hw⟩
      obtain ⟨hactive,hhands⟩ := not_or.mp hw
      rw [not_not] at hactive
      -- the active request is on the PRU, or its withdrawal is under way
      have hl := h.level (b.intrLevel (s.raised n).request)
      by_cases hc : Cancels (b.intrLevel (s.raised n).request) s.todo
      · rw [h.todo.active_of_cancels hc hhands] at hactive
        cases hactive
      obtain ⟨-,hst⟩ := hl.stage hc hhands _ hactive
      cases hst with
      | requested hq he hv ha hh => exact .inl ⟨rfl,hcur ▸ ha⟩
      | ending he hn hv vector ha hh =>
        rw [hcur] at hn ha hh
        exact .inr ⟨vector,ha,hh,.inr (.inl ⟨he,hn⟩)⟩
      | done hv vector ha hh =>
        rw [hcur] at hv ha hh
        exact .inr ⟨vector,ha,hh,.inr (.inr hv)⟩
  · obtain ⟨⟨hu,-⟩,howed,hend,hack⟩ := hs
    have hl := h.level level
    have hev : s.event level=none := by
      by_contra hx
      have he := hl.events
      rw [Event.isAcked,decide_eq_true_eq] at hack
      rw [hack,if_neg hx] at he
      split_ifs at he <;> bv_omega
    constructor
    · intro hq ha
      rw [(hl.free (hu ▸ not_cancels_nil) ha).requests] at hq
      cases hq
    · intro ha
      obtain ⟨r,hr⟩ := Option.ne_none_iff_exists'.mp ha
      obtain ⟨-,hst⟩ := hl.stage (hu ▸ not_cancels_nil) (hu ▸ not_hands_nil) r hr
      cases hst with
      | requested hq => exact hq.resolve_right howed
      | ending he => exact absurd he hend
      | done hv => rw [hev] at hv; cases hv

/-- In every run of steps that avoid the four cases no interrupt is lost, doubled or given another's
vector. -/
theorem run_exact (b : Board ρ ι δ) (s t : IntrSystem ι) (as : List (IntrAction ι δ)) (h0 : s.Start)
    (h : Run (Guarded (fun s a => Called b a ∧ s.Avoids b a) (step b)) s as t) : t.Exact b := by
  have hinv : t.Inv b := by
    refine h.invariant (P := Inv b) (fun s a t hs hst => ?_) h0.inv
    obtain ⟨⟨hc,ha⟩,ht⟩ := hst
    exact hs.step hc ha ht
  exact hinv.exact

end IntrSystem

def twoSlots : Board Bool Bool Bool where
  dmaSlot := Tables.twoOnASlot.dmaSlot
  isCpuAccess := Tables.twoOnASlot.isCpuAccess
  cpu_slot := Tables.twoOnASlot.cpu_slot
  intrSlot r := if r then .last 31 else .castAdd 30 (.last 1)
  intrLevel _ := .last 3
  device r := r

def quietSystem : IntrSystem Bool where
  arm := {
    br := fun _ => .init,executing := fun _ => false,complete := fun _ => false
    vector := fun r => if r then 0o300 else 0o100,register := fun _ => none }
  todo := []
  put := false
  pru := blankPru
  worker := .idle
  raised := fun _ => ⟨false,none,[],.pending⟩
  count := 0
  current := fun _ => 0
  onPru := fun _ => none
  ending := none
  event := fun _ => none
  mismatch := false

theorem quietSystem_start : quietSystem.Start := by
  refine ⟨fun _ => rfl,fun r => ?_,rfl,rfl,rfl,fun level => ?_,fun _ => rfl,rfl,rfl,fun _ => rfl,
    fun _ => rfl,rfl⟩
  · cases r <;> decide
  · revert level; decide

def iakLines (grant iak din : Bool) : PassLines :=
  { quietLines false false false with
    arb := {
      grants := if grant then 0x08 else 0,riaki := iak,riakiRescue := iak,rdmgi := false,
      sync := false,rply := false,din := din,now := 0 } }

def acknowledged : List (IntrAction Bool Bool) :=
  [.intr false none false,.putCommand,.pass (iakLines false false false) true,
    .intr true none true,.pass (iakLines false false false) false,
    .pass (iakLines true true false) false,.pass (iakLines true true true) false,
    .pass (iakLines false false false) false]

def handled : List (IntrAction Bool Bool) :=
  [.dispatch (.last 3),.putCommand,.pass (iakLines false false false) true,.goOn,.ackIntr]

namespace IntrSystem

theorem run_exact_handled : ∃ s : IntrSystem Bool,s.count=2 ∧ (s.raised 0).fate=.retired ∧
    s.pru.arb.requests (.last 3)=true ∧ s.Exact twoSlots := by
  obtain ⟨s,hrun,hs⟩ := run_of_foldlM
    (fun (s : IntrSystem Bool) a => Called twoSlots a ∧ s.Avoids twoSlots a) (step twoSlots)
    (fun s => s.count=2 ∧ (s.raised 0).fate=.retired ∧ s.pru.arb.requests (.last 3)=true)
    (acknowledged++handled) quietSystem (by decide +kernel)
  rw [decide_eq_true_eq] at hs
  exact ⟨s,hs.1,hs.2.1,hs.2.2,run_exact twoSlots quietSystem s _ quietSystem_start hrun⟩

/-- The first request is cancelled while the event of its acknowledge is on the way: the event retires
the second one, for which no acknowledge came. -/
theorem cancel_retires_another : ∃ s,Run (Guarded (fun _ a => Called twoSlots a) (step twoSlots))
      quietSystem (acknowledged++[.cancelIntr false,.putCommand, .pass (iakLines false false false) true,.putCommand,
        .pass (iakLines false false false) true]++handled.take 1) s ∧
    (s.raised 1).fate=.retired ∧ (s.raised 1).answers=[] ∧ ¬s.Exact twoSlots := by
  obtain ⟨s,hrun,hs⟩ := run_of_foldlM (fun _ a => Called twoSlots a) (step twoSlots)
    (fun s => (s.raised 1).fate=.retired ∧ (s.raised 1).answers=[] ∧ s.mismatch)
    (acknowledged++[.cancelIntr false,.putCommand,
        .pass (iakLines false false false) true,.putCommand,
        .pass (iakLines false false false) true]++handled.take 1) quietSystem (by decide +kernel)
  rw [decide_eq_true_eq] at hs
  refine ⟨s,hrun,hs.1,hs.2.1,fun h => ?_⟩
  rw [h.own] at hs
  exact absurd hs.2.2 (by decide)

end IntrSystem

end QUniLator.Adapter
