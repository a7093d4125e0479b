import QUniLator.Vax.EventQueue
import Mathlib.Algebra.Order.Ring.Int

namespace QUniLator.Vax

open EventQueue List Option Function List

variable {ι : Type*}

/-- What the queue stands for: the counts since the boot, and for each active unit when it is due and which
activation it is from. -/
structure Agenda (ι : Type*) where
  now : Nat
  due : ι → Option (Int × Nat)
  births : Nat

namespace Agenda

def boot : Agenda ι := ⟨0,fun _ => none,0⟩

variable (a : Agenda ι)

def dueTime (u : ι) : Int := ((a.due u).getD (0,0)).1

def birth (u : ι) : Nat := ((a.due u).getD (0,0)).2

/-- A unit comes before another: it is due earlier, or at the same time and was activated first. -/
def Before (u v : ι) : Prop := a.dueTime u<a.dueTime v ∨ a.dueTime u=a.dueTime v ∧ a.birth u<a.birth v

variable [DecidableEq ι]

/-- A unit is activated for the time `at_`. -/
def enter (u : ι) (at_ : Int) : Agenda ι :=
  { a with due := update a.due u (some (at_,a.births)),births := a.births+1 }

def leave (u : ι) : Agenda ι := { a with due := update a.due u none }

def activate (u : ι) (eventTime : Int) : Agenda ι :=
  if eventTime<0 then a else if (a.due u).isSome then a else a.enter u (a.now+eventTime)

theorem dueTime_enter_self (a : Agenda ι) (u : ι) (at_ : Int) : (a.enter u at_).dueTime u=at_ := by
  simp [enter,dueTime]

theorem birth_enter_self (a : Agenda ι) (u : ι) (at_ : Int) : (a.enter u at_).birth u=a.births := by
  simp [enter,birth]

theorem due_enter_of_ne (a : Agenda ι) {u v : ι} (at_ : Int) (hv : v≠u) : (a.enter u at_).due v=a.due v :=
  update_of_ne hv ..

omit [DecidableEq ι] in
theorem dueTime_congr {a b : Agenda ι} {v : ι} (h : b.due v=a.due v) : b.dueTime v=a.dueTime v := by
  simp [dueTime,h]

omit [DecidableEq ι] in
theorem birth_congr {a b : Agenda ι} {v : ι} (h : b.due v=a.due v) : b.birth v=a.birth v := by
  simp [birth,h]

omit [DecidableEq ι] in
theorem Before.congr {a b : Agenda ι} {v w : ι} (h : a.Before v w) (hv : b.due v=a.due v)
    (hw : b.due w=a.due w) : b.Before v w := by
  unfold Before at h ⊢
  rw [dueTime_congr hv,dueTime_congr hw,birth_congr hv,birth_congr hw]
  exact h

theorem leave_of_none {u : ι} (hd : a.due u=none) : a.leave u=a := by
  have he : update a.due u none=a.due := by
    rw [← hd]
    exact update_eq_self ..
  unfold leave
  rw [he]

end Agenda

namespace EventQueue

def firing (s : EventQueue ι) : QueueStep ι → Option ι
  | .process => if 0<s.simInterval then none else s.simClockQueue
  | .done ok => if ok then if 0<s.simInterval then none else s.simClockQueue else none
  | _ => none

end EventQueue

def QueueStep.unit (batch : ι) : QueueStep ι → Option ι
  | .activate u _ | .activateAbs u _ | .activateNotbefore u _ | .cancel u => some u
  | .runBegin _ | .runEnd => some batch
  | .count | .process | .done _ | .activateTime _ | .gtime | .grtime => none

/-- The agenda after a step of the queue `s` -/
def Agenda.after [DecidableEq ι] (a : Agenda ι) (s : EventQueue ι) (batch : ι) (e : QueueStep ι) : Agenda ι :=
  match e with
  | .count => { a with now := a.now+1 }
  | .process | .done _ =>
    match s.firing e with
    | some u => a.leave u
    | none => a
  | .activate u d => a.activate u d
  | .activateAbs u d => (a.leave u).activate u d
  | .activateNotbefore u rtime => (a.leave u).activate u (untilNotbefore a.now (rtime%0x100000000))
  | .cancel u => a.leave u
  | .runBegin n => if 0<n then (a.leave batch).activate batch n else a.leave batch
  | .runEnd => a.leave batch
  | .activateTime _ | .gtime | .grtime => a

namespace EventQueue

variable {s t : EventQueue ι} {a : Agenda ι} {l : List ι} {u : ι}

/-- Each entry's time counts from the entry before it, the first one's from `b`. -/
def Timed (time due : ι → Int) : Int → List ι → Prop
  | _,[] => True
  | b,u::l => time u=due u-b ∧ Timed time due (due u) l

variable {time time' due due' : ι → Int} {b : Int} {l1 l2 : List ι}

theorem Timed.congr (h : Timed time due b l)
    (ht : ∀ u∈l,time' u=time u) (hd : ∀ u∈l,due' u=due u) : Timed time' due' b l := by
  induction l generalizing b with
  | nil => trivial
  | cons u l ih =>
    have hu := hd u mem_cons_self
    refine ⟨?_,?_⟩
    · rw [ht u mem_cons_self,hu]
      exact h.1
    · rw [hu]
      exact ih h.2 (fun v hv => ht v (mem_cons_of_mem u hv)) fun v hv => hd v (mem_cons_of_mem u hv)

theorem Timed.split {time due : ι → Int} {l l' : List ι} {p : ι} :
    Timed time due b (l++p::l') ↔ Timed time due b (l++[p]) ∧ Timed time due (due p) l' := by
  induction l generalizing b with
  | nil => exact ⟨fun h => ⟨⟨h.1,trivial⟩,h.2⟩,fun h => ⟨h.1.1,h.2⟩⟩
  | cons u l ih => exact ⟨fun h => ⟨⟨h.1,(ih.mp h.2).1⟩,(ih.mp h.2).2⟩,fun h => ⟨h.1.1,ih.mpr ⟨h.1.2,h.2⟩⟩⟩

theorem Timed.enter {l : List ι} {u : ι} (h : Timed time due b l)
    (hd : l.Nodup) (hu : time' u=due' u-b) (hnext : ∀ v∈l.head?,time' v=time v-time' u)
    (hrest : ∀ v∈l.tail,time' v=time v) (hdue : ∀ v∈l,due' v=due v) : Timed time' due' b (u::l) := by
  refine ⟨hu,?_⟩
  cases l with
  | nil => trivial
  | cons v l =>
    have hv := h.1
    have hv' := hnext v rfl
    have hdv := hdue v mem_cons_self
    refine ⟨by omega,?_⟩
    rw [hdv]
    exact h.2.congr hrest fun w hw => hdue w (mem_cons_of_mem v hw)

theorem Timed.leave {l : List ι} {u : ι} (h : Timed time due b (u::l))
    (hnext : ∀ v∈l.head?,time' v=time v+time u) (hrest : ∀ v∈l.tail,time' v=time v)
    (hdue : ∀ v∈l,due' v=due v) : Timed time' due' b l := by
  cases l with
  | nil => trivial
  | cons v l =>
    have hu := h.1
    have hv := h.2.1
    have hv' := hnext v rfl
    have hdv := hdue v mem_cons_self
    refine ⟨by omega,?_⟩
    rw [hdv]
    exact h.2.2.congr hrest fun w hw => hdue w (mem_cons_of_mem v hw)

/-- The queue is the chain of `l`, in the order and with the times of the agenda. -/
structure Queued (s : EventQueue ι) (a : Agenda ι) (l : List ι) : Prop where
  chain : Chain s.next s.simClockQueue l none
  nodup : l.Nodup
  active : ∀ u,s.isActive u=true ↔ u∈l
  due : ∀ u,(a.due u).isSome=true ↔ u∈l
  timed : Timed s.time a.dueTime s.simTime l
  sorted : l.Pairwise a.Before
  births : ∀ u∈l,a.birth u<a.births
  bounded : ∀ u∈l,a.dueTime u-a.now≤0x7fffffff

/-- The interval and the time that was last taken stock of make up the agenda's time. -/
structure Inv (s : EventQueue ι) (a : Agenda ι) (l : List ι) : Prop extends Queued s a l where
  clock : s.simTime+(s.anchor-s.simInterval)=a.now
  counted : 0 ≤ s.simInterval ∧ s.simInterval ≤ s.anchor
  serving : s.serving=true → s.anchor=s.simInterval

theorem anchor_nil (h : s.simClockQueue=none) : s.anchor=s.noqueueTime := by
  unfold anchor
  rw [h]

theorem anchor_cons (h : s.simClockQueue=some u) : s.anchor=s.time u := by
  unfold anchor
  rw [h]

theorem Queued.chain_eq [Fintype ι] (h : s.Queued a l) : s.chain=l := h.chain.walk_card h.nodup

theorem Inv.first (h : s.Inv a (u::l)) : a.dueTime u=a.now+s.simInterval := by
  have ha := anchor_cons h.chain.head_eq
  have ht := h.timed.1
  have hc := h.clock
  omega

theorem Inv.notPast (h : s.Inv a l) : ∀ v∈l,a.now+s.simInterval≤a.dueTime v := by
  cases l with
  | nil => exact fun _ hv => absurd hv not_mem_nil
  | cons u l =>
    have hu := h.first
    refine forall_mem_cons.mpr ⟨by omega,fun v hv => ?_⟩
    rcases (pairwise_cons.mp h.sorted).1 v hv with hb | hb <;> omega

theorem updateTime_nil (h : s.simClockQueue=none) [DecidableEq ι] :
    s.updateTime={ s with simTime := s.simTime+(s.noqueueTime-s.simInterval),noqueueTime := s.simInterval } := by
  unfold EventQueue.updateTime
  rw [h]

theorem updateTime_cons (h : s.simClockQueue=some u) [DecidableEq ι] :
    s.updateTime={ s with simTime := s.simTime+(s.time u-s.simInterval)
                          time := update s.time u s.simInterval } := by
  unfold EventQueue.updateTime
  rw [h]

/-- What a queue is that has been brought up to now -/
structure Stocked (s : EventQueue ι) (a : Agenda ι) (l : List ι) : Prop extends Queued s a l where
  time_eq : s.simTime=a.now
  anchor_eq : s.anchor=s.simInterval
  interval : 0 ≤ s.simInterval

theorem Stocked.inv (h : s.Stocked a l) : s.Inv a l :=
  ⟨h.toQueued,by have := h.time_eq; have := h.anchor_eq; omega,⟨h.interval,h.anchor_eq.ge⟩,fun _ => h.anchor_eq⟩

theorem Inv.updateTime [DecidableEq ι] (h : s.Inv a l) : s.updateTime.Stocked a l := by
  have hclock := h.clock
  cases l with
  | nil =>
    have hq : s.simClockQueue=none := h.chain.head_eq
    have ha := anchor_nil hq
    rw [updateTime_nil hq]
    refine ⟨⟨h.chain,h.nodup,h.active,h.due,trivial,h.sorted,h.births,h.bounded⟩,?_,?_,h.counted.1⟩
    · dsimp only
      omega
    · exact anchor_nil hq
  | cons c l =>
    have hq : s.simClockQueue=some c := h.chain.head_eq
    have ha := anchor_cons hq
    have hc : c∉l := (nodup_cons.mp h.nodup).1
    rw [updateTime_cons hq]
    refine ⟨⟨h.chain,h.nodup,h.active,h.due,⟨?_,?_⟩,h.sorted,h.births,h.bounded⟩,?_,?_,h.counted.1⟩
    · have h1 := h.timed.1
      dsimp only
      rw [update_self]
      omega
    · exact h.timed.2.congr (fun v hv => update_of_ne (ne_of_mem_of_not_mem hv hc) ..) fun _ _ => rfl
    · dsimp only
      omega
    · unfold anchor
      dsimp only
      rw [hq]
      exact update_self ..

@[simp]
theorem updateTime_simInterval [DecidableEq ι] : s.updateTime.simInterval=s.simInterval := by
  unfold EventQueue.updateTime
  split <;> rfl

@[simp]
theorem updateTime_serving [DecidableEq ι] : s.updateTime.serving=s.serving := by
  unfold EventQueue.updateTime
  split <;> rfl

theorem Queued.headTime (h : s.Queued a l) (ht : s.simTime=a.now) (hp : ∀ v∈l,(a.now : Int)≤a.dueTime v) :
    s.headTime.Stocked a l := by
  cases l with
  | nil =>
    have hq : s.simClockQueue=none := h.chain.head_eq
    have he : s.headTime=s.wait := by
      unfold EventQueue.headTime
      rw [hq]
    rw [he]
    refine ⟨⟨h.chain,h.nodup,h.active,h.due,trivial,h.sorted,h.births,h.bounded⟩,ht,anchor_nil hq,?_⟩
    show 0≤noqueueWait
    decide
  | cons c l =>
    have hq : s.simClockQueue=some c := h.chain.head_eq
    have he : s.headTime={ s with simInterval := s.time c } := by
      unfold EventQueue.headTime
      rw [hq]
    have hc := hp c mem_cons_self
    have h1 := h.timed.1
    rw [he]
    refine ⟨⟨h.chain,h.nodup,h.active,h.due,h.timed,h.sorted,h.births,h.bounded⟩,ht,?_,?_⟩
    · exact anchor_cons hq
    · dsimp only
      omega

theorem scan_spec {time due : ι → Int} (s : EventQueue ι) (hs : s.time=time) (d : Int) {l : List ι}
    (prv : Option ι) {accum : Int} (h : Timed time due (b+accum) l) :
    ∃ l1 l2,l=l1++l2 ∧ (∀ u∈l1,due u≤b+d) ∧ (∀ v∈l2.head?,b+d<due v) ∧ (l1=[] ∧ s.scan d prv accum l=(prv,accum) ∨
        ∃ l0 p,l1=l0++[p] ∧ s.scan d prv accum l=(some p,due p-b)) := by
  induction l generalizing prv accum with
  | nil => exact ⟨[],[],rfl,fun _ hu => absurd hu not_mem_nil,fun _ hv => (by cases hv),.inl ⟨rfl,rfl⟩⟩
  | cons c l ih =>
    have hc : accum+s.time c=due c-b := by
      have := h.1
      rw [hs]
      omega
    by_cases hd : d<accum+s.time c
    · refine ⟨[],c::l,rfl,fun _ hu => absurd hu not_mem_nil,fun v hv => ?_,.inl ⟨rfl,if_pos hd⟩⟩
      obtain rfl : c=v := some.inj hv
      omega
    · have hscan : s.scan d prv accum (c::l)=s.scan d (some c) (accum+s.time c) l := if_neg hd
      have hrest : Timed time due (b+(accum+s.time c)) l := by
        rw [hc,add_sub_cancel]
        exact h.2
      obtain ⟨l1,l2,rfl,h1,h2,h3⟩ := ih (some c) hrest
      refine ⟨c::l1,l2,rfl,forall_mem_cons.mpr ⟨by omega,h1⟩,h2,.inr ?_⟩
      rw [hscan]
      rcases h3 with ⟨rfl,h3⟩ | ⟨l0,p,rfl,h3⟩
      · exact ⟨[],c,rfl,by rw [h3,hc]⟩
      · exact ⟨c::l0,p,rfl,h3⟩

theorem Queued.link [DecidableEq ι] {prv : Option ι} (h : s.Queued a (l1++l2))
    (hu : u∉l1++l2) (hprv : l1=[] ∧ prv=none ∨ ∃ l0 p,l1=l0++[p] ∧ prv=some p) :
    ∃ next' q',s.link u prv={ s with next := next',simClockQueue := q' } ∧
      Chain next' q' (l1++u::l2) none ∧ ∀ v,(next' v).isSome ↔ v=u ∨ s.isActive v=true := by
  rcases hprv with ⟨rfl,rfl⟩ | ⟨l0,p,rfl,rfl⟩
  · refine ⟨_,_,rfl,h.chain.push hu,fun v => ?_⟩
    by_cases hv : v=u
    · simp [hv]
    · rw [update_of_ne hv]
      simp [hv,isActive]
  · have happ : l0++[p]++l2=l0++p::l2 := append_assoc ..
    have hc := h.chain
    have hd := h.nodup
    rw [happ] at hu hc hd
    refine ⟨_,_,rfl,?_,fun v => ?_⟩
    · rw [append_assoc]
      exact hc.insert hd hu
    · have hp : s.isActive p=true := (h.active p).mpr (by simp)
      by_cases hv : v=p
      · rw [hv,update_self]
        simp [hp]
      · rw [update_of_ne hv]
        by_cases hvu : v=u
        · rw [hvu,update_self,hc.next_eq]
          simp
        · rw [update_of_ne hvu]
          simp [hvu,isActive]

theorem retime_spec [DecidableEq ι] {o : Option ι} (x : Int) (hn : (s.next u).join=o) (ho : ∀ v∈o,v≠u) :
    ∃ time',s.retime u x={ s with time := time' } ∧ time' u=x ∧ (∀ v∈o,time' v=s.time v-x) ∧
      ∀ v,v≠u → v∉o → time' v=s.time v := by
  cases o with
  | none =>
    have he : s.retime u x={ s with time := update s.time u x } := by
      unfold EventQueue.retime
      rw [hn]
    exact ⟨_,he,update_self ..,fun _ hv => (by cases hv),fun v hv _ => update_of_ne hv ..⟩
  | some w =>
    have hw : w≠u := ho w rfl
    have he : s.retime u x =
        { s with time := update (update s.time u x) w (s.time w-x) } := by
      unfold EventQueue.retime
      rw [hn]
    refine ⟨_,he,?_,fun v hv => ?_,fun v hv hvo => ?_⟩
    · rw [update_of_ne hw.symm,update_self]
    · obtain rfl : w=v := some.inj hv
      exact update_self ..
    · have hvw : v≠w := by
        rintro rfl
        exact hvo rfl
      rw [update_of_ne hvw,update_of_ne hv]

theorem Queued.enter [DecidableEq ι] {d : Int} {place : Option ι × Int}
    (h : s.Queued a (l1++l2)) (ht : s.simTime=a.now) (hu : u∉l1++l2) (hd : d≤0x7fffffff)
    (h1 : ∀ v∈l1,a.dueTime v≤a.now+d) (h2 : ∀ v∈l2.head?,a.now+d<a.dueTime v)
    (hplace : l1=[] ∧ place=(none,0) ∨ ∃ l0 p,l1=l0++[p] ∧ place=(some p,a.dueTime p-a.now)) :
    ((s.link u place.1).retime u (d-place.2)).Queued (a.enter u (a.now+d)) (l1++u::l2) ∧
      ((s.link u place.1).retime u (d-place.2)).simTime=s.simTime ∧
      ((s.link u place.1).retime u (d-place.2)).serving=s.serving := by
  have hprv : l1=[] ∧ place.1=none ∨ ∃ l0 p,l1=l0++[p] ∧ place.1=some p := by
    rcases hplace with ⟨rfl,rfl⟩ | ⟨l0,p,rfl,rfl⟩
    · exact .inl ⟨rfl,rfl⟩
    · exact .inr ⟨l0,p,rfl,rfl⟩
  obtain ⟨next',q',hlink,hchain,hactive⟩ := h.link hu hprv
  have hnodup : (l1++u::l2).Nodup := nodup_middle.mpr (nodup_cons.mpr ⟨hu,h.nodup⟩)
  have hjoin : ((s.link u place.1).next u).join=l2.head? := by
    rw [hlink]
    exact congrArg Option.join hchain.next_eq
  have hne : ∀ v∈l1++l2,v≠u := fun v hv => ne_of_mem_of_not_mem hv hu
  have hne2 : ∀ v∈l2.head?,v≠u := fun v hv => hne v (mem_append_right l1 (mem_of_mem_head? hv))
  obtain ⟨time',hretime,hself,hnext,hrest⟩ := retime_spec (d-place.2) hjoin hne2
  rw [hretime,hlink]
  rw [hlink] at hnext hrest
  have hdue : ∀ v∈l1++l2,(a.enter u (a.now+d)).due v=a.due v := fun v hv => a.due_enter_of_ne _ (hne v hv)
  have hdueTime := fun v hv => Agenda.dueTime_congr (hdue v hv)
  have hbirth := fun v hv => Agenda.birth_congr (hdue v hv)
  have hlate : ∀ v∈l2,a.now+d<a.dueTime v := by
    have hs := (pairwise_append.mp h.sorted).2.1
    cases l2 with
    | nil => exact fun _ hv => absurd hv not_mem_nil
    | cons w l2 =>
      have hw := h2 w rfl
      refine forall_mem_cons.mpr ⟨hw,fun v hv => ?_⟩
      rcases (pairwise_cons.mp hs).1 v hv with hb | hb <;> omega
  have hmid : ∀ v,v∈l1++u::l2 ↔ v=u ∨ v∈l1++l2 := by
    intro v
    simp only [mem_append,mem_cons]
    tauto
  refine ⟨⟨hchain,hnodup,fun v => ?_,fun v => ?_,?_,?_,fun v hv => ?_,fun v hv => ?_⟩,rfl,rfl⟩
  · rw [hmid]
    exact (hactive v).trans (or_congr_right (h.active v))
  · rw [hmid]
    by_cases hv : v=u
    · simp [hv,Agenda.enter]
    · rw [a.due_enter_of_ne _ hv,h.due v]
      simp [hv]
  · have hrest' : ∀ v∈l1++l2,v∉l2.head? → time' v=s.time v := fun v hv hvo => hrest v (hne v hv) hvo
    have hl1 : ∀ v∈l1,time' v=s.time v := by
      refine fun v hv => hrest' v (mem_append_left l2 hv) fun hvo => ?_
      exact (nodup_append.mp h.nodup).2.2 v hv v (mem_of_mem_head? hvo) rfl
    have hl2 : ∀ v∈l2.tail,time' v=s.time v := by
      refine fun v hv => hrest' v (mem_append_right l1 (mem_of_mem_tail hv)) fun hvo => ?_
      have hn := (nodup_append.mp h.nodup).2.1
      cases l2 with
      | nil => cases hvo
      | cons w l2 =>
        obtain rfl : w=v := some.inj hvo
        exact (nodup_cons.mp hn).1 hv
    have hn2 : l2.Nodup := (nodup_append.mp h.nodup).2.1
    have hself' : ∀ b,d-place.2=a.now+d-b → time' u=(a.enter u (a.now+d)).dueTime u-b := by
      intro b hb
      rw [hself,hb,Agenda.dueTime_enter_self]
    rw [← hself] at hnext
    rcases hplace with ⟨rfl,rfl⟩ | ⟨l0,p,rfl,rfl⟩
    · refine h.timed.enter hn2 (hself' _ ?_) hnext hl2 fun v hv => hdueTime v hv
      dsimp only
      omega
    · have hp := hdueTime p (by simp)
      have htimed := h.timed
      rw [append_assoc] at htimed
      rw [append_assoc]
      refine Timed.split.mpr ⟨?_,?_⟩
      · exact (Timed.split.mp htimed).1.congr hl1 fun v hv => hdueTime v (mem_append_left l2 hv)
      · rw [hp]
        refine (Timed.split.mp htimed).2.enter hn2 (hself' _ ?_) hnext hl2 fun v hv => ?_
        · dsimp only
          omega
        · exact hdueTime v (mem_append_right _ hv)
  · have hold : (l1++l2).Pairwise (a.enter u (a.now+d)).Before :=
      h.sorted.imp_of_mem fun hv hw hb => hb.congr (hdue _ hv) (hdue _ hw)
    obtain ⟨hp1,hp2,hp12⟩ := pairwise_append.mp hold
    refine pairwise_append.mpr ⟨hp1,pairwise_cons.mpr ⟨fun v hv => .inl ?_,hp2⟩,fun v hv => ?_⟩
    · rw [Agenda.dueTime_enter_self,hdueTime v (mem_append_right l1 hv)]
      exact hlate v hv
    · refine forall_mem_cons.mpr ⟨?_,hp12 v hv⟩
      have hv' := mem_append_left l2 hv
      have hle := h1 v hv
      have hb := h.births v hv'
      unfold Agenda.Before
      rw [Agenda.dueTime_enter_self,Agenda.birth_enter_self,hdueTime v hv',hbirth v hv']
      omega
  · rcases (hmid v).mp hv with rfl | hv
    · rw [Agenda.birth_enter_self]
      exact Nat.lt_succ_self _
    · rw [hbirth v hv]
      exact Nat.lt_succ_of_lt (h.births v hv)
  · rcases (hmid v).mp hv with rfl | hv
    · rw [Agenda.dueTime_enter_self]
      show a.now+d-a.now≤0x7fffffff
      omega
    · rw [hdueTime v hv]
      exact h.bounded v hv

theorem Inv.simTime_le (h : s.Inv a l) : s.simTime≤a.now := by
  have hclock := h.clock
  have hcounted := h.counted
  omega

@[simp]
theorem headTime_simTime : s.headTime.simTime=s.simTime := by
  unfold EventQueue.headTime
  split <;> rfl

@[simp]
theorem headTime_serving : s.headTime.serving=s.serving := by
  unfold EventQueue.headTime
  split <;> rfl

theorem Inv.activate [DecidableEq ι] [Fintype ι] {d : Int} (h : s.Inv a l) (hd : d≤0x7fffffff) :
    (∃ l',(s.activate u d).Inv (a.activate u d) l') ∧ (s.activate u d).serving=s.serving ∧
      s.simTime≤(s.activate u d).simTime := by
  unfold EventQueue.activate Agenda.activate
  by_cases h0 : d<0
  · rw [if_pos h0,if_pos h0]
    exact ⟨⟨l,h⟩,rfl,Int.le_refl _⟩
  by_cases ha : s.isActive u=true
  · have hdue : (a.due u).isSome=true := (h.due u).mpr ((h.active u).mp ha)
    rw [if_neg h0,if_neg h0,if_pos ha,if_pos hdue]
    exact ⟨⟨l,h⟩,rfl,Int.le_refl _⟩
  have hu : u∉l := fun hu => ha ((h.active u).mpr hu)
  have hdue : ¬(a.due u).isSome=true := fun hs => hu ((h.due u).mp hs)
  rw [if_neg h0,if_neg h0,if_neg ha,if_neg hdue]
  have hs := h.updateTime
  have hpast := hs.inv.notPast
  have htimed : Timed s.updateTime.time a.dueTime (s.updateTime.simTime+0) l := by
    rw [add_zero]
    exact hs.timed
  obtain ⟨l1,l2,rfl,h1,h2,h3⟩ := scan_spec s.updateTime rfl d none htimed
  rw [hs.time_eq] at h1 h2 h3
  dsimp only
  rw [hs.chain_eq]
  obtain ⟨hq,htime,hserving⟩ := hs.toQueued.enter hs.time_eq hu hd h1 h2 h3
  have hnow : (a.enter u (a.now+d)).now=a.now := rfl
  have hstocked := hq.headTime (htime.trans hs.time_eq) fun v hv => by
    by_cases hvu : v=u
    · rw [hvu,Agenda.dueTime_enter_self,hnow]
      omega
    · rw [Agenda.dueTime_congr (a.due_enter_of_ne _ hvu),hnow]
      have hv' : v∈l1++l2 := by
        simpa [hvu] using hv
      have hle := hpast v hv'
      have hint := hs.interval
      omega
  refine ⟨⟨_,hstocked.inv⟩,?_,?_⟩
  · rw [headTime_serving,hserving,updateTime_serving]
  · rw [headTime_simTime,htime,hs.time_eq]
    exact h.simTime_le

theorem Queued.leave [DecidableEq ι] (h : s.Queued a (l1++u::l2)) {next' : ι → Option (Option ι)}
    {time' : ι → Int} {q' : Option ι} (hchain : Chain next' q' (l1++l2) none)
    (hactive : ∀ v,(next' v).isSome ↔ v≠u ∧ s.isActive v) (hnext : ∀ v∈l2.head?,time' v=s.time v+s.time u)
    (hrest : ∀ v∈l1++l2,v∉l2.head? → time' v=s.time v) :
    Queued { s with next := next',time := time',simClockQueue := q' } (a.leave u) (l1++l2) := by
  obtain ⟨hu,hnodup⟩ := nodup_cons.mp (nodup_middle.mp h.nodup)
  have hne : ∀ v∈l1++l2,v≠u := fun v hv => ne_of_mem_of_not_mem hv hu
  have hdue : ∀ v∈l1++l2,(a.leave u).due v=a.due v := fun v hv => update_of_ne (hne v hv) ..
  have hdueTime := fun v hv => Agenda.dueTime_congr (hdue v hv)
  have hmid : ∀ v,v∈l1++u::l2 ↔ v=u ∨ v∈l1++l2 := by
    intro v
    simp only [mem_append,mem_cons]
    tauto
  have hmem : ∀ v,v∈l1++l2 ↔ v≠u ∧ v∈l1++u::l2 := by
    intro v
    rw [hmid]
    exact ⟨fun hv => ⟨hne v hv,.inr hv⟩,fun hv => hv.2.resolve_left hv.1⟩
  have hold := fun v hv => (hmid v).mpr (.inr hv)
  refine ⟨hchain,hnodup,fun v => ?_,fun v => ?_,?_,?_,fun v hv => ?_,fun v hv => ?_⟩
  · rw [hmem,← h.active v]
    exact hactive v
  · rw [hmem,← h.due v]
    by_cases hv : v=u
    all_goals simp [hv,Agenda.leave]
  · have hsplit := nodup_append.mp hnodup
    have hl1 : ∀ v∈l1,time' v=s.time v := by
      refine fun v hv => hrest v (mem_append_left l2 hv) fun hvo => ?_
      exact hsplit.2.2 v hv v (mem_of_mem_head? hvo) rfl
    have hl2 : ∀ v∈l2.tail,time' v=s.time v := by
      refine fun v hv => hrest v (mem_append_right l1 (mem_of_mem_tail hv)) fun hvo => ?_
      have hn := hsplit.2.1
      cases l2 with
      | nil => cases hvo
      | cons w l2 =>
        obtain rfl : w=v := some.inj hvo
        exact (nodup_cons.mp hn).1 hv
    rcases eq_nil_or_concat' l1 with rfl | ⟨l0,p,rfl⟩
    · exact h.timed.leave hnext hl2 hdueTime
    · have htimed := h.timed
      have hp := hdueTime p (by simp)
      rw [append_assoc] at htimed
      rw [append_assoc]
      refine Timed.split.mpr ⟨?_,?_⟩
      · exact (Timed.split.mp htimed).1.congr hl1 fun v hv => hdueTime v (mem_append_left l2 hv)
      · rw [hp]
        exact (Timed.split.mp htimed).2.leave hnext hl2 fun v hv => hdueTime v (mem_append_right _ hv)
  · have hsub : (l1++l2).Pairwise a.Before :=
      h.sorted.sublist (Sublist.append_left (sublist_cons_self u l2) l1)
    exact hsub.imp_of_mem fun hv hw hb => hb.congr (hdue _ hv) (hdue _ hw)
  · rw [Agenda.birth_congr (hdue v hv)]
    exact h.births v (hold v hv)
  · rw [hdueTime v hv]
    exact h.bounded v (hold v hv)

theorem handTime_spec [DecidableEq ι] {o : Option ι} (hn : (s.next u).join=o) :
    ∃ time',s.handTime u={ s with time := time' } ∧ (∀ v∈o,time' v=s.time v+s.time u) ∧
      ∀ v,v∉o → time' v=s.time v := by
  cases o with
  | none =>
    have he : s.handTime u=s := by
      unfold EventQueue.handTime
      rw [hn]
    exact ⟨s.time,he,fun _ hv => (by cases hv),fun _ _ => rfl⟩
  | some w =>
    have he : s.handTime u={ s with time := update s.time w (s.time w+s.time u) } := by
      unfold EventQueue.handTime
      rw [hn]
    refine ⟨_,he,fun v hv => ?_,fun v hv => ?_⟩
    · obtain rfl : w=v := some.inj hv
      exact update_self ..
    · refine update_of_ne (fun hvw => hv ?_) ..
      rw [hvw]
      rfl

theorem before_eq {l0 l2 : List ι} {p : ι} [DecidableEq ι] (hc : Chain s.next s.simClockQueue (l0++p::u::l2) none)
    (hd : (l0++p::u::l2).Nodup) : s.before u (l0++p::u::l2)=some p := by
  refine find?_eq_some_iff_append.mpr ⟨decide_eq_true hc.next_eq,l0,_,rfl,fun c hcl => ?_⟩
  obtain ⟨x,y,rfl⟩ := append_of_mem hcl
  have hnext : s.next c=some (y++p::u::l2).head? := by
    have hl : x++c::(y++p::u::l2)=x++c::y++p::u::l2 := (append_assoc x (c::y) (p::u::l2)).symm
    refine Chain.next_eq (h := s.simClockQueue) (l := x) ?_
    rw [hl]
    exact hc
  have hne : (y++p::u::l2).head? ≠ some u := by
    intro hhead
    have hu : u∈(x++[c])++y++[p] := by
      cases y with
      | nil =>
        obtain rfl : p=u := some.inj hhead
        simp
      | cons w y =>
        obtain rfl : w=u := some.inj hhead
        simp
    have hd' : ((x++[c])++y++[p]++(u::l2)).Nodup := by simpa using hd
    exact (nodup_append.mp hd').2.2 u hu u mem_cons_self rfl
  rw [hnext]
  simpa using hne

theorem Queued.unlink [DecidableEq ι] (h : s.Queued a (l1++u::l2)) :
    ((s.unlink u (s.before u (l1++u::l2))).forget u).Queued (a.leave u) (l1++l2) ∧
      ((s.unlink u (s.before u (l1++u::l2))).forget u).simTime=s.simTime ∧
      ((s.unlink u (s.before u (l1++u::l2))).forget u).serving=s.serving := by
  obtain ⟨hu,hnodup⟩ := nodup_cons.mp (nodup_middle.mp h.nodup)
  have hne : ∀ v∈l1++l2,v≠u := fun v hv => ne_of_mem_of_not_mem hv hu
  have hactive : ∀ (next' : ι → Option (Option ι)),(∀ v,v≠u → (next' v).isSome=(s.next v).isSome) →
      ∀ v,(update next' u none v).isSome=true ↔ v≠u ∧ s.isActive v=true := by
    intro next' hsame v
    by_cases hv : v=u
    · simp [hv]
    · rw [update_of_ne hv,hsame v hv]
      simp [hv,isActive]
  have hforget : ∀ time' : ι → Int,(∀ v∈l2.head?,time' v=s.time v+s.time u) →
      (∀ v,v∉l2.head? → time' v=s.time v) →
      (∀ v∈l2.head?,update time' u 0 v=s.time v+s.time u) ∧
        ∀ v∈l1++l2,v∉l2.head? → update time' u 0 v=s.time v := by
    intro time' hnext hrest
    refine ⟨fun v hv => ?_,fun v hv hvo => ?_⟩
    · rw [update_of_ne (hne v (mem_append_right l1 (mem_of_mem_head? hv)))]
      exact hnext v hv
    · rw [update_of_ne (hne v hv)]
      exact hrest v hvo
  rcases eq_nil_or_concat' l1 with rfl | ⟨l0,p,rfl⟩
  · -- the unit is the head
    have hjoin : (s.next u).join=l2.head? := congrArg Option.join (Chain.next_eq (l := []) h.chain)
    obtain ⟨time',hhand,hnext,hrest⟩ := handTime_spec (s := { s with simClockQueue := (s.next u).join }) hjoin
    have hq : s.simClockQueue=some u := h.chain.head_eq
    have hunlink : s.unlink u (s.before u ([]++u::l2)) =
        { s with simClockQueue := (s.next u).join,time := time' } := by
      unfold EventQueue.unlink
      rw [if_pos hq,hhand]
    obtain ⟨hnext',hrest'⟩ := hforget time' hnext hrest
    rw [hunlink]
    refine ⟨h.leave ?_ (hactive s.next fun _ _ => rfl) hnext' hrest',rfl,rfl⟩
    obtain ⟨-,h',hn,hr⟩ := h.chain
    rw [hn]
    exact hr.congr fun v hv => update_of_ne (hne v hv) ..
  · have hl : l0++[p]++u::l2=l0++p::u::l2 := append_assoc ..
    have hc := h.chain
    have hd := h.nodup
    rw [hl] at hc hd
    have hhead : s.simClockQueue≠some u := by
      rw [hc.head_eq]
      intro hhead
      have hmem : u∈l0++[p] := by
        cases l0 with
        | nil =>
          obtain rfl : p=u := some.inj hhead
          simp
        | cons w l0 =>
          obtain rfl : w=u := some.inj hhead
          simp
      exact hu (mem_append_left l2 hmem)
    have hnu : s.next u=some l2.head? := by
      refine Chain.next_eq (h := s.simClockQueue) (l := l0++[p]) ?_
      rw [hl]
      exact hc
    have hjoin : (({ s with next := update s.next p (s.next u) } : EventQueue ι).next u).join =
        l2.head? := by
      have hup : u≠p := (hne p (by simp)).symm
      show (update s.next p (s.next u) u).join=_
      rw [update_of_ne hup,hnu]
      rfl
    obtain ⟨time',hhand,hnext,hrest⟩ := handTime_spec hjoin
    have hunlink : s.unlink u (s.before u (l0++[p]++u::l2)) =
        { s with next := update s.next p (s.next u),time := time' } := by
      unfold EventQueue.unlink
      rw [if_neg hhead,hl,before_eq hc hd]
      exact hhand
    obtain ⟨hnext',hrest'⟩ := hforget time' hnext hrest
    rw [hunlink]
    refine ⟨h.leave ?_ (hactive _ fun v hv => ?_) hnext' hrest',rfl,rfl⟩
    · have hr := hc.remove hd
      rw [append_assoc]
      exact hr.congr fun v hv => update_of_ne (hne v (by simpa using hv)) ..
    · by_cases hvp : v=p
      · have hu' : s.isActive u=true := (h.active u).mpr (by simp)
        have hp' : s.isActive p=true := (h.active p).mpr (by simp)
        rw [hvp]
        dsimp only
        rw [update_self]
        exact hu'.trans hp'.symm
      · exact congrArg Option.isSome (update_of_ne hvp ..)

theorem Inv.simCancel [DecidableEq ι] [Fintype ι] (h : s.Inv a l) (u : ι) :
    (∃ l',(s.simCancel u).Inv (a.leave u) l') ∧ (s.simCancel u).serving=s.serving ∧
      s.simTime≤(s.simCancel u).simTime ∧
      (s.anchor=s.simInterval ∨ s.isActive u → (s.simCancel u).simTime=a.now) := by
  by_cases hu : u∈l
  · have hactive : s.isActive u=true := (h.active u).mpr hu
    have hq : s.simClockQueue≠none := by
      rw [h.chain.head_eq]
      rintro hnil
      rw [head?_eq_none_iff.mp hnil] at hu
      cases hu
    have he : s.simCancel u =
        ((s.updateTime.unlink u (s.updateTime.before u s.updateTime.chain)).forget u).headTime := by
      unfold EventQueue.simCancel
      rw [if_neg hq,if_neg (by simp [hactive])]
    have hs := h.updateTime
    have hpast := hs.inv.notPast
    obtain ⟨l1,l2,rfl⟩ := append_of_mem hu
    rw [he,hs.chain_eq]
    obtain ⟨hqd,htime,hserving⟩ := hs.toQueued.unlink
    have hstocked := hqd.headTime (htime.trans hs.time_eq) fun v hv => by
      have hvu : v≠u := by
        rintro rfl
        exact (nodup_cons.mp (nodup_middle.mp h.nodup)).1 hv
      have hdue : (a.leave u).due v=a.due v := update_of_ne hvu ..
      have hv' : v∈l1++u::l2 := by
        simp only [mem_append,mem_cons] at hv ⊢
        tauto
      have hle := hpast v hv'
      have hint := hs.interval
      rw [Agenda.dueTime_congr hdue]
      show (a.now : Int) ≤ _
      omega
    refine ⟨⟨_,hstocked.inv⟩,?_,?_,fun _ => hstocked.time_eq⟩
    · rw [headTime_serving,hserving,updateTime_serving]
    · rw [headTime_simTime,htime,hs.time_eq]
      exact h.simTime_le
  · have hactive : ¬s.isActive u=true := fun ha => hu ((h.active u).mp ha)
    have he : s.simCancel u=s := by
      unfold EventQueue.simCancel
      split
      · rfl
      · exact if_pos (by simpa using hactive)
    have hdue : a.due u=none := by
      have hd := (h.due u).not.mpr hu
      simpa using hd
    rw [he,a.leave_of_none hdue]
    refine ⟨⟨l,h⟩,rfl,Int.le_refl _,fun ha => ?_⟩
    have hclock := h.clock
    have hanchor := ha.resolve_right hactive
    omega

theorem Inv.serves (h : s.Inv a l) (ha : s.anchor=s.simInterval) (b : Bool) : Inv { s with serving := b } a l :=
  ⟨⟨h.chain,h.nodup,h.active,h.due,h.timed,h.sorted,h.births,h.bounded⟩,h.clock,h.counted,fun _ => ha⟩

theorem Stocked.fire [DecidableEq ι] (h : s.Stocked a (u::l)) (h0 : s.simInterval=0) :
    (∃ l',(s.fire u).Inv (a.leave u) l') ∧ (s.fire u).simTime=s.simTime := by
  have hq : s.simClockQueue=some u := h.chain.head_eq
  have hu : u∉l := (nodup_cons.mp h.nodup).1
  have htime : s.time u=0 := by
    rw [← anchor_cons hq,h.anchor_eq,h0]
  have hne : ∀ v∈l,v≠u := fun v hv => ne_of_mem_of_not_mem hv hu
  obtain ⟨-,h',hn,hr⟩ := h.chain
  have hfirst : s.Queued a ([]++u::l) := h.toQueued
  have hpop : (s.popHead u).Queued (a.leave u) l := by
    refine hfirst.leave ?_ (fun v => ?_) (fun v hv => ?_) fun v hv _ => ?_
    · rw [hn]
      exact hr.congr fun v hv => update_of_ne (hne v hv) ..
    · by_cases hv : v=u
      · simp [hv]
      · rw [update_of_ne hv]
        simp [hv,isActive]
    · rw [update_of_ne (hne v (mem_of_mem_head? hv)),htime,add_zero]
    · exact update_of_ne (hne v hv) ..
  have hstocked := hpop.headTime h.time_eq fun v hv => by
    have hdue : (a.leave u).due v=a.due v := update_of_ne (hne v hv) ..
    have hle := h.inv.notPast v (mem_cons_of_mem u hv)
    rw [Agenda.dueTime_congr hdue]
    show (a.now : Int) ≤ _
    omega
  have he : (s.popHead u).nextInterval=(s.popHead u).headTime := by
    have h0' : (s.popHead u).simInterval=0 := h0
    unfold nextInterval EventQueue.headTime
    cases (s.popHead u).simClockQueue with
    | none => rfl
    | some w =>
      dsimp only
      rw [h0',zero_add]
  have hfire : s.fire u={ (s.popHead u).headTime with serving := true } := by
    unfold EventQueue.fire
    rw [he]
  rw [hfire]
  exact ⟨⟨l,hstocked.inv.serves hstocked.anchor_eq true⟩,headTime_simTime⟩

theorem Inv.stocked (h : s.Inv a l) (ha : s.anchor=s.simInterval) : s.Stocked a l := by
  have hclock := h.clock
  exact ⟨h.toQueued,by omega,ha,h.counted.1⟩

theorem Stocked.wait (h : s.Stocked a []) : s.wait.Stocked a [] := by
  refine ⟨⟨h.chain,h.nodup,h.active,h.due,trivial,h.sorted,h.births,h.bounded⟩,h.time_eq,anchor_nil h.chain.head_eq,?_⟩
  show 0≤noqueueWait
  decide

theorem Inv.process [DecidableEq ι] [Fintype ι] (h : s.Inv a l) (batch : ι) :
    (∃ l',s.simProcessEvent.Inv (a.after s batch .process) l') ∧ s.simTime ≤ s.simProcessEvent.simTime := by
  have hs := h.updateTime
  have hle := h.simTime_le
  have hint := h.counted.1
  have hafter : a.after s batch .process=if 0<s.simInterval then a else s.simClockQueue.elim a a.leave := by
    unfold Agenda.after firing
    by_cases h0 : 0<s.simInterval
    · simp only [if_pos h0]
    · simp only [if_neg h0]
      cases s.simClockQueue <;> rfl
  unfold simProcessEvent
  dsimp only
  rw [hafter,updateTime_simInterval]
  by_cases h0 : 0<s.simInterval
  · rw [if_pos h0,if_pos h0]
    exact ⟨⟨l,hs.inv⟩,by rw [hs.time_eq]; exact hle⟩
  have h0' : s.updateTime.simInterval=0 := by
    rw [updateTime_simInterval]
    omega
  rw [if_neg h0,if_neg h0]
  cases l with
  | nil =>
    rw [hs.chain.head_eq,h.chain.head_eq]
    exact ⟨⟨[],hs.wait.inv⟩,by rw [hs.time_eq.symm] at hle; exact hle⟩
  | cons u l =>
    have hmax : s.updateTime.catchUp=s.updateTime := by
      have he : max s.updateTime.simInterval 0=s.updateTime.simInterval := by omega
      unfold catchUp
      rw [he]
    rw [hs.chain.head_eq,h.chain.head_eq,hmax]
    obtain ⟨hf,htime⟩ := hs.fire h0'
    exact ⟨hf,(hle.trans hs.time_eq.ge).trans htime.ge⟩

theorem Inv.serviced [DecidableEq ι] [Fintype ι] (h : s.Inv a l) (hserving : s.serving) (batch : ι) (ok : Bool) :
    (∃ l',(s.serviced ok).Inv (a.after s batch (.done ok)) l') ∧ s.simTime≤(s.serviced ok).simTime := by
  have hs := h.stocked (h.serving hserving)
  have hoff := h.serves (h.serving hserving) false
  have hint := h.counted.1
  have hafter : a.after s batch (.done ok) =
      if ok=false ∨ 0<s.simInterval then a else s.simClockQueue.elim a a.leave := by
    unfold Agenda.after firing
    cases ok with
    | false => rfl
    | true =>
      by_cases h0 : 0<s.simInterval
      · simp [if_pos h0]
      · simp only [if_neg h0,if_true]
        cases s.simClockQueue <;> simp [h0]
  rw [hafter]
  unfold EventQueue.serviced
  cases ok with
  | false => exact ⟨⟨l,hoff⟩,Int.le_refl _⟩
  | true =>
    rw [if_neg (by simp)]
    by_cases h0 : 0<s.simInterval
    · rw [if_pos h0,if_pos (.inr h0)]
      exact ⟨⟨_,hoff⟩,Int.le_refl _⟩
    rw [if_neg h0,if_neg (by simp [h0])]
    cases l with
    | nil =>
      rw [h.chain.head_eq]
      exact ⟨⟨[],hs.wait.inv.serves hs.wait.anchor_eq false⟩,Int.le_refl _⟩
    | cons u l =>
      rw [h.chain.head_eq]
      obtain ⟨hf,htime⟩ := hs.fire (by omega)
      exact ⟨hf,htime.ge⟩

/-- The time after `b` up to the last entry -/
def span (time : ι → Int) : List ι → Int
  | [] => 0
  | u::l => time u+span time l

def remaining (s : EventQueue ι) : List ι → Int
  | [] => 0
  | _::l => s.simInterval+span s.time l

theorem Timed.span_eq {time due : ι → Int} (h : Timed time due b (l++[u])) : span time (l++[u])=due u-b := by
  induction l generalizing b with
  | nil =>
    have hu := h.1
    show time u+0=due u-b
    omega
  | cons v l ih =>
    have hv := h.1
    have hl := ih h.2
    show time v+span time (l++[u])=due u-b
    omega

theorem Inv.remaining_eq {l2 : List ι} (h : s.Inv a (l++u::l2)) : s.remaining (l++[u])=a.dueTime u-a.now := by
  have ht := (Timed.split.mp h.timed).1
  cases l with
  | nil =>
    have hu := h.first
    show s.simInterval+0=_
    omega
  | cons c l =>
    have hc := h.first
    have hspan := Timed.span_eq (l := l) ht.2
    show s.simInterval+span s.time (l++[u])=_
    omega

section
variable [DecidableEq ι]

theorem simActivateTime_eq (s : EventQueue ι) {due : ι → Int} {b accum : Int} (h : Timed s.time due b l)
    (hd : ∀ v∈l,s.simClockQueue≠some v) (hu : u∈l) :
    s.simActivateTime u l accum=Int.bmod (accum+(due u-b)+1) 0x100000000 := by
  induction l generalizing b accum with
  | nil => cases hu
  | cons c l ih =>
    have hc : accum+s.time c=accum+(due c-b) := by
      have := h.1
      omega
    unfold simActivateTime
    rw [if_neg (hd c mem_cons_self)]
    dsimp only
    rw [hc]
    by_cases hcu : c=u
    · rw [if_pos hcu,hcu]
    · have hul : u∈l := (mem_cons.mp hu).resolve_left (Ne.symm hcu)
      rw [if_neg hcu,ih h.2 (fun v hv => hd v (mem_cons_of_mem c hv)) hul]
      congr 2
      omega

theorem Inv.activateTime [Fintype ι] (h : s.Inv a l) (hu : u∈l) (hb : a.dueTime u-a.now≠0x7fffffff) :
    s.simActivateTime u s.chain 0=a.dueTime u-a.now+1 := by
  have hle := h.notPast u hu
  have hbound := h.bounded u hu
  have hint := h.counted.1
  have hbmod : Int.bmod (a.dueTime u-a.now+1) 0x100000000=a.dueTime u-a.now+1 := by
    rw [Int.bmod_def]
    omega
  rw [h.chain_eq]
  cases l with
  | nil => cases hu
  | cons c l =>
    have hq : s.simClockQueue=some c := h.chain.head_eq
    have hc := h.first
    unfold simActivateTime
    rw [if_pos hq]
    dsimp only
    by_cases hcu : c=u
    · rw [if_pos hcu,← hbmod]
      congr 1
      rw [← hcu]
      omega
    · have hul : u∈l := (mem_cons.mp hu).resolve_left (Ne.symm hcu)
      have hne : ∀ v∈l,s.simClockQueue≠some v := by
        intro v hv he
        rw [hq] at he
        obtain rfl : c=v := some.inj he
        exact (nodup_cons.mp h.nodup).1 hv
      rw [if_neg hcu,simActivateTime_eq s h.timed.2 hne hul,← hbmod]
      congr 1
      omega

theorem untilNotbefore_le (now rtime : Nat) : 0≤untilNotbefore now rtime ∧ untilNotbefore now rtime≤0x7fffffff := by
  unfold untilNotbefore
  dsimp only
  split <;> omega

section
variable [Fintype ι] {toUint32 : Int → Nat} {batch : ι} {e : QueueStep ι}

/-- What the clock must be for a step: as a `double` it is exact, a reading or an event finds it up to date and, as
`uint32`, of 32 bits; what is reported of a time is an `int32`. -/
def Careful (s : EventQueue ι) (a : Agenda ι) : QueueStep ι → Prop
  | .count => a.now+1<0x20000000000000
  | .activateNotbefore u _ => (s.anchor=s.simInterval ∨ s.isActive u=true) ∧ a.now<0x100000000
  | .gtime => s.anchor=s.simInterval
  | .grtime => s.anchor=s.simInterval ∧ a.now<0x100000000
  | .activateTime u => a.dueTime u-a.now≠0x7fffffff
  | _ => True

/-- The conversion of a `double` to `uint32`, where C defines it -/
def Converts (toUint32 : Int → Nat) : Prop := ∀ x : Nat,x<0x100000000 → toUint32 x=x

theorem Inv.reactivate {d : Int} (h : s.Inv a l) (u : ι) (hd : d≤0x7fffffff) :
    (∃ l',((s.simCancel u).activate u d).Inv ((a.leave u).activate u d) l') ∧
      s.simTime≤((s.simCancel u).activate u d).simTime := by
  obtain ⟨⟨l',h'⟩,-,hle,-⟩ := h.simCancel u
  obtain ⟨hr,-,hle'⟩ := h'.activate hd
  exact ⟨hr,hle.trans hle'⟩

theorem Inv.step (h : s.Inv a l) (hconv : Converts toUint32) (hc : s.Careful a e)
    (hs : s.step toUint32 batch e=some t) : (∃ l',t.Inv (a.after s batch e) l') ∧ s.simTime≤t.simTime := by
  have hcancel : ∀ u,(∃ l',(s.simCancel u).Inv (a.leave u) l') ∧ s.simTime≤(s.simCancel u).simTime :=
    fun u => ⟨(h.simCancel u).1,(h.simCancel u).2.2.1⟩
  cases e with
  | count =>
    obtain ⟨⟨hserving,h0⟩,he⟩ := ite_none_right_eq_some.mp hs
    obtain rfl := some.inj he
    have hclock := h.clock
    have hcount := h.counted
    have hpast := h.notPast
    refine ⟨⟨l,⟨h.chain,h.nodup,h.active,h.due,h.timed,h.sorted,h.births,fun v hv => ?_⟩,?_,?_,?_⟩,Int.le_refl _⟩
    · have hb := h.bounded v hv
      show a.dueTime v-((a.now+1 : Nat) : Int)≤0x7fffffff
      omega
    · show s.simTime+(s.anchor-(s.simInterval-1))=((a.now+1 : Nat) : Int)
      omega
    · show 0 ≤ s.simInterval-1 ∧ s.simInterval-1 ≤ s.anchor
      omega
    · intro hsv
      exact absurd (hsv.symm.trans hserving) (by decide)
  | process =>
    obtain ⟨-,he⟩ := ite_none_right_eq_some.mp hs
    obtain rfl := some.inj he
    exact h.process batch
  | done ok =>
    obtain ⟨hserving,he⟩ := ite_none_right_eq_some.mp hs
    obtain rfl := some.inj he
    exact h.serviced hserving batch ok
  | activate u d =>
    obtain ⟨hd,he⟩ := ite_none_right_eq_some.mp hs
    obtain rfl := some.inj he
    exact ⟨(h.activate hd).1,(h.activate hd).2.2⟩
  | activateAbs u d =>
    obtain ⟨hd,he⟩ := ite_none_right_eq_some.mp hs
    obtain rfl := some.inj he
    exact h.reactivate u hd
  | activateNotbefore u rtime =>
    obtain rfl := some.inj hs
    have hnow : toUint32 (s.simCancel u).simTime=a.now := by
      rw [(h.simCancel u).2.2.2 hc.1]
      exact hconv _ hc.2
    unfold EventQueue.activateNotbefore
    dsimp only
    rw [hnow]
    exact h.reactivate u (untilNotbefore_le _ _).2
  | cancel u =>
    obtain rfl := some.inj hs
    exact hcancel u
  | activateTime u | gtime | grtime =>
    obtain rfl := some.inj hs
    exact ⟨⟨l,h⟩,Int.le_refl _⟩
  | runBegin n =>
    obtain ⟨hn,he⟩ := ite_none_right_eq_some.mp hs
    by_cases h0 : 0<n
    · rw [if_pos h0] at he
      obtain rfl := some.inj he
      have hr := h.reactivate batch hn.2
      unfold Agenda.after
      dsimp only
      rw [if_pos h0]
      exact hr
    · rw [if_neg h0] at he
      obtain rfl := some.inj he
      unfold Agenda.after
      dsimp only
      rw [if_neg h0]
      exact hcancel batch
  | runEnd =>
    obtain ⟨-,he⟩ := ite_none_right_eq_some.mp hs
    obtain rfl := some.inj he
    exact hcancel batch

def AtOrPast (clock rtime : Nat) : Prop := ((clock : Int)-rtime)%0x100000000≤0x80000000

theorem untilNotbefore_first {now : Nat} (hnow : now<0x100000000) (rtime : Nat) :
    ∃ m : Nat,(m : Int)=now+untilNotbefore now (rtime%0x100000000) ∧ AtOrPast m rtime ∧
      ∀ k,now≤k → k < m → ¬AtOrPast k rtime := by
  have hd := untilNotbefore_le now (rtime%0x100000000)
  refine ⟨now+(untilNotbefore now (rtime%0x100000000)).toNat,by omega,?_⟩
  unfold untilNotbefore AtOrPast
  dsimp only
  split
  · refine ⟨by omega,fun k hk hkm => ?_⟩
    simp at hkm
    omega
  · refine ⟨by omega,fun k hk hkm => ?_⟩
    omega

end

end

/-- The queue is a chain of the active units, each once and in the order they are due, and what each still waits for,
in `int32`, is the interval with the times of the entries up to it. -/
structure Kept (s : EventQueue ι) (a : Agenda ι) : Prop where
  queue : ∃ l,Chain s.next s.simClockQueue l none ∧ l.Nodup ∧ (∀ u,s.isActive u=true ↔ u∈l) ∧
    l.Pairwise a.Before ∧ ∀ l1 u l2,l=l1++u::l2 → s.remaining (l1++[u])=a.dueTime u-a.now
  due : ∀ u,(a.due u).isSome=s.isActive u
  range : ∀ u,s.isActive u=true → a.now≤a.dueTime u ∧ a.dueTime u-a.now≤0x7fffffff
  clock : s.simTime≤a.now

/-- Of the active units the first one that is due fires, when its time has come, and none is active past its time. -/
def Fires (s : EventQueue ι) (a : Agenda ι) (t : EventQueue ι) : QueueStep ι → Prop
  | .count => ∀ v,s.isActive v=true → a.now<a.dueTime v
  | .process =>
    (∀ u∈s.firing .process,s.isActive u=true ∧ a.dueTime u=a.now ∧ t.isActive u=false ∧
      ∀ v,s.isActive v=true → v≠u → a.Before u v) ∧
    (s.firing .process=none → ∀ v,s.isActive v=true → a.now<a.dueTime v)
  | .done true =>
    (∀ u∈s.firing (.done true),s.isActive u=true ∧ a.dueTime u=a.now ∧ t.isActive u=false ∧
      ∀ v,s.isActive v=true → v≠u → a.Before u v) ∧
    (s.firing (.done true)=none → ∀ v,s.isActive v=true → a.now<a.dueTime v)
  | _ => True

section
variable [DecidableEq ι] [Fintype ι]

def Answers (s : EventQueue ι) (a : Agenda ι) (toUint32 : Int → Nat) (batch : ι) : QueueStep ι → Prop
  | .gtime => s.simTime=a.now
  | .grtime => toUint32 s.simTime=a.now
  | .activateTime u => s.isActive u=true → s.simActivateTime u s.chain 0=a.dueTime u-a.now+1
  | .activateNotbefore u rtime => ∃ m : Nat,
    ((a.after s batch (.activateNotbefore u rtime)).due u)=some ((m : Int),a.births) ∧ AtOrPast m rtime ∧
      ∀ k,a.now≤k → k < m → ¬AtOrPast k rtime
  | _ => True

/-- What a step to the queue `t` gives: the clock does not go back, and only the unit that the step is about or whose
service routine starts is due at another time. -/
structure Delivers (s : EventQueue ι) (a : Agenda ι) (toUint32 : Int → Nat) (batch : ι) (e : QueueStep ι)
    (t : EventQueue ι) : Prop where
  clock : s.simTime≤t.simTime
  others : ∀ v,e.unit batch≠some v → s.firing e≠some v → (a.after s batch e).due v=a.due v
  fires : s.Fires a t e
  answers : s.Answers a toUint32 batch e

variable {toUint32 : Int → Nat} {batch : ι} {e : QueueStep ι}

omit [DecidableEq ι] [Fintype ι] in
theorem Inv.kept (h : s.Inv a l) : s.Kept a := by
  have hint := h.counted.1
  refine ⟨⟨l,h.chain,h.nodup,h.active,h.sorted,?_⟩,fun u => ?_,fun u hu => ?_,h.simTime_le⟩
  · rintro l1 u l2 rfl
    exact h.remaining_eq
  · exact Bool.eq_iff_iff.mpr ((h.due u).trans (h.active u).symm)
  · have hul := (h.active u).mp hu
    have hpast := h.notPast u hul
    exact ⟨by omega,h.bounded u hul⟩

omit [Fintype ι] in
theorem leave_other {u v : ι} (hv : some u≠some v) : (a.leave u).due v=a.due v :=
  update_of_ne (fun he => hv (congrArg some he.symm)) ..

omit [Fintype ι] in
theorem activate_other {u v : ι} (d : Int) (hv : some u≠some v) : (a.activate u d).due v=a.due v := by
  unfold Agenda.activate
  split
  · rfl
  split
  · rfl
  · exact a.due_enter_of_ne _ fun he => hv (congrArg some he.symm)

omit [Fintype ι] in
theorem reactivated {d : Int} (hd : 0≤d) : ((a.leave u).activate u d).due u=some (a.now+d,a.births) := by
  have hnone : (a.leave u).due u=none := update_self ..
  unfold Agenda.activate
  rw [if_neg (by omega),if_neg (by simp [hnone])]
  exact update_self ..

omit [Fintype ι] in
theorem after_notbefore (s : EventQueue ι) (a : Agenda ι) (rtime : Nat) :
    a.after s batch (.activateNotbefore u rtime) =
      (a.leave u).activate u (untilNotbefore a.now (rtime%0x100000000)) := by
  unfold Agenda.after
  rfl

omit [Fintype ι] in
theorem after_other (s : EventQueue ι) (a : Agenda ι) {v : ι} (hv : e.unit batch≠some v) (hf : s.firing e≠some v) :
    (a.after s batch e).due v=a.due v := by
  have hloop : ∀ o : Option ι,o≠some v → (match o with | some u => a.leave u | none => a).due v=a.due v := by
    intro o ho
    cases o with
    | none => rfl
    | some u => exact leave_other ho
  cases e with
  | count | activateTime u | gtime | grtime => rfl
  | process | done ok => exact hloop _ hf
  | activate u d => exact activate_other d hv
  | activateAbs u d => exact (activate_other d hv).trans (leave_other hv)
  | activateNotbefore u rtime =>
    rw [after_notbefore]
    exact (activate_other _ hv).trans (leave_other hv)
  | cancel u | runEnd => exact leave_other hv
  | runBegin n =>
    unfold Agenda.after
    dsimp only
    split
    · exact (activate_other n hv).trans (leave_other hv)
    · exact leave_other hv

omit [Fintype ι] in
theorem Inv.loop (h : s.Inv a l) (hf : s.firing e=if 0<s.simInterval then none else s.simClockQueue)
    (ha : ∀ u∈s.firing e,a.after s batch e=a.leave u) {l' : List ι} (ht : t.Inv (a.after s batch e) l') :
    (∀ u∈s.firing e,s.isActive u ∧ a.dueTime u=a.now ∧ t.isActive u=false ∧ ∀ v,s.isActive v → v≠u → a.Before u v) ∧
    (s.firing e=none → ∀ v,s.isActive v → a.now<a.dueTime v) := by
  have hint := h.counted.1
  refine ⟨fun u hu => ?_,fun hnone v hv => ?_⟩
  · have hafter := ha u hu
    rw [hf] at hu
    by_cases h0 : 0<s.simInterval
    · rw [if_pos h0] at hu
      cases hu
    rw [if_neg h0] at hu
    have hhead : s.simClockQueue=some u := hu
    rw [h.chain.head_eq] at hhead
    obtain ⟨l,rfl⟩ := head?_eq_some_iff.mp hhead
    have hfirst := h.first
    refine ⟨(h.active u).mpr mem_cons_self,by omega,?_,fun v hv hvu => ?_⟩
    · have hdue : ¬((a.after s batch e).due u).isSome=true := by
        rw [hafter]
        unfold Agenda.leave
        simp
      exact Bool.eq_false_iff.mpr fun hact => hdue ((ht.due u).mpr ((ht.active u).mp hact))
    · exact (pairwise_cons.mp h.sorted).1 v ((mem_cons.mp ((h.active v).mp hv)).resolve_left hvu)
  · have hvl := (h.active v).mp hv
    have hpast := h.notPast v hvl
    rw [hf] at hnone
    by_cases h0 : 0<s.simInterval
    · omega
    · rw [if_neg h0,h.chain.head_eq] at hnone
      rw [head?_eq_none_iff.mp hnone] at hvl
      cases hvl

theorem Inv.delivers (h : s.Inv a l) (hconv : Converts toUint32) (hc : s.Careful a e)
    (hs : s.step toUint32 batch e=some t) : s.Delivers a toUint32 batch e t := by
  obtain ⟨⟨l',ht⟩,hclock⟩ := h.step hconv hc hs
  have hreading : s.anchor=s.simInterval → s.simTime=a.now := by
    have hnow := h.clock
    omega
  refine ⟨hclock,fun v => after_other s a,?_,?_⟩
  · cases e with
    | count =>
      have h0 : 0<s.simInterval := (ite_none_right_eq_some.mp hs).1.2
      intro v hv
      have hpast := h.notPast v ((h.active v).mp hv)
      omega
    | process =>
      refine h.loop (e := .process) rfl (fun u hu => ?_) ht
      unfold Agenda.after
      rw [show s.firing .process=some u from hu]
    | done ok =>
      cases ok with
      | false => trivial
      | true =>
        refine h.loop (e := .done true) rfl (fun u hu => ?_) ht
        unfold Agenda.after
        rw [show s.firing (.done true)=some u from hu]
    | activate u d | activateAbs u d | activateNotbefore u rtime | cancel u | gtime => trivial
    | activateTime u | grtime | runBegin n | runEnd => trivial
  · cases e with
    | gtime => exact hreading hc
    | grtime =>
      show toUint32 s.simTime=a.now
      rw [hreading hc.1]
      exact hconv _ hc.2
    | activateTime u => exact fun hu => h.activateTime ((h.active u).mp hu) hc
    | activateNotbefore u rtime =>
      obtain ⟨m,hm,hat,hfirst⟩ := untilNotbefore_first hc.2 rtime
      refine ⟨m,?_,hat,hfirst⟩
      have hd := untilNotbefore_le a.now (rtime%0x100000000)
      rw [after_notbefore,reactivated hd.1,hm]
    | count | process | done ok | activate u d | activateAbs u d | cancel u | runBegin n => trivial
    | runEnd => trivial

def stepBoth (toUint32 : Int → Nat) (batch : ι) (y : EventQueue ι × Agenda ι) (e : QueueStep ι) :
    Option (EventQueue ι × Agenda ι) :=
  (y.1.step toUint32 batch e).map fun t => (t,y.2.after y.1 batch e)

omit [DecidableEq ι] [Fintype ι] in
theorem boot_inv : (boot : EventQueue ι).Inv .boot [] := by
  refine ⟨⟨rfl,nodup_nil,?_,?_,trivial,.nil,?_,?_⟩,rfl,⟨Int.le_refl _,Int.le_refl _⟩,fun _ => rfl⟩
  · exact fun u => ⟨fun hu => (by cases hu),fun hu => absurd hu not_mem_nil⟩
  · exact fun u => ⟨fun hu => (by cases hu),fun hu => absurd hu not_mem_nil⟩
  all_goals exact fun u hu => absurd hu not_mem_nil

/-- In every run of careful steps from a boot the queue stands for its agenda, and the next step delivers. -/
theorem queue_right (hconv : Converts toUint32) {es : List (QueueStep ι)}
    (hr : Run (Guarded (fun y e => y.1.Careful y.2 e) (stepBoth toUint32 batch)) (boot,.boot) es (s,a)) :
    s.Kept a ∧ ∀ e t,s.Careful a e → s.step toUint32 batch e=some t → s.Delivers a toUint32 batch e t := by
  obtain ⟨l,h⟩ : ∃ l,s.Inv a l := hr.invariant (P := fun y => ∃ l,y.1.Inv y.2 l)
    (fun y e z hi hs => by
      obtain ⟨l,hl⟩ := hi
      obtain ⟨t,ht,rfl⟩ := map_eq_some_iff.mp hs.2
      exact (hl.step hconv hs.1 ht).1)
    ⟨[],boot_inv⟩
  exact ⟨h.kept,fun e t hc hs => h.delivers hconv hc hs⟩

end

instance (s : EventQueue ι) (a : Agenda ι) : (e : QueueStep ι) → Decidable (s.Careful a e)
  | .count => inferInstanceAs (Decidable (_ < _))
  | .activateNotbefore u _ =>
    inferInstanceAs (Decidable ((s.anchor=s.simInterval ∨ s.isActive u=true) ∧ a.now<0x100000000))
  | .gtime => inferInstanceAs (Decidable (s.anchor=s.simInterval))
  | .grtime => inferInstanceAs (Decidable (s.anchor=s.simInterval ∧ a.now<0x100000000))
  | .activateTime u => inferInstanceAs (Decidable (a.dueTime u-a.now≠0x7fffffff))
  | .process | .done _ | .activate _ _ | .activateAbs _ _ | .cancel _ | .runBegin _ | .runEnd => isTrue trivial

def twoUnits : List (QueueStep (Fin 3)) :=
  [.runBegin 100,.activate 0 2,.activate 1 2,.count,.count,.process,.activateNotbefore 0 7]

theorem queue_right_two : ∃ s : EventQueue (Fin 3),s.isActive 0 ∧ s.isActive 1 ∧
    ∀ t,s.step (fun x => x.toNat%0x100000000) 2 (.done true)=some t → t.isActive 1=false := by
  obtain ⟨x,hx,hp⟩ := run_of_foldlM (fun y e => y.1.Careful y.2 e) (stepBoth (fun x => x.toNat%0x100000000) 2)
    (fun x => decide (x.1.isActive 0=true ∧ x.1.isActive 1=true ∧ x.1.firing (.done true)=some 1))
    twoUnits (boot,.boot) (by decide +kernel)
  obtain ⟨s,a⟩ := x
  obtain ⟨h1,h2,h3⟩ := of_decide_eq_true hp
  obtain ⟨-,hd⟩ := queue_right (fun x hx => Nat.mod_eq_of_lt hx) hx
  exact ⟨s,h1,h2,fun t ht => ((hd (.done true) t trivial ht).fires.1 1 h3).2.2.1⟩

/-- The clock is read as it was before the last counts. -/
theorem clock_stale : ∃ (s : EventQueue (Fin 2)) (a : Agenda (Fin 2)),
    Run (fun y e z => stepBoth (fun x => x.toNat%0x100000000) 1 y e=some z) (boot,.boot)
      [.activate 0 10,.count,.count,.count,.gtime] (s,a) ∧ s.simTime=0 ∧ a.now=3 :=
  ⟨_,_,run_of_foldlM_eq rfl,by decide +kernel,by decide +kernel⟩


end EventQueue

end QUniLator.Vax
