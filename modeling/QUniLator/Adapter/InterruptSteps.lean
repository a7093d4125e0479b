import QUniLator.Adapter.InterruptInvariant

namespace QUniLator.Adapter

open List Option BitVec Function

namespace IntrSystem

variable {ρ ι δ : Type} {b : Board ρ ι δ} {s t : IntrSystem ι} {level : Fin 4} {r : ι}

theorem not_cancels_nil : ¬Cancels level [] := by
  rintro ⟨bits,hm,-⟩
  cases hm

theorem not_hands_nil : ¬Hands level [] := by
  rintro ⟨v,h,x,hm⟩
  cases hm

variable {todo : List IntrCommand} {bits : Mask} {vector value : Word} {handle : Nat} {l : Level ι} {commands : List IntrCommand}

theorem cancels_cancel : Cancels level (.cancel bits::todo) ↔ bits.getLsbD level ∨ Cancels level todo := by
  simp [Cancels,or_and_right,exists_or]

theorem hands_cancel : Hands level (.cancel bits::todo) ↔ Hands level todo := by
  simp [Hands]

theorem hands_intr {m : Fin 4} : Hands level (.intr m vector handle value::todo) ↔ level=m ∨ Hands level todo := by
  simp [Hands,exists_or]

theorem cancels_intr {m : Fin 4} : Cancels level (.intr m vector handle value::todo) ↔ Cancels level todo := by
  simp [Cancels]

theorem next_commands (h : IntrTables.Next level l commands) :
    (∀ m,¬Cancels m commands) ∧ (∀ m,Hands m commands → m=level) ∧
    (Hands level commands ∨ l.active=none) ∧ (commands≠[] → l.active≠none) := by
  cases h with
  | none ha => exact ⟨fun _ => not_cancels_nil,fun _ h => absurd h not_hands_nil,.inr ha,
      fun h => absurd rfl h⟩
  | some r vector handle value ha =>
    refine ⟨?_,?_,.inl ⟨vector,handle,value,mem_singleton.mpr rfl⟩,fun _ => by rw [ha]; rintro ⟨⟩⟩
    · rintro m ⟨bits,hm,-⟩
      cases mem_singleton.mp hm
    · rintro m ⟨v,h,x,hm⟩
      cases mem_singleton.mp hm
      rfl

theorem next_todo {arm : IntrTables ι}
    (h : IntrTables.Next level l commands) (hl : arm.br level=l) : TodoOk arm commands := by
  subst hl
  cases h with
  | none ha => exact .nil
  | some r vector handle value ha => exact .intr level vector handle value r ha

theorem next_todo_cancel {arm : IntrTables ι} (h : IntrTables.Next level l commands) (hl : arm.br level=l) :
    TodoOk arm (.cancel (levelBit level)::commands) := by
  subst hl
  cases h with
  | none ha =>
    refine .cancel _ fun m hm => ?_
    rw [levelBit_getLsbD,decide_eq_true_eq] at hm
    exact hm ▸ ha
  | some r vector handle value ha => exact .both level vector handle value r ha

theorem TodoOk.later {arm arm' : IntrTables ι} (h : TodoOk arm todo) (hbr : arm'.br=arm.br) : TodoOk arm' todo := by
  cases h with
  | nil => exact .nil
  | intr level vector handle value r ha => exact .intr level vector handle value r (hbr ▸ ha)
  | cancel bits ha => exact .cancel bits fun level hb => hbr ▸ ha level hb
  | both level vector handle value r ha => exact .both level vector handle value r (hbr ▸ ha)

theorem PutOk.of_not (h : s.put=false) : s.PutOk := by
  rw [PutOk]
  split
  · exact h
  all_goals exact fun hx => absurd (h.symm.trans hx) Bool.false_ne_true

/-- A level that the PRU has nothing of, its next request about to be handed over if there is one -/
theorem LevelOk.of_quiet (hq : t.Quiet level) (hc : ¬Cancels level t.todo)
    (ha : Hands level t.todo ∨ (t.arm.br level).active=none)
    (he : (t.pru.arb.intrMaster level).signaled=(t.pru.arb.intrMaster level).acked+
      if Busy level t.worker then 1 else 0) : t.LevelOk level := by
  refine ⟨fun h => absurd h hc,fun _ _ => hq,fun _ _ => hq,fun _ hh r hr => ?_,
    fun h => absurd hq.event h,fun h => absurd (.inr h) hq.acknowledging,?_⟩
  · obtain ha | ha := ha
    · exact absurd ha hh
    · rw [hr] at ha; cases ha
  · rw [hq.event,if_pos rfl,he]
    ring

theorem LevelOk.of_cancels (h : s.LevelOk level) (hc : Cancels level t.todo)
    (hw : t.Quiet level ∨ ∃ n,t.onPru level=some n ∧ (t.raised n).fate=.withdrawn)
    (hpru : t.pru=s.pru) (hevent : t.event=s.event) (hending : t.ending=s.ending)
    (hworker : Busy level t.worker ↔ Busy level s.worker) : t.LevelOk level := by
  refine ⟨fun _ => hw,fun hn => absurd hc hn,fun hn => absurd hc hn,fun hn => absurd hc hn,?_,?_,?_⟩
  · rw [hevent,hpru]; exact h.once
  · rw [hending,hpru]; exact h.ended
  · rw [hpru,hevent]
    simp only [hworker]
    exact h.events

/-- A step changes nothing of a level. -/
structure Same (level : Fin 4) (s t : IntrSystem ι) : Prop where
  cancels : Cancels level t.todo ↔ Cancels level s.todo
  hands : Hands level t.todo ↔ Hands level s.todo
  active : (t.arm.br level).active=(s.arm.br level).active
  known : ∀ r,(s.arm.br level).active=some r → t.current r=s.current r ∧
    t.raised (s.current r)=s.raised (s.current r)
  requests : t.pru.arb.requests level=s.pru.arb.requests level
  vectoring : t.pru.arb.Vectoring level ↔ s.pru.arb.Vectoring level
  ending : t.pru.arb.Ending level ↔ s.pru.arb.Ending level
  vector : t.pru.intr.vector level=s.pru.intr.vector level
  event : t.event level=s.event level
  end_of : t.ending=s.ending
  onPru : t.onPru level=s.onPru level
  owed : s.InitOwed → t.InitOwed
  withdrawn : ∀ n,s.onPru level=some n → (s.raised n).fate=.withdrawn → (t.raised n).fate=.withdrawn
  events : (s.pru.arb.intrMaster level).signaled=(s.pru.arb.intrMaster level).acked+
      (if s.event level=none then 0 else 1)+(if Busy level s.worker then 1 else 0) →
    (t.pru.arb.intrMaster level).signaled=(t.pru.arb.intrMaster level).acked+
      (if s.event level=none then 0 else 1)+if Busy level t.worker then 1 else 0

theorem Same.quiet (h : Same level s t) (hq : s.Quiet level) : t.Quiet level :=
  ⟨h.requests.trans hq.requests,
    fun ha => hq.acknowledging (ha.imp h.vectoring.mp h.ending.mp),h.event.trans hq.event⟩

theorem LevelOk.same (h : s.LevelOk level) (hs : Same level s t) : t.LevelOk level := by
  refine ⟨fun hc => ?_,fun hc hh => ?_,fun hc ha => ?_,fun hc hh r hr => ?_,fun he => ?_,
    fun he => ?_,?_⟩
  · obtain hq | ⟨n,hn,hf⟩ := h.cancels (hs.cancels.mp hc)
    · exact .inl (hs.quiet hq)
    · exact .inr ⟨n,hs.onPru.trans hn,hs.withdrawn n hn hf⟩
  · exact hs.quiet (h.hands (fun hx => hc (hs.cancels.mpr hx)) (hs.hands.mp hh))
  · exact hs.quiet (h.free (fun hx => hc (hs.cancels.mpr hx)) (hs.active.symm.trans ha))
  · rw [hs.active] at hr
    obtain ⟨hon,hst⟩ := h.stage (fun hx => hc (hs.cancels.mpr hx))
      (fun hx => hh (hs.hands.mpr hx)) r hr
    obtain ⟨hcur,hra⟩ := hs.known r hr
    rw [← hcur] at hra
    refine ⟨hs.onPru.trans (hcur ▸ hon),?_⟩
    cases hst with
    | requested hq he hv ha hh =>
      rw [← hcur,← hra] at ha hh
      exact .requested (hq.imp hs.requests.trans hs.owed) (fun hx => he (hs.ending.mp hx))
        (hs.event.trans hv) ha (hh.trans (congrArg some hs.vector.symm))
    | ending he hn hv vector ha hh =>
      rw [← hcur,← hra] at ha hh
      exact .ending (hs.ending.mpr he) (hs.end_of.trans (hcur ▸ hn)) (hs.event.trans hv) vector ha hh
    | done hv vector ha hh =>
      rw [← hcur,← hra] at ha hh
      exact .done (hs.event.trans (hcur ▸ hv)) vector ha hh
  · rw [hs.event] at he
    obtain ⟨hq,ha⟩ := h.once he
    exact ⟨hs.requests.trans hq,fun hx => ha (hx.imp hs.vectoring.mp hs.ending.mp)⟩
  · obtain ⟨hq,hn⟩ := h.ended (hs.ending.mp he)
    exact ⟨hs.requests.trans hq,hs.end_of ▸ hn⟩
  · rw [hs.event]
    exact hs.events h.events

theorem Same.of_tables (htodo : s.todo=[]) (hpru : t.pru=s.pru)
    (hc : ¬Cancels level t.todo) (hh : ¬Hands level t.todo)
    (hactive : (t.arm.br level).active=(s.arm.br level).active)
    (hknown : ∀ r,(s.arm.br level).active=some r → t.current r=s.current r ∧
      t.raised (s.current r)=s.raised (s.current r))
    (hevent : t.event level=s.event level) (hending : t.ending=s.ending)
    (honPru : t.onPru=s.onPru) (howed : s.InitOwed → t.InitOwed)
    (hwithdrawn : ∀ n,s.onPru level=some n → (s.raised n).fate=.withdrawn → (t.raised n).fate=.withdrawn)
    (hworker : Busy level t.worker ↔ Busy level s.worker) : Same level s t where
  cancels := iff_of_false hc (htodo ▸ not_cancels_nil)
  hands := iff_of_false hh (htodo ▸ not_hands_nil)
  active := hactive
  known := hknown
  requests := by rw [hpru]
  vectoring := by rw [hpru]
  ending := by rw [hpru]
  vector := by rw [hpru]
  event := hevent
  end_of := hending
  onPru := by rw [honPru]
  owed := howed
  withdrawn := hwithdrawn
  events := by
    rw [hpru]
    simp only [hworker]
    exact id

theorem Known.current_ne (h : s.Known b) {m : Fin 4} {u v : Slot} {q : ι}
    (hr : (s.arm.br level).slotRequest u=some r) (hq : (s.arm.br m).slotRequest v=some q)
    (hne : q≠r) : s.current q≠s.current r := by
  intro hx
  have h1 := (h.scheduled level u r hr).2.2
  have h2 := (h.scheduled m v q hq).2.2
  rw [hx,h1] at h2
  exact hne h2.symm

theorem Known.later (h : s.Known b) (harm : t.arm.br=s.arm.br)
    (hcurrent : t.current=s.current) (hraised : t.raised=s.raised) (hcount : t.count=s.count)
    (honPru : t.onPru=s.onPru) (hown : t.mismatch=s.mismatch)
    (hh : ∀ level,Hands level t.todo → Hands level s.todo) : t.Known b := by
  refine ⟨?_,?_,?_,?_,?_,hown.trans h.own⟩
  · rw [harm,hcurrent,hraised,hcount]; exact h.scheduled
  · rw [harm,hcurrent,hraised,hcount]; exact h.pending
  · rw [hraised,hcount]; exact h.retired
  · rw [harm,hcurrent,hraised]
    exact fun level u r hu hw => h.waiting level u r hu (hw.imp id (hh level))
  · rw [honPru,hraised,hcount]; exact h.onPru

theorem Known.accepted [DecidableEq ι] (h : s.Known b) (harm : s.arm.Inv b)
    (hr : (s.arm.br (b.intrLevel r)).slotRequest (b.intrSlot r)=none)
    (hbr : t.arm.br=update s.arm.br (b.intrLevel r) l) (hl : l.slotRequest =
      update (s.arm.br (b.intrLevel r)).slotRequest (b.intrSlot r) (some r))
    (hcurrent : t.current=update s.current r s.count)
    (hraised : t.raised=update s.raised s.count ⟨r,none,[],.pending⟩)
    (hcount : t.count=s.count+1) (honPru : t.onPru=s.onPru) (hown : t.mismatch=s.mismatch)
    (ha : (s.arm.br (b.intrLevel r)).active=none ∨ l.active=(s.arm.br (b.intrLevel r)).active ∧ t.todo=[])
    (hh : ∀ m,Hands m t.todo → m=b.intrLevel r) : t.Known b := by
  -- a request in a slot now is the new one, or one that was in it before
  have hslot {m : Fin 4} {u : Slot} {q : ι} (hq : (t.arm.br m).slotRequest u=some q) :
      q=r ∨ q≠r ∧ (s.arm.br m).slotRequest u=some q := by
    have hold : (s.arm.br m).slotRequest u=some q → q≠r ∧ (s.arm.br m).slotRequest u=some q := by
      refine fun hu => ⟨?_,hu⟩
      rintro rfl
      have h1 := (harm.level m).level u q hu
      have h2 := (harm.level m).consistent.placed u q hu
      rw [← h1,← h2,h1,← h1,hr] at hu
      cases hu
    rw [hbr] at hq
    by_cases hm : m=b.intrLevel r
    · subst hm
      rw [update_self,hl] at hq
      by_cases hu : u=b.intrSlot r
      · subst hu
        rw [update_self] at hq
        cases hq
        exact .inl rfl
      · rw [update_of_ne hu] at hq
        exact .inr (hold hq)
    · rw [update_of_ne hm] at hq
      exact .inr (hold hq)
  have hthere {m : Fin 4} {u : Slot} {q : ι} (hq : (s.arm.br m).slotRequest u=some q) :
      q≠r ∧ (t.arm.br m).slotRequest u=some q := by
    rw [hbr]
    by_cases hm : m=b.intrLevel r
    · subst hm
      have hu : u≠b.intrSlot r := by
        rintro rfl
        rw [hr] at hq
        cases hq
      rw [update_self,hl,update_of_ne hu]
      refine ⟨?_,hq⟩
      rintro rfl
      exact hu ((harm.level _).consistent.placed u q hq).symm
    · rw [update_of_ne hm]
      refine ⟨?_,hq⟩
      rintro rfl
      exact hm ((harm.level m).level u q hq).symm
  have hold {q : ι} (hq : q≠r) : t.current q=s.current q := by
    rw [hcurrent,update_of_ne hq]
  have hnew : t.current r=s.count := by rw [hcurrent,update_self]
  have hsame {n : Nat} (hn : n<s.count) : t.raised n=s.raised n := by
    rw [hraised,update_of_ne hn.ne]
  have hcountn : t.raised s.count=⟨r,none,[],.pending⟩ := by rw [hraised,update_self]
  refine ⟨fun m u q hq => ?_,fun n hn hf => ?_,fun n hn hf => ?_,fun m u q hq hw => ?_,
    fun m n hn => ?_,hown.trans h.own⟩
  · obtain rfl | ⟨hne,hu⟩ := hslot hq
    · rw [hnew,hcountn,hcount]
      exact ⟨Nat.lt_succ_self _,rfl,rfl⟩
    · obtain ⟨h1,h2,h3⟩ := h.scheduled m u q hu
      rw [hold hne,hsame h1,hcount]
      exact ⟨Nat.lt_succ_of_lt h1,h2,h3⟩
  · rw [hcount] at hn
    obtain hn | rfl := Nat.lt_succ_iff_lt_or_eq.mp hn
    · rw [hsame hn] at hf ⊢
      obtain ⟨h1,h2⟩ := h.pending n hn hf
      obtain ⟨hne,hu⟩ := hthere h1
      exact ⟨hu,(hold hne).trans h2⟩
    · rw [hcountn,hbr,update_self,hl,update_self]
      exact ⟨rfl,hnew⟩
  · rw [hcount] at hn
    obtain hn | rfl := Nat.lt_succ_iff_lt_or_eq.mp hn
    · rw [hsame hn] at hf ⊢
      exact h.retired n hn hf
    · rw [hcountn] at hf
      cases hf
  · obtain rfl | ⟨hne,hu⟩ := hslot hq
    · rw [hnew,hcountn]
    · rw [hold hne,hsame (h.scheduled m u q hu).1]
      refine h.waiting m u q hu (.inl fun hs => ?_)
      obtain hx | ⟨hx,ht⟩ := ha
      · obtain hw | hw := hw
        · rw [hbr] at hw
          by_cases hm : m=b.intrLevel r
          · rw [hm,hx] at hs
            cases hs
          · rw [update_of_ne hm] at hw
            exact hw hs
        · rw [hh m hw,hx] at hs
          cases hs
      · obtain hw | hw := hw
        · rw [hbr] at hw
          by_cases hm : m=b.intrLevel r
          · subst hm
            rw [update_self,hx] at hw
            exact hw hs
          · rw [update_of_ne hm] at hw
            exact hw hs
        · rw [ht] at hw
          exact not_hands_nil hw
  · rw [honPru] at hn
    obtain ⟨h1,h2⟩ := h.onPru m n hn
    rw [hsame h1,hcount]
    exact ⟨Nat.lt_succ_of_lt h1,h2⟩

theorem Known.removed (h : s.Known b) (harm : s.arm.Inv b) {fate : Fate}
    (hr : (s.arm.br level).slotRequest (b.intrSlot r)=some r) (hbr : t.arm.br=update s.arm.br level l)
    (hl : l.slotRequest=update (s.arm.br level).slotRequest (b.intrSlot r) none)
    (hcurrent : t.current=s.current) (hraised : t.raised=update s.raised (s.current r)
      { s.raised (s.current r) with fate := fate })
    (hcount : t.count=s.count) (honPru : t.onPru=s.onPru) (hown : t.mismatch=false)
    (ha : (s.arm.br level).active=some r ∨ l.active=(s.arm.br level).active ∧ t.todo=[])
    (hh : ∀ m,Hands m t.todo → m=level) (hf : fate≠.pending)
    (hret : fate=.retired → ∃ vector,(s.raised (s.current r)).answers=[vector] ∧
      (s.raised (s.current r)).handed=some vector) : t.Known b := by
  have hlev := (harm.level level).level _ r hr
  have hslot {m : Fin 4} {u : Slot} {q : ι} (hq : (t.arm.br m).slotRequest u=some q) :
      q≠r ∧ (s.arm.br m).slotRequest u=some q := by
    rw [hbr] at hq
    by_cases hm : m=level
    · subst hm
      rw [update_self,hl] at hq
      have hu : u≠b.intrSlot r := by
        rintro rfl
        rw [update_self] at hq
        cases hq
      rw [update_of_ne hu] at hq
      refine ⟨?_,hq⟩
      rintro rfl
      exact hu ((harm.level _).consistent.placed u q hq).symm
    · rw [update_of_ne hm] at hq
      refine ⟨?_,hq⟩
      rintro rfl
      exact hm (((harm.level m).level u q hq).symm.trans hlev)
  have hsame {n : Nat} (hn : n≠s.current r) : t.raised n=s.raised n := by
    rw [hraised,update_of_ne hn]
  have hgone : t.raised (s.current r)={ s.raised (s.current r) with fate := fate } := by
    rw [hraised,update_self]
  refine ⟨fun m u q hq => ?_,fun n hn hp => ?_,fun n hn hp => ?_,fun m u q hq hw => ?_,
    fun m n hn => ?_,hown⟩
  · obtain ⟨hne,hu⟩ := hslot hq
    rw [hcurrent,hcount,hsame (h.current_ne hr hu hne)]
    exact h.scheduled m u q hu
  · by_cases hx : n=s.current r
    · rw [hx,hgone] at hp
      exact absurd hp hf
    · rw [hcount] at hn
      rw [hsame hx] at hp ⊢
      obtain ⟨h1,h2⟩ := h.pending n hn hp
      refine ⟨?_,hcurrent ▸ h2⟩
      rw [hbr]
      by_cases hm : b.intrLevel (s.raised n).request=level
      · have hu : b.intrSlot (s.raised n).request≠b.intrSlot r := by
          intro hu
          rw [hm,hu,hr] at h1
          cases h1
          exact hx h2.symm
        rw [hm,update_self,hl,update_of_ne hu,← hm]
        exact h1
      · rw [update_of_ne hm]
        exact h1
  · rw [hcount] at hn
    by_cases hx : n=s.current r
    · subst hx
      rw [hgone] at hp ⊢
      exact hret hp
    · rw [hsame hx] at hp ⊢
      exact h.retired n hn hp
  · obtain ⟨hne,hu⟩ := hslot hq
    rw [hcurrent,hsame (h.current_ne hr hu hne)]
    refine h.waiting m u q hu (.inl fun hs => ?_)
    obtain hx | ⟨hx,ht⟩ := ha
    · -- the active request is the one that is gone
      by_cases hm : m=level
      · rw [hm,hx] at hs
        exact hne (some.inj hs).symm
      · obtain hw | hw := hw
        · rw [hbr,update_of_ne hm] at hw
          exact hw hs
        · exact hm (hh m hw)
    · obtain hw | hw := hw
      · rw [hbr] at hw
        by_cases hm : m=level
        · subst hm
          rw [update_self,hx] at hw
          exact hw hs
        · rw [update_of_ne hm] at hw
          exact hw hs
      · rw [ht] at hw
        exact not_hands_nil hw
  · rw [honPru] at hn
    obtain ⟨h1,h2⟩ := h.onPru m n hn
    rw [hcount]
    refine ⟨h1,?_⟩
    by_cases hx : n=s.current r
    · rw [hx,hgone]
      exact hx ▸ h2
    · rw [hsame hx]
      exact h2

section
variable [DecidableEq ι]

theorem Inv.setVector (h : s.Inv b) (r : ι) {vector : Word} (hv : vector &&& 3=0) :
    ∃ arm,s.arm.setVector r vector=some arm ∧ ({ s with arm := arm } : IntrSystem ι).Inv b := by
  obtain ⟨arm,ha,hi⟩ := h.arm.setVector r hv
  refine ⟨arm,ha,hi,h.orderly,?_,?_,?_,fun level => ?_⟩
  all_goals
    rw [IntrTables.setVector,hv] at ha
    cases ha
  · exact h.todo.later rfl
  · exact h.put
  · exact h.known.later rfl rfl rfl rfl rfl rfl fun _ => id
  · exact (h.level level).same ⟨Iff.rfl,Iff.rfl,rfl,fun _ _ => ⟨rfl,rfl⟩,rfl,Iff.rfl,Iff.rfl,rfl,rfl,
      rfl,rfl,id,fun _ _ => id,id⟩

variable [DecidableEq δ]

theorem Inv.accept (h : s.Inv b) (hu : s.todo=[]) (register : Option (IntrRegister δ))
    (hreg : ∀ x∈register,x.device=b.device r) (blocking : Bool)
    (hr : (s.arm.br (b.intrLevel r)).slotRequest (b.intrSlot r)=none) :
    ∃ x,s.arm.intr b r register false blocking=some x ∧ ((s.withArm x).accepted r).Inv b := by
  obtain ⟨arm,commands,l,he,hi,hbr,hl,hact⟩ := h.arm.accept r register hreg blocking hr
  have hself : arm.br (b.intrLevel r)=l := by rw [hbr,update_self]
  obtain ⟨htodo,hc,hh⟩ : TodoOk arm commands ∧ (∀ m,¬Cancels m commands) ∧
      ∀ m,Hands m commands → m=b.intrLevel r := by
    obtain ⟨-,-,rfl⟩ | ⟨-,hn⟩ := hact
    · exact ⟨.nil,fun _ => not_cancels_nil,fun _ hx => absurd hx not_hands_nil⟩
    · obtain ⟨hc,hh,-⟩ := next_commands hn
      exact ⟨next_todo hn hself,hc,hh⟩
  refine ⟨(arm,commands),he,hi,h.orderly,htodo,.of_not rfl,?_,fun m => ?_⟩
  · refine h.known.accepted h.arm hr hbr hl rfl rfl rfl rfl rfl ?_ hh
    obtain ⟨-,ha,hn⟩ | ⟨ha,-⟩ := hact
    · exact .inr ⟨ha,hn⟩
    · exact .inl ha
  -- the active requests are others than the new one
  have hknown (q : ι) (hq : (s.arm.br m).active=some q) :
      update s.current r s.count q=s.current q ∧
      update s.raised s.count ⟨r,none,[],.pending⟩ (s.current q) =
        s.raised (s.current q) := by
    have hin := (h.arm.level m).consistent.inSlot q hq
    have hne : q≠r := by
      rintro rfl
      rw [← (h.arm.level m).level _ q hin,hr] at hin
      cases hin
    exact ⟨update_of_ne hne ..,update_of_ne (h.known.scheduled m _ q hin).1.ne ..⟩
  have hwithdrawn (n : Nat) (hn : s.onPru m=some n) (hf : (s.raised n).fate=.withdrawn) :
      (update s.raised s.count ⟨r,none,[],.pending⟩ n).fate=.withdrawn := by
    rw [update_of_ne (h.known.onPru m n hn).1.ne]
    exact hf
  have hother (ha : (arm.br m).active=(s.arm.br m).active) (hx : ¬Hands m commands) :
      ((s.withArm (arm,commands)).accepted r).LevelOk m :=
    (h.level m).same (.of_tables hu rfl (hc m) hx ha hknown rfl rfl rfl id hwithdrawn Iff.rfl)
  by_cases hm : m=b.intrLevel r
  case neg => exact hother (by rw [hbr,update_of_ne hm]) fun hx => hm (hh m hx)
  subst hm
  obtain ⟨-,ha,rfl⟩ | ⟨ha,hn⟩ := hact
  · exact hother (by rw [hself,ha]) not_hands_nil
  · have hq := (h.level _).free (hu ▸ not_cancels_nil) ha
    refine .of_quiet ⟨hq.requests,hq.acknowledging,hq.event⟩ (hc _) ?_ ?_
    · rw [← hself] at hn
      exact (next_commands hn).2.2.1
    · have he := (h.level (b.intrLevel r)).events
      rw [hq.event,if_pos rfl,add_zero] at he
      exact he

theorem Inv.decline (h : s.Inv b) (hu : s.todo=[]) (register : Option (IntrRegister δ)) (initActive blocking : Bool)
    (hs : initActive ∨ (s.arm.br (b.intrLevel r)).slotRequest (b.intrSlot r)≠none) :
    ∃ x,s.arm.intr b r register initActive blocking=some x ∧ (s.withArm x).Inv b := by
  obtain ⟨arm,he,hi,hbr⟩ := h.arm.decline r register initActive blocking hs
  refine ⟨(arm,[]),he,hi,h.orderly,.nil,.of_not rfl,?_,fun level => (h.level level).same ?_⟩
  · exact h.known.later hbr rfl rfl rfl rfl rfl fun _ hx => absurd hx not_hands_nil
  · exact .of_tables hu rfl not_cancels_nil not_hands_nil (congrArg (fun br => (br level).active) hbr)
      (fun _ _ => ⟨rfl,rfl⟩) rfl rfl rfl id (fun _ _ => id) Iff.rfl

theorem Inv.intr (h : s.Inv b) (hu : s.todo=[]) (r : ι) (register : Option (IntrRegister δ))
    (hreg : ∀ x∈register,x.device=b.device r) (blocking : Bool) :
    ∃ t,s.intr b r register blocking=some t ∧ t.Inv b := by
  rw [IntrSystem.intr]
  by_cases hs : s.busInitActive=false ∧ (s.arm.br (b.intrLevel r)).slotRequest (b.intrSlot r)=none
  · obtain ⟨x,hx,hi⟩ := h.accept hu register hreg blocking hs.2
    have hx : s.arm.intr b r register s.busInitActive blocking=some x := by rwa [hs.1]
    exact ⟨(s.withArm x).accepted r,by rw [hx,map_some,if_pos hs],hi⟩
  · obtain ⟨x,hx,hi⟩ := h.decline hu register s.busInitActive blocking
      (by rwa [not_and_or,Bool.not_eq_false] at hs)
    exact ⟨s.withArm x,by rw [hx,map_some,if_neg hs],hi⟩

omit [DecidableEq δ] in
theorem Inv.cancelScheduled (h : s.Inv b) (hu : s.todo=[])
    (hs : (s.arm.br (b.intrLevel r)).slotRequest (b.intrSlot r)=some r) :
    ∃ x,s.arm.cancelIntr b r=some x ∧ ((s.withArm x).withdrawn (s.current r)).Inv b := by
  -- what is known of the requests but the one that is withdrawn
  have hsame (m : Fin 4) (q : ι) (hq : (s.arm.br m).active=some q) (hne : q≠r) :
      (update s.raised (s.current r) { s.raised (s.current r) with fate := .withdrawn })
        (s.current q)=s.raised (s.current q) :=
    update_of_ne
      (h.known.current_ne hs ((h.arm.level m).consistent.inSlot q hq) hne) ..
  have hwithdrawn (n : Nat) (hf : (s.raised n).fate=.withdrawn) :
      (update s.raised (s.current r) { s.raised (s.current r) with fate := .withdrawn }
        n).fate=.withdrawn := by
    by_cases hn : n=s.current r
    · rw [hn,update_self]
    · rw [update_of_ne hn]
      exact hf
  by_cases ha : (s.arm.br (b.intrLevel r)).active=some r
  · obtain ⟨arm,commands,l,he,hi,hbr,hl,hn⟩ := h.arm.cancelActive ha
    have hself : arm.br (b.intrLevel r)=l := by rw [hbr,update_self]
    obtain ⟨hc,hh,-⟩ := next_commands hn
    have hcancels (m : Fin 4) : Cancels m (.cancel (levelBit (b.intrLevel r))::commands) ↔
        m=b.intrLevel r := by
      rw [cancels_cancel,levelBit_getLsbD,decide_eq_true_eq,or_iff_left (hc m),eq_comm]
    have hhands (m : Fin 4) (hx : Hands m (.cancel (levelBit (b.intrLevel r))::commands)) :
        m=b.intrLevel r := hh m (hands_cancel.mp hx)
    refine ⟨_,he,hi,h.orderly,?_,.of_not rfl,?_,fun m => ?_⟩
    · exact next_todo_cancel hn hself
    · exact h.known.removed h.arm hs hbr hl rfl rfl rfl rfl h.known.own (.inl ha) hhands (by rintro ⟨⟩) (by rintro ⟨⟩)
    · by_cases hm : m=b.intrLevel r
      · subst hm
        obtain ⟨hon,-⟩ := (h.level _).stage (hu ▸ not_cancels_nil) (hu ▸ not_hands_nil) r ha
        refine (h.level _).of_cancels ((hcancels _).mpr rfl) (.inr ⟨s.current r,hon,?_⟩) rfl rfl rfl
          Iff.rfl
        show (update s.raised (s.current r) _ (s.current r)).fate=_
        rw [update_self]
      · refine (h.level m).same (.of_tables hu rfl (fun hx => hm ((hcancels m).mp hx))
          (fun hx => hm (hhands m hx)) ?_ (fun q hq => ⟨rfl,hsame m q hq ?_⟩) rfl rfl rfl id
          (fun n _ => hwithdrawn n) Iff.rfl)
        · show (arm.br m).active=_
          rw [hbr,update_of_ne hm]
        · rintro rfl
          exact hm ((h.arm.level m).level _ q ((h.arm.level m).consistent.inSlot q hq)).symm
  · obtain ⟨arm,l,he,hi,hbr,hl,hactive⟩ := h.arm.cancelWaiting ha fun q hq hx => ha (by
      have hin := (h.arm.level _).consistent.inSlot q hq
      rw [hx,hs] at hin
      cases hin
      exact hq)
    refine ⟨_,he,hi,h.orderly,.nil,.of_not rfl,?_,fun m => (h.level m).same ?_⟩
    · exact h.known.removed h.arm hs hbr hl rfl rfl rfl rfl h.known.own (.inr ⟨hactive,rfl⟩)
        (fun _ hx => absurd hx not_hands_nil) (by rintro ⟨⟩) (by rintro ⟨⟩)
    · refine .of_tables hu rfl not_cancels_nil not_hands_nil ?_ (fun q hq => ⟨rfl,hsame m q hq ?_⟩)
        rfl rfl rfl id (fun n _ => hwithdrawn n) Iff.rfl
      · show (arm.br m).active=_
        by_cases hm : m=b.intrLevel r
        · rw [hm,hbr,update_self,hactive]
        · rw [hbr,update_of_ne hm]
      · rintro rfl
        have hlev := (h.arm.level m).level _ q ((h.arm.level m).consistent.inSlot q hq)
        exact ha (hlev ▸ hq)

omit [DecidableEq δ] in
theorem Inv.cancelIntr (h : s.Inv b) (hu : s.todo=[]) (r : ι)
    (hr : ∀ q,(s.arm.br (b.intrLevel r)).slotRequest (b.intrSlot r)=some q → q=r) :
    ∃ t,s.cancelIntr b r=some t ∧ t.Inv b := by
  rw [IntrSystem.cancelIntr]
  cases hs : (s.arm.br (b.intrLevel r)).slotRequest (b.intrSlot r) with
  | none =>
    refine ⟨s.withArm (s.arm,[]),?_,h.arm,h.orderly,.nil,.of_not rfl,?_,fun level =>
      (h.level level).same ?_⟩
    · rw [IntrTables.cancelIntr,hs]
      rfl
    · exact h.known.later rfl rfl rfl rfl rfl rfl fun _ hx => absurd hx not_hands_nil
    · exact .of_tables hu rfl not_cancels_nil not_hands_nil rfl (fun _ _ => ⟨rfl,rfl⟩) rfl rfl rfl id
        (fun _ _ => id) Iff.rfl
  | some q =>
    have hq := hr q hs
    subst hq
    obtain ⟨x,hx,hi⟩ := h.cancelScheduled hu hs
    exact ⟨(s.withArm x).withdrawn (s.current q),by rw [hx]; simp,hi⟩

end

theorem Same.of_arb (harm : t.arm=s.arm) (htodo : t.todo=s.todo)
    (harb : t.pru.arb=s.pru.arb) (hvector : t.pru.intr.vector level=s.pru.intr.vector level)
    (hinit : t.pru.initEvent=s.pru.initEvent) (hcurrent : t.current=s.current)
    (hraised : ∀ r,(s.arm.br level).active=some r → t.raised (s.current r)=s.raised (s.current r))
    (hfate : ∀ n,(t.raised n).fate=(s.raised n).fate)
    (hworker : t.worker=s.worker) (hevent : t.event=s.event) (hending : t.ending=s.ending)
    (honPru : t.onPru level=s.onPru level) : Same level s t where
  cancels := by rw [htodo]
  hands := by rw [htodo]
  active := by rw [harm]
  known r hr := ⟨by rw [hcurrent],hraised r hr⟩
  requests := by rw [harb]
  vectoring := by rw [harb]
  ending := by rw [harb]
  vector := hvector
  event := by rw [hevent]
  end_of := hending
  onPru := honPru
  owed := by
    rw [InitOwed,InitOwed,hinit,handlingInit,handlingInit,hworker]
    exact id
  withdrawn n _ hf := (hfate n).trans hf
  events := by
    rw [harb,hworker]
    exact id

theorem putCommand_cancel (h : s.todo=.cancel bits::todo) :
    s.putCommand={ s with pru := s.pru.putIntrCancel bits,put := true } := by
  rw [IntrSystem.putCommand]
  split <;> rename_i hs <;> rw [h] at hs <;> cases hs
  rfl

theorem putCommand_intr (h : s.todo=.intr level vector handle value::todo) (ha : (s.arm.br level).active=some r) :
    s.putCommand={ s with
      pru := s.pru.putIntr level vector handle value,put := true
      raised := update s.raised (s.current r)
        { s.raised (s.current r) with handed := some vector }
      onPru := update s.onPru level (some (s.current r)) } := by
  rw [IntrSystem.putCommand]
  split <;> rename_i hs <;> rw [h] at hs <;> cases hs
  simp only [ha]
  rfl

theorem Inv.putCommand (h : s.Inv b) : s.putCommand.Inv b := by
  match htodo : s.todo with
  | [] => rw [IntrSystem.putCommand]; split <;> rename_i hs <;> rw [htodo] at hs <;> cases hs; exact h
  | .cancel bits::todo =>
    rw [putCommand_cancel htodo]
    refine ⟨h.arm,h.orderly,h.todo,?_,?_,fun level => (h.level level).same ?_⟩
    · rw [PutOk]
      simp only [htodo]
      exact fun _ => rfl
    · exact h.known.later rfl rfl rfl rfl rfl rfl fun _ => id
    · exact .of_arb rfl rfl rfl rfl rfl rfl (fun _ _ => rfl) (fun _ => rfl) rfl rfl rfl rfl
  | .intr level vector handle value::todo =>
    obtain ⟨r,ha,htail⟩ : ∃ r,(s.arm.br level).active=some r ∧ todo=[] := by
      have ht := h.todo
      rw [htodo] at ht
      cases ht with
      | intr _ _ _ _ r ha => exact ⟨r,ha,rfl⟩
    subst htail
    have hin := (h.arm.level level).consistent.inSlot r ha
    obtain ⟨hlt,hpend,hreq⟩ := h.known.scheduled level _ r hin
    have hc : ¬Cancels level s.todo := by
      rw [htodo,cancels_intr]
      exact not_cancels_nil
    have hh : Hands level s.todo := by
      rw [htodo,hands_intr]
      exact .inl rfl
    have hq := (h.level level).hands hc hh
    -- the request that is handed over is no other level's
    have hother (m : Fin 4) (hm : m≠level) (q : ι) (hq : (s.arm.br m).active=some q) :
        update s.raised (s.current r) { s.raised (s.current r) with handed := some vector }
          (s.current q)=s.raised (s.current q) := by
      have hinq := (h.arm.level m).consistent.inSlot q hq
      refine update_of_ne (h.known.current_ne hin hinq ?_) ..
      rintro rfl
      exact hm (((h.arm.level m).level _ q hinq).symm.trans ((h.arm.level level).level _ q hin))
    have hsame (n : Nat) :
        (update s.raised (s.current r)
          { s.raised (s.current r) with handed := some vector } n).fate=(s.raised n).fate ∧
        (update s.raised (s.current r)
          { s.raised (s.current r) with handed := some vector } n).request=(s.raised n).request ∧
        (update s.raised (s.current r)
          { s.raised (s.current r) with handed := some vector } n).answers=(s.raised n).answers := by
      by_cases hn : n=s.current r
      · subst hn
        rw [update_self]
        exact ⟨rfl,rfl,rfl⟩
      · rw [update_of_ne hn]
        exact ⟨rfl,rfl,rfl⟩
    rw [putCommand_intr htodo ha]
    refine ⟨h.arm,h.orderly,h.todo,?_,?_,fun m => ?_⟩
    · rw [PutOk]
      simp only [htodo]
      exact fun _ => ⟨rfl,update_self ..,r,ha,update_self ..,
        by rw [update_self]⟩
    · refine ⟨fun m u q hu => ?_,fun n hn hf => ?_,fun n hn hf => ?_,fun m u q hu hw => ?_,
        fun m n hn => ?_,h.known.own⟩
      · obtain ⟨h1,h2,h3⟩ := h.known.scheduled m u q hu
        exact ⟨h1,(hsame _).1.trans h2,(hsame _).2.1.trans h3⟩
      · have hp := h.known.pending n hn ((hsame n).1 ▸ hf)
        rw [(hsame n).2.1]
        exact hp
      · rw [(hsame n).1] at hf
        have hne : n≠s.current r := by
          rintro rfl
          rw [hpend] at hf
          cases hf
        show ∃ v,(update s.raised (s.current r) _ n).answers=[v] ∧
          (update s.raised (s.current r) _ n).handed=some v
        rw [update_of_ne hne]
        exact h.known.retired n hn hf
      · rw [(hsame _).2.2]
        exact h.known.waiting m u q hu hw
      · by_cases hm : m=level
        · subst hm
          have hn : update s.onPru m (some (s.current r)) m=some n := hn
          rw [update_self] at hn
          cases hn
          rw [(hsame _).2.1,hreq]
          exact ⟨hlt,(h.arm.level m).level _ r hin⟩
        · have hn : update s.onPru level (some (s.current r)) m=some n := hn
          rw [update_of_ne hm] at hn
          rw [(hsame n).2.1]
          exact h.known.onPru m n hn
    · by_cases hm : m=level
      · subst hm
        refine .of_quiet ⟨hq.requests,hq.acknowledging,hq.event⟩ hc (.inl hh) ?_
        have he := (h.level m).events
        rw [hq.event,if_pos rfl,add_zero] at he
        exact he
      · refine (h.level m).same (.of_arb rfl rfl rfl ?_ rfl rfl (fun q hq => hother m hm q hq)
          (fun n => (hsame n).1) rfl rfl rfl ?_)
        · exact update_of_ne (fun hx => hm (Fin.ext hx)) ..
        · exact update_of_ne hm ..

theorem taken_cancel (h : s.todo=.cancel bits::todo) :
    s.taken={ s with pru := s.pru.cancelIntr,todo := todo,put := false } := by
  rw [IntrSystem.taken]
  split <;> rename_i hs <;> rw [h] at hs <;> cases hs
  rfl

theorem taken_intr (h : s.todo=.intr level vector handle value::todo) :
    s.taken={ s with pru := s.pru.takeIntr,todo := todo,put := false } := by
  rw [IntrSystem.taken]
  split <;> rename_i hs <;> rw [h] at hs <;> cases hs
  rfl

theorem cancelIntr_requests (p : Pru) (level : Fin 4) : p.cancelIntr.arb.requests level =
      (p.arb.requests level && !p.intr.priorityArbitrationBit.getLsbD level) := by
  have hlt : (level : Nat)<8 := by omega
  show (p.arb.deviceRequestMask &&& ~~~p.intr.priorityArbitrationBit).getLsbD level=_
  rw [getLsbD_and,getLsbD_not]
  simp [hlt,SmArb.requests]

theorem takeIntr_requests (p : Pru) (level : Fin 4) : p.takeIntr.arb.requests level =
      (p.arb.requests level || p.intr.priorityArbitrationBit.getLsbD level) :=
  getLsbD_or ..

/-- What the PRU is told to withdraw it is not acknowledging, and no event of it is on the way. -/
def Withdrawable (s : IntrSystem ι) : Prop :=
  match s.todo with
  | .cancel bits::_ => ∀ level : Fin 4,bits.getLsbD level=true →
      ¬s.pru.Acknowledging level ∧ s.event level=none
  | _ => True

instance (s : IntrSystem ι) : Decidable s.Withdrawable :=
  match h : s.todo with
  | .cancel bits::_ => decidable_of_iff (∀ level : Fin 4,bits.getLsbD level=true →
      ¬s.pru.Acknowledging level ∧ s.event level=none) (by rw [Withdrawable,h])
  | [] | .intr ..::_ => .isTrue (by rw [Withdrawable,h]; trivial)

theorem Inv.takenCancel (h : s.Inv b) (hput : s.put)
    (htodo : s.todo=.cancel bits::todo) (hw : s.Withdrawable) : s.taken.Inv b := by
  have hbits : s.pru.intr.priorityArbitrationBit=bits := by
    have hp := h.put
    rw [PutOk] at hp
    simp only [htodo] at hp
    exact hp hput
  obtain ⟨hrest,hnext,hc⟩ : TodoOk s.arm todo ∧ (∀ m : Fin 4,bits.getLsbD m=true →
      Hands m todo ∨ (s.arm.br m).active=none) ∧ ∀ m,¬Cancels m todo := by
    have ht := h.todo
    rw [htodo] at ht
    cases ht with
    | cancel bits ha => exact ⟨.nil,fun m hm => .inr (ha m hm),fun _ => not_cancels_nil⟩
    | both level vector handle value r ha =>
      refine ⟨.intr level vector handle value r ha,fun m hm => .inl ?_,fun m => ?_⟩
      · rw [levelBit_getLsbD,decide_eq_true_eq] at hm
        exact hands_intr.mpr (.inl hm.symm)
      · rw [cancels_intr]
        exact not_cancels_nil
  rw [taken_cancel htodo]
  refine ⟨h.arm,⟨h.orderly.notNoop,h.orderly.accepted,h.orderly.ending⟩,hrest,.of_not rfl,?_,
    fun m => ?_⟩
  · refine h.known.later rfl rfl rfl rfl rfl rfl fun m hm => ?_
    rw [htodo]
    exact hands_cancel.mpr hm
  · cases hb : bits.getLsbD m with
    | true =>
      rw [Withdrawable] at hw
      simp only [htodo] at hw
      obtain ⟨hack,hev⟩ := hw m hb
      refine .of_quiet ⟨?_,hack,hev⟩ (hc m) (hnext m hb) ?_
      · rw [cancelIntr_requests,hbits,hb]
        simp
      · have he := (h.level m).events
        rw [hev,if_pos rfl,add_zero] at he
        exact he
    | false =>
      refine (h.level m).same ⟨?_,?_,rfl,fun _ _ => ⟨rfl,rfl⟩,?_,Iff.rfl,Iff.rfl,rfl,rfl,rfl,rfl,id,
        fun _ _ => id,id⟩
      · rw [htodo,cancels_cancel,hb]
        simp
      · rw [htodo,hands_cancel]
      · rw [cancelIntr_requests,hbits,hb]
        simp

theorem Inv.takenIntr (h : s.Inv b) (hput : s.put) (htodo : s.todo=.intr level vector handle value::todo) :
    s.taken.Inv b := by
  obtain rfl : todo=[] := by
    have ht := h.todo
    rw [htodo] at ht
    cases ht
    rfl
  obtain ⟨hbits,hvec,r,ha,hon,hhand⟩ : s.pru.intr.priorityArbitrationBit=levelBit level ∧
      s.pru.intr.vector level=vector ∧ ∃ r,(s.arm.br level).active=some r ∧
      s.onPru level=some (s.current r) ∧ (s.raised (s.current r)).handed=some vector := by
    have hp := h.put
    rw [PutOk] at hp
    simp only [htodo] at hp
    exact hp hput
  have hc (m : Fin 4) : ¬Cancels m s.todo := by
    rw [htodo,cancels_intr]
    exact not_cancels_nil
  have hh (m : Fin 4) : Hands m s.todo ↔ m=level := by
    rw [htodo,hands_intr,or_iff_left not_hands_nil]
  have hreq (m : Fin 4) : s.pru.takeIntr.arb.requests m =
      (s.pru.arb.requests m || decide (level=m)) := by
    rw [takeIntr_requests,hbits,levelBit_getLsbD]
  rw [taken_intr htodo]
  refine ⟨h.arm,⟨h.orderly.notNoop,h.orderly.accepted,h.orderly.ending⟩,.nil,.of_not rfl,?_,
    fun m => ?_⟩
  · exact h.known.later rfl rfl rfl rfl rfl rfl fun m hm => absurd hm not_hands_nil
  by_cases hm : m=level
  · subst hm
    have hq := (h.level m).hands (hc m) ((hh m).mpr rfl)
    have hin := (h.arm.level m).consistent.inSlot r ha
    refine ⟨fun hx => absurd hx not_cancels_nil,fun _ hx => absurd hx not_hands_nil,
      fun _ hx => absurd (ha.symm.trans hx) (by rintro ⟨⟩),fun _ _ q hq' => ?_,fun hx => absurd hq.event hx,
      fun hx => absurd (.inr hx) hq.acknowledging,(h.level m).events⟩
    obtain rfl : r=q := some.inj (ha.symm.trans hq')
    refine ⟨hon,.requested (.inl ?_) (fun hx => hq.acknowledging (.inr hx)) hq.event ?_ ?_⟩
    · rw [hreq]
      simp
    · exact h.known.waiting m _ r hin (.inr ((hh m).mpr rfl))
    · exact hhand.trans (congrArg some hvec.symm)
  · refine (h.level m).same ⟨iff_of_false not_cancels_nil (hc m),
      iff_of_false not_hands_nil fun hx => hm ((hh m).mp hx),rfl,fun _ _ => ⟨rfl,rfl⟩,?_,Iff.rfl,
      Iff.rfl,rfl,rfl,rfl,rfl,id,fun _ _ => id,id⟩
    rw [hreq,decide_eq_false (Ne.symm hm),Bool.or_false]

theorem Inv.taken (h : s.Inv b) (hput : s.put) (hw : s.Withdrawable) : s.taken.Inv b := by
  match htodo : s.todo with
  | [] =>
    have hp := h.put
    rw [PutOk] at hp
    simp only [htodo] at hp
    rw [hp] at hput
    cases hput
  | .cancel bits::todo => exact h.takenCancel hput htodo hw
  | .intr level vector handle value::todo => exact h.takenIntr hput htodo

/-- What a command on a transfer leaves of the interrupts -/
structure DmaOnly (p q : Pru) : Prop where
  orderly : p.arb.Orderly → q.arb.Orderly
  intr : q.intr=p.intr
  init : q.initEvent=p.initEvent
  requests : ∀ level : Fin 4,q.arb.requests level=p.arb.requests level
  vectoring : ∀ level : Fin 4,q.arb.Vectoring level ↔ p.arb.Vectoring level
  ending : ∀ level : Fin 4,q.arb.Ending level ↔ p.arb.Ending level
  master : q.arb.intrMaster=p.arb.intrMaster

theorem Inv.dmaOnly (h : s.Inv b) {p : Pru} (hp : DmaOnly s.pru p) : ({ s with pru := p } : IntrSystem ι).Inv b := by
  refine ⟨h.arm,hp.orderly h.orderly,h.todo,h.put.later rfl rfl rfl hp.intr rfl rfl fun _ => rfl,
    h.known.later rfl rfl rfl rfl rfl rfl fun _ => id,fun level => (h.level level).same
      ⟨Iff.rfl,Iff.rfl,rfl,fun _ _ => ⟨rfl,rfl⟩,hp.requests level,hp.vectoring level,
        hp.ending level,congrArg (fun x : MailboxIntr => x.vector level) hp.intr,rfl,rfl,rfl,?_,
        fun _ _ => id,?_⟩⟩
  · rw [InitOwed,InitOwed,hp.init]
    exact id
  · rw [hp.master]
    exact id

theorem dmaOnly_putDma (p : Pru) (dma : MailboxDma) : DmaOnly p (p.putDma dma) :=
  ⟨id,rfl,rfl,fun _ => rfl,fun _ => Iff.rfl,fun _ => Iff.rfl,rfl⟩

theorem dmaOnly_takeDma (p : Pru) : DmaOnly p p.takeDma := by
  rw [Pru.takeDma]
  split_ifs
  · exact ⟨fun h => ⟨h.notNoop,h.accepted,h.ending⟩,rfl,rfl,fun _ => rfl,fun _ => Iff.rfl,
      fun _ => Iff.rfl,rfl⟩
  · refine ⟨fun h => ⟨h.notNoop,h.accepted,h.ending⟩,rfl,rfl,fun level => ?_,fun _ => Iff.rfl,
      fun _ => Iff.rfl,rfl⟩
    show (p.arb.deviceRequestMask ||| bitNp).getLsbD level=_
    rw [getLsbD_or,bitNp_getLsbD,Bool.or_false]
    rfl

theorem dmaOnly_cancelDma (p : Pru) : DmaOnly p p.cancelDma := by
  rw [Pru.cancelDma]
  split_ifs with hc hcpu hs
  · exact ⟨fun h => ⟨h.notNoop,h.accepted,h.ending⟩,rfl,rfl,fun _ => rfl,fun _ => Iff.rfl,
      fun _ => Iff.rfl,rfl⟩
  · -- a grant that is not answered yet is given up
    refine ⟨fun _ => ⟨by rintro ⟨⟩,by rintro ⟨⟩,by rintro ⟨⟩⟩,rfl,rfl,fun level => p.arb.requests_clear_np level,
      fun level => ⟨fun hv => ?_,fun hv => ?_⟩,fun level => ⟨fun he => ?_,fun he => ?_⟩,rfl⟩
    · cases hv.1
    · have h1 := hv.1
      rw [hs] at h1
      cases h1
    · cases he.1
    · have h1 := he.1
      rw [hs] at h1
      cases h1
  · have hgrant (level : Fin 4) :
        (p.arb.deviceGrantMask &&& ~~~bitNp).getLsbD level=p.arb.deviceGrantMask.getLsbD level := by
      have hlt : (level : Nat)<8 := by omega
      rw [getLsbD_and,getLsbD_not,bitNp_getLsbD]
      simp [hlt]
    refine ⟨fun h => ⟨h.notNoop,fun hst => ?_,h.ending⟩,rfl,rfl,
      fun level => p.arb.requests_clear_np level,fun level => ?_,fun _ => Iff.rfl,rfl⟩
    · obtain ⟨level,hl⟩ := h.accepted hst
      refine ⟨level,?_⟩
      show p.arb.deviceGrantMask &&& ~~~bitNp=_
      rw [hl,levelBit_not_np]
    · exact and_congr Iff.rfl (by rw [hgrant])
  · exact ⟨id,rfl,rfl,fun _ => rfl,fun _ => Iff.rfl,fun _ => Iff.rfl,rfl⟩

theorem Inv.atWork (h : s.Inv b) (w : IntrWorker) (hw : ∀ level,Busy level w ↔ Busy level s.worker)
    (hi : ({ s with worker := w } : IntrSystem ι).handlingInit=s.handlingInit) :
    ({ s with worker := w } : IntrSystem ι).Inv b := by
  refine ⟨h.arm,h.orderly,h.todo,h.put.later rfl rfl rfl rfl rfl rfl fun _ => rfl,
    h.known.later rfl rfl rfl rfl rfl rfl fun _ => id,fun level => (h.level level).same
      ⟨Iff.rfl,Iff.rfl,rfl,fun _ _ => ⟨rfl,rfl⟩,rfl,Iff.rfl,Iff.rfl,rfl,rfl,rfl,rfl,?_,
        fun _ _ => id,?_⟩⟩
  · rw [InitOwed,InitOwed,hi]
    exact id
  · simp only [hw]
    exact id

theorem LevelOk.answered (h : s.LevelOk level) (hu : s.todo=[]) (hb : ¬Busy level s.worker)
    (ha : ¬(s.pru.arb.intrMaster level).isAcked) :
    ∃ r vector,(s.arm.br level).active=some r ∧ s.event level=some (s.current r) ∧
      (s.raised (s.current r)).answers=[vector] ∧ (s.raised (s.current r)).handed=some vector := by
  have hev : s.event level≠none := by
    intro hn
    have he := h.events
    rw [hn,if_pos rfl,if_neg hb,add_zero,add_zero] at he
    exact ha (by rw [Event.isAcked,decide_eq_true_eq]; exact he)
  cases hr : (s.arm.br level).active with
  | none => exact absurd (h.free (hu ▸ not_cancels_nil) hr).event hev
  | some r =>
    obtain ⟨-,hst⟩ := h.stage (hu ▸ not_cancels_nil) (hu ▸ not_hands_nil) r hr
    cases hst with
    | requested hq he hv | ending he hn hv => exact absurd hv hev
    | done hv vector ha hh => exact ⟨r,vector,rfl,hv,ha,hh⟩

theorem Inv.dispatch [DecidableEq ι] (h : s.Inv b) (hu : s.todo=[]) (hi : s.worker=.idle)
    (level : Fin 4) (ha : ¬(s.pru.arb.intrMaster level).isAcked) : ∃ t,s.dispatch b level=some t ∧ t.Inv b := by
  have hbusy (m : Fin 4) : ¬Busy m s.worker := by
    rw [hi]
    simp [Busy]
  obtain ⟨r,vector,hr,hev,hans,hhand⟩ := (h.level level).answered hu (hbusy level) ha
  obtain ⟨hreq,hack⟩ := (h.level level).once (by rw [hev]; rintro ⟨⟩)
  obtain ⟨s1,arm,commands,l,h1,h2,hi2,hbr,hl,hnext⟩ := h.arm.replaceActive hr
  have hin := (h.arm.level level).consistent.inSlot r hr
  have hself : arm.br level=l := by rw [hbr,update_self]
  obtain ⟨hc,hh,-⟩ := next_commands hnext
  have hdo : s.arm.completeEvent b level=some (arm,commands) := by
    rw [IntrTables.completeEvent,h1]
    exact h2
  rw [IntrSystem.dispatch,hdo]
  simp only [map_some,hr,h.known.own,hev]
  refine ⟨_,rfl,hi2,h.orderly,next_todo hnext hself,.of_not rfl,?_,fun m => ?_⟩
  · exact h.known.removed h.arm hin hbr hl rfl rfl rfl rfl (by simp) (.inl hr) hh (by rintro ⟨⟩)
      fun _ => ⟨vector,hans,hhand⟩
  by_cases hm : m=level
  · subst hm
    refine .of_quiet ⟨hreq,hack,update_self ..⟩ (hc m) ?_ ?_
    · rw [← hself] at hnext
      exact (next_commands hnext).2.2.1
    · have he := (h.level m).events
      rw [hev,if_neg (by rintro ⟨⟩),if_neg (hbusy m),add_zero] at he
      exact he.trans (congrArg _ (if_pos (Or.inl rfl)).symm)
  · refine (h.level m).same (.of_tables hu rfl (hc m) (fun hx => hm (hh m hx)) ?_
      (fun q hq => ⟨rfl,?_⟩) (update_of_ne hm ..) rfl rfl ?_ (fun n _ hf => ?_) ?_)
    · show (arm.br m).active=_
      rw [hbr,update_of_ne hm]
    · have hinq := (h.arm.level m).consistent.inSlot q hq
      refine update_of_ne (h.known.current_ne hin hinq ?_) ..
      rintro rfl
      exact hm (((h.arm.level m).level _ q hinq).symm.trans ((h.arm.level level).level _ q hin))
    · rw [InitOwed,InitOwed,handlingInit,handlingInit,hi]
      exact id
    · show (update s.raised (s.current r) _ n).fate=_
      have hne : n≠s.current r := by
        rintro rfl
        rw [(h.known.scheduled level _ r hin).2.1] at hf
        cases hf
      rw [update_of_ne hne]
      exact hf
    · refine iff_of_false (fun hx => hx.elim (fun hx => ?_) (by rintro ⟨⟩)) (hbusy m)
      cases hx
      exact hm rfl

theorem Inv.ackIntr (h : s.Inv b) (level : Fin 4) (hw : s.worker=.acking level) : (s.ackIntr level).Inv b := by
  refine ⟨h.arm,⟨h.orderly.notNoop,h.orderly.accepted,h.orderly.ending⟩,h.todo,
    h.put.later rfl rfl rfl rfl rfl rfl fun _ => rfl,
    h.known.later rfl rfl rfl rfl rfl rfl fun _ => id,fun m => (h.level m).same
      ⟨Iff.rfl,Iff.rfl,rfl,fun _ _ => ⟨rfl,rfl⟩,rfl,Iff.rfl,Iff.rfl,rfl,rfl,rfl,rfl,?_,
        fun _ _ => id,fun he => ?_⟩⟩
  · rw [InitOwed,InitOwed,handlingInit,handlingInit,hw]
    exact id
  have hidle : ¬Busy m (s.ackIntr level).worker := by simp [Busy,IntrSystem.ackIntr]
  rw [if_neg hidle,add_zero]
  show (update s.pru.arb.intrMaster level _ (m : Nat)).signaled =
    (update s.pru.arb.intrMaster level _ (m : Nat)).acked+_
  by_cases hm : m=level
  · subst hm
    rw [hw,if_pos (show Busy m (.acking m) from .inr rfl)] at he
    rw [update_self]
    show (s.pru.arb.intrMaster m).signaled=(s.pru.arb.intrMaster m).acked+1+_
    rw [he]
    ring
  · have hno : ¬Busy m s.worker := by
      rw [hw]
      refine fun hx => hx.elim (by rintro ⟨⟩) fun hx => ?_
      cases hx
      exact hm rfl
    rw [update_of_ne fun hx => hm (Fin.ext hx)]
    rw [if_neg hno,add_zero] at he
    exact he

theorem Inv.cancelAll [DecidableEq ι] (h : s.Inv b) (hu : s.todo=[])
    (hw : s.worker=.initRaised) : (s.cancelAll b).Inv b := by
  have hfate (n : Nat) : ((s.cancelAll b).raised n).fate =
        (if n<s.count ∧ (s.raised n).fate=.pending then .withdrawn else (s.raised n).fate) ∧
      ((s.cancelAll b).raised n).request=(s.raised n).request := by
    show (ite (_ ∧ _) _ _ : Raised ι).fate=_ ∧ (ite (_ ∧ _) _ _ : Raised ι).request=_
    split_ifs <;> exact ⟨rfl,rfl⟩
  refine ⟨h.arm.cancelAll,h.orderly,.cancel _ fun _ _ => rfl,.of_not rfl,?_,fun level => ?_⟩
  · refine ⟨by rintro _ _ _ ⟨⟩,fun n hn hf => ?_,fun n hn hf => ?_,by rintro _ _ _ ⟨⟩,
      fun level n hn => ?_,h.known.own⟩
    · rw [(hfate n).1] at hf
      split_ifs at hf with hp
      exact absurd ⟨hn,hf⟩ hp
    · rw [(hfate n).1] at hf
      split_ifs at hf with hp
      show ∃ v,(ite _ _ (s.raised n)).answers=[v] ∧ (ite _ _ (s.raised n)).handed=some v
      rw [if_neg hp]
      exact h.known.retired n hn hf
    · rw [(hfate n).2]
      exact h.known.onPru level n hn
  · refine (h.level level).of_cancels ⟨intrMask,mem_singleton.mpr rfl,intrMask_getLsbD level⟩ ?_
      rfl rfl rfl ?_
    · cases hr : (s.arm.br level).active with
      | none =>
        have hq := (h.level level).free (hu ▸ not_cancels_nil) hr
        exact .inl ⟨hq.requests,hq.acknowledging,hq.event⟩
      | some r =>
        obtain ⟨hon,-⟩ := (h.level level).stage (hu ▸ not_cancels_nil) (hu ▸ not_hands_nil) r hr
        obtain ⟨hlt,hpend,-⟩ := h.known.scheduled level _ r
          ((h.arm.level level).consistent.inSlot r hr)
        exact .inr ⟨s.current r,hon,(hfate _).1.trans (if_pos ⟨hlt,hpend⟩)⟩
    · rw [hw]
      simp [Busy,IntrSystem.cancelAll]

theorem Inv.goOn (h : s.Inv b) (ht : s.goOn=some t) : t.Inv b := by
  rw [IntrSystem.goOn] at ht
  split at ht <;> rename_i hw
  · split_ifs at ht
    cases ht
    refine h.atWork _ (fun m => ?_) (by rw [handlingInit,handlingInit,hw]; rfl)
    rw [hw]
    exact ⟨fun hx => hx.elim (by rintro ⟨⟩) fun hx => .inl (by cases hx; rfl),
      fun hx => hx.elim (fun hx => .inr (by cases hx; rfl)) (by rintro ⟨⟩)⟩
  · split_ifs at ht
    cases ht
    exact h.atWork _ (fun m => by rw [hw]; simp [Busy])
      (by rw [handlingInit,handlingInit,hw]; rfl)
  · cases ht
    exact h.atWork _ (fun m => by rw [hw]; simp [Busy])
      (by rw [handlingInit,handlingInit,hw]; rfl)
  · -- the event of INIT is acknowledged
    cases ht
    refine ⟨h.arm,h.orderly,h.todo,h.put.later rfl rfl rfl rfl rfl rfl fun _ => rfl,
      h.known.later rfl rfl rfl rfl rfl rfl fun _ => id,fun level => (h.level level).same
        ⟨Iff.rfl,Iff.rfl,rfl,fun _ _ => ⟨rfl,rfl⟩,rfl,Iff.rfl,Iff.rfl,rfl,rfl,rfl,rfl,?_,
          fun _ _ => id,?_⟩⟩
    · rw [InitOwed,InitOwed,handlingInit,handlingInit,hw]
      exact id
    · rw [hw]
      have hno : ¬Busy level .initLowered := by simp [Busy]
      have hidle : ¬Busy level .idle := by simp [Busy]
      rw [if_neg hno,if_neg hidle]
      exact id
  · cases ht

end IntrSystem

end QUniLator.Adapter
