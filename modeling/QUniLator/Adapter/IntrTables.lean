import QUniLator.Adapter.DmaTables

namespace QUniLator.Adapter

open Option Function Level

/-- A command for the PRU: the interrupt request of a level, or the levels withdrawn. -/
inductive IntrCommand
  | intr (level : Fin 4) (vector : Word) (handle : Nat) (value : Word)
  | cancel (bits : Mask)
  deriving DecidableEq

/-- A register a device changes with an interrupt: whose it is, its handle, and the value -/
structure IntrRegister (δ : Type) where
  device : δ
  handle : Nat
  value : Word

/-- The tables of the levels BR4 to BR7, with the requests. `register` is the interrupt register of a
request, by its handle, and the value it is to take. -/
structure IntrTables (ι : Type) where
  br : Fin 4 → Level ι
  executing : ι → Bool
  complete : ι → Bool
  vector : ι → Word
  register : ι → Option (Nat × Word)

namespace IntrTables

variable {ρ ι δ : Type} [DecidableEq ι] [DecidableEq δ]

def setLevel (level : Fin 4) (l : Level ι) (s : IntrTables ι) : IntrTables ι :=
  { s with br := update s.br level l }

def setExecuting (r : ι) (x : Bool) (s : IntrTables ι) : IntrTables ι :=
  { s with executing := update s.executing r x }

def setComplete (r : ι) (x : Bool) (s : IntrTables ι) : IntrTables ι :=
  { s with complete := update s.complete r x }

/-- `request_execute_active_on_PRU` of an interrupt level -/
def executeActive (level : Fin 4) (s : IntrTables ι) : Option (IntrTables ι × List IntrCommand) :=
  match (s.br level).active with
  | none => none
  | some r =>
    let (handle,value) := (s.register r).getD (0,0)
    pure (s.setExecuting r true,[.intr level (s.vector r) handle value])

/-- `request_activate_lowest_slot`, and the request executed if there is one -/
def activateNext (level : Fin 4) (s : IntrTables ι) : Option (IntrTables ι × List IntrCommand) := do
  let l ← (s.br level).activateLowest
  let s := s.setLevel level l
  if l.active.isSome then s.executeActive level else pure (s,[])

/-- `request_active_complete`, with the request signalled as complete -/
def activeComplete (b : Board ρ ι δ) (level : Fin 4) (s : IntrTables ι) : Option (IntrTables ι) := do
  let (l,r) ← (s.br level).activeComplete b.intrSlot
  let s := s.setLevel level l
  match r with
  | none => pure s
  | some r => pure ((s.setExecuting r false).setComplete r true)

/-- `request_schedule` of an interrupt request -/
def schedule (b : Board ρ ι δ) (r : ι) (s : IntrTables ι) : Option (IntrTables ι) :=
  let level := b.intrLevel r
  let scheduled := s.setLevel level ((s.br level).put (b.intrSlot r) r)
  match (s.br level).slotRequest (b.intrSlot r) with
  | some q => if b.device q≠b.device r then none else pure scheduled
  | none => pure scheduled

/-- A re-raise finds `q` in the slot of `r`: it is ignored, but for a vector that moved before the
request went to the PRU. -/
def reraise (b : Board ρ ι δ) (r q : ι) (s : IntrTables ι) : IntrTables ι :=
  if b.device q=b.device r ∧ s.vector q≠s.vector r ∧ ¬s.executing q then
    { s with vector := update s.vector q (s.vector r) }
  else s

def setVector (r : ι) (vector : Word) (s : IntrTables ι) : Option (IntrTables ι) := do
  assert (vector &&& 3=0)
  pure { s with vector := update s.vector r vector }

/-- `INTR()`. `blocking` tells of a request of this or a higher level that is pending: then the
register is written at once, and is none of the PRU's. -/
def intr (b : Board ρ ι δ) (r : ι) (register : Option (IntrRegister δ)) (initActive blocking : Bool)
    (s : IntrTables ι) : Option (IntrTables ι × List IntrCommand) := do
  let level := b.intrLevel r
  assert (s.vector r &&& 3=0)
  if initActive then pure (s.setComplete r true,[])
  else
    match (s.br level).slotRequest (b.intrSlot r) with
    | some q => pure (s.reraise b r q,[])
    | none => do
      assert (register.all fun x => b.device r=x.device)
      let s := (s.setComplete r false).setExecuting r false
      let register := register.map fun x => (x.handle,x.value)
      let s := { s with
        register := update s.register r (if blocking then none else register) }
      let s ← s.schedule b r
      if (s.br level).active.isNone then do
        let l ← (s.br level).activateLowest
        (s.setLevel level l).executeActive level
      else pure (s,[])

/-- `assert((prl->slot_request_mask == 0) == (prl->active == NULL))` -/
def assertBusy (level : Fin 4) (s : IntrTables ι) : Option Unit :=
  assert (((s.br level).slotRequestMask=0) == (s.br level).active.isNone)

def cancelIntr (b : Board ρ ι δ) (r : ι) (s : IntrTables ι) : Option (IntrTables ι × List IntrCommand) :=
  let level := b.intrLevel r
  match (s.br level).slotRequest (b.intrSlot r) with
  | none => pure (s,[])
  | some _ =>
    if (s.br level).active=some r then do
      let s ← s.activeComplete b level
      let (s,commands) ← s.activateNext level
      s.assertBusy level
      pure (s,.cancel (levelBit level)::commands)
    else do
      let s := (s.setLevel level ((s.br level).clear (b.intrSlot r))).setComplete r true
      s.assertBusy level
      pure (s,[])

/-- `worker_intr_complete_event` -/
def completeEvent (b : Board ρ ι δ) (level : Fin 4) (s : IntrTables ι) :
    Option (IntrTables ι × List IntrCommand) := do
  let s ← s.activeComplete b level
  s.activateNext level

def scheduled (b : Board ρ ι δ) (r : ι) (s : IntrTables ι) : Bool :=
  (List.finRange 32).any fun t : Slot => (s.br (b.intrLevel r)).slotRequest t=some r

/-- `requests_cancel_all`: every scheduled request is complete, the tables are empty, and the PRU's
requests are withdrawn. -/
def cancelAll (b : Board ρ ι δ) (s : IntrTables ι) : IntrTables ι × List IntrCommand :=
  ({ s with
    br := fun _ => .init
    executing := fun r => s.executing r && !s.scheduled b r
    complete := fun r => s.complete r || s.scheduled b r },[.cancel intrMask])

/-- The tables of a level agree, and its requests are of this level. -/
structure Placed (b : Board ρ ι δ) (level : Fin 4) (l : Level ι) : Prop where
  consistent : l.Consistent b.intrSlot
  level : ∀ t r,l.slotRequest t=some r → b.intrLevel r=level

/-- Something is active, too, where anything is scheduled. -/
structure Kept (b : Board ρ ι δ) (level : Fin 4) (l : Level ι) : Prop extends Placed b level l where
  busy : l.Busy

/-- This holds of every level, and every vector is one of two words. -/
structure Inv (b : Board ρ ι δ) (s : IntrTables ι) : Prop where
  level : ∀ level,Kept b level (s.br level)
  vector : ∀ r,s.vector r &&& 3=0

variable {b : Board ρ ι δ} {s : IntrTables ι} {level : Fin 4}

omit [DecidableEq ι] [DecidableEq δ]

theorem init_kept (b : Board ρ ι δ) (level : Fin 4) : Kept b level (.init : Level ι) :=
  ⟨⟨init_consistent,nofun⟩,init_busy⟩

variable {l : Level ι} {r : ι}

theorem Kept.assertBusy (h : Kept b level l) : ((l.slotRequestMask=0) == l.active.isNone)=true := by
  rw [beq_iff_eq]
  cases ha : l.active with
  | none => simp [h.busy ha]
  | some r =>
    have hbit := h.consistent.bit (b.intrSlot r)
    rw [h.consistent.inSlot r ha] at hbit
    by_cases hz : l.slotRequestMask=0
    · rw [hz] at hbit; simp at hbit
    · simpa using hz

theorem Placed.put (h : Placed b (b.intrLevel r) l) (hr : l.slotRequest (b.intrSlot r)=none) :
    Placed b (b.intrLevel r) (l.put (b.intrSlot r) r) := by
  refine ⟨h.consistent.put hr,fun t q hq => ?_⟩
  by_cases ht : t=b.intrSlot r
  · rw [ht,put_self] at hq
    cases hq; rfl
  · rw [put_of_ne r ht] at hq
    exact h.level t q hq

theorem Placed.clear (h : Placed b level l) {t : Slot}
    (ha : ∀ r,l.active=some r → b.intrSlot r≠t) : Placed b level (l.clear t) := by
  refine ⟨h.consistent.clear ha,fun u q hq => ?_⟩
  by_cases hu : u=t
  · rw [hu,clear_self] at hq; cases hq
  · rw [clear_of_ne hu] at hq
    exact h.level u q hq

theorem Placed.activeComplete [DecidableEq ι] (h : Placed b level l) :
    ∃ l',l.activeComplete b.intrSlot=some (l',l.active) ∧ Placed b level l' ∧ l'.active=none := by
  obtain ⟨l',hl,hc,ha,hsome,hnone⟩ := h.consistent.activeComplete
  refine ⟨l',hl,⟨hc,fun t q hq => ?_⟩,ha⟩
  cases hr : l.active with
  | none =>
    rw [hnone hr] at hq
    exact h.level t q hq
  | some r =>
    rw [hsome r hr] at hq
    have hd : Placed b level { l with active := none } := ⟨h.consistent.deactivate,h.level⟩
    exact (hd.clear nofun (t := b.intrSlot r)).level t q hq

theorem Inv.setLevel (h : s.Inv b) (hl : Kept b level l) : (s.setLevel level l).Inv b := by
  refine ⟨fun m => ?_,h.vector⟩
  by_cases hm : m=level
  · subst hm
    simpa [IntrTables.setLevel] using hl
  · simpa [IntrTables.setLevel,hm] using h.level m

@[simp] theorem setLevel_br (s : IntrTables ι) (l : Level ι) : (s.setLevel level l).br level=l :=
  update_self ..

@[simp] theorem setLevel_setLevel (s : IntrTables ι) (l l' : Level ι) :
    (s.setLevel level l).setLevel level l'=s.setLevel level l' := by
  simp [IntrTables.setLevel]

/-- What goes to the PRU of a level that had nothing active: its next request, if there is one. -/
inductive Next (level : Fin 4) (l : Level ι) : List IntrCommand → Prop
  | none (ha : l.active=none) : Next level l []
  | some (r : ι) (vector : Word) (handle : Nat) (value : Word) (ha : l.active=some r) :
    Next level l [.intr level vector handle value]

theorem Inv.activateNext [DecidableEq ι] (h : s.Inv b) (hl : Placed b level l) (ha : l.active=none) :
    ∃ s' commands l',(s.setLevel level l).activateNext level=some (s',commands) ∧ s'.Inv b ∧
      s'.br=update s.br level l' ∧ l'.slotRequest=l.slotRequest ∧ Next level l' commands := by
  obtain ⟨r,hr,hc,hb⟩ := hl.consistent.activateLowest ha
  have hk : Kept b level { l with active := r } := ⟨⟨hc,hl.level⟩,hb⟩
  rw [IntrTables.activateNext,setLevel_br,hr]
  simp only [bind_eq_bind,bind_some,setLevel_setLevel]
  cases r with
  | none => exact ⟨_,_,_,rfl,h.setLevel hk,rfl,rfl,.none rfl⟩
  | some r =>
    simp only [IntrTables.executeActive,setLevel_br,isSome_some,if_true]
    exact ⟨_,_,_,rfl,⟨(h.setLevel hk).level,h.vector⟩,rfl,rfl,.some r _ _ _ rfl⟩

theorem Inv.withVector [DecidableEq ι] (h : s.Inv b) (r : ι) {v : Word} (hv : v &&& 3=0) :
    ({ s with vector := update s.vector r v } : IntrTables ι).Inv b := by
  refine ⟨h.level,fun q => ?_⟩
  show update s.vector r v q &&& 3=0
  by_cases hq : q=r
  · rw [hq,update_self]; exact hv
  · rw [update_of_ne hq]; exact h.vector q

theorem Inv.setVector [DecidableEq ι] (h : s.Inv b) (r : ι) {v : Word} (hv : v &&& 3=0) :
    ∃ s',s.setVector r v=some s' ∧ s'.Inv b := by
  rw [IntrTables.setVector,hv]
  exact ⟨_,rfl,h.withVector r hv⟩

theorem Inv.reraise [DecidableEq ι] [DecidableEq δ] (h : s.Inv b) (r q : ι) : (s.reraise b r q).Inv b := by
  rw [IntrTables.reraise]
  split_ifs
  · exact h.withVector q (h.vector r)
  · exact h

theorem active_of_put (ha : l.active≠none)
    (hp : Placed b level (l.put (b.intrSlot r) r)) : Kept b level (l.put (b.intrSlot r) r) :=
  ⟨hp,fun hn => absurd hn ha⟩

theorem Inv.accept [DecidableEq ι] [DecidableEq δ] (h : s.Inv b) (r : ι)
    (register : Option (IntrRegister δ)) (hreg : ∀ x∈register,x.device=b.device r)
    (blocking : Bool) (hs : (s.br (b.intrLevel r)).slotRequest (b.intrSlot r)=none) :
    ∃ s' commands l',s.intr b r register false blocking=some (s',commands) ∧ s'.Inv b ∧
      s'.br=update s.br (b.intrLevel r) l' ∧
      l'.slotRequest=update (s.br (b.intrLevel r)).slotRequest (b.intrSlot r) (some r) ∧
      ((s.br (b.intrLevel r)).active≠none ∧ l'.active=(s.br (b.intrLevel r)).active ∧ commands=[] ∨
      (s.br (b.intrLevel r)).active=none ∧ Next (b.intrLevel r) l' commands) := by
  have hall : (register.all fun x => b.device r=x.device)=true := by
    cases register with
    | none => rfl
    | some x => simp [hreg x rfl]
  rw [IntrTables.intr,h.vector r]
  simp only [decide_true,assert_true,bind_eq_bind,bind_some]
  rw [if_neg (by decide)]
  have hk := h.level (b.intrLevel r)
  have hput := hk.toPlaced.put hs
  have hi : ({ (s.setComplete r false).setExecuting r false with
      register := update s.register r
        (if blocking then none else register.map fun x => (x.handle,x.value)) } :
      IntrTables ι).Inv b := ⟨h.level,h.vector⟩
  simp only [hall,assert_true,bind_some,schedule,setExecuting,setComplete,hs]
  simp only [pure_def,bind_some,setLevel_br]
  by_cases ha : (s.br (b.intrLevel r)).active=none
  case neg =>
    rw [if_neg (by simpa [Level.put] using ha)]
    exact ⟨_,_,_,rfl,hi.setLevel (active_of_put ha hput),rfl,rfl,.inl ⟨ha,rfl,rfl⟩⟩
  rw [if_pos (show ((s.br (b.intrLevel r)).put (b.intrSlot r) r).active.isNone=true by
    simp [Level.put,ha])]
  obtain ⟨q,hq,hc,hb⟩ := hput.consistent.activateLowest ha
  rw [hq]
  simp only [bind_some,setLevel_setLevel,executeActive,setLevel_br]
  cases q with
  | none =>
    have hbit := hput.consistent.bit (b.intrSlot r)
    rw [put_self,show ((s.br (b.intrLevel r)).put (b.intrSlot r) r).slotRequestMask=0
      from hb rfl] at hbit
    simp at hbit
  | some q =>
    exact ⟨_,_,_,rfl,⟨(hi.setLevel ⟨⟨hc,hput.level⟩,hb⟩).level,h.vector⟩,rfl,rfl,
      .inr ⟨ha,.some q _ _ _ rfl⟩⟩

theorem Inv.decline [DecidableEq ι] [DecidableEq δ] (h : s.Inv b) (r : ι)
    (register : Option (IntrRegister δ)) (initActive blocking : Bool)
    (hs : initActive ∨ (s.br (b.intrLevel r)).slotRequest (b.intrSlot r)≠none) :
    ∃ s',s.intr b r register initActive blocking=some (s',[]) ∧ s'.Inv b ∧ s'.br=s.br := by
  rw [IntrTables.intr,h.vector r]
  simp only [decide_true,assert_true,bind_eq_bind,bind_some]
  cases initActive with
  | true => exact ⟨_,rfl,⟨h.level,h.vector⟩,rfl⟩
  | false =>
    obtain ⟨q,hq⟩ := ne_none_iff_exists'.mp (hs.resolve_left (by decide))
    rw [if_neg (by decide),hq]
    refine ⟨_,rfl,h.reraise r q,?_⟩
    rw [IntrTables.reraise]
    split_ifs <;> rfl

theorem Inv.intr [DecidableEq ι] [DecidableEq δ] (h : s.Inv b) (r : ι)
    (register : Option (IntrRegister δ)) (hreg : ∀ x∈register,x.device=b.device r) (initActive blocking : Bool) :
    ∃ s' commands,s.intr b r register initActive blocking=some (s',commands) ∧ s'.Inv b := by
  by_cases hs : initActive=true ∨ (s.br (b.intrLevel r)).slotRequest (b.intrSlot r)≠none
  · obtain ⟨s',hs',hi,-⟩ := h.decline r register initActive blocking hs
    exact ⟨s',[],hs',hi⟩
  · obtain ⟨hinit,hfree⟩ := not_or.mp hs
    rw [Bool.not_eq_true] at hinit
    subst hinit
    obtain ⟨s',c,l',hs',hi,-⟩ := h.accept r register hreg blocking (not_not.mp hfree)
    exact ⟨s',c,hs',hi⟩

theorem Inv.replaceActive [DecidableEq ι] (h : s.Inv b) (ha : (s.br level).active=some r) :
    ∃ s1 s2 commands l',s.activeComplete b level=some s1 ∧
      s1.activateNext level=some (s2,commands) ∧ s2.Inv b ∧ s2.br=update s.br level l' ∧
      l'.slotRequest=update (s.br level).slotRequest (b.intrSlot r) none ∧ Next level l' commands := by
  obtain ⟨l,hl,hc,hla,hsome,-⟩ := (h.level level).consistent.activeComplete
  obtain ⟨l1,hl1,hp,-⟩ := (h.level level).toPlaced.activeComplete
  have heq : l1=l := by
    rw [hl] at hl1
    cases hl1; rfl
  rw [heq] at hp
  have hi : ((s.setExecuting r false).setComplete r true).Inv b := ⟨h.level,h.vector⟩
  obtain ⟨s2,c,l',hn,hi2,hbr,hslot,hnext⟩ := hi.activateNext hp hla
  rw [ha] at hl
  refine ⟨((s.setExecuting r false).setComplete r true).setLevel level l,s2,c,l',?_,hn,hi2,hbr,?_,
    hnext⟩
  · rw [IntrTables.activeComplete,hl]
    rfl
  · rw [hslot,hsome r ha]
    rfl

theorem Inv.cancelActive [DecidableEq ι] (h : s.Inv b) (ha : (s.br (b.intrLevel r)).active=some r) :
    ∃ s' commands l',s.cancelIntr b r = some (s',.cancel (levelBit (b.intrLevel r))::commands) ∧ s'.Inv b ∧
      s'.br=update s.br (b.intrLevel r) l' ∧
      l'.slotRequest=update (s.br (b.intrLevel r)).slotRequest (b.intrSlot r) none ∧
      Next (b.intrLevel r) l' commands := by
  obtain ⟨s1,s2,c,l',h1,h2,hi,hbr,hslot,hnext⟩ := h.replaceActive ha
  refine ⟨s2,c,l',?_,hi,hbr,hslot,hnext⟩
  rw [IntrTables.cancelIntr,(h.level _).consistent.inSlot r ha]
  simp only [if_pos ha,h1,h2,bind_eq_bind,bind_some,pure_def,
    IntrTables.assertBusy,(hi.level _).assertBusy,assert_true]

theorem Inv.cancelWaiting [DecidableEq ι] (h : s.Inv b) (hn : (s.br (b.intrLevel r)).active≠some r)
    (hr : ∀ q,(s.br (b.intrLevel r)).active=some q → b.intrSlot q≠b.intrSlot r) :
    ∃ s' l',s.cancelIntr b r=some (s',[]) ∧ s'.Inv b ∧ s'.br=update s.br (b.intrLevel r) l' ∧
      l'.slotRequest=update (s.br (b.intrLevel r)).slotRequest (b.intrSlot r) none ∧
      l'.active=(s.br (b.intrLevel r)).active := by
  have hk := h.level (b.intrLevel r)
  rw [IntrTables.cancelIntr]
  cases hs : (s.br (b.intrLevel r)).slotRequest (b.intrSlot r) with
  | none =>
    refine ⟨s,s.br (b.intrLevel r),rfl,h,?_,?_,rfl⟩
    · rw [update_eq_self]
    · rw [← hs,update_eq_self]
  | some p =>
    simp only [if_neg hn]
    have hc := hk.toPlaced.clear (t := b.intrSlot r) hr
    have hk' : Kept b (b.intrLevel r) ((s.br (b.intrLevel r)).clear (b.intrSlot r)) := by
      refine ⟨hc,fun hn => ?_⟩
      have hz := hk.busy hn
      show (s.br (b.intrLevel r)).slotRequestMask &&& _=0
      rw [hz]; simp
    have hi := h.setLevel hk'
    simp only [bind_eq_bind,bind_some,pure_def,IntrTables.assertBusy,
      setComplete,setLevel_br,hk'.assertBusy,assert_true]
    exact ⟨_,_,rfl,⟨hi.level,hi.vector⟩,rfl,rfl,rfl⟩

theorem Inv.cancelIntr [DecidableEq ι] (h : s.Inv b)
    (hr : ∀ q,(s.br (b.intrLevel r)).active=some q → b.intrSlot q=b.intrSlot r → q=r) :
    ∃ s' commands,s.cancelIntr b r=some (s',commands) ∧ s'.Inv b := by
  by_cases ha : (s.br (b.intrLevel r)).active=some r
  · obtain ⟨s',c,l',hs',hi,-⟩ := h.cancelActive ha
    exact ⟨s',_,hs',hi⟩
  · obtain ⟨s',l',hs',hi,-⟩ := h.cancelWaiting ha fun q hq he => ha (hr q hq he ▸ hq)
    exact ⟨s',[],hs',hi⟩

theorem Inv.completeEvent [DecidableEq ι] (h : s.Inv b) (level : Fin 4) :
    ∃ s' commands,s.completeEvent b level=some (s',commands) ∧ s'.Inv b := by
  cases ha : (s.br level).active with
  | none =>
    obtain ⟨l,hl,hp,hla⟩ := (h.level level).toPlaced.activeComplete
    obtain ⟨s',c,l',hn,hi,-⟩ := h.activateNext hp hla
    rw [ha] at hl
    rw [IntrTables.completeEvent,IntrTables.activeComplete,hl]
    exact ⟨s',c,hn,hi⟩
  | some r =>
    obtain ⟨s1,s2,c,l',h1,h2,hi,-⟩ := h.replaceActive ha
    refine ⟨s2,c,?_,hi⟩
    rw [IntrTables.completeEvent,h1]
    exact h2

theorem Inv.cancelAll [DecidableEq ι] (h : s.Inv b) : (s.cancelAll b).1.Inv b :=
  ⟨fun level => init_kept b level,h.vector⟩

end IntrTables

end QUniLator.Adapter
