import Mathlib.Data.List.FinRange
import QUniLator.Display.Vcb01Input

namespace QUniLator.Display

open Option

namespace Input

/-- `interrupt_pending`: an enabled condition of the DUART stands. -/
def interruptPending (s : Input) : Bool := s.ists &&& s.imask≠0

end Input

abbrev duartSource : Fin 8 := 0

abbrev vsyncSource : Fin 8 := 1

abbrev namedSource (value : Nat) : Fin 8 := Fin.ofNat 8 value

/-- The request at the adapter: none, one in the schedule table, whose vector can still change, or one that the
PRU has, for a source and with its vector -/
inductive Request
  | idle
  | waiting
  | handed (source : Fin 8) (vector : Nat)
  deriving DecidableEq,Repr

/-- The controller with its registers. `icdr` is what the bus reads from the data port. `requestVector` is that of the
one request object, of source `requestFor`, and `granted` the interrupts granted. -/
structure Board where
  desk : Vcb01
  ien : Bool
  vector : Fin 8 → Nat
  irr : Fin 8 → Bool
  imr : Fin 8 → Bool
  isr : Fin 8 → Bool
  acr : Fin 8 → Bool
  masterMask : Bool
  preselect : Nat
  ptr : Nat
  icdr : Fin 8 → Bool
  requestVector : Nat
  requestFor : Fin 8
  request : Request
  granted : List (Fin 8 × Nat)

/-- `desk` is a step of DUART, keyboard and pointer; `csr` writes the interrupt enable bit, `icdr` and `icsr` the
ports of the controller; a read of the data port is a bus cycle and its callback; the request is granted at any time.
-/
inductive BoardStep
  | desk (e : Vcb01Step)
  | csr (ien : Bool)
  | icdr (value : Nat)
  | icsr (value : Nat)
  | icdrCycle
  | icdrCallback
  | vsync
  | handOver
  | grant
  deriving DecidableEq,Repr

namespace Board

variable (s : Board)

def start : Board :=
  ⟨.start,false,fun _ => 0,fun _ => false,fun _ => true,fun _ => false,fun _ => false,false,0,0,fun _ => false,0,0,.idle,
    []⟩

def enabled : Bool := s.ien && s.masterMask

def pending (i : Fin 8) : Bool := s.irr i && !s.imr i

def lowest : Option (Fin 8) := (List.finRange 8).find? s.pending

def refresh : Board := { s with irr := Function.update s.irr duartSource s.desk.input.interruptPending }

/-- `INTR`: a request that stands already is left as it is. -/
def intr : Board := { s with request := if s.request=.idle then .waiting else s.request }

def post (i : Fin 8) : Board :=
  intr { s with isr := Function.update s.isr i true
                irr := if s.acr i then Function.update s.irr i false else s.irr
                requestVector := s.vector i
                requestFor := i }

def updateInterrupt : Board :=
  let s := s.refresh
  if s.enabled=false then { s with request := .idle }
  else match s.lowest with
    | none => { s with request := .idle }
    | some i => s.post i

def readIntcData : Fin 8 → Bool :=
  match s.preselect with
  | 0 => s.isr
  | 1 => s.imr
  | 2 => s.irr
  | _ => s.acr

def bits (value : Nat) (i : Fin 8) : Bool := value.testBit i

def writeIntcData (value : Nat) : Board :=
  if s.ptr=8 then { s with imr := bits value }
  else if s.ptr=9 then { s with acr := bits value }
  else { s with vector := Function.update s.vector (namedSource s.ptr) (value/4*4) }

def setBits (f : Fin 8 → Bool) (oneBit : Bool) (which : Fin 8) (b : Bool) : Fin 8 → Bool :=
  if oneBit then Function.update f which b else fun _ => b

def clearHighest : Fin 8 → Bool :=
  match (List.finRange 8).find? s.isr with
  | some i => Function.update s.isr i false
  | none => s.isr

def writeIntcCommand (value : Nat) : Board :=
  let oneBit := value.testBit 3
  let which := namedSource value
  match value/0x10%0x10 with
  | 0 => { s with vector := fun _ => 0,irr := fun _ => false,imr := fun _ => true,isr := fun _ => false,
                  acr := fun _ => false,masterMask := false,preselect := 0,ptr := 0 }
  | 2 => { s with irr := setBits s.irr oneBit which false,imr := setBits s.imr oneBit which false }
  | 3 => { s with imr := setBits s.imr oneBit which true }
  | 4 => { s with irr := setBits s.irr oneBit which false }
  | 6 => { s with isr := s.clearHighest }
  | 7 => { s with isr := setBits s.isr oneBit which false }
  | 10 => { s with preselect := value/4%4,
                   masterMask := if value%4=1 ∨ value%4=2 then value.testBit 0 else s.masterMask }
  | 11 => { s with ptr := 8 }
  | 12 => { s with ptr := 9 }
  | 14 => { s with ptr := value%8 }
  | _ => s

def posted : Option (Fin 8 × Nat) :=
  match s.request with
  | .idle => none
  | .waiting => some (s.requestFor,s.requestVector)
  | .handed i v => some (i,v)

/-- What a step changes before `update_interrupt` is called -/
def change : BoardStep → Option Board
  | .desk e => (s.desk.step e).map fun d => { s with desk := d }
  | .csr ien => some { s with ien := ien }
  | .icdr value => some (s.writeIntcData (value%0x100))
  | .icsr value => some (s.writeIntcCommand (value%0x100))
  | .icdrCycle => some s
  | .icdrCallback => some { s with icdr := s.readIntcData }
  | .vsync => some { s with irr := Function.update s.irr vsyncSource true }
  | .handOver =>
    if s.request=.waiting then some { s with request := .handed s.requestFor s.requestVector } else none
  | .grant =>
    match s.request with
    | .handed i v => some { s with request := .idle,granted := s.granted++[(i,v)] }
    | .idle | .waiting => none

/-- The step calls `update_interrupt`. -/
def updates : BoardStep → Bool
  | .desk .callback | .desk (.write _ _) | .icdr _ | .icsr _ | .vsync => true
  | .desk (.web es) => !es.isEmpty
  | .desk .windowDone => s.desk.changed
  | .csr ien => ien != s.ien
  | .desk (.cycle _) | .desk (.window _) | .icdrCycle | .icdrCallback | .handOver | .grant => false

def step (e : BoardStep) : Option Board :=
  (s.change e).map fun t => if s.updates e then t.updateInterrupt else t

variable {s t : Board}

/-- The sources that were raised and neither granted nor cleared since, and the DUART's condition when it was
looked at last -/
structure Raises where
  stands : Fin 8 → Bool
  duart : Bool

/-- The host clears requests: a reset of the controller, or a clearing of the IRR. -/
def clears : BoardStep → Fin 8 → Bool
  | .icsr value,i =>
    let command := value%0x100/0x10%0x10
    command=0 || (command=2 || command=4) && (!value.testBit 3 || namedSource value=i)
  | _,_ => false

/-- A step raises a source: vertical sync, or the DUART when its condition comes up. `t` is the board before
`update_interrupt`. -/
def raises (x : Raises) (e : BoardStep) (t : Board) (i : Fin 8) : Bool :=
  match e with
  | .vsync => i=vsyncSource || i=duartSource && t.desk.input.interruptPending && !x.duart
  | _ => i=duartSource && t.desk.input.interruptPending && !x.duart

/-- The raises after `update_interrupt`: of a masked source they are what the IRR has. -/
def Raises.update (x : Raises) (e : BoardStep) (t : Board) : Raises where
  stands i :=
    if t.enabled && !t.imr i then
      x.stands i && !clears e i && (i≠duartSource || t.desk.input.interruptPending) || raises x e t i
    else t.refresh.irr i
  duart := t.desk.input.interruptPending

def Raises.grant (x : Raises) : Request → Raises
  | .handed i _ => { x with stands := Function.update x.stands i false }
  | .idle | .waiting => x

/-- `t` is the board before `update_interrupt`. -/
def Raises.after (x : Raises) (s : Board) (e : BoardStep) (t : Board) : Raises :=
  if s.updates e then x.update e t
  else match e with
    | .grant => x.grant s.request
    | _ => x

/-- Without the enables nothing is posted; what is posted is an unmasked source that was raised, with its vector; and
a source that was raised is posted, or waits behind one that is posted or in service. -/
structure Kept (s : Board) (x : Raises) : Prop where
  disabled : s.enabled=false → s.posted=none
  posted : ∀ p v,s.posted=some (p,v) → s.imr p=false ∧ x.stands p=true ∧ v=s.vector p
  stands : s.enabled=true → ∀ i,s.imr i=false → x.stands i=true →
    (∃ p v,s.posted=some (p,v) ∧ p ≤ i) ∨ s.posted=none ∧ ∃ p,p < i ∧ s.isr p=true

/-- A grant is for a source that was raised, with its vector, and ends that raise; a read of the data port
returns what the preselect names. -/
structure Serves (s : Board) (x : Raises) (e : BoardStep) (t : Board) : Prop where
  grant : e=.grant → ∃ p,t.granted=s.granted++[(p,s.vector p)] ∧ x.stands p=true ∧
    (x.grant s.request).stands p=false ∧ t.posted=none
  read : e=.icdrCycle → ∀ i,s.icdr i=s.readIntcData i

/-- A request that the PRU has is for the source that is to be posted, with its vector, or is withdrawn. -/
def HandedRight (t : Board) : Request → Prop
  | .handed p v => t.lowest=some p ∧ t.vector p=v ∨ t.lowest=none
  | .idle | .waiting => True

/-- Where `update_interrupt` is called with interrupts enabled, the unmasked bits of the IRR are the raises that
were not granted, and a request that the PRU has is for the lowest of them. -/
def CarefulUpdate (x : Raises) (e : BoardStep) (t : Board) : Prop :=
  t.enabled=true → (∀ i,t.imr i=false → t.refresh.irr i=(x.update e t).stands i) ∧
    t.refresh.HandedRight t.request

/-- The data port is read where the last read of it left what the preselect names. -/
def Careful (s : Board) (x : Raises) (e : BoardStep) : Prop :=
  (s.updates e=true → ∀ t∈s.change e,CarefulUpdate x e t) ∧ (e=.icdrCycle → ∀ i,s.icdr i=s.readIntcData i)

/-- A source that is posted is the lowest that stands, and is in service once it is granted. -/
structure Inv (s : Board) (x : Raises) : Prop where
  disabled : s.enabled=false → s.request=.idle
  posted : ∀ p v,s.posted=some (p,v) → s.imr p=false ∧ x.stands p=true ∧ v=s.vector p ∧
    s.isr p=true ∧ ∀ i,s.imr i=false → x.stands i=true → p ≤ i
  behind : s.enabled=true → s.request=.idle → ∀ i,s.imr i=false → x.stands i=true →
    ∃ p,p < i ∧ s.isr p=true

variable {x : Raises} {e : BoardStep}

theorem posted_none (h : s.request=.idle) : s.posted=none := by
  unfold posted
  rw [h]

theorem request_idle (h : s.posted=none) : s.request=.idle := by
  unfold posted at h
  split at h
  · assumption
  · cases h
  · cases h

theorem Inv.kept (h : s.Inv x) : s.Kept x := by
  refine ⟨fun hd => posted_none (h.disabled hd),fun p v hp => ?_,fun he i hi hs => ?_⟩
  · obtain ⟨h1,h2,h3,-⟩ := h.posted p v hp
    exact ⟨h1,h2,h3⟩
  · cases hp : s.posted with
    | none => exact .inr ⟨rfl,h.behind he (request_idle hp) i hi hs⟩
    | some pv =>
      obtain ⟨-,-,-,-,hle⟩ := h.posted pv.1 pv.2 hp
      exact .inl ⟨pv.1,pv.2,rfl,hle i hi hs⟩

theorem lowest_eq_some {p : Fin 8} (h : s.lowest=some p) : s.pending p ∧ ∀ i,s.pending i → p ≤ i := by
  unfold lowest at h
  obtain ⟨hp,k,hk,he,hlt⟩ := List.find?_eq_some_iff_getElem.mp h
  refine ⟨hp,fun i hi => ?_⟩
  by_contra hle
  rw [List.getElem_finRange] at he
  have hkp : k=p.val := by simpa using congrArg Fin.val he
  have hlt' : i.val<p.val := Fin.lt_def.mp (not_le.mp hle)
  have hik : i.val<k := by omega
  have := hlt i.val hik
  rw [List.getElem_finRange] at this
  have hii : s.pending i=false := by simpa using this
  rw [hi] at hii
  cases hii

theorem lowest_eq_none (h : s.lowest=none) (i : Fin 8) : s.pending i=false := by
  have := List.find?_eq_none.mp h i (List.mem_finRange i)
  simpa using this

theorem post_posted {p : Fin 8} (hl : s.lowest=some p) (hr : s.HandedRight s.request) :
    (s.post p).posted=some (p,s.vector p) := by
  unfold post intr posted
  dsimp only
  cases hq : s.request with
  | idle | waiting => rfl
  | handed q v =>
    rw [hq] at hr
    rcases hr with ⟨h1,h2⟩ | h1
    · obtain rfl : p=q := some.inj (hl.symm.trans h1)
      rw [h2]
      rfl
    · cases hl.symm.trans h1

theorem post_rest (s : Board) (p : Fin 8) : (s.post p).imr=s.imr ∧ (s.post p).vector=s.vector ∧
    (s.post p).enabled=s.enabled ∧ (s.post p).isr p=true := by
  refine ⟨rfl,rfl,rfl,?_⟩
  show Function.update s.isr p true p=true
  rw [Function.update_self]

theorem Inv.update (hc : CarefulUpdate x e t) : Inv t.updateInterrupt (x.update e t) := by
  have hidle (u : Board) (hu : u.request=.idle) (hnone : u.enabled=true → ∀ i,u.imr i=false →
      (x.update e t).stands i=true → False) : Inv u (x.update e t) := by
    refine ⟨fun _ => hu,fun p v hp => ?_,fun he _ i hi hs => (hnone he i hi hs).elim⟩
    rw [posted_none hu] at hp
    cases hp
  unfold updateInterrupt
  dsimp only
  by_cases hd : t.refresh.enabled=false
  · rw [if_pos hd]
    refine hidle _ rfl fun he => ?_
    rw [show t.refresh.enabled=true from he] at hd
    cases hd
  · rw [if_neg hd]
    have he : t.enabled=true := by
      cases hx : t.enabled with
      | true => rfl
      | false => exact absurd hx hd
    obtain ⟨hirr,hhand⟩ := hc he
    have hpend (i : Fin 8) (hi : t.imr i=false) (hs : (x.update e t).stands i=true) :
        t.refresh.pending i=true := by
      show (t.refresh.irr i && !t.imr i)=true
      rw [hirr i hi,hs,hi]
      rfl
    cases hl : t.refresh.lowest with
    | none =>
      refine hidle _ rfl fun _ i hi hs => ?_
      have hn := lowest_eq_none hl i
      rw [hpend i hi hs] at hn
      cases hn
    | some p =>
      obtain ⟨hp,hmin⟩ := lowest_eq_some hl
      have hpost := post_posted hl hhand
      obtain ⟨-,-,-,hisr⟩ := t.refresh.post_rest p
      have hboth : t.refresh.irr p=true ∧ t.imr p=false := by
        have : (t.refresh.irr p && !t.imr p)=true := hp
        simpa using this
      refine ⟨fun hx => ?_,fun q v hq => ?_,fun _ hx => ?_⟩
      · rw [show t.enabled=false from hx] at he
        cases he
      · obtain ⟨rfl,rfl⟩ := Prod.mk.inj (some.inj (hpost.symm.trans hq))
        refine ⟨hboth.2,?_,rfl,hisr,fun i hi hs => hmin i (hpend i hi hs)⟩
        rw [← hirr p hboth.2]
        exact hboth.1
      · dsimp only at hx
        rw [posted_none hx] at hpost
        cases hpost

theorem Inv.same (h : s.Inv x) (he : t.enabled=s.enabled) (hi : t.imr=s.imr) (hs : t.isr=s.isr)
    (hv : t.vector=s.vector) (hp : t.posted=s.posted) : t.Inv x := by
  refine ⟨fun hd => request_idle ?_,fun p v hx => ?_,fun hen hx i hm hst => ?_⟩
  · rw [hp]
    exact posted_none (h.disabled (he ▸ hd))
  · rw [hi,hv,hs]
    exact h.posted p v (hp ▸ hx)
  · rw [hs]
    exact h.behind (he ▸ hen) (request_idle (hp ▸ posted_none hx)) i (hi ▸ hm) hst

theorem Inv.granted (h : s.Inv x) {p : Fin 8} {v : Nat} (hr : s.request=.handed p v)
    (ht : t={ s with request := .idle,granted := s.granted++[(p,v)] }) :
    t.Inv (x.grant s.request) ∧ x.stands p ∧ v=s.vector p := by
  have hpost : s.posted=some (p,v) := by
    unfold Board.posted
    rw [hr]
  obtain ⟨-,hst,hv,hisr,hmin⟩ := h.posted p v hpost
  subst ht
  refine ⟨⟨fun _ => rfl,fun q w hq => (by cases hq),fun he _ i hi hs => ?_⟩,hst,hv⟩
  have hgrant : (x.grant s.request).stands=Function.update x.stands p false := by
    rw [hr]
    rfl
  rw [hgrant] at hs
  have hip : i≠p := by
    rintro rfl
    rw [Function.update_self] at hs
    cases hs
  rw [Function.update_of_ne hip] at hs
  exact ⟨p,lt_of_le_of_ne (hmin i hi hs) hip.symm,hisr⟩

theorem Inv.step (h : s.Inv x) (hc : s.Careful x e) {t0 : Board} (ht : s.change e=some t0) :
    Inv (if s.updates e then t0.updateInterrupt else t0) (x.after s e t0) := by
  by_cases hu : s.updates e=true
  · unfold Raises.after
    rw [if_pos hu,if_pos hu]
    exact Inv.update (hc.1 hu t0 ht)
  · unfold Raises.after
    rw [if_neg hu,if_neg hu]
    cases e with
    | desk d =>
      obtain ⟨d',-,rfl⟩ := map_eq_some_iff.mp ht
      exact h.same rfl rfl rfl rfl rfl
    | csr ien =>
      obtain rfl := some.inj ht
      have hien : ien=s.ien := by simpa [updates] using hu
      refine h.same ?_ rfl rfl rfl rfl
      show (ien && s.masterMask)=_
      rw [hien]
      rfl
    | icdrCycle =>
      obtain rfl := some.inj ht
      exact h
    | icdrCallback =>
      obtain rfl := some.inj ht
      exact h.same rfl rfl rfl rfl rfl
    | handOver =>
      simp only [change] at ht
      split at ht
      · rename_i hw
        obtain rfl := some.inj ht
        refine h.same rfl rfl rfl rfl ?_
        unfold Board.posted
        rw [hw]
      · cases ht
    | grant =>
      simp only [change] at ht
      split at ht
      · rename_i hq
        exact (h.granted hq (some.inj ht).symm).1
      · cases ht
      · cases ht
    | icdr | icsr | vsync => exact absurd rfl hu

theorem Inv.serves (h : s.Inv x) (hc : s.Careful x e) (ht : s.step e=some t) : s.Serves x e t := by
  refine ⟨fun he => ?_,hc.2⟩
  subst he
  obtain ⟨t0,ht0,rfl⟩ := map_eq_some_iff.mp ht
  simp only [change] at ht0
  split at ht0
  · rename_i p v hq
    obtain rfl := some.inj ht0
    obtain ⟨-,hst,hv⟩ := h.granted hq rfl
    refine ⟨p,?_,hst,?_,rfl⟩
    · show s.granted++[(p,v)]=_
      rw [hv]
    · rw [hq]
      exact Function.update_self ..
  · cases ht0
  · cases ht0

theorem Inv.start : Inv start ⟨fun _ => false,false⟩ :=
  ⟨fun _ => rfl,fun _ _ hp => (by cases hp),fun _ _ _ _ hs => (by cases hs)⟩

def stepBoth (y : Board × Raises) (e : BoardStep) : Option (Board × Raises) :=
  (y.1.change e).map fun t => (if y.1.updates e then t.updateInterrupt else t,y.2.after y.1 e t)

instance (t : Board) : (r : Request) → Decidable (t.HandedRight r)
  | .handed p v => inferInstanceAs (Decidable (t.lowest=some p ∧ t.vector p=v ∨ t.lowest=none))
  | .idle | .waiting => isTrue trivial

instance (x : Raises) (e : BoardStep) (t : Board) : Decidable (CarefulUpdate x e t) :=
  inferInstanceAs (Decidable (t.enabled=true →
    (∀ i,t.imr i=false → t.refresh.irr i=(x.update e t).stands i) ∧ t.refresh.HandedRight t.request))

instance (s : Board) (x : Raises) (e : BoardStep) : Decidable (s.Careful x e) :=
  inferInstanceAs (Decidable ((s.updates e=true → ∀ t∈s.change e,CarefulUpdate x e t) ∧
    (e=.icdrCycle → ∀ i,s.icdr i=s.readIntcData i)))

/-- Sources 0 and 1 are given vectors and unmasked, and interrupts are enabled; source 1 with `acr` set to `acr` -/
def setUp (acr : Nat) : List BoardStep :=
  [.icsr 0xe0,.icdr 0x40,.icsr 0xe1,.icdr 0x44,.icsr 0xc0,.icdr acr,.icsr 0xb0,.icdr 0xfc,.icsr 0xa1,.csr true]

def oneSync : List BoardStep := setUp 0++[.vsync,.handOver,.grant,.icsr 0x49,.icsr 0x79,.vsync,.handOver]

end Board

end QUniLator.Display
