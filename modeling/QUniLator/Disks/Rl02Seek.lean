import QUniLator.Framework.Run

namespace QUniLator.Disks

abbrev Position := Nat × Nat

/-- The states of a drive that is loaded and has no fault -/
inductive RlDriveState
  | seek | lockOn
  deriving DecidableEq,Repr

/-- Where the thread of the drive is: before the `switch`, in `state_seek()`, and in `state_lock_on()` before
the look at `seek_settle_pending` and behind it -/
inductive RlDrivePc
  | top | seek | move | arrive | lockOn | report | publish | publishing (ready : Bool) | settle | settled
  deriving DecidableEq,Repr

/-- Where a SEEK is: the two looks at Drive Ready in the register access, the wait of the worker and its look,
`state_seek()`, and `cmd_seek()` with the destination -/
inductive SeekCtl
  | idle | looking | lookingAgain | waiting | workerLooking | computing
  | checking (d : Position) | storing (d : Position) | settling (d : Position)
  | lowering (d : Position) | finishing (d : Position)
  deriving DecidableEq,Repr

/-- `cmd_seek()` has not begun. -/
def SeekCtl.waits : SeekCtl → Bool
  | .idle | .looking | .lookingAgain | .waiting | .workerLooking => true
  | .computing | .checking _ | .storing _ | .settling _ | .lowering _ | .finishing _ => false

/-- `cmd_seek()` is about to lower Drive Ready. -/
def SeekCtl.lowers : SeekCtl → Bool
  | .lowering _ => true
  | .idle | .looking | .lookingAgain | .waiting | .workerLooking | .computing | .checking _ | .storing _
  | .settling _ | .finishing _ => false

/-- The drive, the controller as far as SEEK goes, and the bit for Drive Ready that CS shows. `reached` is where the
seeks that `cmd_seek()` took lead, `target` those accepted. -/
structure SeekSeat where
  state : RlDriveState
  cylinder : Nat
  head : Nat
  seekDestinationCylinder : Nat
  seekDestinationHead : Nat
  seekSettlePending : Bool
  driveReadyLine : Bool
  shown : Bool
  pc : RlDrivePc
  da : Nat
  worker : Bool
  ctl : SeekCtl
  reached : Position
  target : Position
  deriving DecidableEq,Repr

/-- `drive` and `command` are a step of the thread of the drive and of the one that executes the command, `timeout`
the end of 550 ms that the worker waits. -/
inductive SeekEvent
  | drive
  | command
  | seek
  | writeDa (da : Nat)
  | timeout
  deriving DecidableEq,Repr

/-- The cylinder that a difference word asks for. Past the last one the heads retreat to the last even
cylinder. -/
def destinationCylinder (cylinderCount cylinder da : Nat) : Nat :=
  if da/4%2=1 then
    if cylinder+da/128 ≥ cylinderCount then (cylinderCount-1)/2*2 else cylinder+da/128
  else if da/128 > cylinder then 0 else cylinder-da/128

def isSeek (da : Nat) : Bool := da%2=1 && da/8%2=0

/-- Where a SEEK goes from `p` -/
def seekFrom (cylinderCount : Nat) (p : Position) (da : Nat) : Position :=
  if isSeek da then (destinationCylinder cylinderCount p.1 da,da/16%2) else p

namespace SeekSeat

variable (cylinderCount : Nat) (s : SeekSeat)

def driveStep : SeekSeat :=
  match s.pc with
  | .top => { s with pc := if s.state=.seek then .seek else .lockOn }
  | .seek => { s with driveReadyLine := false,shown := false,pc := .move }
  | .move => { s with head := s.seekDestinationHead,cylinder := s.seekDestinationCylinder,pc := .arrive }
  | .arrive => { s with state := .lockOn,pc := .top }
  | .lockOn => { s with pc := if s.seekSettlePending then .settle else .report }
  | .report => { s with driveReadyLine := true,pc := .publish }
  | .publish => { s with pc := .publishing s.driveReadyLine }
  | .publishing ready => { s with shown := ready,pc := .top }
  | .settle => { s with driveReadyLine := false,shown := false,pc := .settled }
  | .settled => { s with seekSettlePending := false,pc := .top }

def commandStep : Option SeekSeat :=
  match s.ctl with
  | .idle => none
  | .looking =>
    some (if s.driveReadyLine then { s with ctl := .lookingAgain }
      else { s with ctl := .waiting,worker := true })
  | .lookingAgain =>
    some (if s.driveReadyLine then { s with ctl := .computing }
      else { s with ctl := .waiting,worker := true })
  | .waiting => if s.driveReadyLine then some { s with ctl := .workerLooking } else none
  | .workerLooking => some { s with ctl := if s.driveReadyLine then .computing else .idle }
  | .computing =>
    let d := (destinationCylinder cylinderCount s.cylinder s.da,s.da/16%2)
    some { s with ctl := if isSeek s.da then .checking d else .idle }
  | .checking d => some { s with ctl := if s.state=.lockOn then .storing d else .idle }
  | .storing d =>
    some { s with seekDestinationCylinder := d.1,seekDestinationHead := d.2,ctl := .settling d }
  | .settling d => some { s with seekSettlePending := true,ctl := .lowering d }
  | .lowering d => some { s with driveReadyLine := false,shown := false,ctl := .finishing d }
  | .finishing d =>
    some (if d.1=s.cylinder then { s with head := d.2,reached := d,ctl := .idle }
      else { s with state := .seek,reached := d,ctl := .idle })

def step : SeekEvent → Option SeekSeat
  | .drive => some s.driveStep
  | .command => s.commandStep cylinderCount
  | .seek =>
    if s.ctl=.idle then
      some { s with ctl := .looking,worker := false,target := seekFrom cylinderCount s.target s.da } else none
  | .writeDa da => if s.ctl=.idle ∨ s.worker then some { s with da := da } else none
  | .timeout => if s.ctl=.waiting then some { s with ctl := .workerLooking } else none

/-- A drive at `p`, locked on the track, before its thread has reported it as ready -/
def start (p : Position) : SeekSeat :=
  ⟨.lockOn,p.1,p.2,p.1,p.2,false,false,false,.top,0,false,.idle,p,p⟩

def position : Position := (s.cylinder,s.head)

def Apart : Prop :=
  s.pc=.top ∨ s.pc=.lockOn ∨ s.pc=.publish ∨ s.pc=.publishing false

/-- What goes on between the drive and the controller -/
inductive Phase : Prop
  | quiet (state : s.state=.lockOn) (at_ : s.position=s.reached)
      (pending : s.seekSettlePending=false) (pc : s.Apart ∨ s.pc=.report ∨ s.pc=.publishing true)
      (published : s.pc=.publishing true → s.driveReadyLine=true)
      (shown : s.shown=true → s.driveReadyLine=true)
      (ctl : s.ctl.waits=true ∨ s.driveReadyLine=true ∧
        (s.ctl=.computing ∨ ∃ d,s.ctl=.checking d ∨ s.ctl=.storing d ∨
          s.ctl=.settling d ∧ (s.seekDestinationCylinder,s.seekDestinationHead)=d))
  | lowering (d : Position) (ctl : s.ctl=.lowering d) (state : s.state=.lockOn)
      (at_ : s.position=s.reached) (pending : s.seekSettlePending=true)
      (ready : s.driveReadyLine=true) (pc : s.Apart ∨ s.pc=.report ∨ s.pc=.publishing true)
      (dest : (s.seekDestinationCylinder,s.seekDestinationHead)=d)
  | finishing (d : Position) (ctl : s.ctl=.finishing d) (state : s.state=.lockOn)
      (at_ : s.position=s.reached) (pending : s.seekSettlePending=true)
      (ready : s.driveReadyLine=false) (shown : s.shown=false) (pc : s.Apart)
      (dest : (s.seekDestinationCylinder,s.seekDestinationHead)=d)
  | moving (ctl : s.ctl.waits=true) (state : s.state=.seek) (pending : s.seekSettlePending=true)
      (ready : s.driveReadyLine=false) (shown : s.shown=false)
      (pc : s.Apart ∨ s.pc=.seek ∨ s.pc=.move ∨ s.pc=.arrive ∧ s.position=s.reached)
      (dest : (s.seekDestinationCylinder,s.seekDestinationHead)=s.reached)
  | settling (ctl : s.ctl.waits=true) (state : s.state=.lockOn) (at_ : s.position=s.reached)
      (pending : s.seekSettlePending=true) (ready : s.driveReadyLine=false)
      (shown : s.shown=false) (pc : s.Apart ∨ s.pc=.settle ∨ s.pc=.settled)

def Goal : Prop :=
  match s.ctl with
  | .idle => s.target=s.reached
  | .looking | .lookingAgain | .waiting | .workerLooking | .computing =>
    s.target=seekFrom cylinderCount s.reached s.da
  | .checking d | .storing d | .settling d | .lowering d | .finishing d => s.target=d

structure Inv : Prop where
  cylinder : s.cylinder<cylinderCount
  dest : s.seekDestinationCylinder<cylinderCount
  target : s.target.1<cylinderCount
  goal : s.Goal cylinderCount
  phase : s.Phase

/-- Drive Ready is not lowered as the drive is about to raise it, the drive does not find the settle of a seek that
has not begun to move, it comes ready while the worker waits, and DA stays until the SEEK has begun. -/
def Careful : SeekEvent → Prop
  | .drive => s.pc=.lockOn → s.seekSettlePending=true → s.state=.lockOn ∧ s.ctl.waits=true
  | .command => (s.ctl.lowers=true → s.pc≠.report ∧ s.pc≠.publishing true) ∧
      (s.ctl=.workerLooking → s.driveReadyLine=true)
  | .writeDa _ => s.ctl=.idle
  | .seek | .timeout => True

variable {cylinderCount : Nat} {s t : SeekSeat}

theorem Phase.readdress (h : s.Phase) (da : Nat) (target : Position) :
    Phase { s with da := da,target := target } := by
  cases h with
  | quiet h1 h2 h3 h4 h5 h6 h7 => exact .quiet h1 h2 h3 h4 h5 h6 h7
  | lowering d h1 h2 h3 h4 h5 h6 h7 => exact .lowering d h1 h2 h3 h4 h5 h6 h7
  | finishing d h1 h2 h3 h4 h5 h6 h7 h8 => exact .finishing d h1 h2 h3 h4 h5 h6 h7 h8
  | moving h1 h2 h3 h4 h5 h6 h7 => exact .moving h1 h2 h3 h4 h5 h6 h7
  | settling h1 h2 h3 h4 h5 h6 h7 => exact .settling h1 h2 h3 h4 h5 h6 h7

theorem Phase.drive (h : s.Phase) (hc : s.Careful .drive) : s.driveStep.Phase := by
  unfold driveStep
  cases h with
  | quiet state at_ pending pc published shown ctl =>
    rcases pc with (h1 | h1 | h1 | h1) | h1 | h1
    all_goals
      rw [h1]
      apply Phase.quiet <;> simp_all [Apart,position]
    exact ctl.imp_right And.right
  | lowering d ctl state at_ pending ready pc dest =>
    rcases pc with (h1 | h1 | h1 | h1) | h1 | h1
    all_goals
      rw [h1]
      apply Phase.lowering d <;> simp_all [Apart,position,Careful,SeekCtl.waits]
  | finishing d ctl state at_ pending ready shown pc dest =>
    rcases pc with h1 | h1 | h1 | h1
    all_goals
      rw [h1]
      apply Phase.finishing d <;> simp_all [Apart,position,Careful,SeekCtl.waits]
  | moving ctl state pending ready shown pc dest =>
    rcases pc with (h1 | h1 | h1 | h1) | h1 | h1 | ⟨h1,h2⟩
    all_goals rw [h1]
    · apply Phase.moving <;> simp_all [Apart,position]
    · simp_all [Careful]
    · apply Phase.moving <;> simp_all [Apart,position]
    · apply Phase.moving <;> simp_all [Apart,position]
    · apply Phase.moving <;> simp_all [Apart,position]
    · apply Phase.moving <;> simp_all [Apart,position]
    · apply Phase.settling <;> simp_all [Apart,position]
  | settling ctl state at_ pending ready shown pc =>
    rcases pc with (h1 | h1 | h1 | h1) | h1 | h1
    all_goals rw [h1]
    · apply Phase.settling <;> simp_all [Apart,position]
    · apply Phase.settling <;> simp_all [Apart,position]
    · apply Phase.settling <;> simp_all [Apart,position]
    · apply Phase.settling <;> simp_all [Apart,position]
    · apply Phase.settling <;> simp_all [Apart,position]
    · apply Phase.quiet <;> simp_all [Apart,position]

theorem driveStep_ctl (s : SeekSeat) : s.driveStep.ctl=s.ctl ∧ s.driveStep.da=s.da ∧
    s.driveStep.reached=s.reached ∧ s.driveStep.target=s.target ∧
    s.driveStep.seekDestinationCylinder=s.seekDestinationCylinder := by
  unfold driveStep
  cases s.pc <;> exact ⟨rfl,rfl,rfl,rfl,rfl⟩

theorem Inv.drive (h : s.Inv cylinderCount) (hc : s.Careful .drive) : s.driveStep.Inv cylinderCount := by
  obtain ⟨hctl,hda,hr,ht,hd⟩ := driveStep_ctl s
  refine ⟨?_,by rw [hd]; exact h.dest,by rw [ht]; exact h.target,?_,h.phase.drive hc⟩
  · have hcyl := h.cylinder
    have hdest := h.dest
    unfold driveStep
    cases s.pc <;> first | exact hcyl | exact hdest
  · have hg := h.goal
    unfold Goal at *
    rw [hctl,hda,hr,ht]
    exact hg

theorem destinationCylinder_lt {cylinder da : Nat} (h : cylinder<cylinderCount) :
    destinationCylinder cylinderCount cylinder da<cylinderCount := by
  unfold destinationCylinder
  split_ifs <;> omega

theorem seekFrom_lt {p : Position} {da : Nat} (h : p.1<cylinderCount) :
    (seekFrom cylinderCount p da).1<cylinderCount := by
  unfold seekFrom
  split_ifs
  · exact destinationCylinder_lt h
  · exact h

theorem Phase.wait (h : s.Phase) (hw : s.ctl.waits) {c : SeekCtl} (hc : c.waits)
    (worker : Bool) : Phase { s with ctl := c,worker := worker } := by
  cases h with
  | quiet state at_ pending pc published shown ctl =>
    exact .quiet state at_ pending pc published shown (.inl hc)
  | lowering d ctl | finishing d ctl =>
    rw [ctl] at hw
    cases hw
  | moving ctl state pending ready shown pc dest => exact .moving hc state pending ready shown pc dest
  | settling ctl state at_ pending ready shown pc =>
    exact .settling hc state at_ pending ready shown pc

theorem Phase.begin (h : s.Phase) (hw : s.ctl.waits) (hr : s.driveReadyLine) :
    Phase { s with ctl := .computing } := by
  cases h with
  | quiet state at_ pending pc published shown ctl =>
    exact .quiet state at_ pending pc published shown (.inr ⟨hr,.inl rfl⟩)
  | lowering d ctl =>
    rw [ctl] at hw
    cases hw
  | finishing d ctl state at_ pending ready | moving ctl state pending ready =>
    rw [ready] at hr
    cases hr
  | settling ctl state at_ pending ready =>
    rw [ready] at hr
    cases hr

theorem Phase.atRest (h : s.Phase) (hw : s.ctl.waits=false) (hl : s.ctl.lowers=false)
    (hf : ∀ d,s.ctl≠.finishing d) : s.state=.lockOn ∧ s.position=s.reached ∧ s.driveReadyLine ∧
      (∀ c : SeekCtl,(c=.idle ∨ ∃ d,c=.checking d ∨ c=.storing d) → Phase { s with ctl := c }) ∧
      ∀ d : Position,Phase { s with seekDestinationCylinder := d.1,seekDestinationHead := d.2,
                                     ctl := .settling d } := by
  cases h with
  | quiet state at_ pending pc published shown ctl =>
    have hr : s.driveReadyLine=true := by
      rcases ctl with hc | hc
      · rw [hw] at hc
        cases hc
      · exact hc.1
    refine ⟨state,at_,hr,fun c hc => ?_,fun d => ?_⟩
    · refine .quiet state at_ pending pc published shown ?_
      rcases hc with rfl | ⟨d,hd⟩
      · exact .inl rfl
      · refine .inr ⟨hr,.inr ⟨d,?_⟩⟩
        rcases hd with rfl | rfl
        · exact .inl rfl
        · exact .inr (.inl rfl)
    · exact .quiet state at_ pending pc published shown (.inr ⟨hr,.inr ⟨d,.inr (.inr ⟨rfl,rfl⟩)⟩⟩)
  | lowering d ctl =>
    rw [ctl] at hl
    cases hl
  | finishing d ctl => exact absurd ctl (hf d)
  | moving ctl | settling ctl =>
    rw [hw] at ctl
    cases ctl

theorem Phase.owe {d : Position} (h : s.Phase) (hctl : s.ctl=.settling d) :
    Phase { s with seekSettlePending := true,ctl := .lowering d } := by
  cases h with
  | quiet state at_ pending pc published shown ctl =>
    rw [hctl] at ctl
    rcases ctl with hc | ⟨hr,hc | ⟨e,hc | hc | ⟨hc,hd⟩⟩⟩
    · cases hc
    · cases hc
    · cases hc
    · cases hc
    · cases hc
      exact .lowering d rfl state at_ rfl hr pc hd
  | lowering e ctl | finishing e ctl | moving ctl | settling ctl =>
    rw [hctl] at ctl
    cases ctl

theorem Phase.lower {d : Position} (h : s.Phase) (hctl : s.ctl=.lowering d)
    (hpc : s.pc≠.report ∧ s.pc≠.publishing true) :
    Phase { s with driveReadyLine := false,shown := false,ctl := .finishing d } := by
  cases h with
  | quiet state at_ pending pc published shown ctl =>
    rw [hctl] at ctl
    rcases ctl with hc | ⟨_,hc | ⟨e,hc | hc | ⟨hc,_⟩⟩⟩ <;> cases hc
  | lowering e ctl state at_ pending ready pc dest =>
    rw [hctl] at ctl
    cases ctl
    refine .finishing d rfl state at_ pending rfl rfl ?_ dest
    rcases pc with hp | hp | hp
    · exact hp
    · exact absurd hp hpc.1
    · exact absurd hp hpc.2
  | finishing e ctl | moving ctl | settling ctl =>
    rw [hctl] at ctl
    cases ctl

theorem Phase.finish {d : Position} (h : s.Phase) (hctl : s.ctl=.finishing d) :
    Phase (if d.1=s.cylinder then { s with head := d.2,reached := d,ctl := .idle }
      else { s with state := .seek,reached := d,ctl := .idle }) := by
  cases h with
  | quiet state at_ pending pc published shown ctl =>
    rw [hctl] at ctl
    rcases ctl with hc | ⟨_,hc | ⟨e,hc | hc | ⟨hc,_⟩⟩⟩ <;> cases hc
  | lowering e ctl | moving ctl | settling ctl =>
    rw [hctl] at ctl
    cases ctl
  | finishing e ctl state at_ pending ready shown pc dest =>
    rw [hctl] at ctl
    cases ctl
    split_ifs with hd
    · refine .settling rfl state ?_ pending ready shown (.inl pc)
      show (s.cylinder,d.2)=d
      rw [← hd]
    · exact .moving rfl rfl pending ready shown (.inl pc) dest

theorem Inv.command (h : s.Inv cylinderCount) (hc : s.Careful .command)
    (hs : s.commandStep cylinderCount=some t) : t.Inv cylinderCount := by
  obtain ⟨hcyl,hdest,htarget,hgoal,hphase⟩ := h
  unfold Goal at hgoal
  unfold commandStep at hs
  cases hctl : s.ctl with
  | idle =>
    rw [hctl] at hs
    cases hs
  | looking | lookingAgain =>
    have hw : s.ctl.waits=true := by rw [hctl]; rfl
    rw [hctl] at hs hgoal
    dsimp only at hs hgoal
    split_ifs at hs with hr
    · cases hs
      first
      | exact ⟨hcyl,hdest,htarget,hgoal,hphase.wait hw rfl s.worker⟩
      | exact ⟨hcyl,hdest,htarget,hgoal,hphase.begin hw hr⟩
    · cases hs
      exact ⟨hcyl,hdest,htarget,hgoal,hphase.wait hw rfl true⟩
  | waiting =>
    have hw : s.ctl.waits=true := by rw [hctl]; rfl
    rw [hctl] at hs hgoal
    dsimp only at hs hgoal
    split_ifs at hs
    cases hs
    exact ⟨hcyl,hdest,htarget,hgoal,hphase.wait hw rfl s.worker⟩
  | workerLooking =>
    have hw : s.ctl.waits=true := by rw [hctl]; rfl
    have hr := hc.2 hctl
    rw [hctl] at hs hgoal
    dsimp only at hs hgoal
    rw [if_pos hr] at hs
    cases hs
    exact ⟨hcyl,hdest,htarget,hgoal,hphase.begin hw hr⟩
  | computing =>
    obtain ⟨-,hat,-,hnext,-⟩ := hphase.atRest (by rw [hctl]; rfl) (by rw [hctl]; rfl)
      (fun d => by rw [hctl]; simp)
    have hcyl' : s.cylinder=s.reached.1 := congrArg Prod.fst hat
    rw [hctl] at hs hgoal
    dsimp only at hs hgoal
    unfold seekFrom at hgoal
    cases hs
    split_ifs at hgoal ⊢ with hsk
    · refine ⟨hcyl,hdest,htarget,?_,hnext _ (.inr ⟨_,.inl rfl⟩)⟩
      show s.target=(destinationCylinder cylinderCount s.cylinder s.da,s.da/16%2)
      rw [hgoal,hcyl']
    · exact ⟨hcyl,hdest,htarget,hgoal,hnext _ (.inl rfl)⟩
  | checking d =>
    obtain ⟨hst,-,-,hnext,-⟩ := hphase.atRest (by rw [hctl]; rfl) (by rw [hctl]; rfl)
      (fun d => by rw [hctl]; simp)
    rw [hctl] at hs hgoal
    dsimp only at hs hgoal
    rw [if_pos hst] at hs
    cases hs
    exact ⟨hcyl,hdest,htarget,hgoal,hnext _ (.inr ⟨d,.inr rfl⟩)⟩
  | storing d =>
    obtain ⟨-,-,-,-,hnext⟩ := hphase.atRest (by rw [hctl]; rfl) (by rw [hctl]; rfl)
      (fun d => by rw [hctl]; simp)
    rw [hctl] at hs hgoal
    dsimp only at hs hgoal
    cases hs
    exact ⟨hcyl,by rw [hgoal] at htarget; exact htarget,htarget,hgoal,hnext d⟩
  | settling d =>
    rw [hctl] at hs hgoal
    dsimp only at hs hgoal
    cases hs
    exact ⟨hcyl,hdest,htarget,hgoal,hphase.owe hctl⟩
  | lowering d =>
    have hpc := hc.1 (by rw [hctl]; rfl)
    rw [hctl] at hs hgoal
    dsimp only at hs hgoal
    cases hs
    exact ⟨hcyl,hdest,htarget,hgoal,hphase.lower hctl hpc⟩
  | finishing d =>
    have hnext := hphase.finish hctl
    rw [hctl] at hs hgoal
    dsimp only at hs hgoal
    cases hs
    refine ⟨?_,?_,?_,?_,hnext⟩
    · split_ifs <;> exact hcyl
    · split_ifs <;> exact hdest
    · split_ifs <;> exact htarget
    · split_ifs <;> exact hgoal

theorem Inv.step {e : SeekEvent} (h : s.Inv cylinderCount) (hc : s.Careful e)
    (hs : s.step cylinderCount e=some t) : t.Inv cylinderCount := by
  unfold SeekSeat.step at hs
  cases e with
  | drive =>
    cases hs
    exact h.drive hc
  | command => exact h.command hc hs
  | seek =>
    dsimp only at hs
    split_ifs at hs with hi
    cases hs
    have hg := h.goal
    unfold Goal at hg
    rw [hi] at hg
    refine ⟨h.cylinder,h.dest,seekFrom_lt h.target,?_,
      (h.phase.wait (by rw [hi]; rfl) rfl false).readdress s.da _⟩
    show seekFrom cylinderCount s.target s.da=seekFrom cylinderCount s.reached s.da
    rw [hg]
  | writeDa da =>
    dsimp only at hs
    split_ifs at hs
    cases hs
    have hi : s.ctl=.idle := hc
    have hg := h.goal
    unfold Goal at hg
    rw [hi] at hg
    refine ⟨h.cylinder,h.dest,h.target,?_,?_⟩
    · unfold Goal
      rw [hi]
      exact hg
    · exact h.phase.readdress da s.target
  | timeout =>
    dsimp only at hs
    split_ifs at hs with hi
    cases hs
    have hg := h.goal
    unfold Goal at hg
    rw [hi] at hg
    exact ⟨h.cylinder,h.dest,h.target,hg,h.phase.wait (by rw [hi]; rfl) rfl s.worker⟩

theorem Inv.start {p : Position} (hp : p.1<cylinderCount) : (start p).Inv cylinderCount :=
  ⟨hp,hp,hp,rfl,.quiet rfl rfl rfl (.inl (.inl rfl)) (fun hn => by cases hn) (fun hn => by cases hn)
    (.inl rfl)⟩

def Outstanding (s : SeekSeat) : Prop :=
  s.state=.seek ∨ s.position≠s.reached ∨ s.seekSettlePending=true ∧ s.ctl.lowers=false

/-- Every SEEK accepted has moved the heads when none is under way and the drive is ready again; heads and destination
are on the pack; Drive Ready is neither raised nor shown while a seek or its settle is outstanding. -/
def SeeksRight (cylinderCount : Nat) (s : SeekSeat) : Prop :=
  (s.ctl=.idle → s.driveReadyLine=true → s.position=s.target) ∧
  s.cylinder<cylinderCount ∧ s.seekDestinationCylinder<cylinderCount ∧
  (s.driveReadyLine=true ∨ s.shown=true → ¬s.Outstanding)

theorem Inv.right (h : s.Inv cylinderCount) : s.SeeksRight cylinderCount := by
  have hready : s.driveReadyLine=true ∨ s.shown=true → ¬s.Outstanding := by
    unfold Outstanding
    cases h.phase with
    | quiet state at_ pending =>
      rw [state,pending]
      simp [at_]
    | lowering d ctl state at_ =>
      rw [state,ctl]
      simp [at_,SeekCtl.lowers]
    | finishing d ctl state at_ pending ready shown | moving ctl state pending ready shown =>
      rw [ready,shown]
      simp
    | settling ctl state at_ pending ready shown =>
      rw [ready,shown]
      simp
  refine ⟨fun hi hr => ?_,h.cylinder,h.dest,hready⟩
  have hno := hready (.inl hr)
  have hg := h.goal
  unfold Goal at hg
  rw [hi] at hg
  unfold Outstanding at hno
  rw [hg]
  by_contra hp
  exact hno (.inr (.inl hp))

def toReady (s : SeekSeat) : Nat :=
  if s.driveReadyLine then 0 else
  match s.state,s.seekSettlePending,s.pc with
  | .seek,_,.publish => 15
  | .seek,_,.publishing _ => 14
  | .seek,_,.top => 13
  | .seek,_,.seek => 12
  | .seek,_,.move => 11
  | .seek,_,.arrive => 10
  | .lockOn,true,.publish => 11
  | .lockOn,true,.publishing _ => 10
  | .lockOn,true,.top => 9
  | .lockOn,true,.lockOn => 8
  | .lockOn,true,.settle => 7
  | .lockOn,true,.settled => 6
  | .lockOn,false,.publish => 5
  | .lockOn,false,.publishing _ => 4
  | .lockOn,false,.top => 3
  | .lockOn,false,.lockOn => 2
  | .lockOn,false,.report => 1
  | _,_,_ => 0

theorem toReady_le (s : SeekSeat) : s.toReady≤15 := by
  unfold toReady
  split_ifs
  · omega
  · split <;> omega

theorem Phase.nearer (h : s.Phase) (hi : s.ctl=.idle) (hr : s.driveReadyLine=false)
    (hc : s.Careful .drive) : s.driveStep.toReady<s.toReady := by
  unfold driveStep toReady
  cases h with
  | quiet state at_ pending pc published | settling ctl state at_ pending ready shown pc =>
    rw [state,pending]
    rcases pc with (h1 | h1 | h1 | h1) | h1 | h1 <;> simp_all
  | lowering d ctl | finishing d ctl =>
    rw [hi] at ctl
    cases ctl
  | moving ctl state pending ready shown pc =>
    rw [state,pending]
    rcases pc with (h1 | h1 | h1 | h1) | h1 | h1 | ⟨h1,-⟩ <;> simp_all [Careful]

theorem Inv.comesReady (h : s.Inv cylinderCount) (hi : s.ctl=.idle) (hc : ∀ k,(driveStep^[k] s).Careful .drive) :
    ∃ k≤15,(driveStep^[k] s).driveReadyLine ∧ (driveStep^[k] s).position=s.target := by
  have hinv (k : Nat) : (driveStep^[k] s).Inv cylinderCount ∧ (driveStep^[k] s).ctl=.idle ∧
      (driveStep^[k] s).target=s.target := by
    induction k with
    | zero => exact ⟨h,hi,rfl⟩
    | succ k ih =>
      obtain ⟨hk,hik,htk⟩ := ih
      obtain ⟨hctl,-,-,ht,-⟩ := driveStep_ctl (driveStep^[k] s)
      rw [Function.iterate_succ_apply']
      exact ⟨hk.drive (hc k),hctl.trans hik,ht.trans htk⟩
  obtain ⟨k,hk,hr⟩ := @iterate_done SeekSeat driveStep (fun a => a.driveReadyLine=true)
    (fun a => ¬(a.Phase ∧ a.ctl=.idle ∧ a.Careful .drive)) toReady
    (fun a hd hb => by
      obtain ⟨hp,hia,hca⟩ := not_not.mp hb
      exact hp.nearer hia (by simpa using hd) hca)
    s (fun k => not_not.mpr ⟨(hinv k).1.phase,(hinv k).2.1,hc k⟩)
  refine ⟨k,Nat.le_trans hk (toReady_le s),hr,?_⟩
  rw [← (hinv k).2.2]
  exact (hinv k).1.right.1 (hinv k).2.1 hr

instance (s : SeekSeat) : (e : SeekEvent) → Decidable (s.Careful e)
  | .drive => inferInstanceAs (Decidable (_ → _ → _ ∧ _))
  | .command => inferInstanceAs (Decidable ((_ → _≠_ ∧ _≠_) ∧ (_ → _=_)))
  | .writeDa _ => inferInstanceAs (Decidable (_=_))
  | .seek | .timeout => isTrue trivial

def seekOne : List SeekEvent :=
  List.replicate 5 .drive++[.writeDa 133,.seek]++List.replicate 8 .command ++
    List.replicate 13 .drive

/-- The drive decides to report ready, a SEEK goes through `cmd_seek()`, the drive reports, and the next SEEK finds it
ready, is refused and lost. -/
def lostSeek : List SeekEvent :=
  List.replicate 7 .drive++[.writeDa 133,.seek]++List.replicate 8 .command ++
    [.drive,.writeDa 133,.seek]++List.replicate 4 .command++List.replicate 15 .drive

theorem run_of_plain {q : SeekSeat → Prop} [DecidablePred q] {es : List SeekEvent}
    (h : (es.foldlM (fun s e => if True then step cylinderCount s e else none) s).any (fun t => decide (q t))) :
    ∃ t,Run (fun s e t => step cylinderCount s e=some t) s es t ∧ q t := by
  obtain ⟨t,ht,hp⟩ := run_of_foldlM (fun _ _ => True) (step cylinderCount) (fun t => decide (q t)) es s h
  exact ⟨t,ht.mono fun _ _ _ hs => hs.2,of_decide_eq_true hp⟩

instance : DecidablePred Outstanding := fun _ =>
  inferInstanceAs (Decidable (_=_ ∨ _≠_ ∨ _=_ ∧ _=_))

end SeekSeat

end QUniLator.Disks
