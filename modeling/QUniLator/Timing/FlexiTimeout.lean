import QUniLator.Framework.Run

namespace QUniLator.Timing

inductive TimeMode
  | world | emulated
  deriving DecidableEq,Repr

/-- A timeout is local to the `wait_ns()` of a thread, or a member of some device. -/
inductive TimeoutId
  | inWait (thread : Nat)
  | member (n : Nat)
  deriving DecidableEq,Repr

/-- A `flexi_timeout_c`. Without a value the semaphore is not initialised. -/
structure FlexiTimeout where
  starttime : Nat
  signaltime : Nat
  semaphore : Option Nat
  deriving DecidableEq,Repr

/-- An entry of `emu_timeout_wait_list`. `old` says that a step began after it was inserted. -/
structure WaitEntry where
  key : Nat
  id : TimeoutId
  old : Bool
  deriving DecidableEq,Repr

inductive TimerPc
  | idle
  | waitTested (duration : Nat) | waitBuilt (duration : Nat) | waitTimed | waiting | waited
  | startTested (n duration : Nat) | startTimed (n : Nat)
  | switching (mode : TimeMode)
  | stepTested (delta : Nat) | stepAdded | stepScanning
  deriving DecidableEq,Repr

/-- A `sem_post()`, with the time then and the time it was due -/
structure Post where
  id : TimeoutId
  now : Nat
  signaltime : Nat
  bySwitch : Bool
  deriving DecidableEq,Repr

/-- The `flexi_timeout_controller_c`, its timeouts and the threads -/
structure Timers where
  mode : TimeMode
  emuNow : Nat
  emuOldestSignalTime : Nat
  timeouts : TimeoutId → Option FlexiTimeout
  waitList : List WaitEntry
  threads : Nat → TimerPc
  posts : List Post
  failed : Bool

/-- What the threads do: the parts of `wait_ns()`, the life of a member timeout, the parts of `start_ns()`,
`set_mode()` and `emu_step_ns()`. `waitSignal` is a signal handler that ends `sem_wait()`. -/
inductive TimerEvent
  | waitTest (thread duration : Nat)
  | waitBuild (thread : Nat)
  | waitTime (thread : Nat)
  | waitInsert (thread : Nat)
  | waitSemaphore (thread : Nat)
  | waitSignal (thread : Nat)
  | waitEnd (thread : Nat)
  | create (n : Nat)
  | destroy (n : Nat)
  | startTest (thread n duration worldNow : Nat)
  | startTime (thread : Nat)
  | startInsert (thread : Nat)
  | modeTest (thread : Nat) (mode : TimeMode)
  | modeSwitch (thread worldNow : Nat)
  | stepTest (thread delta : Nat)
  | stepAdd (thread : Nat)
  | stepQuick (thread : Nat)
  | stepScan (thread : Nat)
  deriving DecidableEq,Repr

def timeMod : Nat := 0x10000000000000000

namespace Timers

variable (s : Timers)

def signalOf (i : TimeoutId) : Nat := ((s.timeouts i).map FlexiTimeout.signaltime).getD 0

def goto (thread : Nat) (pc : TimerPc) : Timers := { s with threads := Function.update s.threads thread pc }

def put (i : TimeoutId) (t : Option FlexiTimeout) : Timers :=
  { s with timeouts := Function.update s.timeouts i t }

/-- The constructor, with `sem_init()` in emulated time only -/
def fresh : FlexiTimeout := ⟨0,0,if s.mode=.emulated then some 0 else none⟩

/-- `insert` of a multimap: behind what has the same key -/
def multimapInsert (e : WaitEntry) : List WaitEntry → List WaitEntry
  | [] => [e]
  | f::l => if e.key<f.key then e::f::l else f::multimapInsert e l

def firstSignal (l : List WaitEntry) : Nat := (l.head?.map fun e => s.signalOf e.id).getD 0

/-- `emu_insert_timeout_wait` -/
def insertWait (i : TimeoutId) : Timers :=
  let l := multimapInsert ⟨((s.timeouts i).map FlexiTimeout.starttime).getD 0,i,false⟩ s.waitList
  { s with waitList := l,emuOldestSignalTime := s.firstSignal l }

/-- `sem_post()` for every entry of `l` -/
def postAll (l : List WaitEntry) (bySwitch : Bool) : Timers :=
  { s with
    timeouts := fun i => (s.timeouts i).map fun t =>
      ⟨t.starttime,t.signaltime,t.semaphore.map (· + (l.map WaitEntry.id).count i)⟩,
    posts := l.map (fun e => ⟨e.id,s.emuNow,s.signalOf e.id,bySwitch⟩)++s.posts }

def destruct (i : TimeoutId) : Timers :=
  let ok := s.mode=.world || (s.timeouts i).any fun t => t.semaphore=some 0
  { s.put i none with failed := s.failed || !ok }

def shift (worldNow t : Nat) : Nat := (t+worldNow+(timeMod-s.emuNow%timeMod))%timeMod

def shiftAll (worldNow : Nat) : Timers :=
  { s with timeouts := fun i => (s.timeouts i).map fun t =>
      ⟨s.shift worldNow t.starttime,s.shift worldNow t.signaltime,t.semaphore⟩ }

/-- The transition of `set_mode` -/
def switch (worldNow : Nat) : Timers :=
  match s.mode with
  | .world =>
    { s with mode := .emulated,emuNow := worldNow,emuOldestSignalTime := 0,
             failed := s.failed || s.waitList≠[] }
  | .emulated => { (s.shiftAll worldNow).postAll s.waitList true with mode := .world,waitList := [] }

/-- The scan of `emu_step_ns` -/
def scan : Timers :=
  let due (e : WaitEntry) : Bool := s.signalOf e.id ≤ s.emuNow
  let rest := s.waitList.dropWhile due
  { s.postAll (s.waitList.takeWhile due) false with
    waitList := rest,emuOldestSignalTime := s.firstSignal rest }

def step : TimerEvent → Option Timers
  | .waitTest th d =>
    if s.threads th=.idle then
      some (if s.mode=.world then s else s.goto th (.waitTested d)) else none
  | .waitBuild th =>
    match s.threads th with
    | .waitTested d => some ((s.put (.inWait th) (some s.fresh)).goto th (.waitBuilt d))
    | _ => none
  | .waitTime th =>
    match s.threads th with
    | .waitBuilt d =>
      some ((s.put (.inWait th) ((s.timeouts (.inWait th)).map fun t =>
        { t with starttime := s.emuNow,signaltime := (s.emuNow+d)%timeMod })).goto th .waitTimed)
    | _ => none
  | .waitInsert th =>
    if s.threads th=.waitTimed then some ((s.insertWait (.inWait th)).goto th .waiting) else none
  | .waitSemaphore th =>
    if s.threads th=.waiting then
      match s.timeouts (.inWait th) with
      | some ⟨a,b,some (n+1)⟩ => some ((s.put (.inWait th) (some ⟨a,b,some n⟩)).goto th .waited)
      | _ => none
    else none
  | .waitSignal th => if s.threads th=.waiting then some (s.goto th .waited) else none
  | .waitEnd th =>
    if s.threads th=.waited then some ((s.destruct (.inWait th)).goto th .idle) else none
  | .create n =>
    if (s.timeouts (.member n)).isSome then none else some (s.put (.member n) (some s.fresh))
  | .destroy n => if (s.timeouts (.member n)).isSome then some (s.destruct (.member n)) else none
  | .startTest th n d worldNow =>
    match s.timeouts (.member n) with
    | some t =>
      if s.threads th=.idle then
        some (if s.mode=.world then
            s.put (.member n) (some { t with starttime := worldNow,signaltime := (worldNow+d)%timeMod })
          else s.goto th (.startTested n d))
      else none
    | none => none
  | .startTime th =>
    match s.threads th with
    | .startTested n d =>
      some ((s.put (.member n) ((s.timeouts (.member n)).map fun t =>
        { t with starttime := s.emuNow,signaltime := (s.emuNow+d)%timeMod })).goto th (.startTimed n))
    | _ => none
  | .startInsert th =>
    match s.threads th with
    | .startTimed n => some ((s.insertWait (.member n)).goto th .idle)
    | _ => none
  | .modeTest th m =>
    if s.threads th=.idle then some (if s.mode=m then s else s.goto th (.switching m)) else none
  | .modeSwitch th worldNow =>
    match s.threads th with
    | .switching _ => some ((s.switch (worldNow%timeMod)).goto th .idle)
    | _ => none
  | .stepTest th delta =>
    if s.threads th=.idle then
      some (if s.mode=.emulated then s.goto th (.stepTested delta) else s)
    else none
  | .stepAdd th =>
    match s.threads th with
    | .stepTested delta =>
      some (goto { s with emuNow := (s.emuNow+delta)%timeMod,
                          waitList := s.waitList.map fun e => { e with old := true } } th .stepAdded)
    | _ => none
  | .stepQuick th =>
    if s.threads th=.stepAdded then
      some (s.goto th (if s.emuOldestSignalTime≠0 ∧ s.emuOldestSignalTime ≤ s.emuNow then .stepScanning
        else .idle))
    else none
  | .stepScan th => if s.threads th=.stepScanning then some (s.scan.goto th .idle) else none

def start : Timers := ⟨.world,0,0,fun _ => none,[],fun _ => .idle,[],false⟩

def Stepping (th : Nat) : Prop := s.threads th=.stepAdded ∨ s.threads th=.stepScanning

/-- Who waits in emulated time is in the list or was posted once; who is posted is due, or the mode changes; a step
leaves nobody due in the list; in world time it is empty; its entries are of live timeouts with a semaphore; no
assertion fails. -/
structure Right : Prop where
  once : ∀ th,s.threads th=.waiting → ((s.waitList.map WaitEntry.id).count (.inWait th)=1 ∧
        ∃ t,s.timeouts (.inWait th)=some t ∧ t.semaphore=some 0) ∨
      ((s.waitList.map WaitEntry.id).count (.inWait th)=0 ∧
        ∃ t,s.timeouts (.inWait th)=some t ∧ t.semaphore=some 1)
  due : ∀ p∈s.posts,p.bySwitch=true ∨ p.signaltime≤p.now
  late : (∀ th,¬s.Stepping th) → ∀ e∈s.waitList,e.old=true → s.emuNow<s.signalOf e.id
  world : s.mode=.world → s.waitList=[]
  live : ∀ e∈s.waitList,∃ t n,s.timeouts e.id=some t ∧ t.semaphore=some n
  asserts : s.failed=false

def Fits (i : TimeoutId) : Prop :=
  s.signalOf i≠0 ∧ ∀ e∈s.waitList,
    (e.key≤((s.timeouts i).map FlexiTimeout.starttime).getD 0 → s.signalOf e.id ≤ s.signalOf i) ∧
    (((s.timeouts i).map FlexiTimeout.starttime).getD 0<e.key → s.signalOf i ≤ s.signalOf e.id)

def InList (i : TimeoutId) : Prop := i∈s.waitList.map WaitEntry.id

def HasSemaphore (i : TimeoutId) : Prop := (s.timeouts i).any fun t => t.semaphore.isSome

/-- `start_ns()` may set its times. -/
def MayTime : TimerPc → Prop
  | .startTested n _ => ¬s.InList (.member n)
  | _ => True

/-- `start_ns()` may put its timeout in the list. -/
def MayInsert : TimerPc → Prop
  | .startTimed n => s.mode=.emulated ∧ s.HasSemaphore (.member n) ∧ s.Fits (.member n)
  | _ => True

/-- The mode is still emulated time when a wait builds its timeout and when one is inserted, whose deadline fits its
place; a member is started out of the list, with a semaphore, and destroyed out of it, not posted; `sem_wait()` is not
interrupted; the mode becomes the one asked for. -/
def Careful : TimerEvent → Prop
  | .waitBuild _ => s.mode=.emulated
  | .waitInsert th => s.mode=.emulated ∧ s.Fits (.inWait th)
  | .waitSignal _ => False
  | .destroy n => ¬s.InList (.member n) ∧
      (s.mode=.emulated → (s.timeouts (.member n)).any fun t => t.semaphore=some 0)
  | .startTime th => s.MayTime (s.threads th)
  | .startInsert th => s.MayInsert (s.threads th)
  | .modeSwitch th _ => s.threads th≠.switching s.mode
  | .waitTest _ _ | .waitTime _ | .waitSemaphore _ | .waitEnd _ | .create _ | .startTest _ _ _ _
  | .modeTest _ _ | .stepTest _ _ | .stepAdd _ | .stepQuick _ | .stepScan _ => True

end Timers

end QUniLator.Timing
