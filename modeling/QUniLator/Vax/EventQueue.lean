import QUniLator.Framework.Run
import QUniLator.Framework.Chain

namespace QUniLator.Vax

open Function

def noqueueWait : Int := 1000000

/-- The queue with its units. A unit whose `next` is `none` is not active; `some none` is the end of the queue.
`serving` says that a service routine runs. -/
structure EventQueue (ι : Type*) where
  next : ι → Option (Option ι)
  time : ι → Int
  simClockQueue : Option ι
  simInterval : Int
  noqueueTime : Int
  simTime : Int
  serving : Bool

/-- `count` is one count of the processor; `process` calls `sim_process_event`, `done` is the return of its service
routine, with SCPE_OK or not. `runBegin` and `runEnd` are `simh_shim_run` around the processor. -/
inductive QueueStep (ι : Type*)
  | count
  | process
  | done (ok : Bool)
  | activate (u : ι) (eventTime : Int)
  | activateAbs (u : ι) (eventTime : Int)
  | activateNotbefore (u : ι) (rtime : Nat)
  | cancel (u : ι)
  | activateTime (u : ι)
  | gtime
  | grtime
  | runBegin (maxInstructions : Int)
  | runEnd
  deriving DecidableEq,Repr

namespace EventQueue

variable {ι : Type*} [DecidableEq ι]

def boot : EventQueue ι := ⟨fun _ => none,fun _ => 0,none,0,0,0,false⟩

section
variable (s : EventQueue ι)

def anchor : Int :=
  match s.simClockQueue with
  | none => s.noqueueTime
  | some h => s.time h

/-- `shim_update_time` -/
def updateTime : EventQueue ι :=
  match s.simClockQueue with
  | none => { s with simTime := s.simTime+(s.noqueueTime-s.simInterval),noqueueTime := s.simInterval }
  | some h => { s with simTime := s.simTime+(s.time h-s.simInterval)
                       time := update s.time h s.simInterval }

def isActive (u : ι) : Bool := (s.next u).isSome

def wait : EventQueue ι := { s with simInterval := noqueueWait,noqueueTime := noqueueWait }

def headTime : EventQueue ι :=
  match s.simClockQueue with
  | none => s.wait
  | some h => { s with simInterval := s.time h }

/-- The loop that looks for the place of an event: the entry before it, and the time up to that -/
def scan (eventTime : Int) (prv : Option ι) (accum : Int) : List ι → Option ι × Int
  | [] => (prv,accum)
  | c::l => if eventTime<accum+s.time c then (prv,accum) else scan eventTime (some c) (accum+s.time c) l

/-- The unit is linked in behind `prv`, or becomes the head. -/
def link (u : ι) : Option ι → EventQueue ι
  | none => { s with next := update s.next u (some s.simClockQueue),simClockQueue := some u }
  | some p => { s with next := update (update s.next u (s.next p)) p (some (some u)) }

def retime (u : ι) (t : Int) : EventQueue ι :=
  match (s.next u).join with
  | none => { s with time := update s.time u t }
  | some v => { s with time := update (update s.time u t) v (s.time v-t) }

def before (u : ι) (l : List ι) : Option ι := l.find? fun c => s.next c=some (some u)

def handTime (u : ι) : EventQueue ι :=
  match (s.next u).join with
  | some v => { s with time := update s.time v (s.time v+s.time u) }
  | none => s

/-- The unit is taken out of the queue, where it is the head or behind `prv`. -/
def unlink (u : ι) (prv : Option ι) : EventQueue ι :=
  if s.simClockQueue=some u then handTime { s with simClockQueue := (s.next u).join } u
  else match prv with
    | some c => handTime { s with next := update s.next c (s.next u) } u
    | none => s

def forget (u : ι) : EventQueue ι :=
  { s with next := update s.next u none,time := update s.time u 0 }

def popHead (u : ι) : EventQueue ι :=
  forget { s with simClockQueue := (s.next u).join } u

def nextInterval : EventQueue ι :=
  match s.simClockQueue with
  | some h => { s with simInterval := s.simInterval+s.time h }
  | none => s.wait

def fire (u : ι) : EventQueue ι := { (s.popHead u).nextInterval with serving := true }

def catchUp : EventQueue ι := { s with simInterval := max s.simInterval 0 }

def leaveLoop : EventQueue ι := { s with serving := false }

def simProcessEvent : EventQueue ι :=
  let s := s.updateTime
  if 0<s.simInterval then s
  else match s.simClockQueue with
    | none => s.wait
    | some u => s.catchUp.fire u

def serviced (ok : Bool) : EventQueue ι :=
  if ok=false then s.leaveLoop
  else if 0<s.simInterval then s.leaveLoop
  else match s.simClockQueue with
    | some u => s.fire u
    | none => s.wait.leaveLoop

end

section
variable [Fintype ι] (s : EventQueue ι)

def chain : List ι := walk s.next (Fintype.card ι) s.simClockQueue

def activate (u : ι) (eventTime : Int) : EventQueue ι :=
  if eventTime<0 then s
  else if s.isActive u then s
  else
    let s := s.updateTime
    let place := s.scan eventTime none 0 s.chain
    ((s.link u place.1).retime u (eventTime-place.2)).headTime

def simCancel (u : ι) : EventQueue ι :=
  if s.simClockQueue=none then s
  else if s.isActive u=false then s
  else
    let s := s.updateTime
    ((s.unlink u (s.before u s.chain)).forget u).headTime

/-- `sim_activate_time`, `int32` as it is -/
def simActivateTime (u : ι) : List ι → Int → Int
  | [],_ => 0
  | c::l,accum =>
    let accum := accum+(if s.simClockQueue=some c then s.simInterval else s.time c)
    if c=u then Int.bmod (accum+1) 0x100000000 else simActivateTime u l accum

/-- What an event waits for that is to fire at the time `rtime` of a clock of 32 bits. -/
def untilNotbefore (now rtime : Nat) : Int :=
  let d := (rtime+0x100000000-now)%0x100000000
  if 0x80000000≤d then 0 else d

/-- `sim_grtime` reads the clock with `toUint32`, the conversion of a `double`. -/
def activateNotbefore (toUint32 : Int → Nat) (u : ι) (rtime : Nat) : EventQueue ι :=
  let s := s.simCancel u
  s.activate u (untilNotbefore (toUint32 s.simTime) rtime)

/-- The processor counts only while no event is due, and calls of the queue's own come from it or from a service
routine. `batch` is the unit that ends a batch. -/
def step (toUint32 : Int → Nat) (batch : ι) : QueueStep ι → Option (EventQueue ι)
  | .count => if s.serving=false ∧ 0<s.simInterval then some { s with simInterval := s.simInterval-1 } else none
  | .process => if s.serving=false then some s.simProcessEvent else none
  | .done ok => if s.serving then some (s.serviced ok) else none
  | .activate u d => if d≤0x7fffffff then some (s.activate u d) else none
  | .activateAbs u d => if d≤0x7fffffff then some ((s.simCancel u).activate u d) else none
  | .activateNotbefore u rtime => some (s.activateNotbefore toUint32 u (rtime%0x100000000))
  | .cancel u => some (s.simCancel u)
  | .activateTime _ => some s
  | .gtime => some s
  | .grtime => some s
  | .runBegin n =>
    if s.serving=false ∧ n≤0x7fffffff then
      some (if 0<n then (s.simCancel batch).activate batch n else s.simCancel batch)
    else none
  | .runEnd => if s.serving=false then some (s.simCancel batch) else none

end

end EventQueue

end QUniLator.Vax
