import QUniLator.Framework.Run
import QUniLator.Framework.Tally

namespace QUniLator.Mux

/-- Where the I/O thread of a line is: `top` of the loop of `io_run`, after the test of `want_listen`, in the
two halves of `accept_for`, with a caller -/
inductive Io
  | none | top | standDown | closeIdle | wanted | registered | selecting (fd : Nat) | accepted
  | taken | serving | dropping
  deriving DecidableEq,Repr

/-- Where the thread that opens and closes a line is -/
inductive Ctl
  | idle | acquired | stopped | joined | unlisted
  deriving DecidableEq,Repr

/-- A line of role listen. `listed`: it holds the listener; `reg`: `listener_available_`; `shutting`:
`set_listen_gate(false)` has yet to look at `connected_`; `reserved`: `open()` has the port and the I/O thread has not
asked for the socket yet. -/
structure Member where
  listed : Bool
  reg : Bool
  gate : Bool
  running : Bool
  client : Bool
  connected : Bool
  drop : Bool
  reserved : Bool
  shutting : Bool
  io : Io
  ctl : Ctl
  deriving DecidableEq,Repr

/-- `port_listener_c` and the lines that may share it. `fd` is the socket; each one has a number of its
own. -/
structure Port (ι : Type) where
  members : Nat
  available : Nat
  waiting : Nat
  fd : Option Nat
  next : Nat
  line : ι → Member

/-- What happens. `ok` tells whether a port could be bound, `got` whether `accept` had a caller. -/
inductive PortEvent (ι : Type)
  | acquire (i : ι)
  | reserve (i : ι) (ok : Bool)
  | loop (i : ι)
  | standDown (i : ι)
  | closeIdle (i : ι)
  | register (i : ι)
  | select (i : ι) (ok : Bool)
  | accept (i : ι) (got : Bool)
  | connect (i : ι)
  | unregister (i : ι)
  | served (i : ι)
  | dropClient (i : ι)
  | stop (i : ι)
  | join (i : ι)
  | unlist (i : ι)
  | release (i : ι)
  | gate (i : ι) (open_ : Bool)
  | shut (i : ι)
  | disconnect (i : ι)

namespace Port

variable {ι : Type} [DecidableEq ι]

def set (p : Port ι) (i : ι) (m : Member) : Port ι := { p with line := Function.update p.line i m }

def closeIdle (p : Port ι) : Port ι :=
  if p.available=0 ∧ p.waiting=0 then { p with fd := .none } else p

def setAvailable (p : Port ι) (available : Bool) : Port ι :=
  closeIdle { p with available := if available then p.available+1 else p.available-1 }

def setListenerAvailable (p : Port ι) (i : ι) (available : Bool) : Port ι :=
  let m := p.line i
  if !m.listed || m.reg=available then p
  else (p.set i { m with reg := available }).setAvailable available

/-- `ensure_open_locked` -/
def ensureOpen (p : Port ι) (ok : Bool) : Option (Port ι) :=
  if p.fd.isSome then some p
  else if ok then some { p with fd := some p.next,next := p.next+1 }
  else .none

/-- `release`. The listener that nobody holds goes. -/
def release (p : Port ι) : Port ι :=
  let members := p.members-1
  if members=0 then { p with members := 0,available := 0,waiting := 0,fd := .none }
  else { p with members := members }

def closeClient (m : Member) : Member := { m with client := false,connected := false,drop := false }

def wantListen (m : Member) : Bool := m.running && m.gate && !m.client

/-- Line `i` goes on as `m`. -/
def goOn (p : Port ι) (i : ι) (f : Member → Member) : Port ι := p.set i (f (p.line i))

def step (p : Port ι) : PortEvent ι → Option (Port ι)
  | .acquire i =>
    if (p.line i).ctl=.idle ∧ !(p.line i).running then
      some { p.goOn i fun m => { m with listed := true,reg := false,ctl := .acquired } with
        members := p.members+1 }
    else .none
  | .reserve i ok =>
    if (p.line i).ctl=.acquired then
      if (p.line i).gate then
        match p.ensureOpen ok with
        | some q => some (q.goOn i fun m =>
            { m with running := true,io := .top,ctl := .idle,reserved := true })
        | .none => some (p.goOn i fun m => { m with listed := false,ctl := .idle }).release
      else some (p.goOn i fun m => { m with running := true,io := .top,ctl := .idle })
    else .none
  | .loop i =>
    if (p.line i).io=.top then
      some (p.goOn i fun m => { m with
        io := if !m.running then .none else if wantListen m then .wanted else .standDown })
    else .none
  | .standDown i =>
    if (p.line i).io=.standDown then
      some ((p.setListenerAvailable i false).goOn i fun m =>
        { m with io := .closeIdle,reserved := false })
    else .none
  | .closeIdle i =>
    if (p.line i).io=.closeIdle then
      some (p.closeIdle.goOn i fun m => { m with io := .top })
    else .none
  | .register i =>
    if (p.line i).io=.wanted then
      some ((p.setListenerAvailable i true).goOn i fun m => { m with io := .registered })
    else .none
  | .select i ok =>
    if (p.line i).io=.registered then
      match p.ensureOpen ok with
      | some q => some { q.goOn i fun m =>
            { m with io := .selecting (q.fd.getD 0),reserved := false } with
          waiting := q.waiting+1 }
      | .none => some (p.goOn i fun m => { m with io := .top,reserved := false })
    else .none
  | .accept i got =>
    match (p.line i).io with
    | .selecting fd =>
      some (closeIdle { p.goOn i fun m =>
          if got && p.fd=some fd then { m with io := .accepted,client := true }
          else { m with io := .top } with
        waiting := p.waiting-1 })
    | _ => .none
  | .connect i =>
    if (p.line i).io=.accepted then
      some (p.goOn i fun m => { m with io := .taken,connected := true })
    else .none
  | .unregister i =>
    if (p.line i).io=.taken then
      some ((p.setListenerAvailable i false).goOn i fun m => { m with io := .serving })
    else .none
  | .served i =>
    if (p.line i).io=.serving then some (p.goOn i fun m => { m with io := .dropping }) else .none
  | .dropClient i =>
    if (p.line i).io=.dropping then
      some (p.goOn i fun m => { closeClient m with io := .top })
    else .none
  | .stop i =>
    if (p.line i).ctl=.idle ∧ (p.line i).running then
      some (p.goOn i fun m => { m with running := false,reserved := false,ctl := .stopped })
    else .none
  | .join i =>
    if (p.line i).ctl=.stopped ∧ (p.line i).io=.none then
      some (p.goOn i fun m => { closeClient m with ctl := .joined })
    else .none
  | .unlist i =>
    if (p.line i).ctl=.joined then
      some ((p.setListenerAvailable i false).goOn i fun m => { m with ctl := .unlisted })
    else .none
  | .release i =>
    if (p.line i).ctl=.unlisted then
      some (p.goOn i fun m => { m with listed := false,ctl := .idle }).release
    else .none
  | .gate i open_ =>
    if (p.line i).shutting then .none
    else if (p.line i).gate=open_ then some p
    else some (p.goOn i fun m => { m with gate := open_,shutting := !open_ })
  | .shut i =>
    if (p.line i).shutting then
      some (p.goOn i fun m => { m with drop := m.drop || m.connected,shutting := false })
    else .none
  | .disconnect i => some (p.goOn i fun m => { m with drop := m.drop || m.connected })

def start (gate : ι → Bool) : Port ι :=
  ⟨0,0,0,.none,0,fun i => ⟨false,false,gate i,false,false,false,false,false,false,.none,.idle⟩⟩

end Port

end QUniLator.Mux
