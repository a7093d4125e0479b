import QUniLator.Ethernet.DeunaStatus

namespace QUniLator.Ethernet.Deuna

open Bool (not_eq_true' or_eq_false_iff)

open List BitVec

def pcsr0Rset : Word := 0o000040

def cmdNoop : Word := 0o00

def cmdGetpcbb : Word := 0o01

def cmdGetcmd : Word := 0o02

def cmdSelftest : Word := 0o03

def cmdStart : Word := 0o04

def cmdBoot : Word := 0o05

def cmdPdmd : Word := 0o10

def cmdHalt : Word := 0o16

def cmdStop : Word := 0o17

/-! The states in PCSR1 -/

def stateReady : Word := 0o02

def stateRunning : Word := 0o03

def stateHalt : Word := 0o10

inductive PortReg | pcsr0 | pcsr1 | pcsr2 | pcsr3
  deriving DecidableEq,Repr

inductive DatoAccess | word | byteL | byteH
  deriving DecidableEq,Repr

/-- What has been executed: the port commands, each with the state that it has met and the address that it
has taken or used, and the resets -/
inductive Executed
  | reset
  | command (cmd state : Word) (address : BitVec 32)
  deriving DecidableEq,Repr

/-- INTE and the command field of PCSR0, the state in PCSR1, the address registers, and what has been
executed -/
structure Port where
  pcsr0 : Word
  state : Word
  pcsr2 : Word
  pcsr3 : Word
  pcbb : BitVec 32
  executed : List Executed
  deriving DecidableEq,Repr

/-- `pending_reg_write`, with the value of the DATO flipflops -/
structure RegWrite where
  reg : PortReg
  access : DatoAccess
  value : Word
  deriving DecidableEq,Repr

namespace Port

def latch (p : Port) : BitVec 32 := (p.pcsr3.setWidth 32 <<< 16) ||| p.pcsr2.setWidth 32

def address (p : Port) (cmd : Word) : BitVec 32 :=
  if cmd=cmdGetpcbb then p.latch
  else if cmd=cmdGetcmd then p.pcbb
  else if cmd=cmdBoot then { p with pcsr2 := p.pcsr2 &&& 0o177776 }.latch
  else 0

def stateAfter (state cmd : Word) : Word :=
  if cmd=cmdSelftest then stateReady
  else if cmd=cmdStart then if state=stateReady then stateRunning else state
  else if cmd=cmdHalt then if state=stateReady ∨ state=stateRunning then stateHalt else state
  else if cmd=cmdStop then if state=stateRunning then stateReady else state
  else state

def portCommand (p : Port) (cmd : Word) : Port where
  pcsr0 := p.pcsr0 &&& ~~~pcsr0Pcmd
  state := stateAfter p.state cmd
  pcsr2 := p.pcsr2
  pcsr3 := p.pcsr3
  pcbb := if cmd=cmdGetpcbb then p.latch else p.pcbb
  executed := p.executed++[.command cmd p.state (p.address cmd)]

def resetController (p : Port) : Port where
  pcsr0 := 0
  state := stateReady
  pcsr2 := 0
  pcsr3 := 0
  pcbb := 0
  executed := p.executed++[.reset]

inductive Action
  | nothing
  | reset
  | toggle
  | noop
  | command (cmd : Word)
  deriving DecidableEq,Repr

def action (p : Port) (w : RegWrite) : Action :=
  let data := if w.access=.byteL then w.value &&& 0x00ff else w.value
  if w.access=.byteH then .nothing
  else if data &&& pcsr0Rset≠0 then .reset
  else if (p.pcsr0 ^^^ data) &&& pcsr0Inte≠0 then .toggle
  else if data &&& pcsr0Pcmd=cmdNoop then .noop
  else .command (data &&& pcsr0Pcmd)

def toggleInte (p : Port) : Port := { p with pcsr0 := p.pcsr0 ^^^ pcsr0Inte }

def setPcmd (p : Port) (cmd : Word) : Port := { p with pcsr0 := (p.pcsr0 &&& ~~~pcsr0Pcmd) ||| cmd }

def setPcsr2 (p : Port) (val : Word) : Port := { p with pcsr2 := val &&& 0o177776 }

def setPcsr3 (p : Port) (val : Word) : Port := { p with pcsr3 := val &&& 0o000003 }

def perform (p : Port) : Action → Port
  | .nothing => p
  | .reset => p.resetController
  | .toggle => p.toggleInte
  | .noop => p.setPcmd cmdNoop
  | .command cmd => (p.setPcmd cmd).portCommand cmd

def write (p : Port) (w : RegWrite) : Port :=
  match w.reg with
  | .pcsr0 => p.perform (p.action w)
  | .pcsr1 => p
  | .pcsr2 => p.setPcsr2 w.value
  | .pcsr3 => p.setPcsr3 w.value

/-- `update_pcsr_regs`: what the flipflops of a register then hold -/
def shown (p : Port) : PortReg → Word
  | .pcsr0 => p.pcsr0
  | .pcsr1 => p.state
  | .pcsr2 => p.pcsr2
  | .pcsr3 => p.pcsr3

end Port

def PortReg.writableBits : PortReg → Word
  | .pcsr0 | .pcsr2 => 0xffff
  | .pcsr1 => 0
  | .pcsr3 => 0x0003

/-- What a cycle leaves in the DATO flipflops that hold `old` -/
def DatoAccess.merge (old data : Word) : DatoAccess → Word
  | .word => data
  | .byteL => (old &&& 0xff00) ||| (data &&& 0x00ff)
  | .byteH => (old &&& 0x00ff) ||| (data &&& 0xff00)

/-- A write cycle of the host on registers that hold `p` -/
def Port.cycle (p : Port) (reg : PortReg) (access : DatoAccess) (data : Word) : RegWrite :=
  ⟨reg,access,access.merge (p.shown reg) (data &&& reg.writableBits)⟩

/-- The cycle of the host: the adapter has stored it in the DATO flipflops (`stored`), and the callback has
fetched it from there. -/
inductive Access
  | none
  | stored (w : RegWrite)
  | fetched (w : RegWrite)
  deriving DecidableEq,Repr

/-- The thread `worker_tx`: before `apply_pending_reg_writes`, there with the writes swapped out of the queue, and in
`process_pending_command` with the command -/
inductive Worker
  | waiting
  | applying (writes : List RegWrite)
  | executing (cmd : Word)
  deriving DecidableEq,Repr

/-- `deuna_c` -/
structure PortState where
  port : Port
  pendingRegQueue : List RegWrite
  pendingCmd : Word
  access : Access
  worker : Worker
  deriving DecidableEq,Repr

inductive PortEvent
  | cycle (reg : PortReg) (access : DatoAccess) (data : Word)
  | fetch
  | callback
  | drain
  | apply
  | take
  | execute
  | show
  deriving DecidableEq,Repr

def needsDma (cmd : Word) : Bool := cmd=cmdGetcmd || cmd=cmdPdmd || cmd=cmdBoot

namespace PortState

/-- `update_pcsr_regs`, where a cycle has been stored and not fetched -/
def showRegs (s : PortState) : PortState :=
  match s.access with
  | .stored w => { s with access := .stored { w with value := s.port.shown w.reg } }
  | .none | .fetched _ => s

/-- `handle_register_write` for PCSR0 -/
def handlePcsr0 (s : PortState) (w : RegWrite) : PortState :=
  match s.port.action w with
  | .nothing => s
  | .reset => { s with port := s.port.resetController }
  | .toggle => { s with port := s.port.toggleInte }
  | .noop => { s with port := s.port.setPcmd cmdNoop }
  | .command cmd =>
    if needsDma cmd then { s with port := s.port.setPcmd cmd,pendingCmd := cmd }
    else { s with port := (s.port.setPcmd cmd).portCommand cmd }

def handleRegisterWrite (s : PortState) (w : RegWrite) : PortState :=
  match w.reg with
  | .pcsr0 => (s.handlePcsr0 w).showRegs
  | .pcsr1 => s
  | .pcsr2 => { s with port := s.port.setPcsr2 w.value }.showRegs
  | .pcsr3 => { s with port := s.port.setPcsr3 w.value }.showRegs

/-- `on_after_register_access` after the value has been fetched -/
def onAfterRegisterAccess (s : PortState) (w : RegWrite) : PortState :=
  if w.reg=.pcsr2 ∨ w.reg=.pcsr3 then { s with access := .none }.handleRegisterWrite w
  else { s with access := .none,pendingRegQueue := s.pendingRegQueue++[w] }

def executeCommand (s : PortState) (cmd : Word) : PortState :=
  if cmd=0 then s else { s with port := s.port.portCommand cmd }.showRegs

def step (s : PortState) : PortEvent → Option PortState
  | .cycle reg access data =>
    match s.access with
    | .none =>
      -- PCSR1 is not active on DATO
      some { s with access := if reg=.pcsr1 then .none else .stored (s.port.cycle reg access data) }
    | .stored _ | .fetched _ => none
  | .fetch =>
    match s.access with
    | .stored w => some { s with access := .fetched w }
    | .none | .fetched _ => none
  | .callback =>
    match s.access with
    | .fetched w => some (s.onAfterRegisterAccess w)
    | .none | .stored _ => none
  | .drain =>
    match s.worker with
    | .waiting => some { s with pendingRegQueue := [],worker := .applying s.pendingRegQueue }
    | .applying _ | .executing _ => none
  | .apply =>
    match s.worker with
    | .applying (w::ws) => some ({ s with worker := .applying ws }.handleRegisterWrite w)
    | .applying [] | .waiting | .executing _ => none
  | .take =>
    match s.worker with
    | .applying [] => some { s with pendingCmd := 0,worker := .executing s.pendingCmd }
    | .applying (_::_) | .waiting | .executing _ => none
  | .execute =>
    match s.worker with
    | .executing cmd => some ({ s with worker := .waiting }.executeCommand cmd)
    | .waiting | .applying _ => none
  | .show => some s.showRegs

def start : PortState := ⟨⟨0,stateReady,0,0,0,[]⟩,[],0,.none,.waiting⟩

end PortState

/-- A state with the port that the host's writes, one at a time in their order, come to -/
abbrev Ordering := PortState × Port

def portAfter (p : Port) : PortEvent → Port
  | .cycle reg access data => p.write (p.cycle reg access data)
  | .fetch | .callback | .drain | .apply | .take | .execute | .show => p

def stepOrdered (x : Ordering) (e : PortEvent) : Option Ordering :=
  (x.1.step e).map fun t => (t,portAfter x.2 e)

/-! What is outstanding -/

namespace Port

def finish (p : Port) (cmd : Word) : Port := if cmd=0 then p else p.portCommand cmd

def resets (p : Port) : List RegWrite → Bool
  | [] => false
  | w::ws => p.action w=.reset || (p.write w).resets ws

def usesAddress (cmd : Word) : Bool := cmd=cmdGetpcbb || cmd=cmdBoot

/-- The writes of PCSR0 that are queued come to GETPCBB or BOOT before any reset. -/
def uses (p : Port) : List RegWrite → Bool
  | [] => false
  | w::ws =>
    match p.action w with
    | .reset => false
    | .command cmd => usesAddress cmd || (p.write w).uses ws
    | .nothing | .toggle | .noop => (p.write w).uses ws

end Port

def Worker.writes : Worker → List RegWrite
  | .applying ws => ws
  | .waiting | .executing _ => []

def Access.writes : Access → List RegWrite
  | .none => []
  | .stored w | .fetched w => [w]

def Access.isStored : Access → Bool
  | .stored _ => true
  | .none | .fetched _ => false

namespace PortState

def queued (s : PortState) : List RegWrite := s.worker.writes++s.pendingRegQueue

/-- The command that waits in `pending_cmd`, or has been taken from there -/
def command (s : PortState) : Word :=
  match s.worker with
  | .executing cmd => cmd
  | .waiting | .applying _ => s.pendingCmd

def outcome (s : PortState) : Port :=
  (s.queued++s.access.writes).foldl Port.write (s.port.finish s.command)

/-- A write of PCSR2 or PCSR3 changes no address that an outstanding GETPCBB or BOOT takes, and no
outstanding reset undoes it. -/
def inTime (s : PortState) (w : RegWrite) : Bool :=
  let val := (s.port.write w).shown w.reg
  (val=s.port.shown w.reg || !(Port.usesAddress s.command || s.port.uses s.queued)) &&
    (val=0 || !s.port.resets s.queued)

def merges (s : PortState) (reg : PortReg) (access : DatoAccess) (data : Word) : Bool :=
  s.port.cycle reg access data=⟨reg,access,access.merge 0 (data &&& reg.writableBits)⟩ ||
    !s.port.resets s.queued

/-- The flipflops are not shown between a cycle and its callback, PCSR2 and PCSR3 are not written ahead of what uses
or resets them, and nothing is executed ahead of `pending_cmd`, nor put over it. -/
def keeps (s : PortState) : PortEvent → Bool
  | .cycle reg access data =>
    match reg with
    | .pcsr0 | .pcsr1 => true
    | .pcsr2 | .pcsr3 => s.merges reg access data
  | .callback =>
    match s.access with
    | .fetched w => w.reg=.pcsr0 || s.inTime w
    | .none | .stored _ => true
  | .apply =>
    !s.access.isStored &&
      match s.worker with
      | .applying (w::_) =>
        match s.port.action w with
        | .reset | .command _ => s.pendingCmd=0
        | .nothing | .toggle | .noop => true
      | .applying [] | .waiting | .executing _ => true
  | .execute | .show => !s.access.isStored
  | .fetch | .drain | .take => true

def AtRest (s : PortState) : Prop := s.access=.none ∧ s.pendingRegQueue=[] ∧ s.worker=.waiting

/-- The port and what is outstanding come to what the host's writes come to one at a time, and where nothing is
outstanding the port is there: the same commands, with the same addresses. -/
structure Ordered (s : PortState) (p : Port) : Prop where
  outcome : s.outcome=p
  port : s.AtRest → s.port=p

end PortState

namespace Port

variable {p q : Port} {w x : RegWrite} {ws : List RegWrite} {cmd : Word}

theorem write_pcsr0 (hw : w.reg=.pcsr0) (p : Port) : p.write w=p.perform (p.action w) := by
  rw [write,hw]

/-! What a write of PCSR0 asks for depends on INTE only. -/

theorem xor_congr {a b m : Word} (h : a &&& m=b &&& m) (d : Word) : (a ^^^ d) &&& m=(b ^^^ d) &&& m := by
  refine eq_on_iff.mpr fun i hi hm => ?_
  rw [getElem_xor,getElem_xor,eq_on_iff.mp h i hi hm]

theorem action_congr (h : p.pcsr0 &&& pcsr0Inte=q.pcsr0 &&& pcsr0Inte) (w : RegWrite) : p.action w=q.action w := by
  unfold action
  simp only [xor_congr h]

theorem keepPcmd_inte (a : Word) : (a &&& ~~~pcsr0Pcmd) &&& pcsr0Inte=a &&& pcsr0Inte := by
  rw [BitVec.and_assoc]
  rfl

theorem portCommand_inte (p : Port) (cmd : Word) :
    (p.portCommand cmd).pcsr0 &&& pcsr0Inte=p.pcsr0 &&& pcsr0Inte := keepPcmd_inte _

theorem finish_inte (p : Port) (cmd : Word) : (p.finish cmd).pcsr0 &&& pcsr0Inte=p.pcsr0 &&& pcsr0Inte := by
  rw [finish]
  split
  · rfl
  · exact portCommand_inte p cmd

theorem action_finish (p : Port) (cmd : Word) (w : RegWrite) : (p.finish cmd).action w=p.action w :=
  action_congr (finish_inte p cmd) w

theorem setPcmd_inte (h : p.pcsr0 &&& pcsr0Inte=q.pcsr0 &&& pcsr0Inte) (cmd : Word) :
    (p.setPcmd cmd).pcsr0 &&& pcsr0Inte=(q.setPcmd cmd).pcsr0 &&& pcsr0Inte := by
  rw [setPcmd,setPcmd,and_or_distrib_right,and_or_distrib_right,keepPcmd_inte,keepPcmd_inte,h]

theorem write_inte (h : p.pcsr0 &&& pcsr0Inte=q.pcsr0 &&& pcsr0Inte) (w : RegWrite) :
    (p.write w).pcsr0 &&& pcsr0Inte=(q.write w).pcsr0 &&& pcsr0Inte := by
  unfold write
  cases w.reg with
  | pcsr1 | pcsr2 | pcsr3 => exact h
  | pcsr0 =>
    dsimp only
    rw [action_congr h w]
    unfold perform
    cases q.action w with
    | nothing => exact h
    | reset => rfl
    | toggle => exact xor_congr h pcsr0Inte
    | noop => exact setPcmd_inte h cmdNoop
    | command cmd =>
      dsimp only
      rw [portCommand_inte,portCommand_inte]
      exact setPcmd_inte h cmd

theorem resets_congr (h : p.pcsr0 &&& pcsr0Inte=q.pcsr0 &&& pcsr0Inte) (ws : List RegWrite) :
    p.resets ws=q.resets ws := by
  induction ws generalizing p q with
  | nil => rfl
  | cons w ws ih => rw [resets,resets,action_congr h w,ih (write_inte h w)]

theorem uses_congr (h : p.pcsr0 &&& pcsr0Inte=q.pcsr0 &&& pcsr0Inte) (ws : List RegWrite) : p.uses ws=q.uses ws := by
  induction ws generalizing p q with
  | nil => rfl
  | cons w ws ih => rw [uses,uses,action_congr h w,ih (write_inte h w)]

/-! A write of PCSR2 or PCSR3, and what comes before it in the queue -/

theorem write_shown (hw : w.reg=.pcsr2 ∨ w.reg=.pcsr3) (p q : Port) :
    (p.write w).shown w.reg=(q.write w).shown w.reg := by
  obtain hw | hw := hw
  all_goals
    rw [write,write,hw]
    rfl

theorem write_self (hw : w.reg=.pcsr2 ∨ w.reg=.pcsr3) (h : (p.write w).shown w.reg=p.shown w.reg) : p.write w=p := by
  obtain hw | hw := hw
  all_goals
    rw [write,hw] at h ⊢
    dsimp only [shown,setPcsr2,setPcsr3] at h ⊢
    rw [h]

theorem write_inte_address (hw : w.reg=.pcsr2 ∨ w.reg=.pcsr3) (p : Port) : (p.write w).pcsr0=p.pcsr0 := by
  obtain hw | hw := hw
  all_goals
    rw [write,hw]
    rfl

theorem portCommand_address (hw : w.reg=.pcsr2 ∨ w.reg=.pcsr3) (hu : usesAddress cmd=false)
    (p : Port) : (p.write w).portCommand cmd=(p.portCommand cmd).write w := by
  rw [usesAddress,or_eq_false_iff] at hu
  have hget : cmd≠cmdGetpcbb := of_decide_eq_false hu.1
  have hboot : cmd≠cmdBoot := of_decide_eq_false hu.2
  obtain hw | hw := hw
  all_goals
    rw [write,write,hw]
    simp only [portCommand,address,if_neg hget,if_neg hboot,setPcsr2,setPcsr3]

variable {r : PortReg}

theorem portCommand_shown (hr : r=.pcsr2 ∨ r=.pcsr3) (p : Port) (cmd : Word) :
    (p.portCommand cmd).shown r=p.shown r := by
  obtain rfl | rfl := hr <;> rfl

theorem write_pcsr0_shown (hr : r=.pcsr2 ∨ r=.pcsr3) (hw : w.reg=.pcsr0) (p : Port) :
    (p.write w).shown r=if p.action w=.reset then 0 else p.shown r := by
  rw [write_pcsr0 hw]
  cases p.action w with
  | nothing | toggle | noop | reset | command cmd => obtain rfl | rfl := hr <;> rfl

theorem foldl_shown (hr : r=.pcsr2 ∨ r=.pcsr3) (hws : ∀ w∈ws,w.reg=.pcsr0)
    (p : Port) : (ws.foldl write p).shown r=if p.resets ws then 0 else p.shown r := by
  induction ws generalizing p with
  | nil => rfl
  | cons w ws ih =>
    rw [foldl_cons,ih fun w' hm => hws w' (mem_cons_of_mem w hm),write_pcsr0_shown hr (hws w mem_cons_self),resets]
    by_cases ha : p.action w=.reset
    · simp [ha]
    · simp [ha]

theorem finish_shown (hr : r=.pcsr2 ∨ r=.pcsr3) (p : Port) (cmd : Word) : (p.finish cmd).shown r=p.shown r := by
  rw [finish]
  split
  · rfl
  · exact portCommand_shown hr p cmd

theorem write_comm (hw : w.reg=.pcsr2 ∨ w.reg=.pcsr3) (hx : x.reg=.pcsr0) (hr : p.action x≠.reset)
    (hu : (p.write w).shown w.reg=p.shown w.reg ∨ p.uses [x]=false) : (p.write w).write x=(p.write x).write w := by
  obtain hs | hu := hu
  · have hp := write_self hw hs
    have hq : (p.write x).write w=p.write x := by
      refine write_self hw ?_
      rw [write_shown hw _ p,hs,write_pcsr0_shown hw hx,if_neg hr]
    rw [hp,hq]
  · have ha : (p.write w).action x=p.action x := action_congr (by rw [write_inte_address hw]) x
    rw [uses] at hu
    rw [write_pcsr0 hx,ha,write_pcsr0 hx]
    cases hact : p.action x with
    | nothing => rfl
    | reset => exact absurd hact hr
    | toggle | noop =>
      obtain hw | hw := hw
      all_goals
        rw [write,write,hw]
        rfl
    | command cmd =>
      rw [hact] at hu
      have hu : usesAddress cmd=false := (or_eq_false_iff.mp hu).1
      rw [perform,perform,← portCommand_address hw hu]
      obtain hw | hw := hw
      all_goals
        rw [write,write,hw]
        rfl

theorem foldl_comm (hw : w.reg=.pcsr2 ∨ w.reg=.pcsr3) (hws : ∀ x∈ws,x.reg=.pcsr0)
    (hu : (p.write w).shown w.reg=p.shown w.reg ∨ p.uses ws=false)
    (hz : (p.write w).shown w.reg=0 ∨ p.resets ws=false) : ws.foldl write (p.write w)=(ws.foldl write p).write w := by
  induction ws generalizing p with
  | nil => rfl
  | cons x ws ih =>
    have hx := hws x mem_cons_self
    have hws := fun y hm => hws y (mem_cons_of_mem x hm)
    rw [foldl_cons,foldl_cons]
    by_cases hr : p.action x=.reset
    · have hz : (p.write w).shown w.reg=0 := by
        obtain hz | hz := hz
        · exact hz
        · rw [resets,hr] at hz
          cases hz
      have hpw : (p.write w).action x=.reset := by
        rw [← hr]
        exact action_congr (by rw [write_inte_address hw]) x
      -- the reset leaves the register as the write has it
      have hreset : (p.write w).write x=p.write x := by
        rw [write_pcsr0 hx,hpw,write_pcsr0 hx,hr,perform,perform]
        obtain hw | hw := hw
        all_goals
          rw [write,hw]
          rfl
      have hself : ((p.write x).write w).shown w.reg=(p.write x).shown w.reg := by
        rw [write_shown hw _ p,hz,write_pcsr0_shown hw hx,if_pos hr]
      have hcomm := ih (p := p.write x) hws (.inl hself) (.inl (by rw [write_shown hw _ p,hz]))
      rw [write_self hw hself] at hcomm
      rw [hreset,← hcomm]
    · have hux : (p.write w).shown w.reg=p.shown w.reg ∨ p.uses [x]=false := by
        refine hu.imp_right fun hu => ?_
        rw [uses] at hu ⊢
        cases hact : p.action x with
        | reset => exact absurd hact hr
        | nothing | toggle | noop => rfl
        | command cmd =>
          rw [hact] at hu
          show (usesAddress cmd || false)=false
          rw [Bool.or_false]
          exact (or_eq_false_iff.mp hu).1
      rw [write_comm hw hx hr hux]
      refine ih hws ?_ ?_
      · rw [write_shown hw _ p,write_pcsr0_shown hw hx,if_neg hr]
        refine hu.imp_right fun hu => ?_
        rw [uses] at hu
        cases hact : p.action x with
        | reset => exact absurd hact hr
        | nothing | toggle | noop =>
          rw [hact] at hu
          exact hu
        | command cmd =>
          rw [hact] at hu
          exact (or_eq_false_iff.mp hu).2
      · rw [write_shown hw _ p]
        refine hz.imp_right fun hz => ?_
        rw [resets,or_eq_false_iff] at hz
        exact hz.2

theorem finish_comm (hw : w.reg=.pcsr2 ∨ w.reg=.pcsr3)
    (hu : (p.write w).shown w.reg=p.shown w.reg ∨ usesAddress cmd=false) :
    (p.write w).finish cmd=(p.finish cmd).write w := by
  obtain hs | hu := hu
  · have hf : ((p.finish cmd).write w).shown w.reg=(p.finish cmd).shown w.reg := by
      rw [write_shown hw _ p,hs,finish_shown hw]
    rw [write_self hw hs,write_self hw hf]
  · rw [finish,finish]
    split
    · rfl
    · exact portCommand_address hw hu p

theorem toggle_finish (p : Port) (cmd : Word) : p.toggleInte.finish cmd=(p.finish cmd).toggleInte := by
  rw [finish,finish]
  split
  · rfl
  · have hbits : (p.pcsr0 ^^^ pcsr0Inte) &&& ~~~pcsr0Pcmd=(p.pcsr0 &&& ~~~pcsr0Pcmd) ^^^ pcsr0Inte := by
      ext i hi
      simp only [getElem_and,getElem_xor,getElem_not]
      interval_cases i <;> simp [pcsr0Inte,pcsr0Pcmd]
    show { p.portCommand cmd with pcsr0 := (p.pcsr0 ^^^ pcsr0Inte) &&& ~~~pcsr0Pcmd }=_
    rw [hbits]
    rfl

theorem noop_finish (p : Port) (cmd : Word) : (p.setPcmd cmdNoop).finish cmd=(p.finish cmd).setPcmd cmdNoop := by
  rw [finish,finish]
  split
  · rfl
  · have hzero (a : Word) : a ||| cmdNoop=a := or_zero
    show { p.portCommand cmd with pcsr0 := ((p.pcsr0 &&& ~~~pcsr0Pcmd) ||| cmdNoop) &&& ~~~pcsr0Pcmd } =
      { p.portCommand cmd with pcsr0 := ((p.pcsr0 &&& ~~~pcsr0Pcmd) &&& ~~~pcsr0Pcmd) ||| cmdNoop }
    rw [hzero,hzero]

theorem action_cycle (p q r : Port) (access : DatoAccess) (data : Word) :
    p.action (q.cycle .pcsr0 access data)=p.action (r.cycle .pcsr0 access data) := by
  cases access with
  | word | byteH => rfl
  | byteL =>
    have hlow (old : Word) : ((old &&& 0xff00) ||| (data &&& PortReg.writableBits .pcsr0 &&& 0x00ff)) &&&
        0x00ff=data &&& PortReg.writableBits .pcsr0 &&& 0x00ff := by
      have hz : (0xff00 : Word) &&& 0x00ff=0#16 := rfl
      rw [and_or_distrib_right,BitVec.and_assoc,hz,and_zero,zero_or,BitVec.and_assoc,BitVec.and_self]
    simp only [action,cycle,DatoAccess.merge,hlow,↓reduceIte]

end Port

namespace PortState

open Port

variable {s t : PortState} {w : RegWrite}

theorem handlePcsr0_finish (hw : w.reg=.pcsr0)
    (hc : s.pendingCmd=0 ∨ s.port.action w=.nothing ∨ s.port.action w=.toggle ∨
      s.port.action w=.noop) : (s.handlePcsr0 w).port.finish (s.handlePcsr0 w).pendingCmd =
      (s.port.finish s.pendingCmd).write w := by
  rw [write_pcsr0 hw,action_finish,handlePcsr0]
  cases ha : s.port.action w with
  | nothing => rfl
  | toggle => exact toggle_finish s.port s.pendingCmd
  | noop => exact noop_finish s.port s.pendingCmd
  | reset =>
    rw [ha] at hc
    obtain hc | hc | hc | hc := hc
    · show s.port.resetController.finish s.pendingCmd=(s.port.finish s.pendingCmd).resetController
      rw [hc]
      rfl
    all_goals cases hc
  | command cmd =>
    rw [ha] at hc
    obtain hc | hc | hc | hc := hc
    · dsimp only
      cases hd : needsDma cmd with
      | false =>
        show ((s.port.setPcmd cmd).portCommand cmd).finish s.pendingCmd=_
        rw [hc]
        rfl
      | true =>
        show (s.port.setPcmd cmd).finish cmd=(s.port.finish s.pendingCmd).perform (.command cmd)
        rw [hc,finish,if_neg]
        · rfl
        rintro rfl
        cases hd
    all_goals cases hc

theorem showRegs_eq (h : s.access.isStored=false) : s.showRegs=s := by
  rw [showRegs]
  cases ha : s.access with
  | stored w =>
    rw [ha] at h
    cases h
  | none | fetched w => rfl

theorem handlePcsr0_worker (s : PortState) (w : RegWrite) : (s.handlePcsr0 w).worker=s.worker ∧
    (s.handlePcsr0 w).access=s.access ∧ (s.handlePcsr0 w).pendingRegQueue=s.pendingRegQueue := by
  rw [handlePcsr0]
  cases s.port.action w with
  | nothing | reset | toggle | noop => exact ⟨rfl,rfl,rfl⟩
  | command cmd =>
    dsimp only
    split <;> exact ⟨rfl,rfl,rfl⟩

structure Inv (x : Ordering) : Prop where
  outcome : x.1.outcome=x.2
  queued : ∀ w∈x.1.queued,w.reg=.pcsr0
  access : ∀ w∈x.1.access.writes,w.reg≠.pcsr1
  slot : (∀ ws,x.1.worker≠.applying ws) → x.1.pendingCmd=0

def done (s : PortState) : Port := s.queued.foldl write (s.port.finish s.command)

theorem outcome_eq (s : PortState) : s.outcome=s.access.writes.foldl write s.done := by
  rw [PortState.outcome,foldl_append]
  rfl

theorem cycle_outcome {r : PortReg} {access : DatoAccess} {data : Word} (hr : r=.pcsr2 ∨ r=.pcsr3)
    (hq : ∀ w∈s.queued,w.reg=.pcsr0) (hk : s.merges r access data) (hn : s.access=.none) :
    s.port.cycle r access data=s.outcome.cycle r access data := by
  have hshown : s.outcome.shown r=if s.port.resets s.queued then 0 else s.port.shown r := by
    rw [outcome_eq,hn]
    show s.done.shown r=_
    rw [done,foldl_shown hr hq,finish_shown hr,resets_congr (finish_inte s.port s.command)]
  cases hres : s.port.resets s.queued with
  | false =>
    rw [hres] at hshown
    rw [cycle,cycle,hshown]
    rfl
  | true =>
    rw [hres] at hshown
    rw [merges,hres,Bool.not_true,Bool.or_false] at hk
    rw [of_decide_eq_true hk,cycle,hshown]
    rfl

theorem write_cycle {r : PortReg} {access : DatoAccess} {data : Word} (hq : ∀ w∈s.queued,w.reg=.pcsr0)
    (hk : s.keeps (.cycle r access data)) (hn : s.access=.none) :
    s.outcome.write (s.port.cycle r access data)=s.outcome.write (s.outcome.cycle r access data) := by
  cases r with
  | pcsr0 => rw [write_pcsr0 rfl,write_pcsr0 rfl,action_cycle _ s.port s.outcome]
  | pcsr1 => rfl
  | pcsr2 => rw [cycle_outcome (.inl rfl) hq hk hn]
  | pcsr3 => rw [cycle_outcome (.inr rfl) hq hk hn]

theorem outcome_address (hw : w.reg=.pcsr2 ∨ w.reg=.pcsr3) (hq : ∀ x∈s.queued,x.reg=.pcsr0)
    (hk : s.inTime w) : s.queued.foldl write ((s.port.write w).finish s.command)=s.done.write w := by
  rw [inTime,Bool.and_eq_true,Bool.or_eq_true,Bool.or_eq_true,decide_eq_true_eq,decide_eq_true_eq,
    not_eq_true',not_eq_true',or_eq_false_iff] at hk
  obtain ⟨hu,hz⟩ := hk
  rw [finish_comm hw (hu.imp_right And.left)]
  refine foldl_comm hw hq ?_ ?_
  · rw [write_shown hw _ s.port,finish_shown hw,uses_congr (finish_inte s.port s.command)]
    exact hu.imp_right And.right
  · rw [write_shown hw _ s.port,resets_congr (finish_inte s.port s.command)]
    exact hz

theorem handleRegisterWrite_address (hw : w.reg=.pcsr2 ∨ w.reg=.pcsr3)
    (ha : s.access.isStored=false) : s.handleRegisterWrite w={ s with port := s.port.write w } := by
  rw [handleRegisterWrite,write]
  obtain hw | hw := hw
  all_goals
    rw [hw]
    exact showRegs_eq ha

theorem done_handle {ws : List RegWrite} (hw : w.reg=.pcsr0) (hs : s.worker=.applying ws)
    (hc : s.pendingCmd=0 ∨ s.port.action w=.nothing ∨ s.port.action w=.toggle ∨ s.port.action w=.noop) :
    (s.handlePcsr0 w).done=s.queued.foldl write ((s.port.finish s.pendingCmd).write w) := by
  obtain ⟨hworker,_,hqueue⟩ := handlePcsr0_worker s w
  rw [done,queued,command,hworker,hqueue,hs,← handlePcsr0_finish hw hc,queued,hs]

theorem Inv.step {x y : Ordering} {e : PortEvent} (h : Inv x) (hk : x.1.keeps e)
    (hs : stepOrdered x e=some y) : Inv y := by
  obtain ⟨s,p⟩ := x
  obtain ⟨t,ht,rfl⟩ := Option.map_eq_some_iff.mp hs
  have hout : s.outcome=p := h.outcome
  have hqueued := h.queued
  have haccess := h.access
  have hslot := h.slot
  dsimp only at hk ht hqueued haccess hslot
  cases e with
  | cycle r access data =>
    rw [PortState.step] at ht
    cases ha : s.access with
    | stored w | fetched w =>
      rw [ha] at ht
      cases ht
    | none =>
      rw [ha] at ht
      cases ht
      have hdone : s.outcome=s.done := by
        rw [outcome_eq,ha]
        rfl
      have hcycle := write_cycle hqueued hk ha
      refine ⟨?_,hqueued,?_,hslot⟩
      · rw [outcome_eq]
        show _=p.write (p.cycle r access data)
        rw [← hout,← hcycle,hdone]
        by_cases hr : r=.pcsr1
        · rw [hr]
          rfl
        · dsimp only
          rw [if_neg hr]
          rfl
      · dsimp only
        by_cases hr : r=.pcsr1
        · rw [if_pos hr]
          rintro w ⟨⟩
        · rw [if_neg hr]
          intro w hm
          rw [mem_singleton.mp hm]
          exact hr
  | fetch =>
    rw [PortState.step] at ht
    cases ha : s.access with
    | none | fetched w =>
      rw [ha] at ht
      cases ht
    | stored w =>
      rw [ha] at ht haccess
      cases ht
      refine ⟨?_,hqueued,haccess,hslot⟩
      show PortState.outcome _=p
      rw [← hout,outcome_eq,outcome_eq,ha]
      rfl
  | callback =>
    rw [PortState.step] at ht
    rw [keeps] at hk
    cases ha : s.access with
    | none | stored w =>
      rw [ha] at ht
      cases ht
    | fetched w =>
      rw [ha] at ht hk haccess
      cases ht
      have hdone : s.outcome=s.done.write w := by
        rw [outcome_eq,ha]
        rfl
      rw [onAfterRegisterAccess]
      by_cases hw : w.reg=.pcsr2 ∨ w.reg=.pcsr3
      · rw [if_pos hw,handleRegisterWrite_address hw rfl]
        have hpcsr0 : w.reg≠.pcsr0 := by
          obtain hw | hw := hw
          all_goals
            rw [hw]
            rintro ⟨⟩
        have hk : (decide (w.reg=.pcsr0) || s.inTime w)=true := hk
        rw [decide_eq_false hpcsr0,Bool.false_or] at hk
        refine ⟨?_,hqueued,by rintro x ⟨⟩,hslot⟩
        rw [outcome_eq]
        exact (outcome_address hw hqueued hk).trans (hdone.symm.trans hout)
      · rw [if_neg hw]
        have hpcsr0 : w.reg=.pcsr0 := by
          have h1 := haccess w mem_cons_self
          cases hr : w.reg with
          | pcsr0 => rfl
          | pcsr1 => exact absurd hr h1
          | pcsr2 => exact absurd (.inl hr) hw
          | pcsr3 => exact absurd (.inr hr) hw
        have hq : s.worker.writes++(s.pendingRegQueue++[w])=s.queued++[w] :=
          (List.append_assoc _ _ _).symm
        refine ⟨?_,?_,by rintro x ⟨⟩,hslot⟩
        · rw [outcome_eq]
          show List.foldl write (s.port.finish s.command) (s.worker.writes++(s.pendingRegQueue++[w]))=p
          rw [hq,foldl_append,← hout,hdone]
          rfl
        · intro x hx
          have hx : x∈s.worker.writes++(s.pendingRegQueue++[w]) := hx
          rw [hq] at hx
          obtain hx | hx := mem_append.mp hx
          · exact hqueued x hx
          · rw [mem_singleton.mp hx]
            exact hpcsr0
  | drain =>
    rw [PortState.step] at ht
    cases hw : s.worker with
    | applying ws | executing cmd =>
      rw [hw] at ht
      cases ht
    | waiting =>
      rw [hw] at ht
      cases ht
      have hq : s.pendingRegQueue++[]=s.queued := by
        rw [PortState.queued,hw,append_nil]
        rfl
      refine ⟨?_,?_,haccess,fun hn => absurd rfl (hn s.pendingRegQueue)⟩
      · show List.foldl write (s.port.finish s.pendingCmd) (s.pendingRegQueue++[]++s.access.writes)=p
        have hc : s.command=s.pendingCmd := by rw [command,hw]
        rw [hq,← hout,PortState.outcome,hc]
      · show ∀ x∈s.pendingRegQueue++[],x.reg=.pcsr0
        rw [hq]
        exact hqueued
  | apply =>
    rw [PortState.step] at ht
    cases hw : s.worker with
    | waiting | executing cmd =>
      rw [hw] at ht
      cases ht
    | applying ws =>
      cases ws with
      | nil =>
        rw [hw] at ht
        cases ht
      | cons w ws =>
        rw [keeps,hw,Bool.and_eq_true,not_eq_true'] at hk
        obtain ⟨hfree,hk⟩ := hk
        dsimp only at hk
        rw [hw] at ht
        cases ht
        have hq : s.queued=w::(ws++s.pendingRegQueue) := by
          rw [PortState.queued,hw]
          rfl
        have hpcsr0 : w.reg=.pcsr0 := hqueued w (by rw [hq]; exact mem_cons_self)
        obtain ⟨hworker,hacc,hqueue⟩ := handlePcsr0_worker { s with worker := .applying ws } w
        have hhandle : handleRegisterWrite { s with worker := .applying ws } w =
            handlePcsr0 { s with worker := .applying ws } w := by
          rw [handleRegisterWrite,hpcsr0]
          refine showRegs_eq ?_
          rw [hacc]
          exact hfree
        have hc : s.pendingCmd=0 ∨ s.port.action w=.nothing ∨ s.port.action w=.toggle ∨
            s.port.action w=.noop := by
          cases ha : s.port.action w with
          | nothing => exact .inr (.inl rfl)
          | toggle => exact .inr (.inr (.inl rfl))
          | noop => exact .inr (.inr (.inr rfl))
          | reset | command cmd =>
            rw [ha] at hk
            exact .inl (of_decide_eq_true hk)
        rw [hhandle]
        refine ⟨?_,?_,?_,?_⟩
        · have hdone := done_handle (s := { s with worker := .applying ws }) hpcsr0 rfl hc
          have hcmd : s.command=s.pendingCmd := by rw [command,hw]
          have hsame : s.done=(ws++s.pendingRegQueue).foldl write ((s.port.finish s.pendingCmd).write w) := by
            rw [done,hq,hcmd,foldl_cons]
          rw [outcome_eq,hacc,hdone]
          show s.access.writes.foldl write _=p
          rw [← hout,outcome_eq,hsame]
          rfl
        · intro x hx
          refine hqueued x ?_
          rw [hq]
          refine mem_cons_of_mem w ?_
          rw [PortState.queued,hworker,hqueue] at hx
          exact hx
        · rw [hacc]
          exact haccess
        · rw [hworker]
          exact fun hn => absurd rfl (hn ws)
  | take =>
    rw [PortState.step] at ht
    cases hw : s.worker with
    | waiting | executing cmd =>
      rw [hw] at ht
      cases ht
    | applying ws =>
      cases ws with
      | cons w ws =>
        rw [hw] at ht
        cases ht
      | nil =>
        rw [hw] at ht
        cases ht
        refine ⟨?_,?_,haccess,fun _ => rfl⟩
        · show PortState.outcome _=p
          rw [← hout,outcome_eq,outcome_eq,done,done,command,command,PortState.queued,PortState.queued,hw]
          rfl
        · rw [PortState.queued,hw] at hqueued
          exact hqueued
  | execute =>
    rw [keeps,not_eq_true'] at hk
    rw [PortState.step] at ht
    cases hw : s.worker with
    | waiting | applying ws =>
      rw [hw] at ht
      cases ht
    | executing cmd =>
      rw [hw] at ht
      cases ht
      have hzero : s.pendingCmd=0 := hslot (by rw [hw]; rintro ws ⟨⟩)
      have hcommand : executeCommand { s with worker := .waiting } cmd =
          { s with worker := .waiting,port := s.port.finish cmd } := by
        rw [executeCommand,finish]
        split
        · rfl
        · exact showRegs_eq hk
      rw [hcommand]
      refine ⟨?_,?_,haccess,fun _ => hzero⟩
      · rw [outcome_eq,← hout,outcome_eq,done,done,command,command,PortState.queued,PortState.queued,hw]
        dsimp only
        rw [hzero]
        rfl
      · rw [PortState.queued,hw] at hqueued
        exact hqueued
  | «show» =>
    rw [keeps,not_eq_true'] at hk
    rw [PortState.step,showRegs_eq hk] at ht
    cases ht
    exact h

theorem start_inv : Inv (start,start.port) :=
  ⟨rfl,by rintro w ⟨⟩,by rintro w ⟨⟩,fun _ => rfl⟩

theorem Inv.ordered {x : Ordering} (h : Inv x) : x.1.Ordered x.2 := by
  refine ⟨h.outcome,fun hrest => ?_⟩
  obtain ⟨hacc,hqueue,hworker⟩ := hrest
  have hzero : x.1.pendingCmd=0 := h.slot (by rw [hworker]; rintro ws ⟨⟩)
  rw [← h.outcome,outcome_eq,hacc,done,PortState.queued,command,hworker,hqueue,hzero]
  rfl

/-- In any run of the host's cycles and the worker whose steps `keeps` allows, the port comes to what the writes come
to one at a time in the host's order. -/
theorem port_ordered {es : List PortEvent} {s : PortState} {p : Port}
    (h : Run (Guarded (fun x e => x.1.keeps e=true) stepOrdered) (start,start.port) es (s,p)) : s.Ordered p :=
  (h.invariant (P := Inv) (fun _ _ _ hs hn => hs.step hn.1 hn.2) start_inv).ordered

/-- The address of the port control block, in words and bytes, and two commands -/
theorem port_ordered_getcmd : ∃ (s : PortState) (p : Port),s.AtRest ∧ s.port.pcbb=0o201000 ∧
    s.port.executed=[.command cmdGetpcbb stateReady 0o201000,.command cmdGetcmd stateReady 0o201000] ∧
    s.Ordered p := by
  obtain ⟨⟨s,p⟩,hs,hp⟩ := run_of_foldlM (fun x e => keeps x.1 e=true) stepOrdered
    (fun x : Ordering => x.1.access=.none ∧ x.1.pendingRegQueue=[] ∧ x.1.worker=.waiting ∧
      x.1.port.pcbb=0o201000 ∧ x.1.port.executed =
        [.command cmdGetpcbb stateReady 0o201000,.command cmdGetcmd stateReady 0o201000])
    [.cycle .pcsr2 .byteH 0o001000,.fetch,.callback,.cycle .pcsr3 .word 1,.fetch,.callback,
      .cycle .pcsr0 .word cmdGetpcbb,.fetch,.drain,.callback,.take,.execute,.drain,.apply,
      .cycle .pcsr0 .byteL cmdGetcmd,.fetch,.callback,.take,.execute,.drain,.apply,.take,.execute]
    (start,start.port) (by decide)
  obtain ⟨hacc,hqueue,hworker,hpcbb,hexec⟩ := of_decide_eq_true hp
  exact ⟨s,p,⟨hacc,hqueue,hworker⟩,hpcbb,hexec,port_ordered hs⟩

/-- PCSR2 is written after GETPCBB, and GETPCBB takes what is written; and PDMD is put over the GETCMD that
has not been executed yet, so that GETCMD never is. -/
theorem port_disordered : (∃ s p,Run (Guarded (fun _ _ => True) stepOrdered) (start,start.port)
        [.cycle .pcsr2 .word 0o1000,.fetch,.callback,.cycle .pcsr0 .word cmdGetpcbb,.fetch,.callback,
          .cycle .pcsr2 .word 0o2000,.fetch,.callback,.drain,.apply,.take,.execute] (s,p) ∧
      s.AtRest ∧ s.port.pcbb=0o2000 ∧ p.pcbb=0o1000 ∧ ¬s.Ordered p) ∧
    ∃ s p,Run (Guarded (fun _ _ => True) stepOrdered) (start,start.port)
        [.cycle .pcsr0 .word cmdGetcmd,.fetch,.callback,.cycle .pcsr0 .word cmdPdmd,.fetch,.callback,
          .drain,.apply,.apply,.take,.execute] (s,p) ∧ s.AtRest ∧ s.port.executed=[.command cmdPdmd stateReady 0] ∧
      p.executed=[.command cmdGetcmd stateReady 0,.command cmdPdmd stateReady 0] ∧ ¬s.Ordered p := by
  constructor
  · obtain ⟨⟨s,p⟩,hs,hp⟩ := run_of_foldlM (fun _ _ => True) stepOrdered
      (fun x : Ordering => x.1.access=.none ∧ x.1.pendingRegQueue=[] ∧ x.1.worker=.waiting ∧
        x.1.port.pcbb=0o2000 ∧ x.2.pcbb=0o1000)
      [.cycle .pcsr2 .word 0o1000,.fetch,.callback,.cycle .pcsr0 .word cmdGetpcbb,.fetch,.callback,
        .cycle .pcsr2 .word 0o2000,.fetch,.callback,.drain,.apply,.take,.execute]
      (start,start.port) (by decide)
    obtain ⟨hacc,hqueue,hworker,hport,hmeant⟩ := of_decide_eq_true hp
    have hrest : s.AtRest := ⟨hacc,hqueue,hworker⟩
    refine ⟨s,p,hs,hrest,hport,hmeant,fun ho => ?_⟩
    have hsame := congrArg Port.pcbb (ho.port hrest)
    rw [hport,hmeant] at hsame
    exact absurd hsame (by decide)
  · obtain ⟨⟨s,p⟩,hs,hp⟩ := run_of_foldlM (fun _ _ => True) stepOrdered
      (fun x : Ordering => x.1.access=.none ∧ x.1.pendingRegQueue=[] ∧ x.1.worker=.waiting ∧
        x.1.port.executed=[.command cmdPdmd stateReady 0] ∧
        x.2.executed=[.command cmdGetcmd stateReady 0,.command cmdPdmd stateReady 0])
      [.cycle .pcsr0 .word cmdGetcmd,.fetch,.callback,.cycle .pcsr0 .word cmdPdmd,.fetch,.callback,
        .drain,.apply,.apply,.take,.execute]
      (start,start.port) (by decide)
    obtain ⟨hacc,hqueue,hworker,hport,hmeant⟩ := of_decide_eq_true hp
    have hrest : s.AtRest := ⟨hacc,hqueue,hworker⟩
    refine ⟨s,p,hs,hrest,hport,hmeant,fun ho => ?_⟩
    have hsame := congrArg Port.executed (ho.port hrest)
    rw [hport,hmeant] at hsame
    exact absurd hsame (by decide)

end PortState

end QUniLator.Ethernet.Deuna
