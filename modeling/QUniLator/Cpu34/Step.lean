import QUniLator.Cpu34.Execute
import Mathlib.Logic.Relation
import Mathlib.Logic.Function.Iterate

/-! `step`: an instruction, and the traps and aborts that follow it. -/

namespace QUniLator.Cpu34

open Attempt Option

def rTV : BitVec 4 := 10

def vectorWord (bus : Bus) (ba : Word) : M Word := do
  change fun s => { s with ba := ba }
  dati bus false
  State.bdata <$> read

def loadVector (bus : Bus) (v : Word) : M (Word × Word) := do
  change State.spaceKernel
  let newpc ← vectorWord bus v
  let newpsw ← vectorWord bus (v+2)
  change State.spaceRestore
  pure (newpc,newpsw)

def trapPsw (trappedPsw newpsw : Word) : Word :=
  (newpsw &&& ~~~(0o030000 : Word)) ||| ((trappedPsw >>> 2) &&& 0o030000)

/-- The trap through `v` begins. -/
def State.trapping (s : State) (v : Word) : State := (s.setR rTV v).setDestRef false

/-- From `trap` to the end of the trap sequence. -/
def trapSequence (bus : Bus) (inhov : Bool) (v : Word) : M Unit := do
  change fun s => s.trapping v
  let trapped ← read
  let new ← loadVector bus v
  change fun s => s.setPsw (trapPsw trapped.psw new.2)
  pushOut bus inhov (fun _ => trapped.psw)
  pushOut bus inhov (fun _ => trapped.r rPC)
  change fun s => s.setR rPC new.1

/-- The labels `step` jumps to, with its local variables `inhov`, `in_trap` and `oldpsw`. -/
inductive Label where
  | be | trap (v : Word) | service
  deriving DecidableEq

structure Locals where
  inhov : Bool
  inTrap : Bool
  oldpsw : Word
  deriving DecidableEq

abbrev Todo := Option (Label × Locals) × State

def State.restoreCc (s : State) (oldpsw : Word) : State := s.setCc (oldpsw.setWidth 4)

def atBe (loc : Locals) (s : State) : Todo :=
  if 1<s.be then (none,{ s with state := .halted })
  else
    let s := if loc.inTrap then s else s.restoreCc loc.oldpsw
    (some (.trap s.trapVector,loc),s)

def atTrap (bus : Bus) (v : Word) (loc : Locals) (s : State) : Todo :=
  let loc := { loc with inTrap := true }
  match trapSequence bus loc.inhov v s with
  | (some _,s) => (some (.service,{ loc with oldpsw := s.psw }),s)
  | (none,s) => (some (.be,loc),s)

def atService (loc : Locals) (s : State) : Todo :=
  if loc.oldpsw &&& pswT≠0 then
    (some (.trap 0o14,{ loc with oldpsw := loc.oldpsw &&& ~~~pswT }),s)
  else if s.trapStack then
    (some (.trap 4,{ loc with inhov := true }),{ s with trapStack := false })
  else if s.trapPwr then (some (.trap 0o24,loc),{ s with trapPwr := false })
  else (none,s)

def next (bus : Bus) (at_ : Label × Locals) (s : State) : Todo :=
  match at_.1 with
  | .be => atBe at_.2 s
  | .trap v => atTrap bus v at_.2 s
  | .service => atService at_.2 s

def fetch (bus : Bus) : M Unit := do
  change fun s => { s with mmu := s.mmu.instructionStart }
  change fun s => (s.setDestRef false).autoincCommit
  change fun s => { s with ba := s.r rPC }
  dati bus false
  change fun s => { s with ir := s.bdata,mmu := s.mmu.instructionFetched (s.r rPC) }
  change fun s => s.setR rPC (s.r rPC+2)

def instruction (bus : Bus) (oldpsw : Word) : M Goto := do
  fetch bus
  let ir ← State.ir <$> read
  execute bus oldpsw ir

/-- `step` up to its first jump. -/
def begin_ (bus : Bus) (s : State) : Todo :=
  if s.externalIntr then
    (some (.trap s.externalIntrvec,⟨false,false,0⟩),{ s with externalIntr := false,state := .running })
  else
    match instruction bus s.psw s with
    | (some (.service oldpsw),t) => (some (.service,⟨false,false,oldpsw⟩),t)
    | (some (.trap v),t) => (some (.trap v,⟨false,false,s.psw⟩),t)
    | (some .done,t) => (none,t)
    | (none,t) => (some (.be,⟨false,false,s.psw⟩),t)

/-- At most `n` jumps from here on. None where these are not enough. -/
def finish (bus : Bus) : Nat → Todo → Option State
  | _,(none,s) => some s
  | 0,(some _,_) => none
  | n+1,(some at_,s) => finish bus n (next bus at_ s)

/-- `step`, which returns in the state `t`. -/
def Steps (bus : Bus) (s t : State) : Prop := ∃ n,finish bus n (begin_ bus s)=some t

def Jump (bus : Bus) (a b : Todo) : Prop := ∃ at_,a.1=some at_ ∧ b=next bus at_ a.2

def jump (bus : Bus) (a : Todo) : Todo :=
  match a with
  | (some at_,s) => next bus at_ s
  | (none,s) => (none,s)

variable {bus : Bus}

theorem finish_iff {t : State} (n : Nat) (a : Todo) : finish bus n a=some t ↔ (jump bus)^[n] a=(none,t) := by
  induction n generalizing a with
  | zero => rcases a with ⟨_ | at_,s⟩ <;> simp [finish]
  | succ n ih =>
    rcases a with ⟨_ | at_,s⟩
    · have hstop : finish bus n (none,s)=some s := by cases n <;> rfl
      have hdone := ih (none,s)
      rw [hstop] at hdone
      exact hdone
    · rw [Function.iterate_succ_apply]
      exact ih _

/-- What `step` comes to. -/
def Comes (bus : Bus) (s : State) (a : Todo) : Prop := Relation.ReflTransGen (Jump bus) (begin_ bus s) a

theorem finish_jumps {t : State} (n : Nat) (a : Todo) (h : finish bus n a=some t) :
    Relation.ReflTransGen (Jump bus) a (none,t) := by
  induction n generalizing a with
  | zero =>
    rcases a with ⟨at_,s⟩
    cases at_ with
    | none =>
      cases h
      exact .refl
    | some at_ => cases h
  | succ n ih =>
    rcases a with ⟨at_,s⟩
    cases at_ with
    | none =>
      cases h
      exact .refl
    | some at_ => exact .head ⟨at_,rfl,rfl⟩ (ih _ h)

theorem Steps.comes {s t : State} (h : Steps bus s t) : Comes bus s (none,t) := by
  obtain ⟨n,hn⟩ := h
  exact finish_jumps n _ hn

/-- `kd11ea_condstep` has something to do. -/
def State.wakes (s : State) : Bool :=
  s.state=.running || s.state=.waiting && (s.trapStack || s.trapPwr) ||
    s.state=.waiting && s.externalIntr

/-- `kd11ea_condstep`. -/
def Condsteps (bus : Bus) (s t : State) : Prop :=
  if s.wakes then Steps bus { s with state := .running } t else t=s

def setintr (s : State) (vec : Word) : State :=
  { s with externalIntr := true,externalIntrvec := vec }

def pwrfailTrap (s : State) : State := { s with trapPwr := true }

def loadPowerUp (bus : Bus) : M Unit := do
  let newpc ← vectorWord bus 0o24
  change fun s => s.setR rPC newpc
  let newpsw ← vectorWord bus (0o24+2)
  change fun s => s.setPsw newpsw

/-- `kd11ea_pwrup_vector_fetch`. -/
def pwrupVectorFetch (bus : Bus) (s : State) : State :=
  match loadPowerUp bus s with
  | (some _,s) => s
  | (none,s) => { s with be := s.be+1 }

/-- What is done to the processor: by its worker, by a device, at the console. -/
inductive Act where
  | condstep | powerReset | reset | pwrfailTrap | pwrupVectorFetch
  | setintr (vec : Word)
  | setState (state : RunState)
  | setPc (pc : Word)
  | setSw (sw : Word)
  deriving DecidableEq

def Acts (bus : Bus) (s : State) (a : Act) (t : State) : Prop :=
  match a with
  | .condstep => Condsteps bus s t
  | .powerReset => t=s.powerReset
  | .reset => t=s.reset
  | .pwrfailTrap => t=pwrfailTrap s
  | .pwrupVectorFetch => t=pwrupVectorFetch bus s
  | .setintr vec => t=setintr s vec
  | .setState state => t={ s with state := state }
  | .setPc pc => t=s.setR rPC pc
  | .setSw sw => t={ s with sw := sw }

/-- An action done, a step in at most `n` jumps. -/
def perform (bus : Bus) (n : Nat) (s : State) : Act → Option State
  | .condstep => if s.wakes then finish bus n (begin_ bus { s with state := .running }) else some s
  | .powerReset => some s.powerReset
  | .reset => some s.reset
  | .pwrfailTrap => some (pwrfailTrap s)
  | .pwrupVectorFetch => some (pwrupVectorFetch bus s)
  | .setintr vec => some (setintr s vec)
  | .setState state => some { s with state := state }
  | .setPc pc => some (s.setR rPC pc)
  | .setSw sw => some { s with sw := sw }

theorem perform_acts {n : Nat} {s t : State} {a : Act} (h : perform bus n s a=some t) : Acts bus s a t := by
  cases a with
  | condstep =>
    simp only [perform] at h
    by_cases hw : s.wakes=true
    · rw [if_pos hw] at h
      simp only [Acts,Condsteps,hw,if_true]
      exact ⟨n,h⟩
    · rw [if_neg hw] at h
      simp only [Acts,Condsteps,hw]
      exact (some.inj h).symm
  | powerReset | reset | pwrfailTrap | pwrupVectorFetch | setPc pc => exact (some.inj h).symm
  | setintr vec | setState state | setSw sw => exact (some.inj h).symm

/-- The processor in cleared memory, as `calloc` leaves it. -/
def State.zeroed : State where
  r _ := 0
  ba := 0
  bdata := 0
  ir := 0
  psw := 0
  stackpointer _ := 0
  trapStack := false
  trapPwr := false
  be := 0
  state := .halted
  trapVector := 0
  autoincReg := some 0
  autoincAmount := 0
  mmu := .zeroed
  externalIntr := false
  externalIntrvec := 0
  sw := 0
  log := []
  sps _ := 0
  undone := none

end QUniLator.Cpu34
