import QUniLator.Cpu34.References
import QUniLator.Cpu34.Step
import QUniLator.Framework.Run
import Mathlib.Tactic.IntervalCases

/-! The traps of one step. It ends unless its trap sequences go wrong for ever: each has the first word of its vector
and then is refused a cycle, which the error counter forgets with the next answer, or it loads a PSW with T set, which
traces the trap. -/

namespace QUniLator.Cpu34

open Attempt State Function

/-- The pending traps are those of `s0`, but that without `inhov` the stack's may be a new one. -/
def Pends (inhov : Bool) (s0 s : State) : Prop :=
  s.trapPwr=s0.trapPwr ∧ (inhov=true → s.trapStack=s0.trapStack)

section
variable {s t : State}

theorem refused_traps (s : State) (vector : Word) :
    (s.refused vector).trapStack=s.trapStack ∧ (s.refused vector).trapPwr=s.trapPwr ∧
      (s.refused vector).be=s.be+1 := by
  simp only [refused,autoincUndo]
  split <;> exact ⟨rfl,rfl,rfl⟩

theorem setPsw_traps (s : State) (psw : Word) :
    (s.setPsw psw).trapStack=s.trapStack ∧ (s.setPsw psw).trapPwr=s.trapPwr := by
  have hswitch (psw : Word) : (s.switchSp psw).trapStack=s.trapStack ∧
      (s.switchSp psw).trapPwr=s.trapPwr := by
    simp only [switchSp]
    split_ifs <;> exact ⟨rfl,rfl⟩
  exact hswitch _

theorem Reads.traps {bus : Bus} {b : Bool} {x : Option Unit} (h : Reads bus b s x t) :
    t.trapStack=s.trapStack ∧ t.trapPwr=s.trapPwr := by
  cases h with
  | odd _ | aborted _ | timeout _ _ => exact ⟨(refused_traps _ _).1,(refused_traps _ _).2.1⟩
  | inside _ _ | answered _ _ => exact ⟨rfl,rfl⟩

theorem Reads.be {bus : Bus} {b : Bool} (h : Reads bus b s none t) : t.be=s.be+1 := by
  cases h with
  | odd _ | aborted _ | timeout _ _ => exact (refused_traps _ _).2.2

theorem Stores.traps {b : Bool} {x : Option Unit} (h : Stores b s x t) :
    t.trapStack=s.trapStack ∧ t.trapPwr=s.trapPwr := by
  cases h with
  | odd _ | aborted _ | timeout _ _ => exact ⟨(refused_traps _ _).1,(refused_traps _ _).2.1⟩
  | inside _ ht =>
    obtain ⟨-,⟨mmu,mask,hw,rfl⟩ | rfl | ⟨psw,rfl⟩⟩ := writeInternal_cases ht
    · exact ⟨rfl,rfl⟩
    · exact ⟨rfl,rfl⟩
    · exact setPsw_traps _ psw
  | answered _ _ => exact ⟨rfl,rfl⟩

end

section
variable (bus : Bus) (inhov : Bool) (s0 : State)

theorem pends_dati (b : Bool) : Keeps (Pends inhov s0) (dati bus b) := by
  apply keeps_dati
  intro s x t hs hr
  exact ⟨hr.traps.2.trans hs.1,fun hi => hr.traps.1.trans (hs.2 hi)⟩

theorem pends_dato (b : Bool) : Keeps (Pends inhov s0) (dato bus b) := by
  apply keeps_dato
  intro s x t hs hr
  exact ⟨hr.traps.2.trans hs.1,fun hi => hr.traps.1.trans (hs.2 hi)⟩

theorem pends_vectorWord (ba : Word) : Keeps (Pends inhov s0) (vectorWord bus ba) := by
  refine keeps_then (fun s hs => ⟨hs.1,hs.2⟩) ?_
  exact keeps_bind (pends_dati bus inhov s0 false) fun _ =>
    keeps_bind keeps_read fun _ => keeps_pure _

theorem pends_pushOut (w : State → Word) : Keeps (Pends inhov s0) (pushOut bus inhov w) := by
  apply keeps_bind
  · apply keeps_change
    intro s hs
    cases inhov with
    | true => exact hs
    | false => exact ⟨hs.1,by simp⟩
  · intro _
    exact keeps_bind (keeps_change _ fun s hs => ⟨hs.1,hs.2⟩) fun _ => pends_dato bus inhov s0 false

theorem pends_trapSequence (v : Word) : Keeps (Pends inhov s0) (trapSequence bus inhov v) := by
  refine keeps_then (fun s hs => ⟨hs.1,hs.2⟩) ?_
  apply keeps_bind keeps_read
  intro trapped
  have hload : Keeps (Pends inhov s0) (loadVector bus v) := by
    refine keeps_then (fun s hs => ⟨hs.1,hs.2⟩) ?_
    apply keeps_bind (pends_vectorWord bus inhov s0 v)
    intro _
    apply keeps_bind (pends_vectorWord bus inhov s0 _)
    intro _
    exact keeps_bind (keeps_change _ fun s hs => ⟨hs.1,hs.2⟩) fun _ => keeps_pure _
  apply keeps_bind hload
  intro new
  apply keeps_bind
  · apply keeps_change
    intro s hs
    have ht := setPsw_traps s (trapPsw trapped.psw new.2)
    exact ⟨ht.2.trans hs.1,fun hi => ht.1.trans (hs.2 hi)⟩
  · intro _
    apply keeps_bind (pends_pushOut bus inhov s0 _)
    intro _
    apply keeps_bind (pends_pushOut bus inhov s0 _)
    intro _
    exact keeps_change _ fun s hs => ⟨hs.1,hs.2⟩

end

section
variable (bus : Bus)

/-- The trap sequence has the first word of its vector, and is then refused a cycle or loads a PSW
with T set. -/
def WrongTrap (inhov : Bool) (v : Word) (s : State) : Prop :=
  (vectorWord bus v (s.trapping v).spaceKernel).1.isSome ∧
    ∀ t,trapSequence bus inhov v s=(some (),t) → t.psw &&& pswT≠0

def Wrong (a : Todo) : Prop :=
  match a with
  | (some (.trap v,loc),s) => WrongTrap bus loc.inhov v s
  | _ => False

theorem vectorWord_refused {ba : Word} {s t : State} (h : vectorWord bus ba s=(none,t)) : t.be=s.be+1 := by
  have hread := dati_reads bus false { s with ba := ba }
  have hw : vectorWord bus ba s=(dati bus false >>= fun _ => State.bdata <$> read)
      { s with ba := ba } := bind_some rfl
  rw [hw] at h
  rcases hd : dati bus false { s with ba := ba } with ⟨x,u⟩
  rw [hd] at hread
  cases x with
  | none =>
    rw [bind_none hd] at h
    cases h
    exact hread.be
  | some _ =>
    rw [bind_some hd] at h
    cases h

theorem trapSequence_right {inhov : Bool} {v : Word} {s : State} (h : ¬WrongTrap bus inhov v s) :
    (∃ t,trapSequence bus inhov v s=(some (),t) ∧ t.psw &&& pswT=0) ∨
    ∃ t,trapSequence bus inhov v s=(none,t) ∧ t.be=s.be+1 := by
  rcases hw : vectorWord bus v (s.trapping v).spaceKernel with ⟨x,u⟩
  cases x with
  | some w =>
    have hsome : (vectorWord bus v (s.trapping v).spaceKernel).1.isSome := by rw [hw]; rfl
    obtain ⟨t,ht⟩ := not_forall.mp fun hall => h ⟨hsome,hall⟩
    rw [Classical.not_imp,not_not] at ht
    exact .inl ⟨t,ht⟩
  | none =>
    have hload : loadVector bus v (s.trapping v)=(none,u) := (bind_some rfl).trans (bind_none hw)
    have hseq : trapSequence bus inhov v s=(none,u) :=
      (bind_some rfl).trans ((bind_some rfl).trans (bind_none hload))
    have hbe : u.be=(s.trapping v).spaceKernel.be+1 := vectorWord_refused bus hw
    exact .inr ⟨u,hseq,hbe⟩

end

def pending (loc : Locals) (s : State) : Nat :=
  (if loc.inhov then s.trapStack.toNat else 2)+s.trapPwr.toNat

/-- A trap sequence that does not go wrong, and the labels up to the next one, lower it. -/
def rank (a : Todo) : Nat :=
  match a with
  | (none,_) => 0
  | (some (.service,loc),s) => 8*(pending loc s+if loc.oldpsw &&& pswT≠0 then 1 else 0)+1
  | (some (.trap _,loc),s) => 8*pending loc s+if s.be=0 then 6 else 4
  | (some (.be,loc),s) => 8*pending loc s+if s.be=0 then 7 else if s.be=1 then 5 else 1

theorem pending_le {loc : Locals} {s t : State} (h : Pends loc.inhov s t) (loc' : Locals)
    (hloc : loc'.inhov=loc.inhov) : pending loc' t=pending loc s := by
  unfold pending
  rw [h.1,hloc]
  cases hi : loc.inhov with
  | true => rw [h.2 hi]
  | false => rfl

theorem rank_be (loc : Locals) (s : State) : rank (atBe loc s) < rank (some (.be,loc),s) := by
  unfold atBe
  by_cases hbe : 1<s.be
  · rw [if_pos hbe]
    simp only [rank]
    split_ifs <;> omega
  · rw [if_neg hbe]
    have hsame (t : State) (ht : t=if loc.inTrap then s else s.restoreCc loc.oldpsw) :
        pending loc t=pending loc s ∧ t.be=s.be := by
      subst ht
      split_ifs <;> exact ⟨rfl,rfl⟩
    obtain ⟨hp,hb⟩ := hsame _ rfl
    simp only [rank,hp,hb]
    split_ifs <;> omega

theorem rank_trap (bus : Bus) (v : Word) (loc : Locals) (s : State) (h : ¬WrongTrap bus loc.inhov v s) :
    rank (atTrap bus v loc s) < rank (some (.trap v,loc),s) := by
  have hpends := pends_trapSequence bus loc.inhov s v s ⟨rfl,fun _ => rfl⟩
  obtain ⟨t,ht,hT⟩ | ⟨t,ht,hbe⟩ := trapSequence_right bus h
  · have hp := pending_le (hpends.1 _ t ht) ⟨loc.inhov,true,t.psw⟩ rfl
    simp only [atTrap,ht,rank,hp,hT,ne_eq,not_true_eq_false,if_false]
    split_ifs <;> omega
  · have hp := pending_le (hpends.2 t ht) ⟨loc.inhov,true,loc.oldpsw⟩ rfl
    simp only [atTrap,ht,rank,hp,hbe]
    by_cases h0 : s.be=0
    · simp [h0]
    · simp [h0]

theorem rank_service (loc : Locals) (s : State) : rank (atService loc s) < rank (some (.service,loc),s) := by
  unfold atService
  by_cases hT : loc.oldpsw &&& pswT≠0
  · rw [if_pos hT]
    simp only [rank,pending]
    split_ifs <;> omega
  · rw [if_neg hT]
    by_cases hs : s.trapStack=true
    · rw [if_pos hs]
      simp only [rank,pending,hs,Bool.toNat_true,Bool.toNat_false]
      split_ifs <;> omega
    · rw [if_neg hs]
      by_cases hp : s.trapPwr=true
      · rw [if_pos hp]
        simp only [rank,pending,hp,Bool.toNat_true,Bool.toNat_false]
        split_ifs <;> omega
      · rw [if_neg hp]
        simp only [rank]
        omega

theorem rank_jump (bus : Bus) (a : Todo) (hd : a.1≠none) (h : ¬Wrong bus a) : rank (jump bus a) < rank a := by
  rcases a with ⟨_ | ⟨label,loc⟩,s⟩
  · exact absurd rfl hd
  · cases label with
    | be => exact rank_be loc s
    | trap v => exact rank_trap bus v loc s h
    | service => exact rank_service loc s

theorem rank_le (a : Todo) : rank a≤33 := by
  rcases a with ⟨_ | ⟨label,loc⟩,s⟩
  · simp [rank]
  · have hp : pending loc s≤3 := by
      unfold pending
      have hstack := s.trapStack.toNat_le
      have hpwr := s.trapPwr.toNat_le
      split_ifs <;> omega
    cases label <;> simp only [rank] <;> split_ifs <;> omega

/-- The step ends where its trap sequences go wrong only so often, and within 33 jumps of the last that
does. -/
theorem step_ends (bus : Bus) (s : State) :
    ((∃ t,Steps bus s t) ↔ ∃ n,∀ k,n≤k → ¬Wrong bus ((jump bus)^[k] (begin_ bus s))) ∧
    ∀ n,(∀ k,n≤k → ¬Wrong bus ((jump bus)^[k] (begin_ bus s))) →
      ∃ t,finish bus (n+33) (begin_ bus s)=some t := by
  have hdone (n k : Nat) (t : State) (h : (jump bus)^[n] (begin_ bus s)=(none,t)) (hk : n≤k) :
      (jump bus)^[k] (begin_ bus s)=(none,t) := by
    obtain ⟨m,rfl⟩ := Nat.exists_eq_add_of_le hk
    rw [Nat.add_comm,iterate_add_apply,h]
    exact iterate_fixed rfl m
  have hends (n : Nat) (h : ∀ k,n≤k → ¬Wrong bus ((jump bus)^[k] (begin_ bus s))) :
      ∃ t,finish bus (n+33) (begin_ bus s)=some t := by
    have hlower := iterate_done (fun a hd hb => rank_jump bus a hd hb)
      ((jump bus)^[n] (begin_ bus s)) (fun k => by
        rw [← iterate_add_apply]
        exact h (k+n) (by omega))
    obtain ⟨k,hk,hnone⟩ := hlower
    rw [← iterate_add_apply] at hnone
    rcases hend : (jump bus)^[k+n] (begin_ bus s) with ⟨x,t⟩
    rw [hend] at hnone
    obtain rfl : x=none := hnone
    refine ⟨t,(finish_iff _ _).mpr (hdone _ _ t hend ?_)⟩
    have hrank := rank_le ((jump bus)^[n] (begin_ bus s))
    omega
  refine ⟨⟨?_,?_⟩,hends⟩
  · rintro ⟨t,n,hn⟩
    refine ⟨n,fun k hk => ?_⟩
    rw [hdone n k t ((finish_iff _ _).mp hn) hk]
    exact id
  · rintro ⟨n,hn⟩
    obtain ⟨t,ht⟩ := hends n hn
    exact ⟨t,n+33,ht⟩

def bpts : Bus := ⟨fun _ _ => some 3,fun _ _ _ => true,fun _ _ _ => true⟩

/-- Kernel mode with an odd stack pointer, without relocation. -/
structure OddStack (s : State) : Prop where
  enabled : s.mmu.enabled=false
  maint : s.mmu.maint=false
  kernel : pswMode s.psw=modeKernel
  odd : (s.r rSP).getLsbD 0=true

structure Answered (s : State) : Prop extends OddStack s where
  be : s.be=0
  autoincReg : s.autoincReg=none

theorem oddStack_word {v : Word} (hv : v[0]=false) (hpa : unrelocated v<0o760000) :
    Spec OddStack (vectorWord bpts v) (fun w s => Answered s ∧ w=3) (fun _ => False) := by
  have hdati : Spec (fun s => OddStack s ∧ s.ba=v) (dati bpts false)
      (fun _ s => Answered s ∧ s.bdata=3) (fun _ => False) := by
    rintro s ⟨hs,rfl⟩
    have hread : dati bpts false s=(some (),
        { s with log := .dati (wordAddress (unrelocated s.ba))::s.log,bdata := 3 }.completed) := by
      have hinternal : s.readInternal (unrelocated s.ba)=none := if_pos hpa
      simp [dati,hv,Kt11d.relocate,hs.enabled,hs.maint,hinternal,bpts]
    rw [hread]
    refine ⟨?_,?_⟩
    · rintro _ t ⟨⟩
      exact ⟨⟨⟨hs.enabled,hs.maint,hs.kernel,hs.odd⟩,rfl,rfl⟩,rfl⟩
    · rintro t ⟨⟩
  apply spec_bind (Q := fun _ s => OddStack s ∧ s.ba=v)
  · exact spec_change _ fun s hs => ⟨⟨hs.enabled,hs.maint,hs.kernel,hs.odd⟩,rfl⟩
  · intro _
    exact spec_bind hdati fun _ => spec_gets _ fun s hs => hs

theorem trapPsw_bpts (psw : Word) : pswMode (trapPsw psw 3 &&& pswMask)=modeKernel := by
  ext i hi
  interval_cases i <;> simp [pswMode,trapPsw,pswMask,modeKernel]

theorem answered_setPsw {s : State} (hs : Answered s) (psw : Word) : Answered (s.setPsw (trapPsw psw 3)) := by
  have hk := trapPsw_bpts psw
  have hsp : s.switchSp (trapPsw psw 3 &&& pswMask)=s := by
    apply if_pos
    rw [pswSp,pswSp,hs.kernel,hk]
  simp only [setPsw,hsp]
  exact ⟨⟨hs.enabled,hs.maint,hk,hs.odd⟩,hs.be,hs.autoincReg⟩

theorem sub_two_odd {x : Word} (h : x.getLsbD 0) : (x-2).getLsbD 0=true := by
  simp only [BitVec.getLsbD,Nat.testBit_zero,decide_eq_true_eq,BitVec.toNat_sub] at *
  have h2 : (2 : Word).toNat=2 := rfl
  omega

theorem oddStack_push (inhov : Bool) (w : State → Word) : Spec Answered (pushOut bpts inhov w) (fun _ _ => False)
      (fun s => OddStack s ∧ s.be=1 ∧ s.trapVector=4) := by
  apply spec_bind (Q := fun _ => Answered)
  · apply spec_change
    intro s hs
    have hodd : (update s.r rSP (s.r rSP-2) rSP).getLsbD 0=true := by
      rw [update_self]
      exact sub_two_odd hs.odd
    cases inhov <;> exact ⟨⟨hs.enabled,hs.maint,hs.kernel,hodd⟩,hs.be,hs.autoincReg⟩
  · intro _
    apply spec_bind (Q := fun _ s => Answered s ∧ s.ba=s.r rSP)
    · exact spec_change _ fun s hs =>
        ⟨⟨⟨hs.enabled,hs.maint,hs.kernel,hs.odd⟩,hs.be,hs.autoincReg⟩,rfl⟩
    · rintro _ s ⟨hs,hba⟩
      have hstore : dato bpts false s=(none,s.refused 4) := by
        have hodd : (!false && s.ba.getLsbD 0)=true := by rw [hba,hs.odd]; rfl
        simp only [dato,hodd,if_true]
      have hrefused : s.refused 4={ s with trapVector := 4,be := s.be+1,undone := none } := by
        simp only [refused,autoincUndo,hs.autoincReg]
      rw [hstore,hrefused]
      refine ⟨?_,?_⟩
      · rintro _ t ⟨⟩
      · rintro t ⟨⟩
        exact ⟨⟨hs.enabled,hs.maint,hs.kernel,hs.odd⟩,by rw [hs.be],rfl⟩

theorem oddStack_trapSequence (inhov : Bool) {v : Word} (hv : v=4 ∨ v=0o14) :
    Spec OddStack (trapSequence bpts inhov v) (fun _ _ => False) (fun s => OddStack s ∧ s.be=1 ∧ s.trapVector=4) := by
  have hword : Spec OddStack (vectorWord bpts v) (fun w s => Answered s ∧ w=3) (fun _ => False) := by
    obtain rfl | rfl := hv <;> exact oddStack_word (by decide) (by decide)
  have hword' : Spec OddStack (vectorWord bpts (v+2)) (fun w s => Answered s ∧ w=3)
      (fun _ => False) := by
    obtain rfl | rfl := hv <;> exact oddStack_word (by decide) (by decide)
  have hload : Spec OddStack (loadVector bpts v) (fun new s => Answered s ∧ new.2=3)
      (fun _ => False) := by
    refine spec_then (Q := OddStack) (fun s hs => ⟨hs.enabled,hs.maint,hs.kernel,hs.odd⟩) ?_
    apply spec_bind hword
    intro _
    apply spec_bind (hword'.weaken (fun s hs => hs.1.toOddStack) (fun _ _ hs => hs) (fun _ hs => hs))
    intro newpsw
    apply spec_bind (Q := fun _ s => Answered s ∧ newpsw=3)
    · exact spec_change _ fun s hs =>
        ⟨⟨⟨hs.1.enabled,hs.1.maint,hs.1.kernel,hs.1.odd⟩,hs.1.be,hs.1.autoincReg⟩,hs.2⟩
    · intro _
      exact spec_pure _ fun s hs => hs
  apply spec_bind (Q := fun _ => OddStack)
  · apply spec_change
    intro s hs
    have hne : rSP≠rTV := by decide
    have hsp : (s.trapping v).r rSP=s.r rSP := update_of_ne hne v s.r
    exact ⟨hs.enabled,hs.maint,hs.kernel,by rw [hsp,hs.odd]⟩
  · intro _
    apply spec_bind (Q := fun _ => OddStack) (spec_read fun s hs => hs)
    intro trapped
    apply spec_bind (hload.weaken (fun _ hs => hs) (fun _ _ hs => hs) (fun _ hs => hs.elim))
    intro new
    apply spec_bind (Q := fun _ => Answered)
    · apply spec_change
      rintro s ⟨hs,hnew⟩
      rw [hnew]
      exact answered_setPsw hs _
    · intro _
      apply spec_bind (oddStack_push inhov _)
      intro _ s hs
      exact hs.elim

def Loops (a : Todo) : Prop :=
  ∃ loc,OddStack a.2 ∧ ((∃ v,a.1=some (.trap v,loc) ∧ (v=4 ∨ v=0o14)) ∨
    a.1=some (.be,loc) ∧ loc.inTrap=true ∧ a.2.be=1 ∧ a.2.trapVector=4)

theorem loops_jump {a : Todo} (h : Loops a) : Loops (jump bpts a) := by
  rcases a with ⟨at_,s⟩
  obtain ⟨loc,hs,⟨v,hat,hv⟩ | ⟨hat,hin,hbe,hvec⟩⟩ := h
  · have hseq := oddStack_trapSequence loc.inhov hv s hs
    change at_=_ at hat
    subst hat
    simp only [jump,next,atTrap]
    rcases ht : trapSequence bpts loc.inhov v s with ⟨x,t⟩
    cases x with
    | some _ => exact (hseq.1 _ t ht).elim
    | none =>
      obtain ⟨ht,hbe,hvec⟩ := hseq.2 t ht
      exact ⟨_,ht,.inr ⟨rfl,rfl,hbe,hvec⟩⟩
  · change at_=_ at hat
    change s.be=1 at hbe
    subst hat
    have hlow : ¬1<s.be := by omega
    simp only [jump,next,atBe,hlow,if_false,hin,if_true]
    exact ⟨loc,hs,.inl ⟨s.trapVector,rfl,.inl hvec⟩⟩

def oddStacked : State := State.zeroed.setR rSP 1

theorem loops_begin : Loops (begin_ bpts oddStacked) := by
  refine ⟨⟨false,false,0⟩,?_,.inl ⟨0o14,by decide +kernel,.inr rfl⟩⟩
  constructor <;> decide +kernel

theorem oddStacked_endless : ¬∃ t,Steps bpts oddStacked t := by
  intro ⟨t,n,hn⟩
  have hloops (k : Nat) : Loops ((jump bpts)^[k] (begin_ bpts oddStacked)) := by
    induction k with
    | zero => exact loops_begin
    | succ k ih =>
      rw [iterate_succ_apply']
      exact loops_jump ih
  have hlast := hloops n
  rw [(finish_iff _ _).mp hn] at hlast
  obtain ⟨loc,-,⟨v,hat,-⟩ | ⟨hat,-⟩⟩ := hlast
  · cases hat
  · cases hat

end QUniLator.Cpu34
