import QUniLator.Disks.Rk11Seat
import Mathlib.Tactic.Linarith

namespace QUniLator.Disks

open Nat (lt_succ_self)

open Docket List

theorem RkAddress.next_drive (a : RkAddress) : a.next.drive=a.drive := by
  unfold next
  split_ifs <;> rfl

theorem RkAddress.next_surface {a : RkAddress} (h : a.surface≤1) : a.next.surface≤1 := by
  unfold next
  split_ifs with h1 h2
  · exact Nat.zero_le 1
  · show a.surface+1≤1
    omega
  · exact h

theorem RkAddress.next_index {a : RkAddress} (h : a.surface≤1) (h' : a.sector≤11) : a.next.index=a.index+1 := by
  unfold next index
  split_ifs <;> dsimp only <;> omega

theorem RkAddress.ofWord_surface (w : Nat) : (ofWord w).surface≤1 := by
  unfold ofWord
  dsimp only
  omega

theorem RkPc.not_working {p : RkPc} (h : p.holdsMutex) : p.working=false := by
  cases p <;> first | rfl | cases h

namespace RkSeat

variable {s t : RkSeat}

def OnTrack (s : RkSeat) (start : RkAddress) : Prop :=
  s.command.function=.write → 0<s.currentCount →
    s.rkda.drive=start.drive ∧ start.index ≤ s.rkda.index ∧
      s.words=s.currentCount+256*((s.rkda.index : Int)-start.index)

/-- Where the worker is with a command that was accepted with `start` in RKDA -/
def Place (s : RkSeat) (start : RkAddress) : Prop :=
  match s.pc with
  | .clearGo | .execute => s.rkda=start
  | .loop => s.OnTrack start
  | .validate => 0<s.currentCount ∧ s.OnTrack start
  | .dma | .advance => 0<s.currentCount ∧ s.rkda.sector≤11 ∧ s.OnTrack start
  | .sector => s.command.function=.write ∧ 0<s.currentCount ∧ s.rkda.sector≤11 ∧ s.OnTrack start
  | .readCheck | .finish | .idle | .interrupt | .raise => True

/-- What is under way: a command that waits or none, one the worker has, one that was overtaken while RDY was
being set for it, and one for which RDY is set. -/
inductive Phase (s : RkSeat) : Prop
  | idle (pc : s.pc=.idle) (pending : s.newCommandReady=true →
      s.rdy=false ∧ s.docket.Open s.newCommand.id (s.newCommand.function,s.rkda))
  | working (start : RkAddress) (pc : s.pc.working=true) (ready : s.newCommandReady=false)
      (rdy : s.rdy=false) (isOpen : s.docket.Open s.command.id (s.command.function,start))
      (place : s.Place start)
  | overtaken (pc : s.pc=.finish) (ready : s.newCommandReady=false)
      (cancelled : .cancelled s.command.id∈s.docket) (fresh : .finished s.command.id∉s.docket)
      (ide : s.ide=false)
  | done (pc : s.pc.holdsMutex=true) (ready : s.newCommandReady=false)
      (finished : .finished s.command.id∈s.docket)
      (quiet : .cancelled s.command.id∈s.docket → s.ide=false ∧ s.pc=.interrupt)

structure Inv (s : RkSeat) : Prop where
  orderly : s.docket.Orderly
  below : s.docket.Below s.commands
  surface : s.rkda.surface≤1
  sectors : ∀ i n a,.did i (.sector n a)∈s.docket →
    ∃ start,.accepted i (.write,start)∈s.docket ∧ InRun start n a
  accounted : ∀ i c,s.docket.Open i c →
    s.newCommandReady=true ∧ i=s.newCommand.id ∨ s.pc.working=true ∧ i=s.command.id
  phase : s.Phase

theorem sectors_cons {l : Docket (RkOperation × RkAddress) RkEffect}
    (h : ∀ i n a,.did i (.sector n a)∈l → ∃ start,.accepted i (.write,start)∈l ∧ InRun start n a)
    (e : Entry (RkOperation × RkAddress) RkEffect)
    (he : ∀ i n a,e=.did i (.sector n a) → ∃ start,.accepted i (.write,start)∈l ∧ InRun start n a) :
    ∀ i n a,.did i (.sector n a)∈e::l → ∃ start,.accepted i (.write,start)∈e::l ∧ InRun start n a := by
  intro i n a hm
  rw [mem_cons] at hm
  obtain ⟨start,ha,hr⟩ := hm.elim (fun hx => he i n a hx.symm) (h i n a)
  exact ⟨start,mem_cons_of_mem _ ha,hr⟩

theorem Inv.onward {start : RkAddress} (h : s.Inv) (ready : s.newCommandReady=false) (rdy : s.rdy=false)
    (isOpen : s.docket.Open s.command.id (s.command.function,start)) (hc : t.command=s.command)
    (hr : t.newCommandReady=s.newCommandReady) (hy : t.rdy=s.rdy) (hn : t.commands=s.commands)
    (hl : t.docket=s.docket ∨ ∃ e,t.docket=.did s.command.id e::s.docket ∧
      ∀ n a,e=.sector n a → s.command.function=.write ∧ InRun start n a)
    (hpc : t.pc.working) (hs : t.rkda.surface≤1) (hp : t.Place start) : t.Inv := by
  have hi := h.below _ isOpen.1
  rcases hl with hl | ⟨e,hl,he⟩
  · refine ⟨hl ▸ h.orderly,by rw [hl,hn]; exact h.below,hs,by rw [hl]; exact h.sectors,?_,?_⟩
    · intro i c ho
      rw [hl] at ho
      rcases h.accounted i c ho with ⟨h1,-⟩ | ⟨-,h2⟩
      · rw [ready] at h1
        cases h1
      · exact .inr ⟨hpc,by rw [hc]; exact h2⟩
    · refine .working start hpc (hr.trans ready) (hy.trans rdy) ?_ hp
      rw [hl,hc]
      exact isOpen
  · refine ⟨hl ▸ h.orderly.did isOpen.not_cancelled e,?_,hs,?_,?_,?_⟩
    · rw [hl,hn]
      exact h.below.cons (Nat.le_refl _) hi
    · rw [hl]
      refine sectors_cons h.sectors _ fun i n a hx => ?_
      cases hx
      obtain ⟨hw,hrun⟩ := he n a rfl
      exact ⟨start,by rw [← hw]; exact isOpen.1,hrun⟩
    · intro i c ho
      rw [hl] at ho
      have ho' : s.docket.Open i c :=
        ⟨(mem_cons.mp ho.1).resolve_left (by simp),fun hx => ho.2 (over_did.mpr hx)⟩
      rcases h.accounted i c ho' with ⟨h1,-⟩ | ⟨-,h2⟩
      · rw [ready] at h1
        cases h1
      · exact .inr ⟨hpc,by rw [hc]; exact h2⟩
    · refine .working start hpc (hr.trans ready) (hy.trans rdy) ?_ hp
      rw [hl,hc]
      exact isOpen.did e

theorem sector_le (he : s.seekErrors=[]) : s.rkda.sector≤11 := by
  unfold seekErrors at he
  by_contra hs
  rw [if_pos (by omega)] at he
  cases he

section worker

variable {start : RkAddress} (h : s.Inv) (ready : s.newCommandReady=false) (rdy : s.rdy=false)
  (isOpen : s.docket.Open s.command.id (s.command.function,start)) (place : s.Place start)

include h ready rdy isOpen place

theorem Inv.execute (hpc : s.pc=.execute) : s.execute.Inv := by
  have hat : s.rkda=start := by
    unfold Place at place
    rw [hpc] at place
    exact place
  have htrack (t : RkSeat) (hw : t.words=t.currentCount) (ha : t.rkda=s.rkda) : t.OnTrack start := by
    intro _ _
    rw [ha,hat,hw]
    exact ⟨rfl,Nat.le_refl _,by omega⟩
  unfold RkSeat.execute
  split
  · exact h.onward ready rdy isOpen rfl rfl rfl rfl (.inl rfl) rfl h.surface (htrack _ rfl rfl)
  · exact h.onward ready rdy isOpen rfl rfl rfl rfl (.inl rfl) rfl h.surface (htrack _ rfl rfl)
  · exact h.onward ready rdy isOpen rfl rfl rfl rfl (.inl rfl) rfl h.surface (htrack _ rfl rfl)
  · exact h.onward ready rdy isOpen rfl rfl rfl rfl (.inl rfl) rfl h.surface trivial
  · split_ifs
    · exact h.onward ready rdy isOpen rfl rfl rfl rfl (.inl rfl) rfl h.surface trivial
    · exact h.onward ready rdy isOpen rfl rfl rfl rfl (.inr ⟨.error,rfl,by simp⟩) rfl h.surface trivial
  · split_ifs
    all_goals exact h.onward ready rdy isOpen rfl rfl rfl rfl (.inl rfl) rfl h.surface trivial
  all_goals exact h.onward ready rdy isOpen rfl rfl rfl rfl (.inl rfl) rfl h.surface trivial

theorem Inv.loop (hpc : s.pc=.loop) : s.loop.Inv := by
  have ht : s.OnTrack start := by
    unfold Place at place
    rw [hpc] at place
    exact place
  unfold RkSeat.loop
  split_ifs with hc hn
  · rw [ready] at hn
    cases hn
  · exact h.onward ready rdy isOpen rfl rfl rfl rfl (.inl rfl) rfl h.surface ⟨hc.1,ht⟩
  · exact h.onward ready rdy isOpen rfl rfl rfl rfl (.inl rfl) rfl h.surface trivial

theorem Inv.validate (hpc : s.pc=.validate) : s.validate.Inv := by
  obtain ⟨hc,ht⟩ : 0<s.currentCount ∧ s.OnTrack start := by
    unfold Place at place
    rw [hpc] at place
    exact place
  unfold RkSeat.validate
  dsimp only
  split_ifs with he
  · exact h.onward ready rdy isOpen rfl rfl rfl rfl (.inl rfl) rfl h.surface ⟨hc,sector_le he,ht⟩
  all_goals exact h.onward ready rdy isOpen rfl rfl rfl rfl (.inr ⟨.error,rfl,by simp⟩) rfl h.surface ht

theorem Inv.dmaDone (hpc : s.pc=.dma) (data words : List UInt16) (timeout : Bool) :
    (s.dmaDone data words timeout).Inv := by
  have hat : 0<s.currentCount ∧ s.rkda.sector≤11 ∧ s.OnTrack start := by
    unfold Place at place
    rw [hpc] at place
    exact place
  unfold RkSeat.dmaDone
  by_cases hto : timeout=true
  · rw [if_pos hto]
    exact h.onward ready rdy isOpen rfl rfl rfl rfl (.inr ⟨.error,rfl,by simp⟩) rfl h.surface hat
  · rw [if_neg hto]
    split
    · rename_i hf
      exact h.onward ready rdy isOpen rfl rfl rfl rfl (.inl rfl) rfl h.surface ⟨hf,hat⟩
    · dsimp only
      split_ifs
      · exact h.onward ready rdy isOpen rfl rfl rfl rfl (.inl rfl) rfl h.surface hat
      · exact h.onward ready rdy isOpen rfl rfl rfl rfl (.inr ⟨.error,rfl,by simp⟩) rfl h.surface hat
    · exact h.onward ready rdy isOpen rfl rfl rfl rfl (.inl rfl) rfl h.surface hat

theorem Inv.dma (hpc : s.pc=.dma) (words : List UInt16) (timeout : Bool) : (s.dma words timeout).Inv := by
  have hw : s.pc.working=true := by rw [hpc]; rfl
  unfold RkSeat.dma
  dsimp only
  split_ifs
  · have hu : (s.note .memory).Inv :=
      h.onward ready rdy isOpen rfl rfl rfl rfl (.inr ⟨.memory,rfl,by simp⟩) hw h.surface place
    exact hu.dmaDone ready rdy (isOpen.did .memory) place hpc _ words timeout
  · exact h.dmaDone ready rdy isOpen place hpc _ words timeout

theorem Inv.writeSector (hpc : s.pc=.sector) : s.writeSector.Inv := by
  obtain ⟨hf,hc,hs,ht⟩ : s.command.function=.write ∧ 0<s.currentCount ∧ s.rkda.sector≤11 ∧
      s.OnTrack start := by
    unfold Place at place
    rw [hpc] at place
    exact place
  obtain ⟨hd,hi,hw⟩ := ht hf hc
  refine h.onward ready rdy isOpen rfl rfl rfl rfl (.inr ⟨_,rfl,fun n a he => ?_⟩) rfl h.surface ⟨hc,hs,ht⟩
  cases he
  exact ⟨hf,hd,hi,by omega⟩

theorem Inv.advance (hpc : s.pc=.advance) : s.advance.Inv := by
  obtain ⟨hc,hs,ht⟩ : 0<s.currentCount ∧ s.rkda.sector≤11 ∧ s.OnTrack start := by
    unfold Place at place
    rw [hpc] at place
    exact place
  have hnext := RkAddress.next_index h.surface hs
  have htrack (t : RkSeat) (htc : t.command=s.command) (htl : t.currentCount=s.currentCount-s.count)
      (htw : t.words=s.words) (hta : t.rkda=s.rkda.next) : t.OnTrack start := by
    intro hf hl
    rw [htc] at hf
    obtain ⟨hd,hi,hw⟩ := ht hf hc
    have hcount : s.count=min 256 s.currentCount.toNat := by
      unfold count
      rw [hf]
      rfl
    rw [htl] at hl
    rw [hta,htw,htl,RkAddress.next_drive,hnext]
    exact ⟨hd,by omega,by omega⟩
  have hsurf := RkAddress.next_surface h.surface
  unfold RkSeat.advance
  dsimp only
  split_ifs
  all_goals exact h.onward ready rdy isOpen rfl rfl rfl rfl (.inl rfl) rfl hsurf (htrack _ rfl rfl rfl rfl)

end worker

theorem Inv.readCheck {start : RkAddress} (h : s.Inv) (ready : s.newCommandReady=false)
    (rdy : s.rdy=false) (isOpen : s.docket.Open s.command.id (s.command.function,start))
    (hpc : s.pc=.readCheck) : s.readCheck.Inv := by
  have hw : s.pc.working=true := by rw [hpc]; rfl
  have hp (t : RkSeat) (ht : t.pc=s.pc) : t.Place start := by
    unfold Place
    rw [ht,hpc]
    trivial
  have hsurf := RkAddress.next_surface h.surface
  unfold RkSeat.readCheck
  dsimp only
  split_ifs
  · exact h.onward ready rdy isOpen rfl rfl rfl rfl (.inl rfl) hw hsurf (hp _ rfl)
  · exact h.onward ready rdy isOpen rfl rfl rfl rfl (.inl rfl) hw hsurf (hp _ rfl)
  · exact h.onward ready rdy isOpen rfl rfl rfl rfl (.inr ⟨.error,rfl,by simp⟩) rfl h.surface trivial
  · exact h.onward ready rdy isOpen rfl rfl rfl rfl (.inl rfl) rfl h.surface trivial

theorem Inv.take (h : s.Inv) (hpc : s.pc=.idle) (hr : s.newCommandReady) :
    Inv { s with command := s.newCommand,newCommandReady := false,pc := .clearGo } := by
  refine ⟨h.orderly,h.below,h.surface,h.sectors,fun i c ho => ?_,?_⟩
  · rcases h.accounted i c ho with ⟨-,h1⟩ | ⟨h2,-⟩
    · exact .inr ⟨rfl,h1⟩
    · rw [hpc] at h2
      cases h2
  · cases h.phase with
    | idle pc pending =>
      obtain ⟨hy,ho⟩ := pending hr
      exact .working s.rkda rfl rfl hy ho rfl
    | working start pc | overtaken pc | done pc =>
      rw [hpc] at pc
      cases pc

theorem Inv.none_open (h : s.Inv) (ready : s.newCommandReady=false)
    (hpc : s.pc.working → s.docket.Over s.command.id) (i : Nat) (c : RkOperation × RkAddress) :
    ¬s.docket.Open i c := by
  intro ho
  rcases h.accounted i c ho with ⟨h1,-⟩ | ⟨h1,h2⟩
  · rw [ready] at h1
    cases h1
  · exact ho.2 (h2 ▸ hpc h1)

theorem Inv.finish (h : s.Inv) (hpc : s.pc=.finish) :
    Inv { s with rdy := true,pc := .interrupt,docket := .finished s.command.id::s.docket } := by
  have hw : s.pc.working=true := by rw [hpc]; rfl
  have hstep (ready : s.newCommandReady=false) (hi : s.command.id<s.commands)
      (hf : .finished s.command.id∉s.docket)
      (hq : .cancelled s.command.id∈s.docket → s.ide=false) :
      Inv { s with rdy := true,pc := .interrupt,docket := .finished s.command.id::s.docket } := by
    refine ⟨h.orderly.finished hf,h.below.cons (Nat.le_refl _) hi,h.surface,
      sectors_cons h.sectors _ (fun i n a hx => by cases hx),fun i c ho => ?_,
      .done rfl ready mem_cons_self fun hc => ⟨hq ?_,rfl⟩⟩
    · obtain ⟨ha,hno⟩ := ho
      have ho' : s.docket.Open i c := ⟨(mem_cons.mp ha).resolve_left (by simp),
        fun hx => hno (over_finished.mpr (.inr hx))⟩
      rcases h.accounted i c ho' with ⟨h1,-⟩ | ⟨-,h2⟩
      · rw [ready] at h1
        cases h1
      · exact absurd (over_finished.mpr (.inl h2)) hno
    · exact (mem_cons.mp hc).resolve_left (by simp)
  cases h.phase with
  | idle pc | done pc =>
    rw [hpc] at pc
    cases pc
  | working start pc ready rdy isOpen =>
    exact hstep ready (isOpen.lt h.below) isOpen.not_finished fun hc => absurd hc isOpen.not_cancelled
  | overtaken pc ready cancelled fresh ide => exact hstep ready (h.below _ cancelled) fresh fun _ => ide

theorem Inv.interrupt (h : s.Inv) (hpc : s.pc=.interrupt) :
    Inv { s with pc := if s.doInterrupt ∧ s.ide then .raise else .idle } := by
  cases h.phase with
  | idle pc | working start pc | overtaken pc =>
    rw [hpc] at pc
    cases pc
  | done pc ready finished quiet =>
    have hno := h.none_open ready (fun hw => by rw [hpc] at hw; cases hw)
    refine ⟨h.orderly,h.below,h.surface,h.sectors,fun i c ho => absurd ho (hno i c),?_⟩
    by_cases hi : s.doInterrupt ∧ s.ide
    · rw [if_pos hi]
      refine .done rfl ready finished fun hc => ?_
      have hq : s.ide=false := (quiet hc).1
      rw [hq] at hi
      cases hi.2
    · rw [if_neg hi]
      exact .idle rfl fun hr => by cases ready.symm.trans hr

theorem Inv.raise (h : s.Inv) (hpc : s.pc=.raise) :
    Inv { s.note .interrupt with interrupts := s.interrupts+1,pc := .idle } := by
  cases h.phase with
  | idle pc | working start pc | overtaken pc =>
    rw [hpc] at pc
    cases pc
  | done pc ready finished quiet =>
    have hno := h.none_open ready (fun hw => by rw [hpc] at hw; cases hw)
    have hc : .cancelled s.command.id∉s.docket := by
      intro hc
      have hq := (quiet hc).2
      rw [hpc] at hq
      cases hq
    have hi : s.command.id<s.commands := h.below _ finished
    refine ⟨h.orderly.did hc _,h.below.cons (Nat.le_refl _) hi,h.surface,
      sectors_cons h.sectors _ (fun i n a hx => by cases hx),fun i c ho => ?_,
      .idle rfl fun hr => by cases ready.symm.trans hr⟩
    refine absurd ⟨(mem_cons.mp ho.1).resolve_left (by simp),fun hx => ho.2 ?_⟩ (hno i c)
    exact over_did.mpr hx

theorem Inv.inHand (h : s.Inv) (hw : s.pc.working) (hf : s.pc≠.finish) :
    ∃ start,s.newCommandReady=false ∧ s.rdy=false ∧
      s.docket.Open s.command.id (s.command.function,start) ∧ s.Place start := by
  cases h.phase with
  | idle pc =>
    rw [pc] at hw
    cases hw
  | working start _ ready rdy isOpen place => exact ⟨start,ready,rdy,isOpen,place⟩
  | overtaken pc => exact absurd pc hf
  | done pc =>
    rw [RkPc.not_working pc] at hw
    cases hw

theorem Inv.worker (h : s.Inv) (words : List UInt16) (timeout : Bool) : (s.workerStep words timeout).Inv := by
  unfold workerStep
  cases hpc : s.pc with
  | idle =>
    dsimp only
    split_ifs with hr
    · exact h.take hpc hr
    · exact h
  | finish => exact h.finish hpc
  | interrupt => exact h.interrupt hpc
  | raise => exact h.raise hpc
  | clearGo =>
    obtain ⟨start,ready,rdy,isOpen,place⟩ := h.inHand (by rw [hpc]; rfl) (by rw [hpc]; simp)
    unfold Place at place
    rw [hpc] at place
    exact h.onward ready rdy isOpen rfl rfl rfl rfl (.inl rfl) rfl h.surface place
  | execute =>
    obtain ⟨start,ready,rdy,isOpen,place⟩ := h.inHand (by rw [hpc]; rfl) (by rw [hpc]; simp)
    exact h.execute ready rdy isOpen place hpc
  | loop =>
    obtain ⟨start,ready,rdy,isOpen,place⟩ := h.inHand (by rw [hpc]; rfl) (by rw [hpc]; simp)
    exact h.loop ready rdy isOpen place hpc
  | validate =>
    obtain ⟨start,ready,rdy,isOpen,place⟩ := h.inHand (by rw [hpc]; rfl) (by rw [hpc]; simp)
    exact h.validate ready rdy isOpen place hpc
  | dma =>
    obtain ⟨start,ready,rdy,isOpen,place⟩ := h.inHand (by rw [hpc]; rfl) (by rw [hpc]; simp)
    exact h.dma ready rdy isOpen place hpc words timeout
  | sector =>
    obtain ⟨start,ready,rdy,isOpen,place⟩ := h.inHand (by rw [hpc]; rfl) (by rw [hpc]; simp)
    exact h.writeSector ready rdy isOpen place hpc
  | advance =>
    obtain ⟨start,ready,rdy,isOpen,place⟩ := h.inHand (by rw [hpc]; rfl) (by rw [hpc]; simp)
    exact h.advance ready rdy isOpen place hpc
  | readCheck =>
    obtain ⟨start,ready,rdy,isOpen,-⟩ := h.inHand (by rw [hpc]; rfl) (by rw [hpc]; simp)
    exact h.readCheck ready rdy isOpen hpc

def SameCore (s t : RkSeat) : Prop :=
  t.pc=s.pc ∧ t.newCommandReady=s.newCommandReady ∧ t.newCommand=s.newCommand ∧ t.rdy=s.rdy ∧
    t.command=s.command ∧ t.docket=s.docket ∧ t.rkda=s.rkda ∧ t.currentCount=s.currentCount ∧
    t.words=s.words ∧ t.commands=s.commands

theorem Inv.sameCore (h : s.Inv) (hc : s.SameCore t)
    (hi : .cancelled s.command.id∈s.docket → s.pc≠.idle → s.ide=false → t.ide=false) : t.Inv := by
  obtain ⟨hpc,hr,hn,hy,hcmd,hl,ha,hcount,hwords,hcs⟩ := hc
  refine ⟨by rw [hl]; exact h.orderly,by rw [hl,hcs]; exact h.below,by rw [ha]; exact h.surface,
    by rw [hl]; exact h.sectors,by rw [hl,hr,hn,hpc,hcmd]; exact h.accounted,?_⟩
  cases h.phase with
  | idle pc pending =>
    refine .idle (hpc.trans pc) ?_
    rw [hr,hy,hl,hn,ha]
    exact pending
  | working start pc ready rdy isOpen place =>
    refine .working start (by rw [hpc]; exact pc) (hr.trans ready) (hy.trans rdy)
      (by rw [hl,hcmd]; exact isOpen) ?_
    unfold Place OnTrack at *
    rw [hpc,hcmd,ha,hcount,hwords]
    exact place
  | overtaken pc ready cancelled fresh ide =>
    exact .overtaken (hpc.trans pc) (hr.trans ready) (by rw [hl,hcmd]; exact cancelled)
      (by rw [hl,hcmd]; exact fresh) (hi cancelled (by rw [pc]; simp) ide)
  | done pc ready finished quiet =>
    refine .done (by rw [hpc]; exact pc) (hr.trans ready) (by rw [hl,hcmd]; exact finished) ?_
    rw [hl,hcmd,hpc]
    intro hc
    obtain ⟨hide,hint⟩ := quiet hc
    exact ⟨hi hc (by rw [hint]; simp) hide,hint⟩

theorem cancelled_one (ready : s.newCommandReady=false) (hpc : s.pc≠.idle) :
    s.cancelled=.cancelled s.command.id::s.docket := by
  unfold cancelled
  rw [ready,if_neg hpc]
  rfl

theorem cancelled_none (ready : s.newCommandReady=false) (hpc : s.pc=.idle) : s.cancelled=s.docket := by
  unfold cancelled
  rw [ready,hpc]
  rfl

theorem Inv.overtake (h : s.Inv) (ready : s.newCommandReady=false) (hpc : s.pc≠.idle)
    (hi : s.command.id<s.commands) (hp : s.resetController.Phase) : s.resetController.Inv := by
  have hl : s.resetController.docket=.cancelled s.command.id::s.docket := cancelled_one ready hpc
  refine ⟨?_,?_,Nat.zero_le 1,?_,fun i c ho => ?_,hp⟩
  · rw [hl]
    exact h.orderly.cancelled _
  · rw [hl]
    exact h.below.cons (Nat.le_refl _) hi
  · rw [hl]
    exact sectors_cons h.sectors _ fun i n a hx => by cases hx
  · rw [hl] at ho
    exact h.accounted i c ⟨(mem_cons.mp ho.1).resolve_left (by simp),
      fun hx => ho.2 (over_cancelled.mpr (.inr hx))⟩

theorem Inv.reset (h : s.Inv) (hrest : s.AtRest) : s.resetController.Inv := by
  cases h.phase with
  | idle pc pending =>
    have ready : s.newCommandReady=false := by
      rcases hrest with hx | hx | hx
      · exact hx.2
      all_goals
        rw [pc] at hx
        cases hx
    have hl : s.resetController.docket=s.docket := cancelled_none ready pc
    refine ⟨?_,?_,Nat.zero_le 1,?_,?_,.idle pc fun hx => by cases ready.symm.trans hx⟩
    · rw [hl]
      exact h.orderly
    · rw [hl]
      exact h.below
    · rw [hl]
      exact h.sectors
    · rw [hl]
      exact h.accounted
  | working start pc ready rdy isOpen =>
    have hpc : s.pc=.finish := by
      rcases hrest with hx | hx | hx
      · rw [hx.1] at pc
        cases pc
      · exact hx
      · rw [hx] at pc
        cases pc
    have hl : s.resetController.docket=.cancelled s.command.id::s.docket :=
      cancelled_one ready (by rw [hpc]; simp)
    refine h.overtake ready (by rw [hpc]; simp) (isOpen.lt h.below) (.overtaken hpc ready ?_ ?_ rfl)
    · rw [hl]
      exact mem_cons_self
    · rw [hl]
      exact fun hx => isOpen.not_finished ((mem_cons.mp hx).resolve_left (by simp))
  | overtaken pc ready cancelled fresh ide =>
    have hl : s.resetController.docket=.cancelled s.command.id::s.docket :=
      cancelled_one ready (by rw [pc]; simp)
    refine h.overtake ready (by rw [pc]; simp) (h.below _ cancelled) (.overtaken pc ready ?_ ?_ rfl)
    · rw [hl]
      exact mem_cons_self
    · rw [hl]
      exact fun hx => fresh ((mem_cons.mp hx).resolve_left (by simp))
  | done pc ready finished quiet =>
    have hpc : s.pc=.interrupt := by
      rcases hrest with hx | hx | hx
      · rw [hx.1] at pc
        cases pc
      · rw [hx] at pc
        cases pc
      · exact hx
    have hl : s.resetController.docket=.cancelled s.command.id::s.docket :=
      cancelled_one ready (by rw [hpc]; simp)
    refine h.overtake ready (by rw [hpc]; simp) (h.below _ finished)
      (.done pc ready ?_ fun _ => ⟨rfl,hpc⟩)
    rw [hl]
    exact mem_cons_of_mem _ finished

theorem Inv.accept (h : s.Inv) (hpc : s.pc=.idle) : s.accept.Inv := by
  have hmem {e : Entry (RkOperation × RkAddress) RkEffect} (he : e∈s.docket) :
      e∈(if s.newCommandReady then [Entry.cancelled s.newCommand.id] else [])++s.docket :=
    mem_append_right _ he
  have hnew : Orderly ((if s.newCommandReady then [.cancelled s.newCommand.id] else [])++s.docket) ∧
      Below ((if s.newCommandReady then [.cancelled s.newCommand.id] else [])++s.docket) s.commands ∧
      (∀ i n a,.did i (.sector n a)∈(if s.newCommandReady then [.cancelled s.newCommand.id] else []) ++
        s.docket → .did i (.sector n a)∈s.docket) := by
    cases h.phase with
    | idle pc pending =>
      by_cases hr : s.newCommandReady=true
      · rw [if_pos hr]
        obtain ⟨-,ho⟩ := pending hr
        exact ⟨h.orderly.cancelled _,h.below.cons (Nat.le_refl _) (ho.lt h.below),fun i n a hx =>
          (mem_cons.mp hx).resolve_left (by simp)⟩
      · rw [if_neg hr]
        exact ⟨h.orderly,h.below,fun i n a hx => hx⟩
    | working start pc | overtaken pc | done pc =>
      rw [hpc] at pc
      cases pc
  obtain ⟨ho,hb,hs⟩ := hnew
  refine ⟨ho.accepted _ _,hb.cons (Nat.le_succ _) (lt_succ_self _),h.surface,fun i n a hx => ?_,
    fun i c hi => .inl ⟨rfl,?_⟩,.idle hpc fun _ => ⟨rfl,mem_cons_self,fun hx => ?_⟩⟩
  · obtain ⟨start,ha,hr⟩ := h.sectors i n a (hs i n a ((mem_cons.mp hx).resolve_left (by simp)))
    exact ⟨start,mem_cons_of_mem _ (hmem ha),hr⟩
  · obtain ⟨ha,hno⟩ := hi
    rcases mem_cons.mp ha with hx | hx
    · cases hx
      rfl
    · -- one that was accepted before is settled now
      exfalso
      have hold : .accepted i c∈s.docket := by
        refine (mem_append.mp hx).resolve_left fun hy => ?_
        split_ifs at hy
        · cases mem_singleton.mp hy
        · cases hy
      have hno' : ¬s.docket.Over i := fun hy => hno (over_accepted.mpr (hy.imp hmem hmem))
      rcases h.accounted i c ⟨hold,hno'⟩ with ⟨h1,h2⟩ | ⟨h1,-⟩
      · refine hno (over_accepted.mpr (.inl (mem_append_left _ ?_)))
        rw [if_pos h1,h2]
        exact mem_singleton_self _
      · rw [hpc] at h1
        cases h1
  · exact hb.not_over (over_accepted.mp hx)

theorem invokeInterrupt_ide (s : RkSeat) : s.SameCore s.invokeInterrupt ∧ s.invokeInterrupt.ide=s.ide := by
  unfold invokeInterrupt
  split_ifs <;> exact ⟨⟨rfl,rfl,rfl,rfl,rfl,rfl,rfl,rfl,rfl,rfl⟩,rfl⟩

theorem ofBits_reset {n : Nat} (h : RkOperation.ofBits n=.controlReset) : n=0 := by
  unfold RkOperation.ofBits at h
  split at h <;> first | rfl | cases h

theorem writeRkcs_cases (s : RkSeat) (value : Nat) : ∃ u,s.SameCore u ∧ u.ide=decide (value/0x40%2=1) ∧
      (s.writeRkcs value=u ∨ isReset value ∧ s.writeRkcs value=u.resetController) := by
  unfold writeRkcs
  extract_lets u
  have hu : s.SameCore u := ⟨rfl,rfl,rfl,rfl,rfl,rfl,rfl,rfl,rfl,rfl⟩
  have hide : u.ide=decide (value/0x40%2=1) := rfl
  have hrefuse (e : RkError) : s.SameCore (u.refuse e) ∧ (u.refuse e).ide=decide (value/0x40%2=1) :=
    invokeInterrupt_ide { u with errors := e :: .he :: .err::u.errors,scp := false,go := false }
  have keep (v : RkSeat) (hv : s.SameCore v) (hi : v.ide=decide (value/0x40%2=1)) :
      ∃ u,s.SameCore u ∧ u.ide=decide (value/0x40%2=1) ∧
        (v=u ∨ isReset value=true ∧ v=u.resetController) := ⟨v,hv,hi,.inl rfl⟩
  split_ifs with hgo hpge hreset
  · exact keep _ hu hide
  · have h0 : value/2%8=0 := ofBits_reset hreset
    refine ⟨u,hu,hide,.inr ⟨?_,rfl⟩⟩
    have h1 : value%2=1 := of_decide_eq_true hgo
    unfold isReset
    rw [h0,h1]
    rfl
  · exact keep _ hu hide
  · exact keep _ (hrefuse _).1 (hrefuse _).2
  · exact keep _ (hrefuse _).1 (hrefuse _).2
  · exact keep _ (hrefuse _).1 (hrefuse _).2
  · exact keep _ hu hide
  · exact keep _ (invokeInterrupt_ide u).1 (invokeInterrupt_ide u).2
  · exact keep _ hu hide

theorem Inv.writeRkda (h : s.Inv) (value : Nat) : (s.writeRkda value).Inv := by
  unfold RkSeat.writeRkda
  split_ifs with hy
  · refine ⟨h.orderly,h.below,RkAddress.ofWord_surface value,h.sectors,h.accounted,?_⟩
    cases h.phase with
    | idle pc pending =>
      refine .idle pc fun hr => ?_
      rw [(pending hr).1] at hy
      cases hy
    | working start pc ready rdy =>
      rw [rdy] at hy
      cases hy
    | overtaken pc ready cancelled fresh ide => exact .overtaken pc ready cancelled fresh ide
    | done pc ready finished quiet => exact .done pc ready finished quiet
  · exact h

theorem Inv.step {e : RkEvent} (h : s.Inv) (hc : s.Careful e) (hs : s.step e=some t) : t.Inv := by
  unfold RkSeat.step at hs
  cases e with
  | worker words timeout =>
    cases hs
    exact h.worker words timeout
  | rkcs value =>
    dsimp only at hs
    split_ifs at hs
    cases hs
    obtain ⟨u,hsame,hide,hu⟩ := writeRkcs_cases s value
    have hinv : u.Inv := by
      refine h.sameCore hsame fun hx hpc _ => ?_
      rw [hide,hc.2 hx hpc]
      rfl
    rcases hu with hu | ⟨hr,hu⟩
    · rw [hu]
      exact hinv
    · rw [hu]
      refine hinv.reset ?_
      unfold AtRest
      rw [hsame.1,hsame.2.1]
      exact hc.1 hr
  | accept =>
    dsimp only at hs
    split_ifs at hs
    cases hs
    exact h.accept hc
  | rkda value =>
    dsimp only at hs
    split_ifs at hs
    cases hs
    exact h.writeRkda value
  | rkwc value | rkba value =>
    dsimp only at hs
    split_ifs at hs
    cases hs
    exact h.sameCore ⟨rfl,rfl,rfl,rfl,rfl,rfl,rfl,rfl,rfl,rfl⟩ fun _ _ hi => hi
  | init =>
    dsimp only at hs
    split_ifs at hs
    cases hs
    exact (h.reset hc).sameCore ⟨rfl,rfl,rfl,rfl,rfl,rfl,rfl,rfl,rfl,rfl⟩ fun _ _ hi => hi
  | drive n d =>
    cases hs
    exact h.sameCore ⟨rfl,rfl,rfl,rfl,rfl,rfl,rfl,rfl,rfl,rfl⟩ fun _ _ hi => hi

theorem Inv.start (isRkv11 : Bool) (drives : Nat → RkDrive) (pack : Nat → Nat → List UInt16) :
    (start isRkv11 drives pack).Inv :=
  ⟨.nil,fun _ he => absurd he (by simp [RkSeat.start]),Nat.zero_le 1,
    fun _ _ _ he => absurd he (by simp [RkSeat.start]),fun _ _ ho => absurd ho.1 (by simp [RkSeat.start]),
    .idle rfl fun hr => by cases hr⟩

theorem Inv.safe (h : s.Inv) : s.Safe := by
  refine ⟨h.sectors,h.orderly,fun i c ho => ?_⟩
  cases h.phase with
  | idle pc pending =>
    rcases h.accounted i c ho with ⟨h1,-⟩ | ⟨h1,-⟩
    · exact (pending h1).1
    · rw [pc] at h1
      cases h1
  | working start pc ready rdy => exact rdy
  | overtaken pc ready cancelled =>
    exact absurd ho (h.none_open ready (fun _ => .inl cancelled) i c)
  | done pc ready finished =>
    exact absurd ho (h.none_open ready (fun _ => .inr finished) i c)

def toIdle (s : RkSeat) : Nat :=
  match s.pc with
  | .idle => bif s.newCommandReady then 5*s.startCount.toNat+12 else 0
  | .clearGo => 5*s.startCount.toNat+11
  | .execute => 5*s.startCount.toNat+10
  | .loop => bif s.abort then 5 else 5*s.currentCount.toNat+9
  | .readCheck => 5*s.currentCount.toNat+9
  | .validate => 5*s.currentCount.toNat+8
  | .dma => 5*s.currentCount.toNat+7
  | .sector => 5*s.currentCount.toNat+6
  | .advance => 5*s.currentCount.toNat+5
  | .finish => 4
  | .interrupt => 3
  | .raise => 2

theorem count_pos (hc : 0<s.currentCount) : 0<s.count := by
  unfold count
  split_ifs <;> omega

theorem Inv.not_ready (h : s.Inv) (hpc : s.pc≠.idle) : s.newCommandReady=false := by
  cases h.phase with
  | idle pc => exact absurd pc hpc
  | working start pc ready | overtaken pc ready | done pc ready => exact ready

theorem execute_toIdle (s : RkSeat) : s.execute.toIdle<5*s.startCount.toNat+10 := by
  unfold execute
  generalize s.startCount=n
  have hmove (t : RkSeat) (hp : t.pc=.loop ∨ t.pc=.readCheck) (hl : t.currentCount=n)
      (ha : t.pc=.loop → t.abort=false) : t.toIdle<5*n.toNat+10 := by
    unfold toIdle
    rcases hp with hp | hp
    · rw [hp,hl,ha hp]
      exact lt_succ_self _
    · rw [hp,hl]
      exact lt_succ_self _
  have hend (t : RkSeat) (hp : t.pc=.finish) : t.toIdle<5*n.toNat+10 := by
    unfold toIdle
    rw [hp]
    dsimp only
    omega
  split
  · exact hmove _ (.inl rfl) rfl fun _ => rfl
  · exact hmove _ (.inl rfl) rfl fun _ => rfl
  · exact hmove _ (.inl rfl) rfl fun _ => rfl
  · exact hmove _ (.inr rfl) rfl fun hp => by cases hp
  · split_ifs
    all_goals exact hend _ rfl
  · split_ifs
    all_goals exact hend _ rfl
  · exact hend _ rfl
  · exact hend _ rfl

theorem loop_toIdle (hpc : s.pc=.loop) (ready : s.newCommandReady=false) : s.loop.toIdle<s.toIdle := by
  have hs : s.toIdle=bif s.abort then 5 else 5*s.currentCount.toNat+9 := by
    unfold toIdle
    rw [hpc]
  rw [hs]
  unfold loop
  split_ifs with h1 h2
  · rw [ready] at h2
    cases h2
  · have ha : s.abort=false := by simpa using h1.2
    rw [ha]
    show 5*s.currentCount.toNat+8<5*s.currentCount.toNat+9
    omega
  · show 4 < _
    cases s.abort
    · show 4<5*s.currentCount.toNat+9
      omega
    · exact lt_succ_self _

theorem validate_toIdle (s : RkSeat) : s.validate.toIdle<5*s.currentCount.toNat+8 := by
  have hend : 5<5*s.currentCount.toNat+8 := by omega
  unfold validate
  dsimp only
  split_ifs
  · exact lt_succ_self _
  · exact hend
  · exact hend

theorem dmaDone_toIdle (s : RkSeat) (data words : List UInt16) (timeout : Bool) :
    (s.dmaDone data words timeout).toIdle<5*s.currentCount.toNat+7 := by
  have h5 : 5*s.currentCount.toNat+5<5*s.currentCount.toNat+7 := by omega
  have h6 : 5*s.currentCount.toNat+6<5*s.currentCount.toNat+7 := by omega
  unfold dmaDone
  by_cases hto : timeout=true
  · rw [if_pos hto]
    exact h5
  · rw [if_neg hto]
    split
    · exact h6
    · dsimp only
      split_ifs
      · exact h5
      · exact h5
    · exact h5

theorem dma_toIdle (s : RkSeat) (words : List UInt16) (timeout : Bool) :
    (s.dma words timeout).toIdle<5*s.currentCount.toNat+7 := by
  unfold dma
  dsimp only
  split_ifs
  · exact (s.note .memory).dmaDone_toIdle _ words timeout
  · exact s.dmaDone_toIdle _ words timeout

theorem advance_toIdle (hc : 0<s.currentCount) : s.advance.toIdle<5*s.currentCount.toNat+5 := by
  have hn := count_pos hc
  have hloop (t : RkSeat) (hp : t.pc=.loop) (hl : t.currentCount=s.currentCount-s.count) :
      t.toIdle<5*s.currentCount.toNat+5 := by
    unfold toIdle
    rw [hp,hl]
    cases t.abort
    · show 5*(s.currentCount-s.count).toNat+9 < _
      omega
    · show 5 < _
      omega
  unfold advance
  dsimp only
  split_ifs
  all_goals exact hloop _ rfl rfl

theorem readCheck_toIdle (hpc : s.pc=.readCheck) : s.readCheck.toIdle<5*s.currentCount.toNat+9 := by
  have hgo (hc : 0<s.currentCount) (t : RkSeat) (ht : t.pc=.readCheck)
      (hl : t.currentCount=s.currentCount-256) : t.toIdle<5*s.currentCount.toNat+9 := by
    unfold toIdle
    rw [ht,hl]
    dsimp only
    omega
  have hend : 4<5*s.currentCount.toNat+9 := by omega
  unfold readCheck
  dsimp only
  split_ifs with h1
  · exact hgo h1 _ hpc rfl
  · exact hgo h1 _ hpc rfl
  · exact hend
  · exact hend

theorem Inv.nearer (h : s.Inv) (hb : s.pc=.idle → s.newCommandReady) (words : List UInt16)
    (timeout : Bool) : (s.workerStep words timeout).toIdle<s.toIdle := by
  have hcount (hpc : s.pc=.advance) : 0<s.currentCount := by
    obtain ⟨start,-,-,-,place⟩ := h.inHand (by rw [hpc]; rfl) (by rw [hpc]; simp)
    unfold Place at place
    rw [hpc] at place
    exact place.1
  have hr := h.not_ready
  unfold workerStep
  cases hpc : s.pc with
  | idle =>
    have ht : s.toIdle=5*s.startCount.toNat+12 := by
      unfold toIdle
      rw [hpc,hb hpc]
      rfl
    rw [ht]
    dsimp only
    rw [if_pos (hb hpc)]
    exact lt_succ_self _
  | clearGo =>
    have ht : s.toIdle=5*s.startCount.toNat+11 := by
      unfold toIdle
      rw [hpc]
    rw [ht]
    exact lt_succ_self _
  | execute =>
    have ht : s.toIdle=5*s.startCount.toNat+10 := by
      unfold toIdle
      rw [hpc]
    rw [ht]
    exact s.execute_toIdle
  | loop => exact loop_toIdle hpc (hr (by rw [hpc]; simp))
  | validate =>
    have ht : s.toIdle=5*s.currentCount.toNat+8 := by
      unfold toIdle
      rw [hpc]
    rw [ht]
    exact s.validate_toIdle
  | dma =>
    have ht : s.toIdle=5*s.currentCount.toNat+7 := by
      unfold toIdle
      rw [hpc]
    rw [ht]
    exact s.dma_toIdle words timeout
  | sector =>
    have ht : s.toIdle=5*s.currentCount.toNat+6 := by
      unfold toIdle
      rw [hpc]
    rw [ht]
    exact lt_succ_self _
  | advance =>
    have ht : s.toIdle=5*s.currentCount.toNat+5 := by
      unfold toIdle
      rw [hpc]
    rw [ht]
    exact advance_toIdle (hcount hpc)
  | readCheck =>
    have ht : s.toIdle=5*s.currentCount.toNat+9 := by
      unfold toIdle
      rw [hpc]
    rw [ht]
    exact readCheck_toIdle hpc
  | finish =>
    have ht : s.toIdle=4 := by
      unfold toIdle
      rw [hpc]
    rw [ht]
    exact lt_succ_self _
  | interrupt =>
    have ht : s.toIdle=3 := by
      unfold toIdle
      rw [hpc]
    have hready := hr (by rw [hpc]; simp)
    rw [ht]
    unfold toIdle
    dsimp only
    rw [hready]
    split_ifs
    · exact lt_succ_self 2
    · exact Nat.succ_pos 2
  | raise =>
    have ht : s.toIdle=2 := by
      unfold toIdle
      rw [hpc]
    have hready : (s.note .interrupt).newCommandReady=false := hr (by rw [hpc]; simp)
    rw [ht]
    unfold toIdle
    dsimp only
    rw [hready]
    exact Nat.succ_pos 1

def work (s : RkSeat) (dmas : List (List UInt16 × Bool)) : RkSeat :=
  dmas.foldl (fun s d => s.workerStep d.1 d.2) s

theorem Inv.work {dmas : List (List UInt16 × Bool)} (h : s.Inv) (hl : s.toIdle≤dmas.length) :
    (s.work dmas).Inv ∧ (s.work dmas).pc=.idle ∧ (s.work dmas).newCommandReady=false := by
  have hidle {t : RkSeat} (ht : t.Inv) (hn : t.toIdle=0) : t.pc=.idle ∧ t.newCommandReady=false := by
    by_contra hno
    refine Nat.not_lt_zero _ (hn ▸ ht.nearer (fun hp => ?_) [] false)
    by_contra hr
    exact hno ⟨hp,by simpa using hr⟩
  induction dmas generalizing s with
  | nil => exact ⟨h,hidle h (Nat.le_zero.mp hl)⟩
  | cons d dmas ih =>
    refine ih (h.worker d.1 d.2) ?_
    show (s.workerStep d.1 d.2).toIdle≤dmas.length
    by_cases hb : s.pc=.idle → s.newCommandReady=true
    · have := h.nearer hb d.1 d.2
      rw [length_cons] at hl
      omega
    · obtain ⟨hp,hr⟩ := Classical.not_imp.mp hb
      have hstay : s.workerStep d.1 d.2=s := by
        unfold workerStep
        rw [hp]
        exact if_neg hr
      have h0 : s.toIdle=0 := by
        unfold toIdle
        rw [hp]
        simp [hr]
      rw [hstay,h0]
      exact Nat.zero_le _

instance (s : RkSeat) : Decidable s.AtRest :=
  inferInstanceAs (Decidable (_=_ ∧ _=_ ∨ _=_ ∨ _=_))

instance (s : RkSeat) : (e : RkEvent) → Decidable (s.Careful e)
  | .rkcs _ => inferInstanceAs (Decidable ((_=_ → AtRest _) ∧ (_∈_ → _≠_ → _=_)))
  | .init => inferInstanceAs (Decidable (AtRest _))
  | .accept => inferInstanceAs (Decidable (_=_))
  | .worker _ _ | .rkda _ | .rkwc _ | .rkba _ | .drive _ _ => isTrue trivial

def twoDrives : RkSeat := start false (fun n => ⟨n<2,n<2,false⟩) fun _ _ => []

/-- A Write of 300 words from sector 3 of drive 1 on, with an interrupt, and `n` steps of the worker -/
def writeTwo (n : Nat) : List RkEvent :=
  [.rkda 0x2003,.rkwc 65236,.rkcs 67,.accept]++replicate n (.worker [] false)

end RkSeat

end QUniLator.Disks
