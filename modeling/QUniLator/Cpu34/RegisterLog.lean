import QUniLator.Cpu34.Confined
import QUniLator.Cpu34.Traps

/-!
What an abort leaves to the handler that restarts the instruction: MMR1 with the register changes,
MMR2 with the instruction's address, and the PSW.
-/

namespace QUniLator.Cpu34

open Attempt BitVec Function

def entryAmount (e : BitVec 8) (i : BitVec 4) : Word :=
  if (e.extractLsb' 0 3).setWidth 4=i then (e.extractLsb' 3 5).signExtend 16 else 0

namespace Kt11d
variable {m m' : Kt11d} {n : Nat}

def logged (m : Kt11d) (i : BitVec 4) : Word :=
  entryAmount (m.mmr1.extractLsb' 0 8) i+entryAmount (m.mmr1.extractLsb' 8 8) i

/-- The unit logs, and MMR1 has at most `n` entries. -/
structure Logs (n : Nat) (m : Kt11d) : Prop where
  thawed : m.frozen=false
  count : m.mmr1Count≤n
  empty : m.mmr1Count=0 → m.mmr1=0
  one : m.mmr1Count=1 → m.mmr1.extractLsb' 8 8=0

theorem Logs.mono {k : Nat} (h : m.Logs n) (hk : n≤k) : m.Logs k :=
  ⟨h.thawed,h.count.trans hk,h.empty,h.one⟩

def IsStep (a : Word) : Prop := a=1 ∨ a=2 ∨ a = -1 ∨ a = -2

/-- What `kt11d_log_register` makes of a register and an amount. -/
def entry (r : BitVec 4) (a : Word) : Word := ((a &&& 0o37) <<< 3) ||| (r &&& 7).setWidth 16

variable {a : Word}

theorem entry_low {r : BitVec 4} (hr : r<8) (ha : IsStep a) (i : BitVec 4) :
    entryAmount ((entry r a).extractLsb' 0 8) i=if r=i then a else 0 := by
  obtain rfl | rfl | rfl | rfl := ha
  all_goals
    revert i r
    decide

theorem entry_high (r : BitVec 4) (ha : IsStep a) : (entry r a).extractLsb' 8 8=0 := by
  obtain rfl | rfl | rfl | rfl := ha
  all_goals
    revert r
    decide

theorem entry_shifted (r : BitVec 4) (ha : IsStep a) : (entry r a <<< 8).extractLsb' 0 8=0 ∧
      (entry r a <<< 8).extractLsb' 8 8=(entry r a).extractLsb' 0 8 := by
  obtain rfl | rfl | rfl | rfl := ha
  all_goals
    revert r
    decide

theorem entryAmount_zero (i : BitVec 4) : entryAmount 0 i=0 := by
  revert i
  decide

theorem logRegister_eq (hf : m.frozen=false) (hc : m.mmr1Count≤1) {r : BitVec 4} (hr : r≠7)
    (a : Word) : m.logRegister r a = { m with
        mmr1 := if m.mmr1Count=0 then entry r a else m.mmr1 ||| (entry r a <<< 8)
        mmr1Count := m.mmr1Count+1 } := by
  have hlog : (m.frozen || decide (r=7) || decide (2 ≤ m.mmr1Count))=false := by
    rw [hf,decide_eq_false hr,decide_eq_false (by omega)]
    rfl
  rw [logRegister,hlog]
  rfl

theorem Logs.logRegister (h : m.Logs n) (hn : n≤1) (r : BitVec 4) (ha : IsStep a) :
    (m.logRegister r a).Logs (n+1) := by
  by_cases h7 : r=7
  · have hskip : m.logRegister r a=m := if_pos (by simp [h7])
    rw [hskip]
    exact h.mono (Nat.le_succ n)
  · have hcount := h.count
    rw [logRegister_eq h.thawed (hcount.trans hn) h7]
    refine ⟨h.thawed,Nat.succ_le_succ hcount,fun h0 => absurd h0 (Nat.succ_ne_zero _),?_⟩
    intro h1
    have h0 : m.mmr1Count=0 := Nat.succ.inj h1
    dsimp only
    rw [if_pos h0]
    exact entry_high r ha

theorem logged_empty (h : m.mmr1=0) (i : BitVec 4) : m.logged i=0 := by
  rw [logged,h]
  revert i
  decide

theorem Logs.logged (h : m.Logs n) (hn : n≤1) {r : BitVec 4} (hr : r<8) (ha : IsStep a) {i : BitVec 4} (hi : i<7) :
    (m.logRegister r a).logged i=m.logged i+if r=i then a else 0 := by
  by_cases h7 : r=7
  · have hskip : m.logRegister r a=m := if_pos (by simp [h7])
    have hne : r≠i := by
      rintro rfl
      rw [h7] at hi
      exact absurd hi (by decide)
    rw [hskip,if_neg hne,add_zero]
  · have hcount := h.count.trans hn
    rw [logRegister_eq h.thawed hcount h7]
    by_cases h0 : m.mmr1Count=0
    · simp only [Kt11d.logged,if_pos h0,entry_low hr ha,entry_high r ha,h.empty h0]
      rw [show (0 : Word).extractLsb' 0 8=0 from rfl,
        show (0 : Word).extractLsb' 8 8=0 from rfl,entryAmount_zero,add_zero,add_zero,zero_add]
    · have h1 : m.mmr1Count=1 := by omega
      simp only [Kt11d.logged,if_neg h0,extractLsb'_or,(entry_shifted r ha).1,(entry_shifted r ha).2,h.one h1]
      rw [show (0 : BitVec 8) ||| (entry r a).extractLsb' 0 8=_ from zero_or,
        show m.mmr1.extractLsb' 0 8 ||| (0 : BitVec 8)=_ from or_zero,entry_low hr ha,
        entryAmount_zero,add_zero]

def record (m : Kt11d) : Word × Word × Nat × Bool := (m.mmr1,m.mmr2,m.mmr1Count,m.frozen)

theorem Logs.congr (h : m.Logs n) (hr : m'.record=m.record) : m'.Logs n := by
  obtain ⟨h1,-,hc,hf⟩ := by simpa only [record,Prod.mk.injEq] using hr
  exact ⟨hf.trans h.thawed,hc ▸ h.count,fun h0 => h1.trans (h.empty (hc.symm.trans h0)),
    fun h0 => by rw [h1]; exact h.one (hc.symm.trans h0)⟩

theorem logged_congr (h : m'.mmr1=m.mmr1) : m'.logged=m.logged := by
  funext i
  rw [logged,logged,h]

theorem noteReference_record (va : Word) : (m.noteReference va).record=m.record := by
  unfold noteReference
  split_ifs <;> rfl

theorem relocate_record {va : Word} {space : Space} {access : Access} {pa : Uint}
    (h : m.relocate va space access=(m',some pa)) : m'.record=m.record := by
  have hn := m.noteReference_record va
  simp only [relocate] at h
  split_ifs at h <;> cases h
  all_goals first | rfl | exact hn

theorem relocate_shown {va : Word} {space : Space} {access : Access} {pa : Option Uint}
    (h : m.relocate va space access=(m',pa)) : m'.mmr1=m.mmr1 ∧ m'.mmr2=m.mmr2 := by
  have hn : (m.noteReference va).mmr1=m.mmr1 ∧ (m.noteReference va).mmr2=m.mmr2 := by
    unfold noteReference
    split_ifs <;> exact ⟨rfl,rfl⟩
  have habort (m : Kt11d) :
      (m.abort va space access).mmr1=m.mmr1 ∧ (m.abort va space access).mmr2=m.mmr2 := by
    simp only [abort]
    split <;> exact ⟨rfl,rfl⟩
  have hmode : (m.abortMode va).mmr1=m.mmr1 ∧ (m.abortMode va).mmr2=m.mmr2 := by
    unfold abortMode
    split_ifs <;> exact ⟨rfl,rfl⟩
  simp only [relocate] at h
  split_ifs at h <;> cases h
  all_goals first
    | exact ⟨rfl,rfl⟩
    | exact hmode
    | exact hn
    | exact ⟨(habort _).1.trans hn.1,(habort _).2.trans hn.2⟩

end Kt11d

/-- A register as the last failed reference found it: an increment that was taken back counts. -/
def State.standing (s : State) (i : BitVec 4) : Word :=
  s.r i+if s.undone=some i then s.autoincAmount else 0

theorem refused_standing (s : State) (vector : Word) (i : BitVec 4) : (s.refused vector).standing i=s.r i := by
  unfold State.standing State.refused State.autoincUndo
  cases s.autoincReg with
  | none => simp
  | some r =>
    by_cases hi : r=i
    · subst hi
      simp [State.setR]
    · simp [State.setR,hi,update_of_ne (Ne.symm hi)]

/-- What a reference that fails leaves of the state. -/
structure Missed (s t : State) : Prop where
  standing : ∀ i,t.standing i=s.r i
  mmr1 : t.mmu.mmr1=s.mmu.mmr1
  mmr2 : t.mmu.mmr2=s.mmu.mmr2
  psw : t.psw=s.psw
  be : t.be=s.be+1
  undone : t.undone=s.autoincReg
  amount : t.autoincAmount=s.autoincAmount

theorem refused_undone (s : State) (vector : Word) : (s.refused vector).undone=s.autoincReg ∧
      (s.refused vector).autoincAmount=s.autoincAmount := by
  unfold State.refused State.autoincUndo
  cases s.autoincReg with
  | none | some r => exact ⟨rfl,rfl⟩

theorem missed_refused {s u : State} (vector : Word) (hr : u.r=s.r)
    (hm : u.mmu.mmr1=s.mmu.mmr1 ∧ u.mmu.mmr2=s.mmu.mmr2) (hp : u.psw=s.psw) (hb : u.be=s.be)
    (ha : u.autoincReg=s.autoincReg ∧ u.autoincAmount=s.autoincAmount) : Missed s (u.refused vector) := by
  obtain ⟨hundone,hamount⟩ := refused_undone u vector
  refine ⟨?_,?_,?_,(refused_frame u vector).1.trans hp,by rw [(refused_traps u vector).2.2,hb],
    hundone.trans ha.1,hamount.trans ha.2⟩
  · intro i
    rw [refused_standing,hr]
  · rw [refused_mmu,hm.1]
  · rw [refused_mmu,hm.2]

section
variable {bus : Bus} {b : Bool} {s t : State}

theorem Reads.missed (h : Reads bus b s none t) : Missed s t := by
  cases h with
  | odd _ => exact missed_refused 4 rfl ⟨rfl,rfl⟩ rfl rfl ⟨rfl,rfl⟩
  | aborted h => exact missed_refused abortVector rfl (Kt11d.relocate_shown h) rfl rfl ⟨rfl,rfl⟩
  | timeout h _ => exact missed_refused 4 rfl (Kt11d.relocate_shown h) rfl rfl ⟨rfl,rfl⟩

theorem Stores.missed (h : Stores b s none t) : Missed s t := by
  cases h with
  | odd _ => exact missed_refused 4 rfl ⟨rfl,rfl⟩ rfl rfl ⟨rfl,rfl⟩
  | aborted h => exact missed_refused abortVector rfl (Kt11d.relocate_shown h) rfl rfl ⟨rfl,rfl⟩
  | timeout h _ => exact missed_refused 4 rfl (Kt11d.relocate_shown h) rfl rfl ⟨rfl,rfl⟩

theorem Reads.made (h : Reads bus b s (some ()) t) : t.r=s.r ∧ t.mmu.record=s.mmu.record ∧ t.psw=s.psw ∧ t.be=0 := by
  cases h with
  | inside h _ | answered h _ => exact ⟨rfl,Kt11d.relocate_record h,rfl,rfl⟩

end

def pswRest (psw : Word) : Word := psw &&& ~~~0o17

/-- An instruction at `pc`, begun with the registers `r` and the PSW `psw`: MMR1, with at most `n`
entries, accounts for all it has done to them. -/
structure Accounts (pc psw : Word) (r : BitVec 4 → Word) (n : Nat) (s : State) : Prop where
  logs : s.mmu.Logs n
  r : ∀ i<7,s.r i=r i+s.mmu.logged i
  mmr2 : s.mmu.mmr2=pc
  psw : pswRest s.psw=pswRest psw
  be : s.be=0

/-- A reference of such an instruction has failed. -/
structure Backs (pc psw : Word) (r : BitVec 4 → Word) (s : State) : Prop where
  r : ∀ i<7,s.standing i=r i+s.mmu.logged i
  mmr2 : s.mmu.mmr2=pc
  psw : pswRest s.psw=pswRest psw
  be : s.be=1

section
variable {bus : Bus} {pc psw : Word} {r : BitVec 4 → Word} {n : Nat} {s t : State}

theorem Accounts.mono {k : Nat} (h : Accounts pc psw r n s) (hk : n≤k) : Accounts pc psw r k s :=
  ⟨h.logs.mono hk,h.r,h.mmr2,h.psw,h.be⟩

theorem Accounts.congr (h : Accounts pc psw r n s) (hr : ∀ i<7,t.r i=s.r i)
    (hm : t.mmu.record=s.mmu.record) (hp : pswRest t.psw=pswRest s.psw) (hb : t.be=0) : Accounts pc psw r n t := by
  have h1 : t.mmu.mmr1=s.mmu.mmr1 := congrArg Prod.fst hm
  have h2 : t.mmu.mmr2=s.mmu.mmr2 := congrArg (fun x => x.2.1) hm
  refine ⟨h.logs.congr hm,?_,h2.trans h.mmr2,hp.trans h.psw,hb⟩
  intro i hi
  rw [hr i hi,Kt11d.logged_congr h1,h.r i hi]

theorem Accounts.missed (h : Accounts pc psw r n s) (ht : Missed s t) : Backs pc psw r t := by
  refine ⟨?_,ht.mmr2.trans h.mmr2,by rw [ht.psw,h.psw],by rw [ht.be,h.be]⟩
  intro i hi
  rw [ht.standing,h.r i hi,Kt11d.logged_congr ht.mmr1]

theorem Backs.congr (h : Backs pc psw r s) (hs : t.standing=s.standing)
    (hm : t.mmu.mmr1=s.mmu.mmr1 ∧ t.mmu.mmr2=s.mmu.mmr2) (hp : t.psw=s.psw) (hb : t.be=s.be) : Backs pc psw r t := by
  refine ⟨?_,hm.2.trans h.mmr2,by rw [hp,h.psw],hb.trans h.be⟩
  intro i hi
  rw [hs,Kt11d.logged_congr hm.1,h.r i hi]

theorem Accounts.scratch (h : Accounts pc psw r n s) {i : BitVec 4} (hi : ¬i<7) (v : Word) :
    Accounts pc psw r n (s.setR i v) := by
  refine h.congr (t := s.setR i v) ?_ rfl rfl h.be
  intro j hj
  have hne : j≠i := by
    rintro rfl
    exact hi hj
  exact update_of_ne hne v s.r

theorem Accounts.moved (h : Accounts pc psw r n s) (i : BitVec 4) (a : Word) :
    Accounts pc psw (fun j => r j+if i=j then a else 0) n (s.setR i (s.r i+a)) := by
  refine ⟨h.logs,?_,h.mmr2,h.psw,h.be⟩
  intro j hj
  have hr := h.r j hj
  by_cases hij : i=j
  · subst hij
    simp only [State.setR,Function.update_self,if_pos,hr]
    exact add_right_comm _ _ _
  · simp only [State.setR,update_of_ne (Ne.symm hij),if_neg hij,add_zero,hr]

theorem Accounts.logged {i : BitVec 4} {a : Word}
    (h : Accounts pc psw (fun j => r j+if i=j then a else 0) n s) (hn : n≤1) (hi : i<8)
    (ha : Kt11d.IsStep a) : Accounts pc psw r (n+1) { s with mmu := s.mmu.logRegister i a } := by
  have hmmr2 : (s.mmu.logRegister i a).mmr2=s.mmu.mmr2 := by
    unfold Kt11d.logRegister
    split_ifs <;> rfl
  refine ⟨h.logs.logRegister hn i ha,?_,hmmr2.trans h.mmr2,h.psw,h.be⟩
  intro j hj
  rw [h.logs.logged hn hi ha hj,h.r j hj,add_assoc,add_comm (s.mmu.logged j)]

theorem pswRest_setCc (s : State) (cc : Cc) : pswRest (s.setCc cc).psw=pswRest s.psw := by
  ext i hi
  by_cases h4 : 4 ≤ i
  · have hbit := setCc_bit s.psw cc h4
    simp only [pswRest,State.setCc,getElem_and]
    rw [← getLsbD_eq_getElem,hbit,getLsbD_eq_getElem]
  · interval_cases i <;> simp [pswRest]

theorem Accounts.setCc (h : Accounts pc psw r n s) (cc : Cc) : Accounts pc psw r n (s.setCc cc) :=
  h.congr (fun _ _ => rfl) rfl (pswRest_setCc s cc) h.be

theorem Accounts.checkStack (h : Accounts pc psw r n s) (ba : Word) : Accounts pc psw r n (s.checkStack ba) :=
  h.congr (fun _ _ => rfl) rfl rfl h.be

theorem accounts_dati (b : Bool) : KeepsOr (Accounts pc psw r n) (Backs pc psw r) (dati bus b) := by
  apply keepsOr_dati
  intro s x t hs hr
  refine ⟨?_,?_⟩
  · intro hx
    obtain ⟨⟨⟩,rfl⟩ := Option.ne_none_iff_exists'.mp hx
    obtain ⟨hreg,hm,hp,hb⟩ := hr.made
    exact hs.congr (fun i _ => congrFun hreg i) hm (congrArg pswRest hp) hb
  · rintro rfl
    exact hs.missed hr.missed

theorem accounts_dato (b : Bool) : Spec (Accounts pc psw r n) (dato bus b) (fun _ _ => True) (Backs pc psw r) := by
  intro s hs
  have hd := dato_stores bus b s
  refine ⟨fun _ _ _ => trivial,?_⟩
  intro t ht
  rw [ht] at hd
  exact hs.missed hd.missed

theorem accounts_inPrevious {m : M Unit} {Q : Unit → State → Prop}
    (hm : Spec (Accounts pc psw r n) m Q (Backs pc psw r)) (hq : ∀ s,Q () s → Q () s.spaceRestore) :
    Spec (Accounts pc psw r n) (inPrevious m) Q (Backs pc psw r) := by
  refine spec_then (Q := Accounts pc psw r n) (fun s hs => hs.congr (fun _ _ => rfl) rfl rfl hs.be) ?_
  have hrestore (s : State) (hs : Backs pc psw r s) : Backs pc psw r s.spaceRestore :=
    hs.congr rfl ⟨rfl,rfl⟩ rfl rfl
  apply spec_bind (spec_onFailure State.spaceRestore hm hrestore)
  intro _
  exact spec_change _ fun s hs => hq s hs

end

end QUniLator.Cpu34
