import QUniLator.Adapter.Interrupts
import QUniLator.Adapter.Mastership

namespace QUniLator.Adapter

open BitVec Function

theorem levelBit_getLsbD (level m : Fin 4) : (levelBit level).getLsbD m=decide (level=m) := by
  revert level m; decide

theorem intrMask_getLsbD (level : Fin 4) : intrMask.getLsbD level=true := by
  revert level; decide

theorem bitNp_getLsbD (level : Fin 4) : bitNp.getLsbD level=false := by
  revert level; decide

theorem bit2idx_levelBit (level : Fin 4) : bit2idx (levelBit level)=level := by
  revert level; decide

theorem levelBit_not_np (level : Fin 4) : levelBit level &&& ~~~bitNp=levelBit level := by
  revert level; decide

theorem oneLine_cases {g : Mask} (h : OneLine g) : g &&& intrMask=0 ∨ ∃ level : Fin 4,g=levelBit level := by
  simp only [OneLine,List.mem_cons,List.not_mem_nil,or_false] at h
  obtain rfl | rfl | rfl | rfl | rfl | rfl := h
  · exact .inl (by decide)
  · exact .inr ⟨0,by decide⟩
  · exact .inr ⟨1,by decide⟩
  · exact .inr ⟨2,by decide⟩
  · exact .inr ⟨3,by decide⟩
  · exact .inl (by decide)

theorem levelBit_and (level : Fin 4) (m : Mask) :
    levelBit level &&& m=if m.getLsbD level then levelBit level else 0 := by
  have h : levelBit level=BitVec.twoPow 8 level := by revert level; decide
  rw [h,twoPow_and]
  rfl

theorem grant_levelBit {g m : Mask} (hg : OneLine g) (h : g &&& m &&& intrMask≠0) :
    ∃ level : Fin 4,g &&& m=levelBit level ∧ m.getLsbD level=true := by
  obtain hz | ⟨level,rfl⟩ := oneLine_cases hg
  · rw [BitVec.and_assoc,BitVec.and_comm m,← BitVec.and_assoc,hz] at h
    simp at h
  · rw [levelBit_and] at h ⊢
    cases hm : m.getLsbD level with
    | true => exact ⟨level,by rw [if_pos rfl],hm⟩
    | false => rw [hm] at h; simp at h

namespace SmArb

theorem grantCheck_accepts (i : ArbLines) (s : SmArb) (hs : s.state=.grantCheck)
    (hg : OneLine i.grants) : (s.grantCheck i).state=.intrVector ∧ (∃ level : Fin 4,
      (s.grantCheck i).deviceGrantMask=levelBit level ∧ s.deviceRequestMask.getLsbD level) ∨
    (s.grantCheck i).state=.grantCheck ∨ (s.grantCheck i).state=.dmaGrantRplySyncWait ∨
      (s.grantCheck i).state=.orphanVector := by
  obtain ⟨_,_,_,hh⟩ := s.holdoff_eq i
  obtain ⟨r,p,hr⟩ := setRegisters_eq [0,1,2,3] (s.holdoff i).commit.driveRequests
  have hst : ([0,1,2,3].foldl setRegister (s.holdoff i).commit.driveRequests).state =
      .grantCheck := by
    rw [hr,hh]; exact hs
  have hq : ([0,1,2,3].foldl setRegister (s.holdoff i).commit.driveRequests).deviceRequestMask =
      s.deviceRequestMask := by
    rw [hr,hh]; rfl
  simp only [SmArb.grantCheck]
  generalize [0,1,2,3].foldl setRegister (s.holdoff i).commit.driveRequests=t at hst hq
  by_cases hi : (t.takeGrants i).deviceGrantMask &&& intrMask=0
  · refine .inr ?_
    rw [answerGrants,if_neg (not_not.mpr hi)]
    simp only [rescue]
    split_ifs
    · exact .inr (.inl rfl)
    · exact .inr (.inr rfl)
    · exact .inl hst
    · exact .inr (.inr rfl)
    · exact .inl hst
  · refine .inl ?_
    rw [answerGrants,if_pos hi]
    refine ⟨rfl,?_⟩
    have hm : ∃ m : Mask,(t.takeGrants i).deviceGrantMask=i.grants &&& m ∧
        ∀ level : Fin 4,m.getLsbD level=true → t.deviceRequestMask.getLsbD level=true := by
      rw [takeGrants]
      by_cases hc : t.dmrCommitted=true
      · refine ⟨t.deviceRequestMask &&& ~~~t.deviceForwardedGrantMask,?_,fun level hl => ?_⟩
        · simp only [hc,if_true,BitVec.and_assoc]
        · rw [getLsbD_and,Bool.and_eq_true] at hl
          exact hl.1
      · refine ⟨t.deviceRequestMask &&& ~~~t.deviceForwardedGrantMask &&& ~~~bitNp,?_,
          fun level hl => ?_⟩
        · simp only [hc,Bool.false_eq_true,if_false,BitVec.and_assoc]
        · rw [getLsbD_and,getLsbD_and,Bool.and_eq_true,Bool.and_eq_true] at hl
          exact hl.1.1
    obtain ⟨m,he,hreq⟩ := hm
    rw [he] at hi
    obtain ⟨level,hl,hml⟩ := grant_levelBit hg hi
    exact ⟨level,he.trans hl,hq ▸ hreq level hml⟩

/-- The states of the arbitration name levels. -/
structure Orderly (s : SmArb) : Prop where
  notNoop : s.state≠.noop
  accepted : s.state=.intrVector → ∃ level : Fin 4,s.deviceGrantMask=levelBit level
  ending : s.state=.intrComplete → ∃ level : Fin 4,s.intrLevelIndex=level

/-- What a pass of the arbitration does to the interrupt of a level. -/
inductive LevelPass (i : ArbLines) (level : Fin 4) (s t : SmArb) : Prop
  | kept (hv : t.Vectoring level ↔ s.Vectoring level) (he : t.Ending level ↔ s.Ending level)
    (hr : t.requests level=s.requests level) (hm : t.intrMaster level=s.intrMaster level)
    (hd : ¬(s.Vectoring level ∧ i.riaki ∧ i.din)) (hc : ¬(s.Ending level ∧ ¬i.riaki))
  | accepted (hs : s.state=.grantCheck) (hv : t.Vectoring level) (hr : t.requests level=true)
    (hq : s.requests level=true) (hm : t.intrMaster level=s.intrMaster level)
  | abandoned (hs : s.Vectoring level) (hi : ¬i.riaki) (ht : t.state=.grantCheck)
    (hr : t.requests level=s.requests level) (hm : t.intrMaster level=s.intrMaster level)
  | driven (hs : s.Vectoring level) (hi : i.riaki ∧ i.din) (he : t.Ending level)
    (hr : t.requests level=false) (hm : t.intrMaster level=s.intrMaster level)
  | ended (hs : s.Ending level) (hi : ¬i.riaki) (ht : t.state=.grantCheck)
    (hr : t.requests level=s.requests level)
    (hm : t.intrMaster level=(s.intrMaster level).signal)

variable {i : ArbLines} {s t : SmArb} {level : Fin 4}

theorem LevelPass.of_idle (hs : s.state≠.intrVector ∧ s.state≠.intrComplete)
    (ht : t.state≠.intrVector ∧ t.state≠.intrComplete) (hr : t.requests level=s.requests level)
    (hm : t.intrMaster level=s.intrMaster level) : LevelPass i level s t :=
  .kept ⟨fun h => absurd h.1 ht.1,fun h => absurd h.1 hs.1⟩
    ⟨fun h => absurd h.1 ht.2,fun h => absurd h.1 hs.2⟩ hr hm (fun h => hs.1 h.1.1)
    fun h => hs.2 h.1.1

theorem requests_clear_np (s : SmArb) (level : Fin 4) :
    (s.deviceRequestMask &&& ~~~bitNp).getLsbD level=s.deviceRequestMask.getLsbD level := by
  have hlt : (level : Nat)<8 := by omega
  rw [getLsbD_and,getLsbD_not,bitNp_getLsbD]
  simp [hlt]

theorem grantCheck_pass (hs : s.state=.grantCheck) (hg : OneLine i.grants) :
    LevelPass i level s (s.grantCheck i) := by
  obtain ⟨_,_,_,_,_,_,hc⟩ := s.grantCheck_eq i
  obtain ⟨_,_,_,hh⟩ := s.holdoff_eq i
  have hq : (s.grantCheck i).requests level=s.requests level := by
    rw [hc,hh]; rfl
  have hm : (s.grantCheck i).intrMaster level=s.intrMaster level := by
    rw [hc,hh]; rfl
  have hidle : s.state≠.intrVector ∧ s.state≠.intrComplete := by rw [hs]; decide
  obtain ⟨hst,m,hgm,hreq⟩ | hst := s.grantCheck_accepts i hs hg
  · by_cases hl : level=m
    · subst hl
      exact .accepted hs ⟨hst,by rw [hgm,levelBit_getLsbD]; simp⟩ (hq.trans hreq) hreq hm
    · have hno : ¬(s.grantCheck i).Vectoring level := by
        rintro ⟨-,hb⟩
        rw [hgm,levelBit_getLsbD,decide_eq_true_eq] at hb
        exact hl hb.symm
      refine .kept ⟨fun h => absurd h hno,fun h => absurd h.1 hidle.1⟩
        ⟨fun h => ?_,fun h => absurd h.1 hidle.2⟩ hq hm (fun h => hidle.1 h.1.1)
        fun h => hidle.2 h.1.1
      rw [Ending,hst] at h
      cases h.1
  · refine .of_idle hidle ?_ hq hm
    obtain hst | hst | hst := hst <;> rw [hst] <;> decide

theorem dmaGrantWait_pass (hs : s.state=.dmaGrantRplySyncWait) : LevelPass i level s (s.dmaGrantWait i).1 := by
  have hidle : s.state≠.intrVector ∧ s.state≠.intrComplete := by rw [hs]; decide
  rw [dmaGrantWait]
  split_ifs
  · exact .of_idle hidle hidle rfl rfl
  · exact .of_idle hidle ⟨by rintro ⟨⟩,by rintro ⟨⟩⟩ (s.requests_clear_np level) rfl
  · exact .of_idle hidle ⟨by rintro ⟨⟩,by rintro ⟨⟩⟩ rfl rfl

theorem intrVector_pass (vector : Nat → Word) (h : s.Orderly) (hs : s.state=.intrVector) :
    LevelPass i level s (s.intrVector i vector) := by
  obtain ⟨m,hm⟩ := h.accepted hs
  have hvec : s.Vectoring level ↔ level=m := by
    rw [Vectoring,hm,levelBit_getLsbD,decide_eq_true_eq]
    exact ⟨fun h => h.2.symm,fun h => ⟨hs,h.symm⟩⟩
  have hnend (t : SmArb) (ht : t.state≠.intrComplete) : ¬t.Ending level := fun h => ht h.1
  have hsend := hnend s (by rw [hs]; decide)
  by_cases hi : i.riaki=true
  case neg =>
    rw [SmArb.intrVector,if_pos hi]
    by_cases hl : level=m
    · exact .abandoned (hvec.mpr hl) hi rfl rfl rfl
    · refine .kept ⟨fun h => ?_,fun h => absurd (hvec.mp h) hl⟩
        ⟨fun h => ?_,fun h => absurd h hsend⟩ rfl rfl (fun h => hl (hvec.mp h.1))
        fun h => hsend h.1
      · cases h.1
      · cases h.1
  rw [SmArb.intrVector,if_neg (not_not.mpr hi)]
  by_cases hd : i.din=true
  case neg =>
    rw [if_pos hd]
    exact .kept Iff.rfl Iff.rfl rfl rfl (fun h => hd h.2.2) fun h => hsend h.1
  rw [if_neg (not_not.mpr hd)]
  by_cases hl : level=m
  · subst hl
    refine .driven (hvec.mpr rfl) ⟨hi,hd⟩ ⟨rfl,?_⟩ ?_ rfl
    · show bit2idx s.deviceGrantMask=level
      rw [hm,bit2idx_levelBit]
    · show (s.deviceRequestMask &&& ~~~s.deviceGrantMask).getLsbD level=false
      rw [hm,getLsbD_and,getLsbD_not,levelBit_getLsbD]
      simp
  · refine .kept ⟨fun h => ?_,fun h => absurd (hvec.mp h) hl⟩
      ⟨fun h => ?_,fun h => absurd h hsend⟩ ?_ rfl (fun h => hl (hvec.mp h.1)) fun h => hsend h.1
    · cases h.1
    · have hx : bit2idx s.deviceGrantMask=level := h.2
      rw [hm,bit2idx_levelBit] at hx
      exact absurd (Fin.ext hx.symm) hl
    · show (s.deviceRequestMask &&& ~~~s.deviceGrantMask).getLsbD level=s.requests level
      have hlt : (level : Nat)<8 := by omega
      rw [hm,getLsbD_and,getLsbD_not,levelBit_getLsbD]
      simp [hlt,Ne.symm hl,requests]

theorem intrComplete_pass (h : s.Orderly) (hs : s.state=.intrComplete) :
    LevelPass i level s (s.intrComplete i).1 := by
  obtain ⟨m,hm⟩ := h.ending hs
  have hend : s.Ending level ↔ level=m := by
    rw [Ending,hm]
    exact ⟨fun h => Fin.ext h.2.symm,fun h => ⟨hs,by rw [h]⟩⟩
  have hsvec : ¬s.Vectoring level := by
    rintro ⟨hv,-⟩
    rw [hs] at hv
    cases hv
  rw [SmArb.intrComplete]
  by_cases hi : i.riaki=true
  · rw [if_pos hi]
    exact .kept Iff.rfl Iff.rfl rfl rfl (fun h => hsvec h.1) fun h => h.2 hi
  rw [if_neg hi]
  by_cases hl : level=m
  · subst hl
    refine .ended (hend.mpr rfl) hi rfl rfl ?_
    show update s.intrMaster s.intrLevelIndex _ (level : Nat)=_
    rw [hm,update_self]
  · refine .kept ⟨fun h => ?_,fun h => absurd h hsvec⟩ ⟨fun h => ?_,fun h => absurd (hend.mp h) hl⟩
      rfl ?_ (fun h => hsvec h.1) fun h => hl (hend.mp h.1)
    · cases h.1
    · cases h.1
    · show update s.intrMaster s.intrLevelIndex _ (level : Nat)=_
      rw [hm,update_of_ne fun hx => hl (Fin.ext hx)]

theorem workerDevice_pass (h : s.Orderly) (hg : OneLine i.grants) (vector : Nat → Word) :
    LevelPass i level s (s.workerDevice i vector).1 := by
  rw [workerDevice]
  cases hs : s.state with
  | grantCheck => exact grantCheck_pass hs hg
  | dmaGrantRplySyncWait => exact dmaGrantWait_pass hs
  | intrVector => exact intrVector_pass vector h hs
  | intrComplete => exact intrComplete_pass h hs
  | orphanVector =>
    have hidle : s.state≠.intrVector ∧ s.state≠.intrComplete := by rw [hs]; decide
    simp only [orphanVector]
    split_ifs
    · exact .of_idle hidle ⟨by rintro ⟨⟩,by rintro ⟨⟩⟩ rfl rfl
    · exact .of_idle hidle hidle rfl rfl
    · exact .of_idle hidle ⟨by rintro ⟨⟩,by rintro ⟨⟩⟩ rfl rfl
  | orphanComplete =>
    have hidle : s.state≠.intrVector ∧ s.state≠.intrComplete := by rw [hs]; decide
    simp only [orphanComplete]
    split_ifs
    · exact .of_idle hidle hidle rfl rfl
    · exact .of_idle hidle ⟨by rintro ⟨⟩,by rintro ⟨⟩⟩ rfl rfl
  | noop => exact absurd hs h.notNoop

theorem Orderly.workerDevice (h : s.Orderly) (hg : OneLine i.grants) (vector : Nat → Word) :
    (s.workerDevice i vector).1.Orderly := by
  rw [SmArb.workerDevice]
  cases hs : s.state with
  | grantCheck =>
    obtain ⟨hst,m,hgm,-⟩ | hst := s.grantCheck_accepts i hs hg
    · refine ⟨?_,fun _ => ⟨m,hgm⟩,fun hn => ?_⟩
      · show (s.grantCheck i).state≠_
        rw [hst]; decide
      · have hn : (s.grantCheck i).state=_ := hn
        rw [hst] at hn; cases hn
    · refine ⟨?_,fun hn => ?_,fun hn => ?_⟩
      · show (s.grantCheck i).state≠_
        obtain hst | hst | hst := hst <;> rw [hst] <;> decide
      all_goals
        have hn : (s.grantCheck i).state=_ := hn
        obtain hst | hst | hst := hst <;> rw [hst] at hn <;> cases hn
  | dmaGrantRplySyncWait =>
    simp only [dmaGrantWait]
    split_ifs
    · exact h
    all_goals exact ⟨by rintro ⟨⟩,by rintro ⟨⟩,by rintro ⟨⟩⟩
  | intrVector =>
    obtain ⟨m,hm⟩ := h.accepted hs
    simp only [SmArb.intrVector]
    split_ifs
    · exact ⟨by rintro ⟨⟩,by rintro ⟨⟩,fun _ => ⟨m,by rw [hm,bit2idx_levelBit]⟩⟩
    · exact h
    · exact ⟨by rintro ⟨⟩,by rintro ⟨⟩,by rintro ⟨⟩⟩
  | intrComplete =>
    simp only [SmArb.intrComplete]
    split_ifs
    · exact h
    · exact ⟨by rintro ⟨⟩,by rintro ⟨⟩,by rintro ⟨⟩⟩
  | orphanVector =>
    simp only [SmArb.orphanVector]
    split_ifs
    · exact ⟨by rintro ⟨⟩,by rintro ⟨⟩,by rintro ⟨⟩⟩
    · exact h
    · exact ⟨by rintro ⟨⟩,by rintro ⟨⟩,by rintro ⟨⟩⟩
  | orphanComplete =>
    simp only [SmArb.orphanComplete]
    split_ifs
    · exact h
    · exact ⟨by rintro ⟨⟩,by rintro ⟨⟩,by rintro ⟨⟩⟩
  | noop => exact absurd hs h.notNoop

end SmArb

namespace Pru

def Clears (i : PassLines) (p : Pru) : Prop := p.data.func=none ∧ i.init

/-- What a pass of the main loop does to the interrupt of a level. -/
inductive LevelPass (i : PassLines) (level : Fin 4) (p q : Pru) : Prop
  | kept (hv : q.arb.Vectoring level ↔ p.arb.Vectoring level)
    (he : q.arb.Ending level ↔ p.arb.Ending level)
    (hr : q.arb.requests level=true → p.arb.requests level=true)
    (hl : p.arb.requests level=true → q.arb.requests level=true ∨ p.Clears i)
    (hm : q.arb.intrMaster level=p.arb.intrMaster level)
    (hd : ¬(p.Answers i ∧ p.arb.Vectoring level)) (hc : ¬(p.Completes i ∧ p.arb.Ending level))
  | accepted (hs : p.arb.state=.grantCheck) (hv : q.arb.Vectoring level)
    (hq : p.arb.requests level=true) (hr : q.arb.requests level=true)
    (hm : q.arb.intrMaster level=p.arb.intrMaster level)
  | abandoned (hs : p.arb.Vectoring level) (hi : ¬p.Answers i) (ht : q.arb.state=.grantCheck)
    (hr : q.arb.requests level=true → p.arb.requests level=true)
    (hl : p.arb.requests level=true → q.arb.requests level=true ∨ p.Clears i)
    (hm : q.arb.intrMaster level=p.arb.intrMaster level)
  | driven (hs : p.arb.Vectoring level) (hi : p.Answers i) (he : q.arb.Ending level)
    (hr : q.arb.requests level=false) (hm : q.arb.intrMaster level=p.arb.intrMaster level)
  | ended (hs : p.arb.Ending level) (hi : p.Completes i) (ht : q.arb.state=.grantCheck)
    (hr : q.arb.requests level=true → p.arb.requests level=true)
    (hm : q.arb.intrMaster level=(p.arb.intrMaster level).signal)

variable {i : PassLines} {p : Pru} {level : Fin 4}

def found (i : PassLines) (p : Pru) : SmArb :=
  ({ p.arb with deviceRequestMask := if i.init then 0 else p.arb.deviceRequestMask } :
    SmArb).forwardGrants i.arb

theorem initialization_arb (i : PassLines) (p : Pru) : (p.initialization i).arb =
      { p.arb with deviceRequestMask := if i.init then 0 else p.arb.deviceRequestMask } ∧
    (p.initialization i).intr=p.intr := by
  simp only [initialization]
  cases hi : i.init <;> cases hs : p.initState <;> simp only [Bool.false_eq_true,if_true,if_false]
  · rw [hs]
    exact ⟨rfl,rfl⟩
  · rw [hs]
    simp only
    split_ifs <;> exact ⟨rfl,rfl⟩
  · trivial
  · split_ifs <;> exact ⟨rfl,rfl⟩

theorem slavePass_arb (i : PassLines) (p : Pru) : (p.slavePass i).arb=(if i.deviceregisterAcked then
      ((found i p).workerDevice i.arb p.intr.vector).1 else found i p) ∧
    (p.slavePass i).intr=p.intr ∧ (p.slavePass i).initEvent=(p.initialization i).initEvent := by
  obtain ⟨ha,hv⟩ := p.initialization_arb i
  have hfound : (p.initialization i).arb.forwardGrants i.arb=found i p := by rw [ha]; rfl
  simp only [slavePass,hfound]
  cases i.deviceregisterAcked with
  | true =>
    simp only [if_true,arbitrate,hv]
    split_ifs
    all_goals exact ⟨rfl,rfl,rfl⟩
  | false => exact ⟨rfl,hv,rfl⟩

theorem found_requests (i : PassLines) (p : Pru) (level : Fin 4) :
    (found i p).requests level=(!i.init && p.arb.requests level) := by
  show (if i.init then 0 else p.arb.deviceRequestMask).getLsbD level=_
  cases i.init with
  | true => exact getLsbD_zero
  | false => rfl

theorem loop_pass (h : p.arb.Orderly) (hg : OneLine i.arb.grants) (level : Fin 4) :
    LevelPass i level p (p.loop i) := by
  rw [loop]
  by_cases hf : p.data.func=none
  case neg =>
    rw [if_neg hf]
    have harb : (p.masterPass i).arb.Vectoring level=p.arb.Vectoring level ∧
        (p.masterPass i).arb.Ending level=p.arb.Ending level ∧
        (p.masterPass i).arb.requests level=p.arb.requests level ∧
        (p.masterPass i).arb.intrMaster=p.arb.intrMaster := by
      simp only [masterPass]
      split_ifs <;> exact ⟨rfl,rfl,rfl,rfl⟩
    obtain ⟨hv,he,hr,hm⟩ := harb
    exact .kept (by rw [hv]) (by rw [he]) (fun hq => hr ▸ hq) (fun hq => .inl (hr ▸ hq))
      (by rw [hm]) (fun hd => hf hd.1.1) fun hc => hf hc.1.1
  rw [if_pos hf]
  obtain ⟨harb,-,-⟩ := p.slavePass_arb i
  have hfound : (found i p).Orderly := ⟨h.notNoop,h.accepted,h.ending⟩
  have hdown : (found i p).requests level=true → p.arb.requests level=true := by
    rw [found_requests,Bool.and_eq_true]
    exact And.right
  have hup : p.arb.requests level=true →
      (found i p).requests level=true ∨ p.Clears i := by
    intro hq
    rw [found_requests,hq]
    cases hi : i.init with
    | true => exact .inr ⟨hf,hi⟩
    | false => exact .inl rfl
  cases hack : i.deviceregisterAcked with
  | false =>
    rw [hack] at harb
    have hno : ¬p.Answers i ∧ ¬p.Completes i := by simp [Answers,Completes,hack]
    rw [if_neg (by decide)] at harb
    refine .kept (by rw [harb]; rfl) (by rw [harb]; rfl) (fun hq => hdown (harb ▸ hq))
      (fun hq => harb.symm ▸ hup hq) (by rw [harb]; rfl) (fun hd => hno.1 hd.1)
      fun hc => hno.2 hc.1
  | true =>
    rw [hack,if_pos rfl] at harb
    have hans : p.Answers i ↔ i.arb.riaki ∧ i.arb.din := by simp [Answers,hf,hack]
    have hcom : p.Completes i ↔ ¬i.arb.riaki := by simp [Completes,hf,hack]
    have hw : SmArb.LevelPass i.arb level (found i p) ((found i p).workerDevice i.arb p.intr.vector).1 :=
      SmArb.workerDevice_pass hfound hg p.intr.vector
    rw [← harb] at hw
    cases hw with
    | kept hv he hr hm hd hc =>
      exact .kept hv he (fun hq => hdown (hr ▸ hq)) (fun hq => hr.symm ▸ hup hq) hm
        (fun h => hd ⟨h.2,hans.mp h.1⟩) fun h => hc ⟨h.2,hcom.mp h.1⟩
    | accepted hs hv hr hq hm => exact .accepted hs hv (hdown hq) hr hm
    | abandoned hs hi ht hr hm =>
      exact .abandoned hs (fun ha => hi (hans.mp ha).1) ht (fun hq => hdown (hr ▸ hq))
        (fun hq => hr.symm ▸ hup hq) hm
    | driven hs hi he hr hm => exact .driven hs (hans.mpr hi) he hr hm
    | ended hs hi ht hr hm =>
      exact .ended hs (hcom.mpr hi) ht (fun hq => hdown (hr ▸ hq)) hm

theorem loop_orderly (h : p.arb.Orderly) (hg : OneLine i.arb.grants) :
    (p.loop i).arb.Orderly ∧ (p.loop i).intr=p.intr := by
  rw [loop]
  by_cases hf : p.data.func=none
  · rw [if_pos hf]
    obtain ⟨harb,hv,-⟩ := p.slavePass_arb i
    have hfound : (found i p).Orderly := ⟨h.notNoop,h.accepted,h.ending⟩
    rw [harb]
    refine ⟨?_,hv⟩
    split_ifs
    · exact hfound.workerDevice hg _
    · exact hfound
  · rw [if_neg hf]
    refine ⟨?_,rfl⟩
    simp only [masterPass]
    split_ifs
    · exact ⟨h.notNoop,h.accepted,h.ending⟩
    · exact h

theorem loop_initEvent (h : ¬p.Clears i) : (p.loop i).initEvent=p.initEvent := by
  rw [loop]
  by_cases hf : p.data.func=none
  · have hi : i.init=false := by
      cases hi : i.init with
      | true => exact absurd ⟨hf,hi⟩ h
      | false => rfl
    rw [if_pos hf,(p.slavePass_arb i).2.2]
    simp only [initialization,hi,Bool.false_eq_true,if_false]
    cases p.initState with
    | idle => rfl
    | initAsserted =>
      simp only
      split_ifs <;> rfl
  · rw [if_neg hf]; rfl

end Pru

end QUniLator.Adapter
