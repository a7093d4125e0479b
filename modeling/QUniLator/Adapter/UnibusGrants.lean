import QUniLator.Adapter.UnibusArbitration

namespace QUniLator.Adapter.Unibus

open Bool (false_eq_true not_eq_true)
open BitVec (eq_of_getLsbD_eq getLsbD_and getLsbD_not getLsbD_of_ge getLsbD_or)

namespace Pru

variable {s t u : Pru} {i : Lines}

theorem mask_zero (k : Nat) : (0 : Mask).getLsbD k=false := BitVec.getLsbD_zero

theorem and_eq_zero {a b : Mask} : a &&& b=0 ↔ ∀ k,a.getLsbD k → b.getLsbD k=false := by
  constructor
  · intro h k ha
    have hk : (a &&& b).getLsbD k=false := by
      rw [h]
      exact mask_zero k
    rw [getLsbD_and,ha,Bool.true_and] at hk
    exact hk
  · intro h
    refine eq_of_getLsbD_eq fun k _ => ?_
    rw [getLsbD_and]
    cases ha : a.getLsbD k with
    | false => exact (mask_zero k).symm
    | true =>
      rw [h k ha]
      exact (mask_zero k).symm

theorem OneLine.mono {a b : Mask} (h : OneLine b) (hab : ∀ k,a.getLsbD k → b.getLsbD k) : OneLine a :=
  fun j k hj hk => h j k (hab j hj) (hab k hk)

theorem OneLine.zero : OneLine 0 := fun j _ hj => by simp at hj

/-- With a physical CPU what is passed on is what was; with an emulated one nothing is taken; SACK stands for a
grant that waits for the bus. -/
structure Inv (s : Pru) : Prop where
  right : s.Right
  forwarded : s.emulateCpu=false → s.deviceForwardedGrantMask=s.passed ∧ s.grantOut=s.passed
  emulated : s.emulateCpu=true → s.waitGrantMask=0 ∧ s.answered=0
  waits : s.waitGrantMask≠0 → s.sack=true
  seen : ∀ r,s.seen=some r → r.Proper

theorem Inv.start (emulateCpu : Bool) : (start emulateCpu).Inv where
  right := by
    have hand : (0 : Mask) &&& 0=0 := by decide
    have hor : (0 : Mask) ||| 0=0 := by decide
    refine ⟨hand,hand,fun _ => hor,⟨OneLine.zero,fun _ => rfl⟩,fun r hr => ?_⟩
    cases hr
  forwarded _ := ⟨rfl,rfl⟩
  emulated _ := ⟨rfl,rfl⟩
  waits h := (h rfl).elim
  seen r h := by cases h

/-- What neither grants nor requests are touched by -/
structure Same (s u : Pru) : Prop where
  emulateCpu : u.emulateCpu=s.emulateCpu
  forwarded : u.deviceForwardedGrantMask=s.deviceForwardedGrantMask
  grantOut : u.grantOut=s.grantOut
  grantIn : u.grantIn=s.grantIn
  passed : u.passed=s.passed
  answered : u.answered=s.answered

theorem Inv.same (h : s.Inv) (hs : Same s u)
    (hw : (u.waitGrantMask=s.waitGrantMask ∧ (s.waitGrantMask≠0 → u.sack=s.sack)) ∨ u.waitGrantMask=0)
    (hm : u.master≠.idle → s.master≠.idle ∨ u.waitGrantMask=0)
    (hseen : ∀ r,u.seen=some r → r.Proper) (hr : ∀ r∈u.rises,r.Proper) : u.Inv := by
  have hwait : u.waitGrantMask≠0 → u.waitGrantMask=s.waitGrantMask ∧ u.sack=s.sack := by
    intro hne
    rcases hw with ⟨hw,hsack⟩ | hw
    · exact ⟨hw,hsack (hw ▸ hne)⟩
    · exact (hne hw).elim
  constructor
  case right =>
    constructor
    case exclusive =>
      rw [hs.passed,hs.answered]
      exact h.right.exclusive
    case out =>
      rw [hs.grantOut,hs.answered]
      exact h.right.out
    case either =>
      intro he
      rw [hs.passed,hs.answered,hs.grantIn]
      exact h.right.either (hs.emulateCpu ▸ he)
    case one =>
      refine ⟨?_,fun hne => ?_⟩
      · rcases hw with ⟨hw,-⟩ | hw
        · rw [hw]
          exact h.right.one.1
        · rw [hw]
          exact OneLine.zero
      · rcases hm hne with hx | hx
        · rcases hw with ⟨hw,-⟩ | hw
          · rw [hw]
            exact h.right.one.2 hx
          · exact hw
        · exact hx
    case bbsy => exact hr
  case forwarded =>
    intro he
    rw [hs.forwarded,hs.passed,hs.grantOut]
    exact h.forwarded (hs.emulateCpu ▸ he)
  case emulated =>
    intro he
    obtain ⟨h1,h2⟩ := h.emulated (hs.emulateCpu ▸ he)
    refine ⟨?_,hs.answered.trans h2⟩
    rcases hw with ⟨hw,-⟩ | hw
    · exact hw.trans h1
    · exact hw
  case waits =>
    intro hne
    obtain ⟨h1,h2⟩ := hwait hne
    rw [h2]
    exact h.waits (h1 ▸ hne)
  case seen => exact hseen

theorem Inv.initSignal (h : s.Inv) (i : Lines) : (s.initSignal i).Inv := by
  unfold Pru.initSignal
  split
  · split
    · exact h.same (by constructor <;> rfl) (.inr rfl) (fun _ => .inr rfl) h.seen h.right.bbsy
    · exact h.same (by constructor <;> rfl) (.inl ⟨rfl,fun _ => rfl⟩) (fun hx => .inl hx) h.seen h.right.bbsy
  · exact h

theorem Inv.command (h : s.Inv) (c : Command) : (s.command c).Inv := by
  have hplain {v : Pru} (hs : Same s v) (hw : v.waitGrantMask=s.waitGrantMask) (hsack : v.sack=s.sack)
      (hm : v.master=s.master) (hseen : v.seen=s.seen) (hr : v.rises=s.rises) : v.Inv :=
    h.same hs (.inl ⟨hw,fun _ => hsack⟩) (fun hx => .inl (hm ▸ hx)) (hseen ▸ h.seen) (hr ▸ h.right.bbsy)
  cases c with
  | dma cpu n =>
    cases cpu with
    | true | false => exact hplain (by constructor <;> rfl) rfl rfl rfl rfl rfl
  | dmaCancel =>
    simp only [Pru.command]
    split
    · split
      · exact hplain (by constructor <;> rfl) rfl rfl rfl rfl rfl
      · split
        · exact h.same (by constructor <;> rfl) (.inr rfl) (fun _ => .inr rfl) h.seen h.right.bbsy
        · exact hplain (by constructor <;> rfl) rfl rfl rfl rfl rfl
    · exact h
  | intr level | intrCancel bits => exact hplain (by constructor <;> rfl) rfl rfl rfl rfl rfl
  | grantIntrRequests =>
    simp only [Pru.command]
    split
    · exact hplain (by constructor <;> rfl) rfl rfl rfl rfl rfl
    · exact h

theorem Inv.masterStep (h : s.Inv) (hm : s.master≠.idle) (i : Lines) : (s.masterStep i).Inv := by
  have hw : s.waitGrantMask=0 := h.right.one.2 hm
  have hstep {v : Pru} (hs : Same s v) (hv : v.waitGrantMask=s.waitGrantMask) (hseen : v.seen=s.seen)
      (hr : v.rises=s.rises) : v.Inv :=
    h.same hs (.inr (hv.trans hw)) (fun _ => .inr (hv.trans hw)) (hseen ▸ h.seen) (hr ▸ h.right.bbsy)
  have hrise {v : Pru} (hs : Same s v) (hv : v.waitGrantMask=s.waitGrantMask) (hseen : v.seen=none)
      (hr : v.rises=s.seen.toList++s.rises) : v.Inv := by
    refine h.same hs (.inr (hv.trans hw)) (fun _ => .inr (hv.trans hw)) (fun r hx => ?_) fun r hx => ?_
    · rw [hseen] at hx
      cases hx
    · rw [hr] at hx
      rcases List.mem_append.mp hx with hx | hx
      · exact h.seen r (Option.mem_toList.mp hx)
      · exact h.right.bbsy r hx
  unfold Pru.masterStep
  split
  · exact h
  · exact hrise (by constructor <;> rfl) rfl rfl rfl
  · split <;> exact hstep (by constructor <;> rfl) rfl rfl rfl
  · split
    · exact hstep (by constructor <;> rfl) rfl rfl rfl
    · split
      · exact hstep (by constructor <;> rfl) rfl rfl rfl
      · exact h
  · exact hstep (by constructor <;> rfl) rfl rfl rfl
  · dsimp only
    split
    · exact hstep (by constructor <;> rfl) rfl rfl rfl
    · split <;> exact hstep (by constructor <;> rfl) rfl rfl rfl
  · exact hrise (by constructor <;> rfl) rfl rfl rfl
  · exact hstep (by constructor <;> rfl) rfl rfl rfl
  · split
    all_goals
      split
      · exact hstep (by constructor <;> rfl) rfl rfl rfl
      · exact h

theorem Inv.cpuGrant (h : s.Inv) (hc : s.CpuGranted i) :
    (startMaster { s with cpuRequest := false,seen := some (s.look i 0 0) } bitNp).Inv := by
  have hw : s.waitGrantMask=0 := by
    by_contra hne
    have hsack := h.waits hne
    have hno := hc.1.2.2
    rw [hsack,Bool.or_true] at hno
    cases hno
  refine h.same (by constructor <;> rfl) (.inr hw) (fun _ => .inr hw) (fun r hr => ?_) h.right.bbsy
  cases hr
  exact .inr ⟨rfl,hc.1.2.2,hc.1.2.1,hc.1.1⟩

theorem Inv.startWaited (h : s.Inv) (hne : s.waitGrantMask≠0) {grants : Mask}
    (hg : ¬(grants &&& s.waitGrantMask≠0 ∨ (i.bbsy || s.bbsy) ∨ i.ssyn)) :
    (startMaster { s with waitGrantMask := 0,
                          seen := some (s.look i s.waitGrantMask (grants &&& s.waitGrantMask)) }
      s.waitGrantMask).Inv := by
  have hseen : (s.look i s.waitGrantMask (grants &&& s.waitGrantMask)).Proper := by
    refine .inl ⟨hne,?_,?_,?_⟩
    · by_contra hx
      exact hg (.inl hx)
    · show (if s.waitGrantMask=0 then i.cpuBbsy || s.bbsy else i.bbsy || s.bbsy)=false
      rw [if_neg hne]
      exact not_eq_true _ ▸ fun hx => hg (.inr (.inl hx))
    · exact not_eq_true _ ▸ fun hx => hg (.inr (.inr hx))
  have hall {v : Pru} (hs : Same s v) (hv : v.waitGrantMask=0)
      (hsn : v.seen=some (s.look i s.waitGrantMask (grants &&& s.waitGrantMask)))
      (hr : v.rises=s.rises) : v.Inv := by
    refine h.same hs (.inr hv) (fun _ => .inr hv) (fun r hx => ?_) (hr ▸ h.right.bbsy)
    rw [hsn] at hx
    cases hx
    exact hseen
  unfold startMaster
  split
  · exact hall (by constructor <;> rfl) rfl rfl rfl
  · split <;> exact hall (by constructor <;> rfl) rfl rfl rfl

/-- The grants that stand with a physical CPU, all but those for requests of ours passed on or answered -/
structure Stands (s : Pru) (grants : Mask) : Prop where
  forwarded : s.deviceForwardedGrantMask=s.passed
  out : s.grantOut=s.passed
  grantIn : s.grantIn=grants
  exclusive : s.passed &&& s.answered=0
  sub : ∀ k,s.passed.getLsbD k=true ∨ s.answered.getLsbD k=true → grants.getLsbD k=true

theorem Inv.stands (h : s.Inv) (he : s.emulateCpu=false)
    (hslow : s.answered &&& i.grants &&& ~~~s.deviceRequestSignalledMask=0) :
    (s.forward i).Stands i.grants ∧ ∀ k,i.grants.getLsbD k →
      (s.forward i).passed.getLsbD k=true ∨ (s.forward i).answered.getLsbD k ∨ (s.forUs i).getLsbD k=true := by
  have hf := (h.forwarded he).1
  have hex := and_eq_zero.mp h.right.exclusive
  have hsl := and_eq_zero.mp hslow
  have hpass : ∀ k,(s.forward i).passed.getLsbD k =
      (i.grants.getLsbD k && (!s.deviceRequestSignalledMask.getLsbD k || s.passed.getLsbD k)) := by
    intro k
    simp only [Pru.forward,he,false_eq_true,if_false,hf,getLsbD_and,getLsbD_or,getLsbD_not]
    by_cases hk : k<8
    · cases i.grants.getLsbD k <;> cases s.deviceRequestSignalledMask.getLsbD k <;>
        cases s.passed.getLsbD k <;> simp [hk]
    · rw [getLsbD_of_ge i.grants k (Nat.not_lt.mp hk)]
      simp
  have hfwd : ∀ k,(s.forward i).deviceForwardedGrantMask.getLsbD k=(s.forward i).passed.getLsbD k := by
    intro k
    rw [hpass]
    simp only [Pru.forward,he,false_eq_true,if_false,hf,getLsbD_and,getLsbD_or,getLsbD_not]
    by_cases hk : k<8
    · simp [hk]
    · rw [getLsbD_of_ge i.grants k (Nat.not_lt.mp hk)]
      simp
  have heq : (s.forward i).deviceForwardedGrantMask=(s.forward i).passed :=
    eq_of_getLsbD_eq fun k _ => hfwd k
  have hans : ∀ k,(s.forward i).answered.getLsbD k=(s.answered.getLsbD k && i.grants.getLsbD k) := by
    intro k
    simp only [Pru.forward,he,false_eq_true,if_false,getLsbD_and]
  refine ⟨⟨heq,?_,?_,?_,?_⟩,?_⟩
  · rw [← heq]
    simp only [Pru.forward,he,false_eq_true,if_false]
  · simp only [Pru.forward,he,false_eq_true,if_false]
  · refine and_eq_zero.mpr fun k hk => ?_
    rw [hpass] at hk
    rw [hans]
    have hsk := hsl k
    have hek := hex k
    rw [getLsbD_and,getLsbD_not] at hsk
    have hlt : k<8 := by
      by_contra hge
      rw [getLsbD_of_ge i.grants k (Nat.not_lt.mp hge)] at hk
      cases hk
    cases hg : i.grants.getLsbD k <;> cases hs : s.deviceRequestSignalledMask.getLsbD k <;>
      cases hp : s.passed.getLsbD k <;> cases ha : s.answered.getLsbD k <;> simp_all
  · intro k hk
    rw [hpass,hans] at hk
    rcases hk with hk | hk
    · exact (Bool.and_eq_true_iff.mp hk).1
    · exact (Bool.and_eq_true_iff.mp hk).2
  · intro k hk
    have hlt : k<8 := by
      by_contra hge
      rw [getLsbD_of_ge i.grants k (Nat.not_lt.mp hge)] at hk
      cases hk
    rw [hpass,hans,hk]
    simp only [Pru.forUs,hf,getLsbD_and,getLsbD_not,hk,hlt,decide_true,Bool.true_and]
    cases s.deviceRequestSignalledMask.getLsbD k <;> cases s.passed.getLsbD k <;>
      cases s.answered.getLsbD k <;> simp

theorem Stands.inv {grants : Mask} (h : t.Stands grants) (ha : s.Inv) (he : t.emulateCpu=false)
    (hcover : ∀ k,grants.getLsbD k → t.passed.getLsbD k ∨ t.answered.getLsbD k)
    (hone : OneLine t.waitGrantMask ∧ (t.master≠.idle → t.waitGrantMask=0))
    (hw : t.waitGrantMask≠0 → t.sack) (hseen : t.seen=s.seen) (hr : t.rises=s.rises) : t.Inv where
  right :=
    { exclusive := h.exclusive
      out := h.out ▸ h.exclusive
      either := fun _ => by
        rw [h.grantIn]
        refine eq_of_getLsbD_eq fun k _ => ?_
        rw [getLsbD_or]
        cases hg : grants.getLsbD k with
        | true =>
          rcases hcover k hg with hk | hk
          · rw [hk,Bool.true_or]
          · rw [hk,Bool.or_true]
        | false =>
          have hno := mt (h.sub k) (by rw [hg]; decide)
          rw [not_or,not_eq_true,not_eq_true] at hno
          rw [hno.1,hno.2,Bool.or_false]
      one := hone
      bbsy := hr ▸ ha.right.bbsy }
  forwarded _ := ⟨h.forwarded,h.out⟩
  emulated hx := by
    rw [he] at hx
    cases hx
  waits := hw
  seen := hseen ▸ ha.seen

/-- What `workerDevice` does to the lines first -/
def driveRequests (s : Pru) : Pru :=
  { s with requestLines := s.deviceRequestMask,deviceRequestSignalledMask := s.deviceRequestMask }

theorem Stands.takeGrants {grants : Mask} (h : t.Stands grants) (ha : s.Inv) (he : t.emulateCpu=false)
    (hone : OneLine grants) (hw : t.waitGrantMask=0) (hm : t.master=.idle)
    (hcover : ∀ k,grants.getLsbD k → t.passed.getLsbD k ∨ t.answered.getLsbD k ∨ t.deviceRequestMask.getLsbD k=true)
    (hseen : t.seen=s.seen) (hr : t.rises=s.rises) : (t.takeGrants grants).Inv := by
  have hg : ∀ k,k<8 → (grants &&& t.deviceRequestMask &&& ~~~t.deviceForwardedGrantMask).getLsbD k =
      (grants.getLsbD k && t.deviceRequestMask.getLsbD k && !t.passed.getLsbD k) := by
    intro k hk
    rw [getLsbD_and,getLsbD_and,getLsbD_not,h.forwarded,decide_eq_true hk,Bool.true_and]
  have hlt {k : Nat} (hk : grants.getLsbD k=true) : k<8 := by
    by_contra hge
    rw [getLsbD_of_ge grants k (Nat.not_lt.mp hge)] at hk
    cases hk
  unfold Pru.takeGrants
  dsimp only
  by_cases h0 : grants &&& t.deviceRequestMask &&& ~~~t.deviceForwardedGrantMask=0
  · rw [if_pos h0]
    refine h.inv ha he (fun k hk => ?_) ⟨hw ▸ OneLine.zero,fun _ => hw⟩ (fun hx => (hx hw).elim) hseen hr
    have hk0 := hg k (hlt hk)
    rw [h0,mask_zero,hk] at hk0
    rcases hcover k hk with hx | hx | hx
    · exact .inl hx
    · exact .inr hx
    · rw [hx] at hk0
      refine .inl ?_
      cases hp : t.passed.getLsbD k with
      | true => rfl
      | false =>
        rw [hp] at hk0
        cases hk0
  · rw [if_neg h0]
    have hmem {k : Nat} (hk : (grants &&& t.deviceRequestMask &&& ~~~t.deviceForwardedGrantMask).getLsbD k=true) :
        grants.getLsbD k=true ∧ t.passed.getLsbD k=false := by
      have hk8 : k<8 := by
        by_contra hge
        rw [getLsbD_of_ge _ k (Nat.not_lt.mp hge)] at hk
        cases hk
      rw [hg k hk8,Bool.and_eq_true,Bool.and_eq_true,Bool.not_eq_true'] at hk
      exact ⟨hk.1.1,hk.2⟩
    have hst : Stands { t with
        requestLines := t.deviceRequestMask &&&
          ~~~(grants &&& t.deviceRequestMask &&& ~~~t.deviceForwardedGrantMask),
        sack := true,
        deviceRequestMask := t.deviceRequestMask &&&
          ~~~(grants &&& t.deviceRequestMask &&& ~~~t.deviceForwardedGrantMask),
        waitGrantMask := grants &&& t.deviceRequestMask &&& ~~~t.deviceForwardedGrantMask,
        answered := t.answered ||| (grants &&& t.deviceRequestMask &&& ~~~t.deviceForwardedGrantMask) }
        grants := by
      refine ⟨h.forwarded,h.out,h.grantIn,and_eq_zero.mpr fun k hk => ?_,fun k hk => ?_⟩
      · have hk' : t.passed.getLsbD k=true := hk
        rw [getLsbD_or,and_eq_zero.mp h.exclusive k hk',Bool.false_or]
        cases hx : (grants &&& t.deviceRequestMask &&& ~~~t.deviceForwardedGrantMask).getLsbD k with
        | false => rfl
        | true =>
          have hp := (hmem hx).2
          rw [hk'] at hp
          cases hp
      · rcases hk with hk | hk
        · exact h.sub k (.inl hk)
        · rw [getLsbD_or] at hk
          rcases Bool.or_eq_true_iff.mp hk with hk | hk
          · exact h.sub k (.inr hk)
          · exact (hmem hk).1
    refine hst.inv ha he (fun k hk => ?_) ⟨hone.mono fun k hk => (hmem hk).1,fun hx => (hx hm).elim⟩
      (fun _ => rfl) hseen hr
    show t.passed.getLsbD k=true ∨ (t.answered ||| _).getLsbD k=true
    rw [getLsbD_or,hg k (hlt hk),hk]
    rcases hcover k hk with hx | hx | hx
    · exact .inl hx
    · rw [hx]
      exact .inr rfl
    · cases hp : t.passed.getLsbD k with
      | true => exact .inl rfl
      | false =>
        rw [hx]
        exact .inr (Bool.or_true _)

theorem initSignal_same (i : Lines) : Same s (s.initSignal i) ∧
    (s.initSignal i).deviceRequestSignalledMask=s.deviceRequestSignalledMask ∧
    (s.initSignal i).master=s.master ∧ (s.initSignal i).seen=s.seen ∧
    (s.initSignal i).rises=s.rises ∧ (i.init=false → s.initSignal i=s) := by
  unfold Pru.initSignal
  split
  · rename_i hi
    have hno : i.init=false → ∀ {P : Prop},P := fun hx => by
      rw [hi] at hx
      cases hx
    split <;> exact ⟨by constructor <;> rfl,rfl,rfl,rfl,rfl,fun hx => hno hx⟩
  · exact ⟨by constructor <;> rfl,rfl,rfl,rfl,rfl,fun _ => rfl⟩

theorem Inv.physical (h : s.Inv) (he : s.emulateCpu=false) (hm : s.master=.idle) (hc : s.Careful i) :
    (s.slave i).Inv := by
  obtain ⟨hone,hslow,hfor⟩ := (hc hm).1 he
  obtain ⟨hsame,hsig,hmaster,hseen,hrises,hid⟩ := s.initSignal_same i
  have ha := h.initSignal i
  have hae : (s.initSignal i).emulateCpu=false := hsame.emulateCpu.trans he
  obtain ⟨hst,hcover⟩ := ha.stands (i := i) hae (by rw [hsame.answered,hsig]; exact hslow)
  have hforUs : (s.initSignal i).forUs i=s.forUs i := by
    unfold forUs
    rw [hsig,hsame.forwarded,hsame.answered]
  rw [hforUs] at hcover
  have hbe : ((s.initSignal i).forward i).emulateCpu=false := by
    simp only [Pru.forward,hae,false_eq_true,if_false]
  have hbw : ((s.initSignal i).forward i).waitGrantMask=(s.initSignal i).waitGrantMask := by
    simp only [Pru.forward,hae,false_eq_true,if_false]
  have hbs : ((s.initSignal i).forward i).sack=(s.initSignal i).sack := by
    simp only [Pru.forward,hae,false_eq_true,if_false]
  have hbm : ((s.initSignal i).forward i).master=.idle := by
    simp only [Pru.forward,hae,false_eq_true,if_false,hmaster,hm]
  have hbseen : ((s.initSignal i).forward i).seen=(s.initSignal i).seen := by
    simp only [Pru.forward,hae,false_eq_true,if_false]
  have hbr : ((s.initSignal i).forward i).rises=(s.initSignal i).rises := by
    simp only [Pru.forward,hae,false_eq_true,if_false]
  have hbq : ((s.initSignal i).forward i).deviceRequestMask=(s.initSignal i).deviceRequestMask := by
    simp only [Pru.forward,hae,false_eq_true,if_false]
  -- when no grant is for us, all are passed on or answered before the worker
  have hinv : s.forUs i=0 → ((s.initSignal i).forward i).Inv := by
    intro h0
    refine hst.inv ha hbe (fun k hk => ?_) ⟨?_,fun hx => (hx hbm).elim⟩ ?_ hbseen hbr
    · rcases hcover k hk with hx | hx | hx
      · exact .inl hx
      · exact .inr hx
      · rw [h0,mask_zero] at hx
        cases hx
    · rw [hbw]
      exact ha.right.one.1
    · rw [hbw,hbs]
      exact ha.waits
  unfold slave
  dsimp only
  rw [hbe]
  split
  · rename_i hacked
    simp only [false_eq_true,if_false]
    unfold workerDevice
    dsimp only
    by_cases hcpu : ((s.initSignal i).forward i).cpuRequest=true ∧ ((s.initSignal i).forward i).CpuGranted i
    · rw [if_pos hcpu]
      by_cases h0 : s.forUs i=0
      · exact (hinv h0).cpuGrant hcpu.2
      · obtain ⟨-,hinit,-,hno,-⟩ := hfor.resolve_left h0
        refine (hno ?_).elim
        have hx := hcpu
        simp only [hid hinit] at hx
        simpa only [CpuGranted,Pru.forward,he,false_eq_true,if_false] using hx
    · rw [if_neg hcpu]
      by_cases hw : ((s.initSignal i).forward i).waitGrantMask=0
      · rw [if_pos hw]
        have hstart (v : Pru) : v.startMaster 0=v := by
          unfold startMaster
          rw [if_neg (by decide),if_neg (by decide)]
        rw [hstart]
        refine Stands.takeGrants (s := s.initSignal i) ⟨hst.forwarded,hst.out,hst.grantIn,hst.exclusive,hst.sub⟩ ha hbe
          hone hw hbm (fun k hk => ?_) hbseen hbr
        rcases hcover k hk with hx | hx | hx
        · exact .inl hx
        · exact .inr (.inl hx)
        · have hne : s.forUs i≠0 := fun h0 => by
            rw [h0,mask_zero] at hx
            cases hx
          obtain ⟨-,hinit,-,-,hreq⟩ := hfor.resolve_left hne
          have hk' := and_eq_zero.mp hreq k hx
          refine .inr (.inr ?_)
          show ((s.initSignal i).forward i).deviceRequestMask.getLsbD k=true
          rw [hbq,hid hinit]
          have hlt : k<8 := by
            by_contra hge
            rw [getLsbD_of_ge i.grants k (Nat.not_lt.mp hge)] at hk
            cases hk
          rw [getLsbD_not,decide_eq_true hlt,Bool.true_and] at hk'
          simpa using hk'
      · rw [if_neg hw]
        have h0 : s.forUs i=0 := by
          by_contra hne
          obtain ⟨-,hinit,hwait,-,-⟩ := hfor.resolve_left hne
          refine hw ?_
          rw [hbw,hid hinit]
          exact hwait
        have hb := hinv h0
        have hd : (driveRequests ((s.initSignal i).forward i)).Inv :=
          hb.same (by constructor <;> rfl) (.inl ⟨rfl,fun _ => rfl⟩) (fun hx => .inl hx) hb.seen hb.right.bbsy
        have hstart (v : Pru) : v.startMaster 0=v := by
          unfold startMaster
          rw [if_neg (by decide),if_neg (by decide)]
        split
        · rw [hstart]
          exact hd
        · rename_i hg
          exact hd.startWaited hw hg
  · rename_i hacked
    refine hinv ?_
    by_contra hne
    exact hacked (hfor.resolve_left hne).1

theorem log2_and_intr (m : Mask) : (m &&& intrMask).toNat.log2<4 := by
  have hle : (m &&& intrMask).toNat<2^4 := by
    rw [BitVec.toNat_and]
    exact Nat.lt_of_le_of_lt Nat.and_le_right (by decide)
  by_cases h0 : (m &&& intrMask).toNat=0
  · rw [h0]
    decide
  · exact (Nat.log2_lt h0).mpr hle

theorem levelBit_and {k : Nat} (hk : k<4) {m : Mask} (hm : m &&& intrMask=0) : levelBit k &&& m=0 := by
  have hbit : ∀ k,k<4 → ∀ j,(levelBit k).getLsbD j=true → intrMask.getLsbD j=true := by
    intro k hk j hj
    have hj8 : j<8 := by
      by_contra hge
      rw [getLsbD_of_ge _ j (Nat.not_lt.mp hge)] at hj
      cases hj
    revert hj
    have hall : ∀ k : Fin 4,∀ j : Fin 8,(levelBit k).getLsbD j=true → intrMask.getLsbD j=true := by decide
    exact hall ⟨k,hk⟩ ⟨j,hj8⟩
  refine and_eq_zero.mpr fun j hj => ?_
  cases hx : m.getLsbD j with
  | false => rfl
  | true =>
    have hno := and_eq_zero.mp hm j hx
    rw [hbit k hk j hj] at hno
    cases hno

theorem arbitrate_and (i : Lines)
    (h : i.arbSack=false → s.sack=false → s.arbitratorGrantMask &&& s.deviceRequestMask=0 ∧
      s.deviceRequestMask &&& bitNp=0 ∧ (s.arbitrationPending → s.deviceRequestMask &&& intrMask=0)) :
    s.arbitrate i &&& s.deviceRequestMask=0 := by
  have hzero (m : Mask) : 0 &&& m=0 := and_eq_zero.mpr fun k hk => by
    rw [mask_zero] at hk
    cases hk
  unfold arbitrate
  dsimp only
  by_cases hsack : (i.arbSack || s.sack)=true
  · rw [if_pos hsack]
    exact hzero _
  · rw [if_neg hsack]
    rw [Bool.or_eq_true,not_or,not_eq_true,not_eq_true] at hsack
    obtain ⟨hgiven,hnp,hintr⟩ := h hsack.1 hsack.2
    split
    · split
      · rw [BitVec.and_comm]
        exact hnp
      · exact hgiven
    · split
      · rename_i hpend
        split
        · refine levelBit_and ?_ (hintr hpend.1)
          unfold level
          rw [Nat.add_sub_cancel]
          exact log2_and_intr _
        · exact hgiven
      · split
        · exact hzero _
        · exact hgiven

theorem Inv.emulates (h : s.Inv) (he : s.emulateCpu) (hm : s.master=.idle) (hc : s.Careful i) : (s.slave i).Inv := by
  have hcare := (hc hm).2 he
  obtain ⟨hsame,-,hmaster,-,-,hid⟩ := s.initSignal_same i
  have ha := h.initSignal i
  have hae : (s.initSignal i).emulateCpu=true := hsame.emulateCpu.trans he
  have hfwd : (s.initSignal i).forward i=s.initSignal i := by
    unfold Pru.forward
    rw [if_pos hae]
  obtain ⟨haw,hans⟩ := ha.emulated hae
  have hzero (m : Mask) : m &&& 0=0 := and_eq_zero.mpr fun k _ => mask_zero k
  have hand : (s.initSignal i).arbitrate i &&& (s.initSignal i).deviceRequestMask=0 := by
    by_cases hi : i.init=true
    · have hq : (s.initSignal i).deviceRequestMask=0 := by
        unfold Pru.initSignal
        rw [if_pos hi]
        split <;> rfl
      rw [hq]
      exact hzero _
    · rw [hid (not_eq_true _ ▸ hi)]
      exact arbitrate_and i (hcare (not_eq_true _ ▸ hi))
  unfold slave
  dsimp only
  rw [hfwd,hae]
  split
  · simp only [if_true]
    have ht : ((s.initSignal i).workerCpu i).Inv := by
      have hno : (s.initSignal i).answered &&& (s.initSignal i).arbitrate i=0 := by
        rw [hans,BitVec.and_comm]
        exact hzero _
      constructor
      case right =>
        refine ⟨?_,?_,fun hx => ?_,ha.right.one,ha.right.bbsy⟩
        · show _ &&& ((s.initSignal i).answered &&& (s.initSignal i).arbitrate i)=0
          rw [hno]
          exact hzero _
        · show _ &&& ((s.initSignal i).answered &&& (s.initSignal i).arbitrate i)=0
          rw [hno]
          exact hzero _
        · rw [show ((s.initSignal i).workerCpu i).emulateCpu=true from hae] at hx
          cases hx
      case forwarded =>
        intro hx
        rw [show ((s.initSignal i).workerCpu i).emulateCpu=true from hae] at hx
        cases hx
      case emulated => exact fun _ => ⟨haw,hno⟩
      case waits => exact ha.waits
      case seen => exact ha.seen
    unfold workerDevice
    dsimp only
    split
    · rename_i hcpu
      exact ht.cpuGrant hcpu.2
    · rw [if_pos (show ((s.initSignal i).workerCpu i).waitGrantMask=0 from haw)]
      have hnone : (((s.initSignal i).workerCpu i).arbitratorGrantMask &&&
          ((s.initSignal i).workerCpu i).deviceRequestMask &&&
          ~~~((s.initSignal i).workerCpu i).deviceForwardedGrantMask)=0 := by
        rw [show ((s.initSignal i).workerCpu i).arbitratorGrantMask &&&
          ((s.initSignal i).workerCpu i).deviceRequestMask=0 from hand,BitVec.and_comm]
        exact hzero _
      have hd : (driveRequests ((s.initSignal i).workerCpu i)).Inv :=
        ht.same (by constructor <;> rfl) (.inl ⟨rfl,fun _ => rfl⟩) (fun hx => .inl hx) ht.seen ht.right.bbsy
      unfold Pru.takeGrants startMaster
      dsimp only
      rw [if_pos hnone,if_neg (by decide),if_neg (by decide)]
      exact hd
  · exact ha

theorem Inv.pass (h : s.Inv) (hc : s.Careful i) (c : Option Command) : (s.pass i c).Inv := by
  have ht : (if s.master=.idle then s.slave i else s.masterStep i).Inv := by
    by_cases hm : s.master=.idle
    · rw [if_pos hm]
      cases he : s.emulateCpu with
      | false => exact h.physical he hm hc
      | true => exact h.emulates he hm hc
    · rw [if_neg hm]
      exact h.masterStep hm i
  unfold Pru.pass
  cases c with
  | none => exact ht
  | some c => exact ht.command c

/-- In every run whose passes are careful the grants are right. -/
theorem grants_right {emulateCpu : Bool} {as : List (Lines × Option Command)}
    (h : Run (Guarded (fun s a => s.Careful a.1) fun s a => some (s.pass a.1 a.2)) (start emulateCpu) as s) :
    s.Right := by
  refine (h.invariant (P := Inv) (fun a i b ha hs => ?_) (Inv.start emulateCpu)).right
  obtain ⟨hc,hb⟩ := hs
  obtain rfl := Option.some.inj hb
  exact ha.pass hc i.2

/-- A quiet bus with the grants `grants`, and BBSY of another master -/
def quiet (grants : Mask) (bbsy : Bool) : Lines :=
  ⟨grants,false,true,0,false,0,false,0,false,false,bbsy,false,false,false,true⟩

def requestIntr : List (Lines × Option Command) := [(quiet 0 false,some (.intr 0)),(quiet 0 false,none)]

theorem grants_right_intr : ∃ s : Pru,s.Right ∧ s.bbsy ∧ s.rises=[⟨1,0,0,true,false,false⟩] := by
  obtain ⟨s,hs,hp⟩ := run_of_foldlM (fun (s : Pru) (a : Lines × Option Command) => s.Careful a.1)
    (fun s a => some (s.pass a.1 a.2))
    (fun s => decide (s.bbsy=true ∧ s.rises=[⟨1,0,0,true,false,false⟩]))
    (requestIntr++[(quiet 1 true,none),(quiet 1 true,none),(quiet 0 true,none),(quiet 0 false,none),
      (quiet 0 false,none)]) (start false) (by decide)
  exact ⟨s,grants_right hs,of_decide_eq_true hp⟩

/-- The arbitrator takes three passes to remove the grant: it is answered with SACK and passed on. -/
theorem grants_doubled : ∃ s : Pru, Run (fun s a t => some (Pru.pass s a.1 a.2)=some t) (start false)
      (requestIntr++[(quiet 1 false,none),(quiet 1 false,none),(quiet 1 false,none)]) s ∧
    s.sack=true ∧ s.waitGrantMask=1 ∧ s.grantOut=1 ∧ ¬s.Right := by
  obtain ⟨s,hs,hp⟩ := run_of_foldlM (fun _ _ => True) (fun (s : Pru) a => some (s.pass a.1 a.2))
    (fun s => decide (s.sack=true ∧ s.waitGrantMask=1 ∧ s.grantOut=1 ∧ s.answered=1))
    (requestIntr++[(quiet 1 false,none),(quiet 1 false,none),(quiet 1 false,none)]) (start false) (by decide)
  obtain ⟨hsack,hw,hout,ha⟩ := of_decide_eq_true hp
  refine ⟨s,hs.mono fun _ _ _ hx => hx.2,hsack,hw,hout,fun hr => ?_⟩
  have hno := hr.out
  rw [hout,ha] at hno
  exact absurd hno (by decide)

end Pru

end QUniLator.Adapter.Unibus
