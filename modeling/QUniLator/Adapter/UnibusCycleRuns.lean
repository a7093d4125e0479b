import QUniLator.Adapter.UnibusCycles
import QUniLator.Adapter.UnibusGrants

namespace QUniLator.Adapter.Unibus

open Bool (and_eq_true eq_false_iff or_eq_true)
open BitVec (getLsbD_and getLsbD_of_ge getLsbD_or)

open List

theorem wordAddr_zero (startaddr : Addr) : wordAddr startaddr 0=startaddr := by
  unfold wordAddr
  exact BitVec.add_zero startaddr

theorem wordAddr_succ (startaddr : Addr) (k : Nat) : wordAddr startaddr k+2=wordAddr startaddr (k+1) := by
  unfold wordAddr
  rw [Nat.mul_succ,BitVec.ofNat_add,BitVec.add_assoc]
  rfl

theorem Transferred.nil (startaddr : Addr) (words : List Word) : Transferred startaddr words 0 [] :=
  ⟨rfl,fun k hk => absurd hk (Nat.not_lt_zero k)⟩

theorem Transferred.snoc {startaddr : Addr} {words words' : List Word} {n : Nat} {cycles : List WordCycle}
    (h : Transferred startaddr words n cycles) (hw : ∀ k<n,words'.getD k 0=words.getD k 0) (overlay : Addr) :
    Transferred startaddr words' (n+1)
      (cycles++[.word overlay (onLines (wordAddr startaddr n ||| overlay)) (words'.getD n 0)]) := by
  refine ⟨by rw [length_append,h.1]; rfl,fun k hk => ?_⟩
  rcases Nat.lt_succ_iff_lt_or_eq.mp hk with hk | rfl
  · obtain ⟨o,ho⟩ := h.2 k hk
    exact ⟨o,by rw [List.getElem?_append_left (h.1 ▸ hk),ho,hw k hk]⟩
  · exact ⟨overlay,by rw [List.getElem?_append_right (Nat.le_of_eq h.1),h.1,Nat.sub_self]; rfl⟩

theorem Transferred.congr {startaddr : Addr} {words words' : List Word} {n : Nat} {cycles : List WordCycle}
    (h : Transferred startaddr words n cycles) (hw : ∀ k<n,words'.getD k 0=words.getD k 0) :
    Transferred startaddr words' n cycles := by
  refine ⟨h.1,fun k hk => ?_⟩
  obtain ⟨o,ho⟩ := h.2 k hk
  exact ⟨o,by rw [ho,hw k hk]⟩

/-- Only requests that there are wait; SACK is theirs; and a DMA is requested in one place. -/
structure Requests (p : Pru) : Prop where
  bits : ∀ k,5≤k → p.deviceRequestMask.getLsbD k=false ∧ p.waitGrantMask.getLsbD k=false
  waits : p.waitGrantMask≠0 → p.sack=true ∧ p.master=.idle
  sack : p.sack=true → p.waitGrantMask≠0 ∨ p.master≠.idle
  pending : p.cpuRequest=true ∨ p.deviceRequestMask.getLsbD 4=true ∨ p.waitGrantMask.getLsbD 4=true ∨
    p.master=.dmaStart → p.status=.arbitrating
  cpu : p.cpuRequest=true → p.deviceRequestMask.getLsbD 4=false ∧ p.waitGrantMask.getLsbD 4=false ∧
    p.master≠.dmaStart
  np : p.deviceRequestMask.getLsbD 4=true → p.waitGrantMask.getLsbD 4=false ∧ p.master≠.dmaStart
  access : p.cpuRequest=true → p.cpuAccess=true
  device : p.deviceRequestMask.getLsbD 4=true ∨ p.waitGrantMask.getLsbD 4=true → p.cpuAccess=false

theorem np_getLsbD (k : Nat) : bitNp.getLsbD k=decide (k=4) := by
  have h8 : ∀ k<8,bitNp.getLsbD k=decide (k=4) := by decide
  by_cases hk : k<8
  · exact h8 k hk
  · rw [getLsbD_of_ge _ _ (Nat.le_of_not_lt hk),decide_eq_false (by omega)]

theorem intr_getLsbD (k : Nat) : intrMask.getLsbD k=decide (k<4) := by
  have h8 : ∀ k<8,intrMask.getLsbD k=decide (k<4) := by decide
  by_cases hk : k<8
  · exact h8 k hk
  · rw [getLsbD_of_ge _ _ (Nat.le_of_not_lt hk),decide_eq_false (by omega)]

theorem and_np {m : Mask} : m &&& bitNp≠0 ↔ m.getLsbD 4=true := by
  constructor
  · intro h
    by_contra hno
    refine h (BitVec.eq_of_getLsbD_eq fun k hk => ?_)
    rw [getLsbD_and,np_getLsbD,Pru.mask_zero]
    by_cases hk4 : k=4
    · rw [hk4,eq_false_iff.mpr hno,Bool.false_and]
    · rw [decide_eq_false hk4,Bool.and_false]
  · intro h hz
    have hbit : (m &&& bitNp).getLsbD 4=false := by rw [hz]; rfl
    rw [getLsbD_and,h,np_getLsbD] at hbit
    cases hbit

theorem zero_bit (k : Nat) : ¬(0 : Mask).getLsbD k=true := by
  rw [Pru.mask_zero]
  decide

theorem request_kind {m : Mask} (hne : m≠0) (hbits : ∀ k,5≤k → m.getLsbD k=false)
    (hnp : m.getLsbD 4=false) : m &&& intrMask≠0 := by
  intro hz
  refine hne (BitVec.eq_of_getLsbD_eq fun k hk => ?_)
  rw [Pru.mask_zero]
  by_cases hk4 : k<4
  · have hbit : (m &&& intrMask).getLsbD k=false := by rw [hz]; exact Pru.mask_zero k
    rw [getLsbD_and,intr_getLsbD,decide_eq_true hk4,Bool.and_true] at hbit
    exact hbit
  · by_cases hk5 : k=4
    · rw [hk5]
      exact hnp
    · exact hbits k (by omega)

theorem Requests.start (emulateCpu : Bool) : Requests (.start emulateCpu) where
  bits k _ := ⟨Pru.mask_zero k,Pru.mask_zero k⟩
  waits h := absurd rfl h
  sack h := by cases h
  pending h := by
    rcases h with h | h | h | h
    · cases h
    · exact absurd h (zero_bit 4)
    · exact absurd h (zero_bit 4)
    · cases h
  cpu h := by cases h
  np h := absurd h (zero_bit 4)
  access h := by cases h
  device _ := rfl

variable {p q : Pru} {i : Lines}

/-- What is asked for and what has the bus is the same. -/
structure SameRequests (p q : Pru) : Prop where
  mask : q.deviceRequestMask=p.deviceRequestMask
  wait : q.waitGrantMask=p.waitGrantMask
  cpuRequest : q.cpuRequest=p.cpuRequest
  sack : q.sack=p.sack
  bbsy : q.bbsy=p.bbsy
  master : q.master=p.master
  status : q.status=p.status
  wordcount : q.wordcount=p.wordcount
  cpuAccess : q.cpuAccess=p.cpuAccess

theorem Requests.same (h : Requests p) (hs : SameRequests p q) : Requests q where
  bits k hk := by
    rw [hs.mask,hs.wait]
    exact h.bits k hk
  waits := by
    rw [hs.wait,hs.sack,hs.master]
    exact h.waits
  sack := by
    rw [hs.wait,hs.sack,hs.master]
    exact h.sack
  pending := by
    rw [hs.wait,hs.mask,hs.cpuRequest,hs.master,hs.status]
    exact h.pending
  cpu := by
    rw [hs.wait,hs.mask,hs.cpuRequest,hs.master]
    exact h.cpu
  np := by
    rw [hs.wait,hs.mask,hs.master]
    exact h.np
  access := by
    rw [hs.cpuRequest,hs.cpuAccess]
    exact h.access
  device := by
    rw [hs.wait,hs.mask,hs.cpuAccess]
    exact h.device

theorem forward_same (p : Pru) (i : Lines) : SameRequests p (p.forward i) := by
  unfold Pru.forward
  split <;> constructor <;> rfl

theorem workerCpu_same (p : Pru) (i : Lines) : SameRequests p (p.workerCpu i) := by
  constructor <;> rfl

theorem Requests.initSignal (h : Requests p) (i : Lines) : Requests (p.initSignal i) ∧
    (p.initSignal i).master=p.master ∧ (p.initSignal i).bbsy=p.bbsy ∧ (p.initSignal i).status=p.status ∧
    (p.initSignal i).wordcount=p.wordcount ∧ ((p.initSignal i).cpuRequest → p.cpuRequest) ∧
    ((p.initSignal i).deviceRequestMask.getLsbD 4 → p.deviceRequestMask.getLsbD 4) ∧
    ((p.initSignal i).waitGrantMask.getLsbD 4 → p.waitGrantMask.getLsbD 4) := by
  unfold Pru.initSignal
  by_cases hi : i.init=true
  · rw [if_pos hi]
    by_cases hw : p.waitGrantMask≠0
    · rw [if_pos hw]
      refine ⟨⟨fun k _ => ⟨Pru.mask_zero k,Pru.mask_zero k⟩,fun h => absurd rfl h,fun h => (by cases h),fun hp => ?_,
        fun hc => ⟨Pru.mask_zero 4,Pru.mask_zero 4,(h.cpu hc).2.2⟩,fun hn => absurd hn (zero_bit 4),h.access,
        fun hn => absurd hn (not_or.mpr ⟨zero_bit 4,zero_bit 4⟩)⟩,rfl,rfl,rfl,rfl,id,fun hn => absurd hn (zero_bit 4),
        fun hn => absurd hn (zero_bit 4)⟩
      rcases hp with hp | hp | hp | hp
      · exact h.pending (.inl hp)
      · exact absurd hp (zero_bit 4)
      · exact absurd hp (zero_bit 4)
      · exact h.pending (.inr (.inr (.inr hp)))
    · rw [if_neg hw]
      refine ⟨⟨fun k hk => ⟨Pru.mask_zero k,(h.bits k hk).2⟩,h.waits,h.sack,fun hp => ?_,
        fun hc => ⟨Pru.mask_zero 4,(h.cpu hc).2⟩,fun hn => absurd hn (zero_bit 4),h.access,
        fun hn => h.device (.inr (hn.resolve_left (zero_bit 4)))⟩,rfl,rfl,rfl,rfl,id,
        fun hn => absurd hn (zero_bit 4),id⟩
      rcases hp with hp | hp | hp
      · exact h.pending (.inl hp)
      · exact absurd hp (zero_bit 4)
      · exact h.pending (.inr (.inr hp))
  · rw [if_neg hi]
    exact ⟨h,rfl,rfl,rfl,rfl,id,id,id⟩

def Pru.signalled (p : Pru) : Pru :=
  { p with requestLines := p.deviceRequestMask,deviceRequestSignalledMask := p.deviceRequestMask }

theorem workerDevice_eq (p : Pru) (i : Lines) (grants : Mask) : p.workerDevice i grants =
    if p.cpuRequest ∧ p.CpuGranted i then ({ p with cpuRequest := false,seen := some (p.look i 0 0) },bitNp)
    else if p.waitGrantMask=0 then (p.signalled.takeGrants grants,0)
    else if grants &&& p.waitGrantMask≠0 ∨ (i.bbsy || p.bbsy) ∨ i.ssyn then (p.signalled,0)
    else
      ({ p.signalled with
          waitGrantMask := 0
          seen := some (p.signalled.look i p.waitGrantMask (grants &&& p.waitGrantMask)) },p.waitGrantMask) := rfl

theorem startMaster_np (p : Pru) : p.startMaster bitNp={ p with master := .dmaStart } := by
  unfold Pru.startMaster
  rw [if_pos (by decide)]

theorem startMaster_zero (p : Pru) : p.startMaster 0=p := by
  unfold Pru.startMaster
  rw [if_neg (by decide),if_neg (by decide)]

theorem Requests.cpuGrant (h : Requests p) (hq : p.cpuRequest) (hc : p.CpuGranted i) :
    Requests (Pru.startMaster { p with cpuRequest := false,seen := some (p.look i 0 0) } bitNp) := by
  have hsack : p.sack=false := by
    have hno := hc.1.2.2
    rw [Bool.or_eq_false_iff] at hno
    exact hno.2
  have hw : p.waitGrantMask=0 := by
    by_contra hne
    rw [(h.waits hne).1] at hsack
    cases hsack
  rw [startMaster_np]
  refine ⟨h.bits,fun hne => absurd hw hne,fun hs => ?_,fun _ => h.pending (.inl hq),fun hf => (by cases hf),
    fun hn => ?_,fun hf => (by cases hf),h.device⟩
  · rw [show p.sack=true from hs] at hsack
    cases hsack
  · have hno := (h.cpu hq).1
    rw [show p.deviceRequestMask.getLsbD 4=true from hn] at hno
    cases hno

theorem Requests.takeGrants (h : Requests p) (hm : p.master=.idle)
    (hlines : p.requestLines=p.deviceRequestMask) (grants : Mask) : Requests (p.takeGrants grants) ∧
    (p.takeGrants grants).master=.idle ∧ (p.takeGrants grants).bbsy=p.bbsy ∧
    (p.takeGrants grants).status=p.status ∧ (p.takeGrants grants).wordcount=p.wordcount ∧
    ((p.takeGrants grants).requestLines.getLsbD 4 → p.deviceRequestMask.getLsbD 4) := by
  unfold Pru.takeGrants
  obtain ⟨g,hg⟩ : ∃ g,grants &&& p.deviceRequestMask &&& ~~~p.deviceForwardedGrantMask=g := ⟨_,rfl⟩
  have hsub : ∀ k,g.getLsbD k=true → p.deviceRequestMask.getLsbD k=true := by
    intro k hk
    rw [← hg,getLsbD_and,getLsbD_and,and_eq_true,and_eq_true] at hk
    exact hk.1.2
  have hrest : ∀ k,(p.deviceRequestMask &&& ~~~g).getLsbD k=true →
      p.deviceRequestMask.getLsbD k=true ∧ g.getLsbD k=false := by
    intro k hk
    rw [getLsbD_and,and_eq_true,BitVec.getLsbD_not,and_eq_true] at hk
    exact ⟨hk.1,Bool.not_eq_true' _ ▸ hk.2.2⟩
  have hfalse : ∀ {b : Bool},(b=true → False) → b=false := fun hb => eq_false_iff.mpr hb
  dsimp only
  rw [hg]
  by_cases hz : g=0
  · rw [if_pos hz]
    refine ⟨h,hm,rfl,rfl,rfl,fun hn => ?_⟩
    rw [← hlines]
    exact hn
  · rw [if_neg hz]
    refine ⟨⟨fun k hk => ⟨?_,?_⟩,fun _ => ⟨rfl,hm⟩,fun _ => .inl hz,fun hp => ?_,fun hq => ?_,fun hn => ?_,h.access,
      fun hn => h.device (.inl (hn.elim (fun hn => (hrest 4 hn).1) (hsub 4)))⟩,hm,rfl,rfl,rfl,
      fun hn => (hrest 4 hn).1⟩
    · refine hfalse fun hb => ?_
      have := (hrest k hb).1
      rw [(h.bits k hk).1] at this
      cases this
    · refine hfalse fun hb => ?_
      have := hsub k hb
      rw [(h.bits k hk).1] at this
      cases this
    · rcases hp with hp | hp | hp | hp
      · exact h.pending (.inl hp)
      · exact h.pending (.inr (.inl (hrest 4 hp).1))
      · exact h.pending (.inr (.inl (hsub 4 hp)))
      · exact h.pending (.inr (.inr (.inr hp)))
    · obtain ⟨h1,-,h3⟩ := h.cpu hq
      refine ⟨hfalse fun hb => ?_,hfalse fun hb => ?_,h3⟩
      · rw [(hrest 4 hb).1] at h1
        cases h1
      · rw [hsub 4 hb] at h1
        cases h1
    · exact ⟨(hrest 4 hn).2,(h.np (hrest 4 hn).1).2⟩

theorem Requests.startWaited (h : Requests p) (hne : p.waitGrantMask≠0) (seen : Option Rise) :
    let t := Pru.startMaster { p with waitGrantMask := 0,seen := seen } p.waitGrantMask
    Requests t ∧ (t.master=.dmaStart ∧ p.waitGrantMask.getLsbD 4=true ∨ t.master=.intrStart) ∧
      t.bbsy=p.bbsy ∧ t.status=p.status ∧ t.wordcount=p.wordcount ∧ t.requestLines=p.requestLines := by
  dsimp only
  have hcpu : p.waitGrantMask.getLsbD 4=true → p.cpuRequest=false ∧ p.deviceRequestMask.getLsbD 4=false := by
    intro hw
    refine ⟨eq_false_iff.mpr fun hq => ?_,eq_false_iff.mpr fun hn => ?_⟩
    · have := (h.cpu hq).2.1
      rw [hw] at this
      cases this
    · have := (h.np hn).1
      rw [hw] at this
      cases this
  unfold Pru.startMaster
  by_cases hnp : p.waitGrantMask.getLsbD 4=true
  · rw [if_pos (and_np.mpr hnp)]
    obtain ⟨h1,h2⟩ := hcpu hnp
    refine ⟨⟨fun k hk => ⟨(h.bits k hk).1,Pru.mask_zero k⟩,fun hz => absurd rfl hz,
      fun _ => .inr (fun hx => (by cases hx)),
      fun _ => h.pending (.inr (.inr (.inl hnp))),fun hq => ?_,fun hn => ?_,h.access,
      fun _ => h.device (.inr hnp)⟩,.inl ⟨rfl,hnp⟩,rfl,rfl,rfl,rfl⟩
    · rw [show p.cpuRequest=true from hq] at h1
      cases h1
    · rw [show p.deviceRequestMask.getLsbD 4=true from hn] at h2
      cases h2
  · have hnp' : p.waitGrantMask.getLsbD 4=false := eq_false_iff.mpr hnp
    rw [if_neg (fun hx => hnp (and_np.mp hx)),if_pos (request_kind hne (fun k hk => (h.bits k hk).2) hnp')]
    refine ⟨⟨fun k hk => ⟨(h.bits k hk).1,Pru.mask_zero k⟩,fun hz => absurd rfl hz,
      fun _ => .inr (fun hx => (by cases hx)),
      fun hp => ?_,fun hq => ⟨(h.cpu hq).1,Pru.mask_zero 4,fun hx => (by cases hx)⟩,
      fun _ => ⟨Pru.mask_zero 4,fun hx => (by cases hx)⟩,h.access,
      fun hn => h.device (.inl (hn.resolve_right (zero_bit 4)))⟩,
      .inr rfl,rfl,rfl,rfl,rfl⟩
    rcases hp with hp | hp | hp | hp
    · exact h.pending (.inl hp)
    · exact h.pending (.inr (.inl hp))
    · exact absurd hp (zero_bit 4)
    · cases hp

/-- What the worker leaves: a request has the bus, or nothing is mastered. A DMA that is not asked for neither starts
nor is its request put on the bus. -/
structure Worked (p q : Pru) : Prop where
  requests : Requests q
  master : q.master=.idle ∨ q.master=.dmaStart ∨ q.master=.intrStart
  bbsy : q.bbsy=p.bbsy
  status : q.status=p.status
  wordcount : q.wordcount=p.wordcount
  dead : p.status≠.arbitrating → q.master≠.dmaStart ∧ q.requestLines.getLsbD 4=false

theorem Requests.workerDevice (h : Requests p) (hm : p.master=.idle) (i : Lines) (grants : Mask) :
    Worked p ((p.workerDevice i grants).1.startMaster (p.workerDevice i grants).2) := by
  have hdead : p.status≠.arbitrating → p.cpuRequest=false ∧ p.deviceRequestMask.getLsbD 4=false ∧
      p.waitGrantMask.getLsbD 4=false := by
    intro hs
    refine ⟨eq_false_iff.mpr fun hq => hs ?_,eq_false_iff.mpr fun hq => hs ?_,
      eq_false_iff.mpr fun hq => hs ?_⟩
    · exact h.pending (.inl hq)
    · exact h.pending (.inr (.inl hq))
    · exact h.pending (.inr (.inr (.inl hq)))
  rw [workerDevice_eq]
  by_cases hc : p.cpuRequest=true ∧ p.CpuGranted i
  · rw [if_pos hc]
    have hgrant := h.cpuGrant hc.1 hc.2
    dsimp only
    rw [startMaster_np] at hgrant ⊢
    refine ⟨hgrant,.inr (.inl rfl),rfl,rfl,rfl,fun hs => ?_⟩
    have hno := (hdead hs).1
    rw [hc.1] at hno
    cases hno
  · rw [if_neg hc]
    have hs : SameRequests p p.signalled := by constructor <;> rfl
    have hrt := h.same hs
    have hmt : p.signalled.master=.idle := hm
    by_cases hw : p.waitGrantMask=0
    · rw [if_pos hw]
      dsimp only
      rw [startMaster_zero]
      obtain ⟨h1,h2,h3,h4,h5,h6⟩ := hrt.takeGrants hmt rfl grants
      refine ⟨h1,.inl h2,h3.trans hs.bbsy,h4.trans hs.status,h5.trans hs.wordcount,fun hd => ⟨?_,?_⟩⟩
      · rw [h2]
        decide
      · refine eq_false_iff.mpr fun hn => ?_
        have hno := (hdead hd).2.1
        rw [show p.deviceRequestMask.getLsbD 4=true from h6 hn] at hno
        cases hno
    · rw [if_neg hw]
      have hkeep : p.status≠.arbitrating → p.signalled.requestLines.getLsbD 4=false :=
        fun hd => (hdead hd).2.1
      by_cases hbusy : grants &&& p.waitGrantMask≠0 ∨ (i.bbsy || p.bbsy)=true ∨ i.ssyn=true
      · rw [if_pos hbusy]
        dsimp only
        rw [startMaster_zero]
        refine ⟨hrt,.inl hmt,hs.bbsy,hs.status,hs.wordcount,fun hd => ⟨?_,hkeep hd⟩⟩
        rw [hmt]
        decide
      · rw [if_neg hbusy]
        dsimp only
        obtain ⟨h1,h2,h3,h4,h5,h6⟩ := hrt.startWaited (hs.wait ▸ hw)
          (some (p.signalled.look i p.waitGrantMask (grants &&& p.waitGrantMask)))
        rw [show p.signalled.waitGrantMask=p.waitGrantMask from rfl] at h1 h2 h3 h4 h5 h6
        refine ⟨h1,?_,h3.trans hs.bbsy,h4.trans hs.status,h5.trans hs.wordcount,fun hd => ⟨?_,?_⟩⟩
        · rcases h2 with h2 | h2
          · exact .inr (.inl h2.1)
          · exact .inr (.inr h2)
        · rcases h2 with h2 | h2
          · have hno := (hdead hd).2.2
            rw [h2.2] at hno
            cases hno
          · rw [h2]
            decide
        · rw [h6]
          exact hkeep hd

theorem Requests.slave (h : Requests p) (hm : p.master=.idle) (i : Lines) : Requests (p.slave i) ∧
    ((p.slave i).master=.idle ∨ (p.slave i).master=.dmaStart ∨ (p.slave i).master=.intrStart) ∧
    (p.slave i).bbsy=p.bbsy ∧ (p.slave i).status=p.status ∧ (p.slave i).wordcount=p.wordcount ∧
    (p.status≠.arbitrating → (p.slave i).master≠.dmaStart) ∧
    (p.status≠.arbitrating → i.acked → (p.slave i).requestLines.getLsbD 4=false) := by
  obtain ⟨h1,hm1,hb1,hs1,hw1,-⟩ := h.initSignal i
  have hf := forward_same (p.initSignal i) i
  have h2 := h1.same hf
  have hm2 : ((p.initSignal i).forward i).master=.idle := hf.master.trans (hm1.trans hm)
  unfold Pru.slave
  dsimp only
  by_cases ha : i.acked=true
  · rw [if_pos ha]
    have hworked : ∀ {t : Pru} (grants : Mask),SameRequests ((p.initSignal i).forward i) t →
        Worked t ((t.workerDevice i grants).1.startMaster (t.workerDevice i grants).2) ∧ t.bbsy=p.bbsy ∧
          t.status=p.status ∧ t.wordcount=p.wordcount := by
      intro t grants hs
      refine ⟨(h2.same hs).workerDevice (hs.master.trans hm2) i grants,?_,?_,?_⟩
      · exact hs.bbsy.trans (hf.bbsy.trans hb1)
      · exact hs.status.trans (hf.status.trans hs1)
      · exact hs.wordcount.trans (hf.wordcount.trans hw1)
    have hsame : SameRequests ((p.initSignal i).forward i)
        (if ((p.initSignal i).forward i).emulateCpu then ((p.initSignal i).forward i).workerCpu i
          else (p.initSignal i).forward i) := by
      split
      · exact workerCpu_same _ i
      · constructor <;> rfl
    obtain ⟨hw,hb,hst,hwc⟩ := hworked _ hsame
    refine ⟨hw.requests,hw.master,hw.bbsy.trans hb,hw.status.trans hst,hw.wordcount.trans hwc,fun hd => ?_,
      fun hd _ => ?_⟩
    · exact (hw.dead (hst ▸ hd)).1
    · exact (hw.dead (hst ▸ hd)).2
  · rw [if_neg ha]
    refine ⟨h2,.inl hm2,hf.bbsy.trans hb1,hf.status.trans hs1,hf.wordcount.trans hw1,fun _ => ?_,
      fun _ hx => absurd hx ha⟩
    rw [hm2]
    decide

theorem Requests.master (h : Requests p) (hm : p.master≠.idle)
    (hmask : q.deviceRequestMask=p.deviceRequestMask) (hwait : q.waitGrantMask=p.waitGrantMask)
    (hcpu : q.cpuRequest=p.cpuRequest) (haccess : q.cpuAccess=p.cpuAccess)
    (hsack : q.master=.idle → q.sack=false) (hq : q.master≠.dmaStart)
    (hstatus : p.master≠.dmaStart → p.status=.arbitrating → q.status=.arbitrating) : Requests q := by
  have hw : p.waitGrantMask=0 := by
    by_contra hne
    exact hm (h.waits hne).2
  refine ⟨fun k hk => ?_,fun hne => absurd (hwait.trans hw) hne,fun hs => .inr fun hi => ?_,fun hp => ?_,fun hc => ?_,
    fun hn => ?_,fun hc => ?_,fun hn => ?_⟩
  · rw [hmask,hwait]
    exact h.bits k hk
  · rw [hsack hi] at hs
    cases hs
  · rw [hmask,hwait,hcpu,hw] at hp
    have hkeep : p.master≠.dmaStart → p.cpuRequest=true ∨ p.deviceRequestMask.getLsbD 4=true →
        q.status=.arbitrating :=
      fun hne hp => hstatus hne (h.pending (hp.imp_right .inl))
    rcases hp with hp | hp | hp | hp
    · exact hkeep (h.cpu hp).2.2 (.inl hp)
    · exact hkeep (h.np hp).2 (.inr hp)
    · exact absurd hp (zero_bit 4)
    · exact absurd hp hq
  · rw [hcpu] at hc
    rw [hmask,hwait]
    exact ⟨(h.cpu hc).1,(h.cpu hc).2.1,hq⟩
  · rw [hmask] at hn
    rw [hwait]
    exact ⟨(h.np hn).1,hq⟩
  · rw [hcpu] at hc
    rw [haccess]
    exact h.access hc
  · rw [hmask,hwait] at hn
    rw [haccess]
    exact h.device hn

theorem Requests.none (h : Requests p) (hs : p.status≠.arbitrating) : p.cpuRequest=false ∧
    p.deviceRequestMask.getLsbD 4=false ∧ p.waitGrantMask.getLsbD 4=false ∧ p.master≠.dmaStart := by
  refine ⟨eq_false_iff.mpr fun hx => hs ?_,eq_false_iff.mpr fun hx => hs ?_,
    eq_false_iff.mpr fun hx => hs ?_,fun hx => hs ?_⟩
  · exact h.pending (.inl hx)
  · exact h.pending (.inr (.inl hx))
  · exact h.pending (.inr (.inr (.inl hx)))
  · exact h.pending (.inr (.inr (.inr hx)))

theorem levelBit_getLsbD (level : Fin 4) (k : Nat) : (levelBit level).getLsbD k=decide (k=level.val) := by
  have h8 : ∀ l : Fin 4,∀ k<8,(levelBit l).getLsbD k=decide (k=l.val) := by decide
  by_cases hk : k<8
  · exact h8 level k hk
  · rw [getLsbD_of_ge _ _ (Nat.le_of_not_lt hk),decide_eq_false (by omega)]

theorem Requests.intrMask (h : Requests p) {m : Mask} (hbits : ∀ k,4≤k → m.getLsbD k →
    p.deviceRequestMask.getLsbD k=true) : Requests { p with deviceRequestMask := m } := by
  refine ⟨fun k hk => ⟨eq_false_iff.mpr fun hx => ?_,(h.bits k hk).2⟩,h.waits,h.sack,fun hp => h.pending ?_,
    fun hq => ⟨eq_false_iff.mpr fun hx => ?_,(h.cpu hq).2⟩,fun hn => h.np (hbits 4 (Nat.le_refl 4) hn),
    h.access,fun hn => h.device (hn.imp_left (hbits 4 (Nat.le_refl 4)))⟩
  · have hno := (h.bits k hk).1
    rw [hbits k (Nat.le_of_succ_le hk) hx] at hno
    cases hno
  · exact hp.imp_right (Or.imp_left (hbits 4 (Nat.le_refl 4)))
  · have hno := (h.cpu hq).1
    rw [hbits 4 (Nat.le_refl 4) hx] at hno
    cases hno

theorem Requests.dma (h : Requests p) (hs : p.status≠.arbitrating) (cpu : Bool) (n : Nat) :
    Requests (p.command (.dma cpu n)) := by
  obtain ⟨h1,h2,h3,h4⟩ := h.none hs
  have hno : ∀ {b : Bool} {P : Prop},b=false → b=true → P := fun hf ht => absurd (hf.symm.trans ht) (by decide)
  cases cpu with
  | true =>
    exact ⟨h.bits,h.waits,h.sack,fun _ => rfl,fun _ => ⟨h2,h3,h4⟩,fun hn => hno h2 hn,fun _ => rfl,
      fun hn => hn.elim (hno h2) (hno h3)⟩
  | false =>
    refine ⟨fun k hk => ⟨?_,(h.bits k hk).2⟩,h.waits,h.sack,fun _ => rfl,fun hq => hno h1 hq,fun _ => ⟨h3,h4⟩,
      fun hq => hno h1 hq,fun _ => rfl⟩
    show (p.deviceRequestMask ||| bitNp).getLsbD k=false
    rw [getLsbD_or,(h.bits k hk).1,np_getLsbD,decide_eq_false (by omega)]
    rfl

theorem command_cancel (hc : p.master=.idle ∧ p.status=.arbitrating) : p.command .dmaCancel =
    if p.cpuAccess then { p with cpuRequest := false,status := .canceled } else if p.waitGrantMask &&& bitNp≠0 then
      { p with deviceRequestMask := p.deviceRequestMask &&& ~~~bitNp,waitGrantMask := 0,sack := false,
               status := .canceled }
    else { p with deviceRequestMask := p.deviceRequestMask &&& ~~~bitNp,status := .canceled } := if_pos hc

theorem Requests.dmaCancel (h : Requests p) (hc : p.master=.idle ∧ p.status=.arbitrating) :
    Requests (p.command .dmaCancel) ∧ (p.command .dmaCancel).master=p.master ∧
    (p.command .dmaCancel).bbsy=p.bbsy ∧ (p.command .dmaCancel).status=.canceled := by
  have hnp : ¬(p.deviceRequestMask &&& ~~~bitNp).getLsbD 4=true := by
    rw [getLsbD_and,BitVec.getLsbD_not,np_getLsbD]
    simp
  have hrest : ∀ k,5≤k → (p.deviceRequestMask &&& ~~~bitNp).getLsbD k=false := by
    intro k hk
    rw [getLsbD_and,(h.bits k hk).1,Bool.false_and]
  have hm : ∀ {P : Prop},p.master=.dmaStart → P := by
    intro P hx
    rw [hc.1] at hx
    cases hx
  rw [command_cancel hc]
  by_cases hcpu : p.cpuAccess=true
  · rw [if_pos hcpu]
    have hdev : ∀ {P : Prop},p.deviceRequestMask.getLsbD 4=true ∨ p.waitGrantMask.getLsbD 4=true → P := by
      intro P hx
      have hno := h.device hx
      rw [hcpu] at hno
      cases hno
    refine ⟨⟨h.bits,h.waits,h.sack,fun hp => ?_,fun hx => (by cases hx),fun hn => hdev (.inl hn),
      fun hx => (by cases hx),fun hn => hdev hn⟩,rfl,rfl,rfl⟩
    rcases hp with hp | hp | hp | hp
    · cases hp
    · exact hdev (.inl hp)
    · exact hdev (.inr hp)
    · exact hm hp
  · rw [if_neg hcpu]
    have hreq : ∀ {P : Prop},p.cpuRequest=true → P := fun hx => absurd (h.access hx) hcpu
    by_cases hw : p.waitGrantMask &&& bitNp≠0
    · rw [if_pos hw]
      refine ⟨⟨fun k hk => ⟨hrest k hk,Pru.mask_zero k⟩,fun hx => absurd rfl hx,fun hx => (by cases hx),fun hp => ?_,
        fun hx => hreq hx,fun hn => absurd hn hnp,fun hx => hreq hx,
        fun hn => absurd hn (not_or.mpr ⟨hnp,zero_bit 4⟩)⟩,rfl,rfl,rfl⟩
      rcases hp with hp | hp | hp | hp
      · exact hreq hp
      · exact absurd hp hnp
      · exact absurd hp (zero_bit 4)
      · exact hm hp
    · rw [if_neg hw]
      have hw' : ¬p.waitGrantMask.getLsbD 4=true := fun hx => hw (and_np.mpr hx)
      refine ⟨⟨fun k hk => ⟨hrest k hk,(h.bits k hk).2⟩,h.waits,h.sack,fun hp => ?_,fun hx => hreq hx,
        fun hn => absurd hn hnp,fun hx => hreq hx,fun hn => absurd hn (not_or.mpr ⟨hnp,hw'⟩)⟩,rfl,rfl,rfl⟩
      rcases hp with hp | hp | hp | hp
      · exact hreq hp
      · exact absurd hp hnp
      · exact absurd hp hw'
      · exact hm hp

namespace Card

variable {s t : Card} {b : BusLines}

def Still (d : Drive) : Prop := d.control=0 ∧ d.msyn=false ∧ d.ssyn=false ∧ d.data=0 ∧ d.intr=false

/-- A DMA that runs: what is left, where it is, and what the buffer is -/
structure Underway (s : Card) : Prop where
  status : s.pru.status=.running
  wordcount : s.pru.wordcount=s.block.length
  length : s.words.length=s.block.length
  written : s.buscycle.isDato=true → s.words=s.block
  left : s.dataptr+s.pru.wordsLeft=s.block.length
  more : 0<s.pru.wordsLeft
  addr : s.curAddr=wordAddr s.startaddr s.dataptr
  ssyn : s.drive.ssyn=false
  intr : s.drive.intr=false
  data : s.buscycle.isDato=false → s.drive.data=0

def Stage (s : Card) : Prop :=
  match s.pru.master with
  | .idle | .dmaStart | .intrStart => s.pru.bbsy=false ∧ Still s.drive
  | .dmaAddress => s.Underway ∧ Transferred s.startaddr s.words s.dataptr s.cycles ∧ s.drive.msyn=false
  | .dmaWait => s.Underway ∧ Transferred s.startaddr s.words s.dataptr s.cycles ∧
    (s.pru.wordsLeft=1 → s.pru.sack=false) ∧ s.drive.addr=onLines s.busAddr
  | .dmaNext => s.Underway ∧ Transferred s.startaddr s.words (s.dataptr+1) s.cycles ∧
    (s.pru.wordsLeft=1 → s.pru.sack=false) ∧ s.drive.msyn=false ∧ s.drive.data=0
  | .dmaStop => s.Underway ∧ (∃ cycles overlay,Transferred s.startaddr s.words s.dataptr cycles ∧
    s.cycles=cycles++[.silent overlay (onLines (s.curAddr ||| overlay))]) ∧ s.drive.msyn=false ∧
    s.drive.data=0
  | .intrVector => Still s.drive
  | .intrWait => s.pru.sack=false ∧ s.drive.control=0 ∧ s.drive.msyn=false ∧ s.drive.ssyn=false

structure Inv (s : Card) : Prop where
  requests : Requests s.pru
  asked : s.pru.status=.arbitrating → s.pru.wordcount=s.block.length ∧ s.words=s.block ∧ s.block≠[]
  stage : s.Stage

theorem start_inv (emulateCpu : Bool) : (start emulateCpu).Inv where
  requests := .start emulateCpu
  asked h := by cases h
  stage := ⟨rfl,rfl,rfl,rfl,rfl,rfl⟩

theorem slave_eq (s : Card) (b : BusLines) : ∃ vector levelIndex,
    s.slave b={ s with pru := s.pru.slave b.lines,vector := vector,levelIndex := levelIndex } := by
  unfold slave
  dsimp only
  split
  · exact ⟨_,_,rfl⟩
  · exact ⟨s.vector,s.levelIndex,rfl⟩

theorem Inv.slave (h : s.Inv) (hm : s.pru.master=.idle) (b : BusLines) : (s.slave b).Inv := by
  obtain ⟨vector,levelIndex,he⟩ := slave_eq s b
  obtain ⟨h1,h2,h3,h4,h5,-,-⟩ := h.requests.slave hm b.lines
  have hstage := h.stage
  unfold Stage at hstage
  rw [hm] at hstage
  rw [he]
  refine ⟨h1,fun hs => ?_,?_⟩
  · obtain ⟨ha,hb⟩ := h.asked (h4 ▸ hs)
    exact ⟨h5.trans ha,hb⟩
  · unfold Stage
    rcases h2 with h2 | h2 | h2
    · rw [show (s.pru.slave b.lines).master=.idle from h2]
      exact ⟨h3.trans hstage.1,hstage.2⟩
    · rw [show (s.pru.slave b.lines).master=.dmaStart from h2]
      exact ⟨h3.trans hstage.1,hstage.2⟩
    · rw [show (s.pru.slave b.lines).master=.intrStart from h2]
      exact ⟨h3.trans hstage.1,hstage.2⟩

def Outcome (s : Card) (b : BusLines) (t : Card) : Prop :=
  (t.pru.master≠.idle ∧ t.completions=s.completions) ∨
  (t.pru.master=.idle ∧
    t.drive={ Drive.released with addr := if s.pru.master=.intrWait then s.drive.addr else 0 } ∧
    t.pru.bbsy=false ∧ t.pru.sack=false ∧
    if s.pru.master=.intrWait then
      (b.lines.ssyn=true ∧ t.completions=s.completions++[.intr s.levelIndex]) ∨
      (b.lines.ssyn=false ∧ b.lines.init=true ∧ t.completions=s.completions)
    else
      ∃ x : DmaEnd,t.completions=s.completions++[.dma x] ∧ x.Right ∧
        x.status=t.pru.status ∧ x.startaddr=s.startaddr ∧ x.block=s.block ∧ x.cycles=t.cycles)

theorem masterStep_start {p : Pru} (hm : p.master=.dmaStart) (i : Lines) : p.masterStep i =
    { p.rise with wordsLeft := p.wordcount,status := .running,master := .dmaAddress } := by
  unfold Pru.masterStep
  rw [hm]

theorem Inv.dmaStart (h : s.Inv) (hm : s.pru.master=.dmaStart) (b : BusLines) :
    (s.master b).Inv ∧ s.Outcome b (s.master b) := by
  have hstage := h.stage
  unfold Stage at hstage
  rw [hm] at hstage
  obtain ⟨-,-,hmsyn,hssyn,hdata,hintr⟩ := hstage
  obtain ⟨hwc,hwords,hne⟩ := h.asked (h.requests.pending (.inr (.inr (.inr hm))))
  unfold Card.master stepPru
  rw [hm,masterStep_start hm]
  refine ⟨⟨h.requests.master (by rw [hm]; decide) rfl rfl rfl rfl (fun hx => (by cases hx)) (fun hx => (by cases hx))
    (fun hx => absurd hm hx),fun hx => (by cases hx),?_⟩,.inl ⟨fun hx => (by cases hx),rfl⟩⟩
  refine ⟨⟨rfl,hwc,by rw [hwords],fun _ => hwords,?_,?_,(wordAddr_zero _).symm,hssyn,hintr,fun _ => hdata⟩,
    .nil _ _,hmsyn⟩
  · exact (Nat.zero_add _).trans hwc
  · exact lt_of_lt_of_eq (length_pos_iff.mpr hne) hwc.symm

def wordsAfter (s : Card) (b : BusLines) : List Word :=
  if s.buscycle.isDato then s.words else s.words.set s.dataptr b.data

theorem wordDone_eq (s : Card) (b : BusLines) (drives : Bool) (c : WordCycle) : s.wordDone b drives c={ s with
      words := s.wordsAfter b
      cycles := s.cycles++[c]
      drive := { s.drive with msyn := false,data := if drives then 0 else s.drive.data } } := by
  unfold wordDone wordsAfter
  cases s.buscycle.isDato <;> rfl

theorem wordsAfter_length (s : Card) (b : BusLines) : (s.wordsAfter b).length=s.words.length := by
  unfold wordsAfter
  cases s.buscycle.isDato with
  | true => rfl
  | false => exact length_set

theorem wordsAfter_before (s : Card) (b : BusLines) : ∀ k<s.dataptr,(s.wordsAfter b).getD k 0=s.words.getD k 0 := by
  intro k hk
  unfold wordsAfter
  cases s.buscycle.isDato with
  | true => rfl
  | false =>
    show (s.words.set s.dataptr b.data).getD k 0=_
    rw [getD_eq_getElem?_getD,List.getElem?_set_ne (Nat.ne_of_gt hk),← getD_eq_getElem?_getD]

theorem wordsAfter_at (s : Card) (b : BusLines) (h : s.dataptr<s.words.length) :
    (s.wordsAfter b).getD s.dataptr 0=s.passed b := by
  unfold wordsAfter passed word
  cases s.buscycle.isDato with
  | true => rfl
  | false =>
    show (s.words.set s.dataptr b.data).getD s.dataptr 0=b.data
    rw [getD_eq_getElem?_getD,List.getElem?_set_self h]
    rfl

theorem Underway.lt (h : s.Underway) : s.dataptr<s.words.length := by
  have h1 := h.left
  have h2 := h.more
  rw [h.length]
  omega

theorem Underway.wordDone (h : s.Underway) (b : BusLines) (drives : Bool) (c : WordCycle) {sack : Bool} {m : Master} :
    Underway { s.wordDone b drives c with pru := { s.pru with sack := sack,master := m } } := by
  rw [wordDone_eq]
  refine ⟨h.status,h.wordcount,(wordsAfter_length s b).trans h.length,fun hw => ?_,h.left,h.more,h.addr,h.ssyn,h.intr,
    fun hr => ?_⟩
  · show s.wordsAfter b=s.block
    unfold wordsAfter
    rw [if_pos hw]
    exact h.written hw
  · show (if drives then 0 else s.drive.data)=0
    rw [h.data hr]
    exact ite_self 0

theorem Underway.place (h : s.Underway) (msyn : Bool) {sack : Bool} {m : Master} :
    Underway { s.place msyn with pru := { s.pru with sack := sack,master := m } } := by
  refine ⟨h.status,h.wordcount,h.length,h.written,h.left,h.more,h.addr,rfl,h.intr,fun hr => ?_⟩
  show (if s.buscycle.isDato then s.word else s.drive.data)=0
  have hr' : s.buscycle.isDato=false := hr
  rw [hr',if_neg (by decide)]
  exact h.data hr'

theorem masterStep_address {p : Pru} (hm : p.master=.dmaAddress) (hs : p.status=.running)
    (hw : p.wordcount≠0) (i : Lines) : p.masterStep i =
      { p with sack := p.sack && decide (p.wordsLeft≠1),master := if i.internal then .dmaNext else .dmaWait } := by
  unfold Pru.masterStep
  rw [hm]
  dsimp only
  rw [if_neg (by simp [hs,hw])]

theorem sack_dropped {sack : Bool} {left : Nat} (h : left=1) : (sack && decide (left≠1))=false := by
  rw [h]
  exact Bool.and_false sack

theorem Inv.dmaAddress (h : s.Inv) (hm : s.pru.master=.dmaAddress) (b : BusLines) :
    (s.master b).Inv ∧ s.Outcome b (s.master b) := by
  have hstage := h.stage
  unfold Stage at hstage
  rw [hm] at hstage
  obtain ⟨hu,htr,hmsyn⟩ := hstage
  have hw : s.pru.wordcount≠0 := by
    have h1 := hu.left
    have h2 := hu.more
    rw [hu.wordcount]
    omega
  have hnot : s.pru.master≠.idle := by rw [hm]; decide
  have hreq : ∀ {sack : Bool} {m : Master},m≠.idle → m≠.dmaStart →
      Requests { s.pru with sack := sack,master := m } := fun h1 h2 =>
    h.requests.master hnot rfl rfl rfl rfl (fun hx => absurd hx h1) h2 (fun _ hx => hx)
  have hasked : ∀ {P : Prop},s.pru.status=.arbitrating → P := by
    intro P hx
    rw [hu.status] at hx
    cases hx
  unfold Card.master Card.dmaAddress
  rw [hm]
  dsimp only
  rw [if_neg (by simp [hu.status,hw])]
  by_cases hwait : (s.buscycle.isDato && b.ssynHeld)=true
  · rw [if_pos hwait]
    unfold dropSack
    refine ⟨⟨?_,fun hx => hasked hx,?_⟩,.inl ⟨hnot,rfl⟩⟩
    · refine h.requests.master hnot rfl rfl rfl rfl (fun hx => absurd hx hnot) ?_ (fun _ hx => hx)
      show s.pru.master≠.dmaStart
      rw [hm]
      decide
    · unfold Stage
      rw [show ((s.place false).pru).master=.dmaAddress from hm]
      exact ⟨hu.place false,htr,rfl⟩
  rw [if_neg hwait]
  by_cases hint : b.lines.internal=true
  · rw [if_pos hint]
    have hplace : Underway (s.place false) := hu.place false (m := s.pru.master)
    have htr' := htr.snoc (wordsAfter_before s b) s.addressOverlay
    rw [wordsAfter_at s b hu.lt,← hu.addr] at htr'
    unfold stepPru
    have hpru : ((s.place false).wordDone b true
        (.word s.addressOverlay (onLines s.busAddr) (s.passed b))).pru=s.pru := by
      rw [wordDone_eq]
      rfl
    rw [hpru,masterStep_address hm hu.status hw,if_pos hint]
    refine ⟨⟨hreq (by decide) (by decide),fun hx => hasked hx,?_⟩,.inl ⟨fun hx => (by cases hx),?_⟩⟩
    · refine ⟨hplace.wordDone b true _,?_,fun hl => sack_dropped hl,?_,?_⟩
      · rw [wordDone_eq]
        exact htr'
      · rw [wordDone_eq]
      · rw [wordDone_eq]
        rfl
    · rw [wordDone_eq]
      rfl
  · rw [if_neg hint]
    unfold stepPru
    rw [show (s.place true).pru=s.pru from rfl,masterStep_address hm hu.status hw,if_neg hint]
    refine ⟨⟨hreq (by decide) (by decide),fun hx => hasked hx,?_⟩,.inl ⟨fun hx => (by cases hx),rfl⟩⟩
    exact ⟨hu.place true,htr,fun hl => sack_dropped hl,rfl⟩

theorem masterStep_wait {p : Pru} (hm : p.master=.dmaWait) (i : Lines) : p.masterStep i =
    if i.dmaTimeout then { p with master := .dmaStop } else if i.ssyn then { p with master := .dmaNext } else p := by
  unfold Pru.masterStep
  rw [hm]

theorem Inv.dmaWait (h : s.Inv) (hm : s.pru.master=.dmaWait) (hc : s.CarefulPass b) :
    (s.master b).Inv ∧ s.Outcome b (s.master b) := by
  have hstage := h.stage
  unfold Stage at hstage
  rw [hm] at hstage
  obtain ⟨hu,htr,hsack,haddr⟩ := hstage
  have hnot : s.pru.master≠.idle := by rw [hm]; decide
  have hreq : ∀ {m : Master},m≠.idle → m≠.dmaStart → Requests { s.pru with master := m } := fun h1 h2 =>
    h.requests.master hnot rfl rfl rfl rfl (fun hx => absurd hx h1) h2 (fun _ hx => hx)
  have hasked : ∀ {P : Prop},s.pru.status=.arbitrating → P := by
    intro P hx
    rw [hu.status] at hx
    cases hx
  unfold Card.master Card.dmaWait
  rw [hm]
  dsimp only
  by_cases hover : (b.lines.dmaTimeout || b.lines.ssyn)=true
  · rw [if_pos hover,wordDone_eq]
    unfold stepPru
    dsimp only
    rw [masterStep_wait hm]
    have hdone : ∀ (c : WordCycle) (m : Master),
        Underway { s.wordDone b s.buscycle.isDato c with pru := { s.pru with master := m } } :=
      fun c m => hu.wordDone b s.buscycle.isDato c
    have hdata : (if s.buscycle.isDato=true then 0 else s.drive.data)=0 := by
      cases hd : s.buscycle.isDato with
      | true => rfl
      | false => exact hu.data hd
    by_cases ht : b.lines.dmaTimeout=true
    · have hssyn : ¬b.lines.ssyn=true := fun hx => hc hm ⟨ht,hx⟩
      rw [if_pos ht,if_neg hssyn]
      refine ⟨⟨hreq (by decide) (by decide),fun hx => hasked hx,?_⟩,.inl ⟨fun hx => (by cases hx),rfl⟩⟩
      have hd := hdone (.silent s.addressOverlay s.drive.addr) .dmaStop
      rw [wordDone_eq] at hd
      refine ⟨hd,⟨s.cycles,s.addressOverlay,htr.congr (wordsAfter_before s b),?_⟩,rfl,hdata⟩
      show s.cycles++[_]=s.cycles++[_]
      rw [haddr]
      rfl
    · have hssyn : b.lines.ssyn=true := by
        rw [or_eq_true] at hover
        exact hover.resolve_left ht
      rw [if_neg ht,if_pos hssyn,if_pos hssyn]
      refine ⟨⟨hreq (by decide) (by decide),fun hx => hasked hx,?_⟩,.inl ⟨fun hx => (by cases hx),rfl⟩⟩
      have hd := hdone (.word s.addressOverlay s.drive.addr (s.passed b)) .dmaNext
      rw [wordDone_eq] at hd
      have htr' := htr.snoc (wordsAfter_before s b) s.addressOverlay
      rw [wordsAfter_at s b hu.lt,← hu.addr] at htr'
      refine ⟨hd,?_,hsack,rfl,hdata⟩
      show Transferred s.startaddr (s.wordsAfter b) (s.dataptr+1) (s.cycles++[_])
      rw [haddr]
      exact htr'
  · rw [if_neg hover]
    rw [or_eq_true,not_or] at hover
    unfold stepPru
    rw [masterStep_wait hm,if_neg hover.1,if_neg hover.2]
    exact ⟨h,.inl ⟨hnot,rfl⟩⟩

theorem Inv.dmaEnd (h : s.Inv) (hu : s.Underway) (hnot : s.pru.master≠.idle ∧ s.pru.master≠.intrWait)
    {status : DmaStatus} {p : Pru} (hp : s.pru.masterStep b.lines=p)
    (hkeep : p.deviceRequestMask=s.pru.deviceRequestMask ∧ p.waitGrantMask=s.pru.waitGrantMask ∧
      p.cpuRequest=s.pru.cpuRequest ∧ p.cpuAccess=s.pru.cpuAccess)
    (hidle : p.master=.idle) (hbbsy : p.bbsy=false) (hsack : p.sack=false) (hstatus : p.status=status)
    (hne : status≠.arbitrating) (hdata : s.drive.data=0)
    (hmoved : DmaEnd.Moved ⟨status,s.startaddr,s.buscycle,s.block,s.words,s.curAddr,s.cycles⟩ status) :
    (s.dmaEnd b status).Inv ∧ s.Outcome b (s.dmaEnd b status) := by
  unfold Card.dmaEnd stepPru
  rw [hp]
  have hrun : s.pru.status=.arbitrating → p.status=.arbitrating := by
    intro hx
    rw [hu.status] at hx
    cases hx
  refine ⟨⟨h.requests.master hnot.1 hkeep.1 hkeep.2.1 hkeep.2.2.1 hkeep.2.2.2 (fun _ => hsack) (by rw [hidle]; decide)
    (fun _ => hrun),fun hx => absurd (hstatus.symm.trans hx) hne,?_⟩,.inr ⟨hidle,?_,hbbsy,hsack,?_⟩⟩
  · unfold Stage
    dsimp only
    rw [hidle]
    exact ⟨hbbsy,rfl,rfl,rfl,hdata,hu.intr⟩
  · rw [if_neg hnot.2]
    show ({ addr := 0,control := 0,msyn := false,ssyn := false,data := s.drive.data,intr := s.drive.intr } :
      Drive)=_
    rw [hdata,hu.intr]
    rfl
  · rw [if_neg hnot.2]
    exact ⟨_,rfl,⟨hu.length,hu.written,hmoved⟩,hstatus.symm,rfl,rfl,rfl⟩

theorem Inv.dmaStop (h : s.Inv) (hm : s.pru.master=.dmaStop) (b : BusLines) :
    (s.master b).Inv ∧ s.Outcome b (s.master b) := by
  have hstage := h.stage
  unfold Stage at hstage
  rw [hm] at hstage
  obtain ⟨hu,⟨cycles,overlay,htr,hcycles⟩,-,hdata⟩ := hstage
  have hp : s.pru.masterStep b.lines={ s.pru with sack := false }.dmaEnd .timeoutStop := by
    unfold Pru.masterStep
    rw [hm]
    rfl
  unfold Card.master
  rw [hm]
  refine h.dmaEnd hu (by rw [hm]; decide) hp ⟨rfl,rfl,rfl,rfl⟩ rfl rfl rfl rfl (by decide) hdata ?_
  exact ⟨s.dataptr,hu.length ▸ hu.lt,cycles,overlay,htr,hcycles,hu.addr⟩

theorem masterStep_next {p : Pru} (hm : p.master=.dmaNext) (i : Lines) : p.masterStep i =
    if p.wordsLeft-1=0 then { p with wordsLeft := p.wordsLeft-1 }.dmaEnd .ready
    else if i.init then { p with wordsLeft := p.wordsLeft-1,sack := false }.dmaEnd .initStop
    else { p with wordsLeft := p.wordsLeft-1,master := .dmaAddress } := by
  unfold Pru.masterStep
  rw [hm]

theorem Inv.dmaNext (h : s.Inv) (hm : s.pru.master=.dmaNext) (b : BusLines) :
    (s.master b).Inv ∧ s.Outcome b (s.master b) := by
  have hstage := h.stage
  unfold Stage at hstage
  rw [hm] at hstage
  obtain ⟨hu,htr,hsack,hmsyn,hdata⟩ := hstage
  have hleft := hu.left
  have hmore := hu.more
  have hnot : s.pru.master≠.idle ∧ s.pru.master≠.intrWait := by rw [hm]; decide
  have hp := masterStep_next hm b.lines
  unfold Card.master Card.dmaNext
  rw [hm]
  dsimp only
  by_cases hlast : s.pru.wordsLeft-1=0
  · rw [if_pos hlast] at hp
    rw [if_pos hlast]
    refine h.dmaEnd hu hnot hp ⟨rfl,rfl,rfl,rfl⟩ rfl rfl (hsack (by omega)) rfl (by decide) hdata ?_
    have hall : s.dataptr+1=s.block.length := by omega
    show Transferred s.startaddr s.words s.block.length s.cycles
    rw [← hall]
    exact htr
  rw [if_neg hlast] at hp
  rw [if_neg hlast]
  by_cases hinit : b.lines.init=true
  · rw [if_pos hinit] at hp
    rw [if_pos hinit]
    refine h.dmaEnd hu hnot hp ⟨rfl,rfl,rfl,rfl⟩ rfl rfl rfl rfl (by decide) hdata ?_
    exact ⟨s.dataptr+1,by show s.dataptr+1<s.block.length; omega,htr⟩
  · rw [if_neg hinit] at hp
    rw [if_neg hinit]
    unfold stepPru
    rw [hp]
    refine ⟨⟨h.requests.master hnot.1 rfl rfl rfl rfl (fun hx => (by cases hx)) (fun hx => (by cases hx))
      (fun _ hx => hx),fun hx => ?_,?_⟩,.inl ⟨fun hx => (by cases hx),rfl⟩⟩
    · have hrun := hu.status
      rw [show s.pru.status=.arbitrating from hx] at hrun
      cases hrun
    · refine ⟨⟨hu.status,hu.wordcount,hu.length,hu.written,?_,?_,?_,hu.ssyn,hu.intr,hu.data⟩,htr,hmsyn⟩
      · show s.dataptr+1+(s.pru.wordsLeft-1)=s.block.length
        omega
      · show 0<s.pru.wordsLeft-1
        omega
      · show s.curAddr+2=wordAddr s.startaddr (s.dataptr+1)
        rw [hu.addr]
        exact wordAddr_succ s.startaddr s.dataptr

theorem Inv.intrStart (h : s.Inv) (hm : s.pru.master=.intrStart) (b : BusLines) :
    (s.master b).Inv ∧ s.Outcome b (s.master b) := by
  have hstage := h.stage
  unfold Stage at hstage
  rw [hm] at hstage
  have hp : s.pru.masterStep b.lines={ s.pru.rise with master := .intrVector } := by
    unfold Pru.masterStep
    rw [hm]
  unfold Card.master stepPru
  rw [hm,hp]
  exact ⟨⟨h.requests.master (by rw [hm]; decide) rfl rfl rfl rfl (fun hx => (by cases hx)) (fun hx => (by cases hx))
    (fun _ hx => hx),h.asked,hstage.2⟩,.inl ⟨fun hx => (by cases hx),rfl⟩⟩

theorem Inv.intrVector (h : s.Inv) (hm : s.pru.master=.intrVector) (b : BusLines) :
    (s.master b).Inv ∧ s.Outcome b (s.master b) := by
  have hstage := h.stage
  unfold Stage at hstage
  rw [hm] at hstage
  have hp : s.pru.masterStep b.lines={ s.pru with sack := false,master := .intrWait } := by
    unfold Pru.masterStep
    rw [hm]
  unfold Card.master stepPru
  rw [hm,hp]
  exact ⟨⟨h.requests.master (by rw [hm]; decide) rfl rfl rfl rfl (fun hx => (by cases hx)) (fun hx => (by cases hx))
    (fun _ hx => hx),h.asked,rfl,hstage.1,hstage.2.1,hstage.2.2.1⟩,.inl ⟨fun hx => (by cases hx),rfl⟩⟩

theorem masterStep_intrWait {p : Pru} (hm : p.master=.intrWait) (i : Lines) : p.masterStep i =
    if i.ssyn then if i.intrAcked then { p with bbsy := false,master := .idle } else p
    else if i.init then { p with bbsy := false,master := .idle }
    else p := by
  unfold Pru.masterStep
  rw [hm]

theorem Inv.intrWait (h : s.Inv) (hm : s.pru.master=.intrWait) (b : BusLines) :
    (s.master b).Inv ∧ s.Outcome b (s.master b) := by
  have hstage := h.stage
  unfold Stage at hstage
  rw [hm] at hstage
  obtain ⟨hsack,hcontrol,hmsyn,hssyn⟩ := hstage
  have hnot : s.pru.master≠.idle := by rw [hm]; decide
  have hdrive : s.intrRelease.drive={ Drive.released with addr := s.drive.addr } := by
    show (⟨s.drive.addr,s.drive.control,s.drive.msyn,s.drive.ssyn,0,false⟩ : Drive)=_
    rw [hcontrol,hmsyn,hssyn]
    rfl
  have hreq : Requests { s.pru with bbsy := false,master := .idle } :=
    h.requests.master hnot rfl rfl rfl rfl (fun _ => hsack) (fun hx => (by cases hx)) (fun _ hx => hx)
  have hstill : Still s.intrRelease.drive := by
    rw [hdrive]
    exact ⟨rfl,rfl,rfl,rfl,rfl⟩
  unfold Card.master Card.intrWait
  rw [hm]
  dsimp only
  unfold stepPru
  by_cases hs : b.lines.ssyn=true
  · rw [if_pos hs]
    by_cases ha : b.lines.intrAcked=true
    · rw [if_pos ha]
      rw [show s.intrRelease.pru=s.pru from rfl,masterStep_intrWait hm,if_pos hs,if_pos ha]
      refine ⟨⟨hreq,h.asked,rfl,hstill⟩,.inr ⟨rfl,?_,rfl,hsack,?_⟩⟩
      · rw [if_pos hm]
        exact hdrive
      · rw [if_pos hm]
        exact .inl ⟨hs,rfl⟩
    · rw [if_neg ha,masterStep_intrWait hm,if_pos hs,if_neg ha]
      exact ⟨h,.inl ⟨hnot,rfl⟩⟩
  · rw [if_neg hs]
    by_cases hi : b.lines.init=true
    · rw [if_pos hi]
      rw [show s.intrRelease.pru=s.pru from rfl,masterStep_intrWait hm,if_neg hs,if_pos hi]
      refine ⟨⟨hreq,h.asked,rfl,hstill⟩,.inr ⟨rfl,?_,rfl,hsack,?_⟩⟩
      · rw [if_pos hm]
        exact hdrive
      · rw [if_pos hm]
        exact .inr ⟨eq_false_iff.mpr hs,hi,rfl⟩
    · rw [if_neg hi,masterStep_intrWait hm,if_neg hs,if_neg hi]
      exact ⟨h,.inl ⟨hnot,rfl⟩⟩

theorem Inv.master (h : s.Inv) (hm : s.pru.master≠.idle) (hc : s.CarefulPass b) :
    (s.master b).Inv ∧ s.Outcome b (s.master b) := by
  cases hx : s.pru.master with
  | idle => exact absurd hx hm
  | dmaStart => exact h.dmaStart hx b
  | dmaAddress => exact h.dmaAddress hx b
  | dmaWait => exact h.dmaWait hx hc
  | dmaStop => exact h.dmaStop hx b
  | dmaNext => exact h.dmaNext hx b
  | intrStart => exact h.intrStart hx b
  | intrVector => exact h.intrVector hx b
  | intrWait => exact h.intrWait hx b

theorem advance_idle (hm : s.pru.master=.idle) (b : BusLines) : s.advance b=s.slave b := if_pos hm

theorem advance_master (hm : s.pru.master≠.idle) (b : BusLines) : s.advance b=s.master b := if_neg hm

theorem Inv.advance (h : s.Inv) (hc : s.CarefulPass b) : (s.advance b).Inv ∧ s.Delivers b := by
  by_cases hm : s.pru.master=.idle
  · have hno : ¬s.Ends b := fun he => he.1 hm
    refine ⟨advance_idle hm b ▸ h.slave hm b,fun _ => ?_,fun he => absurd he hno,fun he => absurd he hno,
      fun he => absurd he hno⟩
    obtain ⟨vector,levelIndex,he⟩ := slave_eq s b
    rw [advance_idle hm,he]
  · obtain ⟨hinv,hout⟩ := h.master hm hc
    rw [← advance_master hm b] at hinv hout
    refine ⟨hinv,fun hno => ?_,fun he => ?_,fun he => ?_,fun he => ?_⟩
    · rcases hout with ho | ho
      · exact ho.2
      · exact absurd ⟨hm,ho.1⟩ hno
    · rcases hout with ho | ho
      · exact absurd he.2 ho.1
      · exact ho.2.1
    · rcases hout with ho | ho
      · exact absurd he.2 ho.1
      · exact ⟨ho.2.2.1,ho.2.2.2.1⟩
    · rcases hout with ho | ho
      · exact absurd he.2 ho.1
      · exact ho.2.2.2.2

theorem Inv.idleStatus (h : s.Inv) (hs : s.pru.status≠.arbitrating ∧ s.pru.status≠.running) :
    s.pru.master=.idle ∨ s.pru.master=.intrStart ∨ s.pru.master=.intrVector ∨ s.pru.master=.intrWait := by
  have hstage := h.stage
  unfold Stage at hstage
  cases hm : s.pru.master with
  | idle => exact .inl rfl
  | intrStart => exact .inr (.inl rfl)
  | intrVector => exact .inr (.inr (.inl rfl))
  | intrWait => exact .inr (.inr (.inr rfl))
  | dmaStart => exact absurd (h.requests.pending (.inr (.inr (.inr hm)))) hs.1
  | dmaAddress | dmaWait | dmaStop | dmaNext =>
    rw [hm] at hstage
    exact absurd hstage.1.status hs.2

theorem Inv.withPru (h : s.Inv) {p : Pru} (hr : Requests p) (hm : p.master=s.pru.master) (hb : p.bbsy=s.pru.bbsy)
    (hsack : p.sack=s.pru.sack) (hst : p.status=s.pru.status) (hwc : p.wordcount=s.pru.wordcount)
    (hwl : p.wordsLeft=s.pru.wordsLeft) (vectors : Nat → Word) : Inv { s with pru := p,vectors := vectors } := by
  have hu : s.Underway → Underway { s with pru := p,vectors := vectors } := fun hu =>
    ⟨hst.trans hu.status,hwc.trans hu.wordcount,hu.length,hu.written,
      by rw [← hu.left]; exact congrArg (s.dataptr+·) hwl,
      lt_of_lt_of_eq hu.more hwl.symm,hu.addr,hu.ssyn,hu.intr,hu.data⟩
  refine ⟨hr,fun hx => ?_,?_⟩
  · obtain ⟨h1,h2⟩ := h.asked (hst ▸ hx)
    exact ⟨hwc.trans h1,h2⟩
  · have hstage := h.stage
    unfold Stage at hstage ⊢
    rw [show ({ s with pru := p,vectors := vectors } : Card).pru.master=s.pru.master from hm]
    dsimp only
    rw [hb,hsack,hwl]
    cases hx : s.pru.master with
    | idle | dmaStart | intrStart | intrVector | intrWait => rw [hx] at hstage; exact hstage
    | dmaAddress | dmaWait | dmaNext | dmaStop => rw [hx] at hstage; exact ⟨hu hstage.1,hstage.2⟩

theorem Inv.order (h : s.Inv) {o : Order} (hc : s.CarefulOrder o) : (s.order o).Inv := by
  cases o with
  | dma cpuAccess startaddr buscycle words =>
    obtain ⟨hne,hs⟩ := hc
    have hp : (s.pru.command (.dma cpuAccess words.length)).master=s.pru.master ∧
        (s.pru.command (.dma cpuAccess words.length)).bbsy=s.pru.bbsy ∧
        (s.pru.command (.dma cpuAccess words.length)).sack=s.pru.sack ∧
        (s.pru.command (.dma cpuAccess words.length)).wordcount=words.length := by
      cases cpuAccess <;> exact ⟨rfl,rfl,rfl,rfl⟩
    refine ⟨h.requests.dma hs.1 cpuAccess words.length,fun _ => ⟨hp.2.2.2,rfl,hne⟩,?_⟩
    have hstage := h.stage
    unfold Stage at hstage ⊢
    rw [show (s.order (.dma cpuAccess startaddr buscycle words)).pru.master=s.pru.master from hp.1]
    rcases h.idleStatus hs with hm | hm | hm | hm
    · rw [hm] at hstage ⊢
      exact ⟨hp.2.1.trans hstage.1,hstage.2⟩
    · rw [hm] at hstage ⊢
      exact ⟨hp.2.1.trans hstage.1,hstage.2⟩
    · rw [hm] at hstage ⊢
      exact hstage
    · rw [hm] at hstage ⊢
      exact ⟨hp.2.2.1.trans hstage.1,hstage.2⟩
  | dmaCancel =>
    by_cases hcancel : s.pru.master=.idle ∧ s.pru.status=.arbitrating
    · obtain ⟨hr,hm,hb,hst⟩ := h.requests.dmaCancel hcancel
      refine ⟨hr,fun hx => ?_,?_⟩
      · rw [show (s.pru.command .dmaCancel).status=.arbitrating from hx] at hst
        cases hst
      · have hstage := h.stage
        unfold Stage at hstage ⊢
        rw [show (s.order .dmaCancel).pru.master=.idle from hm.trans hcancel.1]
        rw [hcancel.1] at hstage
        exact ⟨hb.trans hstage.1,hstage.2⟩
    · show Inv { s with pru := s.pru.command .dmaCancel }
      rw [show s.pru.command .dmaCancel=s.pru from if_neg hcancel]
      exact h
  | intr level vector =>
    have hr : Requests { s.pru with deviceRequestMask := s.pru.deviceRequestMask ||| levelBit level } := by
      refine h.requests.intrMask fun k hk hx => ?_
      rw [getLsbD_or,levelBit_getLsbD,decide_eq_false (by omega),Bool.or_false] at hx
      exact hx
    exact h.withPru hr rfl rfl rfl rfl rfl rfl fun l => if l=level.val then vector else s.vectors l
  | intrCancel bits =>
    have hr : Requests { s.pru with deviceRequestMask := s.pru.deviceRequestMask &&& ~~~bits } := by
      refine h.requests.intrMask fun k _ hx => ?_
      rw [getLsbD_and,and_eq_true] at hx
      exact hx.1
    exact h.withPru hr rfl rfl rfl rfl rfl rfl s.vectors
  | grantIntrRequests =>
    have hs : SameRequests s.pru (s.pru.command .grantIntrRequests) ∧
        (s.pru.command .grantIntrRequests).wordsLeft=s.pru.wordsLeft := by
      unfold Pru.command
      dsimp only
      split
      all_goals exact ⟨by constructor <;> rfl,rfl⟩
    exact h.withPru (h.requests.same hs.1) hs.1.master hs.1.bbsy hs.1.sack hs.1.status hs.1.wordcount hs.2
      s.vectors
  | addressOverlay overlay =>
    refine ⟨h.requests,h.asked,?_⟩
    have hno : s.pru.master≠.dmaWait := hc
    have hu : s.Underway → Underway (s.order (.addressOverlay overlay)) := fun hu =>
      ⟨hu.status,hu.wordcount,hu.length,hu.written,hu.left,hu.more,hu.addr,hu.ssyn,hu.intr,hu.data⟩
    have hstage := h.stage
    unfold Stage at hstage ⊢
    rw [show (s.order (.addressOverlay overlay)).pru=s.pru from rfl]
    cases hx : s.pru.master with
    | idle | dmaStart | intrStart | intrVector | intrWait => rw [hx] at hstage; exact hstage
    | dmaAddress | dmaNext | dmaStop => rw [hx] at hstage; exact ⟨hu hstage.1,hstage.2⟩
    | dmaWait => exact absurd hx hno

theorem Inv.pass (h : s.Inv) {e : BusLines × Option Order} (hc : s.Careful e) : (s.pass e.1 e.2).Inv := by
  have ha := (h.advance hc.1).1
  obtain ⟨b,o⟩ := e
  cases o with
  | none => exact ha
  | some o => exact ha.order (hc.2 o rfl)

theorem Inv.quiet (h : s.Inv) (hs : s.pru.status=.canceled) : s.Quiet := by
  have hne : s.pru.status≠.arbitrating ∧ s.pru.status≠.running := by
    rw [hs]
    decide
  obtain ⟨h1,h2,h3,-⟩ := h.requests.none hne.1
  have hmaster := h.idleStatus hne
  refine ⟨?_,fun i => ?_,fun i hm ha => ?_,fun hsack => ?_⟩
  · rintro (hx | hx | hx | hx)
    · rw [h1] at hx
      cases hx
    · rw [h2] at hx
      cases hx
    · rw [h3] at hx
      cases hx
    · rcases hmaster with hm | hm | hm | hm <;> rw [hm] at hx <;> exact absurd hx (by decide)
  · rcases hmaster with hm | hm | hm | hm
    · obtain ⟨vector,levelIndex,he⟩ := slave_eq s i
      rw [advance_idle hm,he]
      exact ⟨rfl,(h.requests.slave hm i.lines).2.2.2.1.trans hs⟩
    all_goals
      rw [advance_master (by rw [hm]; decide)]
      unfold Card.master
      rw [hm]
    · unfold stepPru Pru.masterStep
      rw [hm]
      exact ⟨rfl,hs⟩
    · unfold stepPru Pru.masterStep
      rw [hm]
      exact ⟨rfl,hs⟩
    · unfold Card.intrWait stepPru
      have hrelease : s.intrRelease.pru=s.pru := rfl
      rw [hrelease,masterStep_intrWait hm]
      dsimp only
      split
      all_goals
        split
        · exact ⟨rfl,hs⟩
        · exact ⟨rfl,hs⟩
  · obtain ⟨vector,levelIndex,he⟩ := slave_eq s i
    rw [advance_idle hm,he]
    exact (h.requests.slave hm i.lines).2.2.2.2.2.2 hne.1 ha
  · rcases hmaster with hm | hm | hm | hm
    · exact .inl ((h.requests.sack hsack).resolve_right fun hx => hx hm)
    · exact .inr (.inl hm)
    · exact .inr (.inr hm)
    · have hstage := h.stage
      unfold Stage at hstage
      rw [hm] at hstage
      rw [hstage.1] at hsack
      cases hsack

def rank (s : Card) : Nat :=
  match s.pru.master with
  | .idle => 0
  | .dmaStart => 3*s.pru.wordcount+4
  | .dmaAddress => 3*s.pru.wordsLeft+3
  | .dmaWait => 3*s.pru.wordsLeft+2
  | .dmaNext => 3*s.pru.wordsLeft+1
  | .dmaStop => 1
  | .intrStart => 3
  | .intrVector => 2
  | .intrWait => 1

def Waiting (s : Card) (b : BusLines) : Prop :=
  match s.pru.master with
  | .dmaAddress => b.ssynHeld=true
  | .dmaWait => ¬(b.lines.dmaTimeout=true ∨ b.lines.ssyn=true)
  | .intrWait => ¬((b.lines.ssyn=true ∧ b.lines.intrAcked=true) ∨ (b.lines.ssyn=false ∧ b.lines.init=true))
  | .idle | .dmaStart | .dmaNext | .dmaStop | .intrStart | .intrVector => False

theorem Inv.rank_advance (h : s.Inv) (hm : s.pru.master≠.idle) (b : BusLines) : (s.advance b).pru.master≠.dmaStart ∧
    ((s.Waiting b ∧ (s.advance b).pru.master=s.pru.master ∧ (s.advance b).rank=s.rank) ∨
      (s.advance b).rank<s.rank) := by
  have hstage := h.stage
  unfold Stage at hstage
  rw [advance_master hm]
  unfold Card.master
  cases hx : s.pru.master with
  | idle => exact absurd hx hm
  | dmaStart =>
    unfold stepPru rank
    dsimp only
    rw [masterStep_start hx,hx]
    exact ⟨fun hy => (by cases hy),.inr (Nat.lt_succ_self _)⟩
  | dmaAddress =>
    rw [hx] at hstage
    have hu := hstage.1
    have hw : s.pru.wordcount≠0 := by
      have h1 := hu.left
      have h2 := hu.more
      rw [hu.wordcount]
      omega
    dsimp only
    unfold Card.dmaAddress
    rw [if_neg (by simp [hu.status,hw])]
    by_cases hwait : (s.buscycle.isDato && b.ssynHeld)=true
    · rw [if_pos hwait]
      refine ⟨?_,.inl ⟨?_,?_,?_⟩⟩
      · show s.pru.master≠.dmaStart
        rw [hx]
        decide
      · unfold Waiting
        rw [hx]
        exact (and_eq_true _ _ ▸ hwait).2
      · exact hx
      · rfl
    rw [if_neg hwait]
    have hlow : ∀ t : Card,t.pru=s.pru.masterStep b.lines → t.pru.master≠.dmaStart ∧ t.rank<s.rank := by
      intro t ht
      unfold rank
      rw [ht,masterStep_address hx hu.status hw,hx]
      cases b.lines.internal with
      | true => exact ⟨fun hy => (by cases hy),by show 3*s.pru.wordsLeft+1<3*s.pru.wordsLeft+3; omega⟩
      | false => exact ⟨fun hy => (by cases hy),by show 3*s.pru.wordsLeft+2<3*s.pru.wordsLeft+3; omega⟩
    by_cases hint : b.lines.internal=true
    · rw [if_pos hint]
      have hl := hlow (((s.place false).wordDone b true
        (.word s.addressOverlay (onLines s.busAddr) (s.passed b))).stepPru b) (by rw [wordDone_eq]; rfl)
      exact ⟨hl.1,.inr hl.2⟩
    · rw [if_neg hint]
      have hl := hlow ((s.place true).stepPru b) rfl
      exact ⟨hl.1,.inr hl.2⟩
  | dmaWait =>
    rw [hx] at hstage
    dsimp only
    unfold Card.dmaWait
    by_cases hover : (b.lines.dmaTimeout || b.lines.ssyn)=true
    · rw [if_pos hover,wordDone_eq]
      unfold stepPru rank
      dsimp only
      rw [masterStep_wait hx,hx]
      by_cases ht : b.lines.dmaTimeout=true
      · rw [if_pos ht]
        exact ⟨fun hy => (by cases hy),.inr (by show 1<3*s.pru.wordsLeft+2; omega)⟩
      · rw [or_eq_true] at hover
        rw [if_neg ht,if_pos (hover.resolve_left ht)]
        exact ⟨fun hy => (by cases hy),.inr (Nat.lt_succ_self _)⟩
    · rw [if_neg hover]
      rw [or_eq_true] at hover
      have hno := not_or.mp hover
      unfold stepPru
      rw [masterStep_wait hx,if_neg hno.1,if_neg hno.2]
      refine ⟨hx ▸ fun hy => (by cases hy),.inl ⟨?_,hx,rfl⟩⟩
      unfold Waiting
      rw [hx]
      exact hover
  | dmaStop =>
    unfold Card.dmaEnd stepPru rank Pru.masterStep
    dsimp only
    rw [hx]
    exact ⟨fun hy => (by cases hy),.inr Nat.zero_lt_one⟩
  | dmaNext =>
    rw [hx] at hstage
    have hmore := hstage.1.more
    dsimp only
    unfold Card.dmaNext
    have hp := masterStep_next hx b.lines
    by_cases hlast : s.pru.wordsLeft-1=0
    · rw [if_pos hlast] at hp
      rw [if_pos hlast]
      unfold Card.dmaEnd stepPru rank
      dsimp only
      rw [hp,hx]
      exact ⟨fun hy => (by cases hy),.inr (Nat.succ_pos _)⟩
    · rw [if_neg hlast] at hp
      rw [if_neg hlast]
      by_cases hinit : b.lines.init=true
      · rw [if_pos hinit] at hp
        rw [if_pos hinit]
        unfold Card.dmaEnd stepPru rank
        dsimp only
        rw [hp,hx]
        exact ⟨fun hy => (by cases hy),.inr (Nat.succ_pos _)⟩
      · rw [if_neg hinit] at hp
        rw [if_neg hinit]
        unfold stepPru rank
        dsimp only
        rw [hp,hx]
        exact ⟨fun hy => (by cases hy),.inr (by show 3*(s.pru.wordsLeft-1)+3<3*s.pru.wordsLeft+1; omega)⟩
  | intrStart =>
    unfold stepPru rank Pru.masterStep
    dsimp only
    rw [hx]
    exact ⟨fun hy => (by cases hy),.inr (by show 2<3; decide)⟩
  | intrVector =>
    unfold stepPru rank Pru.masterStep
    dsimp only
    rw [hx]
    exact ⟨fun hy => (by cases hy),.inr (by show 1<2; decide)⟩
  | intrWait =>
    dsimp only
    unfold Card.intrWait stepPru
    rw [show s.intrRelease.pru=s.pru from rfl,masterStep_intrWait hx]
    have hwaits : ¬((b.lines.ssyn=true ∧ b.lines.intrAcked=true) ∨
        (b.lines.ssyn=false ∧ b.lines.init=true)) → s.Waiting b := by
      intro hno
      unfold Waiting
      rw [hx]
      exact hno
    have hkeep : s.pru.master≠.dmaStart := by
      rw [hx]
      decide
    have hone : s.rank=1 := by
      unfold rank
      rw [hx]
    by_cases hs : b.lines.ssyn=true
    · rw [if_pos hs]
      by_cases ha : b.lines.intrAcked=true
      · rw [if_pos ha,if_pos hs,if_pos ha,hone]
        exact ⟨fun hy => (by cases hy),.inr Nat.zero_lt_one⟩
      · rw [if_neg ha,if_pos hs,if_neg ha]
        exact ⟨hkeep,.inl ⟨hwaits (by simp [hs,ha]),hx,rfl⟩⟩
    · rw [if_neg hs]
      by_cases hi : b.lines.init=true
      · rw [if_pos hi,if_neg hs,if_pos hi,hone]
        exact ⟨fun hy => (by cases hy),.inr Nat.zero_lt_one⟩
      · rw [if_neg hi,if_neg hs,if_neg hi]
        exact ⟨hkeep,.inl ⟨hwaits (by simp [hs,hi]),hx,rfl⟩⟩

theorem order_pru (s : Card) (o : Order) : (s.order o).pru.master=s.pru.master ∧
    (s.order o).pru.wordsLeft=s.pru.wordsLeft := by
  cases o with
  | dma cpuAccess startaddr buscycle words => cases cpuAccess <;> exact ⟨rfl,rfl⟩
  | dmaCancel =>
    show (s.pru.command .dmaCancel).master=_ ∧ (s.pru.command .dmaCancel).wordsLeft=_
    unfold Pru.command
    dsimp only
    split
    · split
      · exact ⟨rfl,rfl⟩
      · split <;> exact ⟨rfl,rfl⟩
    · exact ⟨rfl,rfl⟩
  | intr level vector | intrCancel bits | addressOverlay overlay => exact ⟨rfl,rfl⟩
  | grantIntrRequests =>
    show (s.pru.command .grantIntrRequests).master=_ ∧ (s.pru.command .grantIntrRequests).wordsLeft=_
    unfold Pru.command
    dsimp only
    split <;> exact ⟨rfl,rfl⟩

theorem rank_congr (hm : t.pru.master=s.pru.master) (hl : t.pru.wordsLeft=s.pru.wordsLeft)
    (hs : s.pru.master≠.dmaStart) : t.rank=s.rank := by
  unfold rank
  rw [hm,hl]
  cases hx : s.pru.master with
  | dmaStart => exact absurd hx hs
  | idle | dmaAddress | dmaWait | dmaStop | dmaNext | intrStart | intrVector | intrWait => rfl

theorem Inv.rank_pass (h : s.Inv) (hm : s.pru.master≠.idle) (e : BusLines × Option Order) :
    (s.Waiting e.1 ∧ (s.pass e.1 e.2).pru.master=s.pru.master ∧ (s.pass e.1 e.2).rank=s.rank) ∨
      (s.pass e.1 e.2).rank<s.rank := by
  obtain ⟨hstart,hadvance⟩ := h.rank_advance hm e.1
  obtain ⟨b,o⟩ := e
  cases o with
  | none => exact hadvance
  | some o =>
    obtain ⟨h1,h2⟩ := order_pru (s.advance b) o
    have hr : (s.pass b (some o)).rank=(s.advance b).rank := rank_congr h1 h2 hstart
    rw [hr]
    exact hadvance.imp_left fun hw => ⟨hw.1,h1.trans hw.2.1,hw.2.2⟩

variable {env : Nat → BusLines × Option Order}

theorem runOn_inv (h : s.Inv) (hc : ∀ n,(s.runOn env n).Careful (env n)) (n : Nat) : (s.runOn env n).Inv := by
  induction n with
  | zero => exact h
  | succ n ih => exact ih.pass (hc n)

theorem fair_waiting (hf : Fair env) (s : Card) (n : Nat) : ∃ m ≥ n,¬s.Waiting (env m).1 := by
  unfold Waiting
  cases hx : s.pru.master with
  | dmaAddress =>
    obtain ⟨m,hm,hfalls⟩ := hf.falls n
    exact ⟨m,hm,by rw [hfalls]; exact Bool.false_ne_true⟩
  | dmaWait =>
    obtain ⟨m,hm,ha⟩ := hf.answered n
    exact ⟨m,hm,not_not.mpr ha⟩
  | intrWait =>
    obtain ⟨m,hm,ha⟩ := hf.fielded n
    exact ⟨m,hm,not_not.mpr ha⟩
  | idle | dmaStart | dmaNext | dmaStop | intrStart | intrVector => exact ⟨n,Nat.le_refl n,id⟩

theorem Waiting.congr (hm : t.pru.master=s.pru.master) : t.Waiting b ↔ s.Waiting b := by
  unfold Waiting
  rw [hm]

theorem Inv.ends (h : s.Inv) (hc : ∀ n,(s.runOn env n).Careful (env n))
    (hf : Fair env) : ∃ n,(s.runOn env n).pru.master=.idle := by
  have hinv := runOn_inv h hc
  obtain ⟨m,-,hm⟩ := eventually_done (x := s.runOn env) (p := fun t => t.pru.master=.idle) (f := rank)
    (fun n hn => by
      rcases (hinv n).rank_pass hn (env n) with hw | hlt
      · exact Nat.le_of_eq hw.2.2
      · exact Nat.le_of_lt hlt)
    (fun n hn => by
      by_contra hno
      -- then every pass from here on waits, and in the same state
      have hall : ∀ k,(s.runOn env (n+k)).pru.master=(s.runOn env n).pru.master ∧
          (s.runOn env (n+k)).Waiting (env (n+k)).1 := by
        have hwait : ∀ k,(s.runOn env (n+k)).Waiting (env (n+k)).1 ∧
            (s.runOn env (n+k+1)).pru.master=(s.runOn env (n+k)).pru.master := by
          intro k
          have hnot : (s.runOn env (n+k)).pru.master≠.idle :=
            fun hi => hno ⟨n+k,Nat.le_add_right n k,.inl hi⟩
          rcases (hinv (n+k)).rank_pass hnot (env (n+k)) with hw | hlt
          · exact ⟨hw.1,hw.2.1⟩
          · exact absurd ⟨n+k,Nat.le_add_right n k,.inr hlt⟩ hno
        intro k
        refine ⟨?_,(hwait k).1⟩
        induction k with
        | zero => rfl
        | succ k ih => exact (hwait k).2.trans ih
      obtain ⟨m,hm,hgo⟩ := fair_waiting hf (s.runOn env n) n
      obtain ⟨k,rfl⟩ := Nat.exists_eq_add_of_le hm
      exact hgo ((Waiting.congr (hall k).1).mp (hall k).2))
    0
  exact ⟨m,hm⟩

/-- In every run every pass delivers what it should, a canceled DMA is quiet, and under a fair bus a transfer ends. -/
theorem cycles_right {emulateCpu : Bool} {es : List (BusLines × Option Order)}
    (hr : Run (Guarded Careful fun s e => some (s.pass e.1 e.2)) (start emulateCpu) es s) :
    (∀ b,s.CarefulPass b → s.Delivers b) ∧ (s.pru.status=.canceled → s.Quiet) ∧
    ∀ env,(∀ n,(s.runOn env n).Careful (env n)) → Fair env → ∃ n,(s.runOn env n).pru.master=.idle := by
  have hinv : s.Inv := hr.invariant (P := Inv)
    (fun s e t hs ht => by
      obtain rfl := Option.some.inj ht.2
      exact hs.pass ht.1)
    (start_inv emulateCpu)
  exact ⟨fun b hb => (hinv.advance hb).2,hinv.quiet,fun env hc hf => hinv.ends hc hf⟩

instance (s : Card) (b : BusLines) : Decidable (s.CarefulPass b) := inferInstanceAs (Decidable (_ → ¬(_ ∧ _)))

instance (s : Card) : (o : Order) → Decidable (s.CarefulOrder o)
  | .dma _ _ _ words => inferInstanceAs (Decidable
    (words≠[] ∧ s.pru.status≠.arbitrating ∧ s.pru.status≠.running))
  | .addressOverlay _ => inferInstanceAs (Decidable (s.pru.master≠.dmaWait))
  | .dmaCancel | .intr _ _ | .intrCancel _ | .grantIntrRequests => isTrue trivial

instance (s : Card) (e : BusLines × Option Order) : Decidable (s.Careful e) :=
  inferInstanceAs (Decidable (s.CarefulPass e.1 ∧ ∀ o∈e.2,(s.advance e.1).CarefulOrder o))

instance (s : Card) (b : BusLines) : Decidable (s.Ends b) := inferInstanceAs (Decidable (_ ∧ _))

def busWith (grants : Mask) (ssyn dmaTimeout : Bool) : BusLines :=
  ⟨⟨grants,false,true,0,false,0,false,0,false,false,false,ssyn,false,dmaTimeout,true⟩,false,0o123⟩

theorem cycles_right_block : ∃ (s : Card) (x : DmaEnd), (s.advance (busWith 0 false false)).drive=.released ∧
    (s.advance (busWith 0 false false)).completions=s.completions++[.dma x] ∧ x.Right ∧ x.status=.ready ∧
    x.block=[7,8] := by
  obtain ⟨s,hs,hp⟩ := run_of_foldlM Careful (fun s e => some (s.pass e.1 e.2))
    (fun s => decide (s.CarefulPass (busWith 0 false false) ∧ s.Ends (busWith 0 false false) ∧
      s.pru.master≠.intrWait ∧ (s.advance (busWith 0 false false)).pru.status=.ready ∧ s.block=[7,8]))
    [(busWith 0 false false,some (.dma false 0o1000 .dati [7,8])),(busWith 0 false false,none),
      (busWith 0x10 false false,none),(busWith 0 false false,none),(busWith 0 false false,none),
      (busWith 0 false false,none),(busWith 0 true false,none),(busWith 0 false false,none),
      (busWith 0 false false,none),(busWith 0 true false,none)]
    (start false) (by decide +kernel)
  obtain ⟨hc,he,hm,hready,hblock⟩ := of_decide_eq_true hp
  obtain ⟨hall,-,-⟩ := cycles_right hs
  have hd := hall _ hc
  have hdone := hd.completes he
  unfold Completes at hdone
  rw [if_neg hm] at hdone
  obtain ⟨x,hx,hright,hstatus,-,hb,-⟩ := hdone
  refine ⟨s,x,?_,hx,hright,hstatus.trans hready,hb.trans hblock⟩
  rw [hd.drive he,if_neg hm]
  rfl

/-- A slave that answers in the pass that finds the timeout has given its word, and is reported as silent. -/
theorem answered_late : ∃ (s : Card) (x : DmaEnd), Run (fun s e t => some (s.pass e.1 e.2)=some t) (start false)
      [(busWith 0 false false,some (.dma true 0o1000 .dati [7])),(busWith 0 false false,none),
        (busWith 0 false false,none),(busWith 0 false false,none),(busWith 0 true true,none),
        (busWith 0 false false,none)] s ∧ s.completions=[.dma x] ∧ x.status=.timeoutStop ∧ x.curAddr=0o1000 ∧
    x.cycles=[.word 0 (onLines x.curAddr) 0o123] :=
  ⟨_,⟨.timeoutStop,0o1000,.dati,[7],[0o123],0o1000,[.word 0 0o1000 0o123]⟩,run_of_foldlM_eq rfl,
    by decide +kernel,rfl,rfl,by decide +kernel⟩

end Card

end QUniLator.Adapter.Unibus
