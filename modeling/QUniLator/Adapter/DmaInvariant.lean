import QUniLator.Adapter.DmaTables

namespace QUniLator.Adapter

open Option Function Level DmaRequest

namespace DmaTables

variable {ρ ι δ : Type} [DecidableEq ρ]

def Owned (w : AddrWidth) (s : DmaTables ρ) : Prop :=
  ∃ r done,s.npr.active=some r ∧ s.executing r=true ∧ (s.request r).Underway w done ∧
    s.mailbox.wordcount=(s.request r).nextWords done ∧
    s.mailbox.startaddr=(s.request r).startaddr w ∧
    (s.pru=.ended → s.mailbox.curStatus=.ready →
      s.mailbox.curAddr=(s.request r).startaddr w+2*((s.request r).nextWords done-1))

/-- The tables agree, every scheduled request is under way, a cancelled transfer is not the PRU's, and
there was no clash. -/
structure Sound (w : AddrWidth) (b : Board ρ ι δ) (s : DmaTables ρ) : Prop where
  consistent : s.npr.Consistent b.dmaSlot
  underway : ∀ r,s.npr.slotRequest (b.dmaSlot r)=some r → ∃ done,(s.request r).Underway w done
  canceled : s.mailbox.curStatus=.canceled → s.pru=.free
  noClash : s.clash=false

/-- Between operations something is active where anything is scheduled, and what the PRU has is the
active request's or an orphan. -/
structure Inv (w : AddrWidth) (b : Board ρ ι δ) (s : DmaTables ρ) : Prop extends s.Sound w b where
  busy : s.npr.Busy
  owned : s.pru≠.free → s.orphanOnPru=false → s.Owned w

variable {w : AddrWidth} {b : Board ρ ι δ} {s : DmaTables ρ}

omit [DecidableEq ρ] in
theorem Sound.withNpr (h : s.Sound w b) {npr : Level ρ} (hc : npr.Consistent b.dmaSlot)
    (hs : ∀ t r,npr.slotRequest t=some r → s.npr.slotRequest t=some r) :
    { s with npr := npr : DmaTables ρ }.Sound w b :=
  ⟨hc,fun r hr => h.underway r (hs _ r hr),h.canceled,h.noClash⟩

theorem Sound.executeActive (h : s.Sound w b) (hb : s.npr.Busy) {r : ρ}
    (ha : s.npr.active=some r) (hf : s.orphanOnPru=false → s.pru=.free) :
    ∃ s',s.executeActive w=some s' ∧ s'.Inv w b := by
  rw [DmaTables.executeActive,ha]
  cases ho : s.orphanOnPru with
  | true => exact ⟨s,rfl,h,hb,fun _ hn => by rw [ho] at hn; cases hn⟩
  | false =>
    obtain ⟨done,hu⟩ := h.underway r (h.consistent.inSlot r ha)
    have hu' : ({ s.request r with chunkWords := (s.request r).nextWords done } :
        DmaRequest).Underway w done := ⟨hu.chunk,hu.more,hu.inside,hu.max,hu.cpu⟩
    simp only [Bool.false_eq_true,if_false,hu.pushChunk,bind_eq_bind,bind_some]
    refine ⟨_,rfl,⟨h.consistent,fun q hq => ?_,nofun,?_⟩,hb,fun _ _ => ?_⟩
    · by_cases hqr : q=r
      · subst hqr
        exact ⟨done,by simpa [setExecuting,setRequest] using hu'⟩
      · simpa [setExecuting,setRequest,hqr] using h.underway q hq
    · show (s.clash || s.pru≠.free)=false
      rw [h.noClash,hf ho]
      rfl
    · refine ⟨r,done,ha,?_,?_,?_,?_,nofun⟩
      · simp [setExecuting]
      · simpa [setExecuting,setRequest] using hu'
      · simp [setExecuting,setRequest,mailboxFor,nextWords]
      · simp [setExecuting,setRequest,mailboxFor,startaddr]

theorem Sound.activateNext (h : s.Sound w b) (ha : s.npr.active=none)
    (hf : s.orphanOnPru=false → s.pru=.free) : ∃ s',s.activateNext w=some s' ∧ s'.Inv w b := by
  obtain ⟨r,hr,hc,hb⟩ := h.consistent.activateLowest ha
  rw [DmaTables.activateNext,hr]
  simp only [bind_eq_bind,bind_some]
  have hs := h.withNpr hc fun t q hq => hq
  cases r with
  | none =>
    refine ⟨_,rfl,hs,hb,fun hp hn => absurd (hf hn) hp⟩
  | some r => exact hs.executeActive hb rfl hf

theorem Sound.activateExecute (h : s.Sound w b) (ha : s.npr.active=none)
    (hm : s.npr.slotRequestMask≠0) (hf : s.orphanOnPru=false → s.pru=.free) :
    ∃ s',s.activateExecute w=some s' ∧ s'.Inv w b := by
  obtain ⟨r,hr,hc,hb⟩ := h.consistent.activateLowest ha
  rw [DmaTables.activateExecute,hr]
  simp only [bind_eq_bind,bind_some]
  have hs := h.withNpr hc fun t q hq => hq
  cases r with
  | none => exact absurd (hb rfl) hm
  | some r => exact hs.executeActive hb rfl hf

theorem Sound.runQueued (h : s.Sound w b) (hf : s.npr.active=none → s.orphanOnPru=false → s.pru=.free)
    (ho : s.npr.active≠none → s.pru≠.free → s.orphanOnPru=false → s.Owned w) :
    ∃ s',s.runQueued w=some s' ∧ s'.Inv w b := by
  rw [DmaTables.runQueued]
  by_cases ha : s.npr.active=none
  · by_cases hm : s.npr.slotRequestMask=0
    · rw [if_neg (by simp [hm])]
      exact ⟨s,rfl,h,fun _ => hm,fun hp hn => absurd (hf ha hn) hp⟩
    · rw [if_pos ⟨by simp [ha],hm⟩]
      exact h.activateExecute ha hm (hf ha)
  · rw [if_neg (by simp [ha])]
    exact ⟨s,rfl,h,fun hn => absurd hn ha,ho ha⟩

theorem Inv.other (h : s.Inv w b) {r : ρ} (hr : s.npr.slotRequest (b.dmaSlot r)≠some r)
    (q : DmaRequest) (c : ρ → Bool) : { (s.setRequest r q) with complete := c : DmaTables ρ }.Inv w b := by
  have hne {p : ρ} (hp : s.npr.slotRequest (b.dmaSlot p)=some p) : p≠r := by
    intro he
    exact hr (he ▸ hp)
  refine ⟨⟨h.consistent,fun p hp => ?_,h.canceled,h.noClash⟩,h.busy,fun hb ho => ?_⟩
  · simpa [setRequest,hne hp] using h.underway p hp
  · obtain ⟨p,done,ha,hx,hu,hw,hs,he⟩ := h.owned hb ho
    have hp := hne (h.consistent.inSlot p ha)
    exact ⟨p,done,ha,hx,by simpa [setRequest,hp] using hu,by simpa [setRequest,hp] using hw,
      by simpa [setRequest,hp] using hs,by simpa [setRequest,hp] using he⟩

omit [DecidableEq ρ] in
theorem Inv.free_of_idle (h : s.Inv w b) (ha : s.npr.active=none) (ho : s.orphanOnPru=false) : s.pru=.free := by
  by_contra hp
  obtain ⟨r,-,hr,-⟩ := h.owned hp ho
  rw [ha] at hr
  cases hr

theorem Inv.accept (h : s.Inv w b) {r : ρ} (hr : s.npr.slotRequest (b.dmaSlot r)=none)
    {q : DmaRequest} (hq : q.Underway w 0) (c : ρ → Bool) : ∃ s',({ (s.setRequest r q) with
        executing := update s.executing r false,complete := c : DmaTables ρ }.schedule b r
      >>= fun s => if s.npr.active.isNone then s.activateExecute w else pure s)=some s' ∧
      s'.Inv w b := by
  have hne {p : ρ} (hp : s.npr.slotRequest (b.dmaSlot p)=some p) : p≠r := by
    intro he
    rw [he,hr] at hp
    cases hp
  have hs : ({ (s.setRequest r q) with
      executing := update s.executing r false,complete := c,
      npr := s.npr.put (b.dmaSlot r) r : DmaTables ρ }).Sound w b := by
    refine ⟨h.consistent.put hr,fun p hp => ?_,h.canceled,h.noClash⟩
    by_cases hpr : p=r
    · subst hpr
      exact ⟨0,by simpa [setRequest] using hq⟩
    · have hp' : s.npr.slotRequest (b.dmaSlot p)=some p := by
        by_cases ht : b.dmaSlot p=b.dmaSlot r
        · have hp : (s.npr.put (b.dmaSlot r) r).slotRequest (b.dmaSlot p)=some p := hp
          rw [ht,put_self] at hp
          cases hp
          exact absurd rfl hpr
        · have hp : (s.npr.put (b.dmaSlot r) r).slotRequest (b.dmaSlot p)=some p := hp
          rwa [put_of_ne r ht] at hp
      simpa [setRequest,hpr] using h.underway p hp'
  rw [schedule,if_neg (by simp [setRequest,hr])]
  simp only [bind_eq_bind,pure_def,bind_some]
  by_cases ha : s.npr.active=none
  · rw [if_pos (by simp [put,setRequest,ha])]
    refine hs.activateExecute ha ?_ (h.free_of_idle ha)
    intro hz
    have hbit := (h.consistent.put hr).bit (b.dmaSlot r)
    rw [put_self] at hbit
    have hz : (s.npr.put (b.dmaSlot r) r).slotRequestMask=0 := hz
    rw [hz] at hbit
    simp at hbit
  · rw [if_neg (by simp [put,setRequest,ha])]
    refine ⟨_,rfl,hs,fun hn => absurd hn ha,fun hb ho => ?_⟩
    obtain ⟨p,done,hap,hx,hu,hw,hst,he⟩ := h.owned hb ho
    have hp := hne (h.consistent.inSlot p hap)
    exact ⟨p,done,hap,by simpa [hp] using hx,by simpa [setRequest,hp] using hu,
      by simpa [setRequest,hp] using hw,by simpa [setRequest,hp] using hst,
      by simpa [setRequest,hp] using he⟩

theorem Inv.dma (h : s.Inv w b) (r : ρ) (control : Buscycle) (addr : Nat) (buffer : Nat → Word)
    (wordcount : Nat) (initActive answered : Bool)
    (hr : s.npr.slotRequest (b.dmaSlot r)≠some r) (hc : b.isCpuAccess r → wordcount=1) :
    ∃ s',s.dma w b r control addr buffer wordcount initActive answered=some s' ∧ s'.Inv w b := by
  have hcpu : (!b.isCpuAccess r || b.dmaSlot r=31)=true := by
    cases hx : b.isCpuAccess r with
    | false => rfl
    | true => simp [b.cpu_slot r hx]
  have hrefused : (s.refuse r addr).Inv w b := h.other hr _ _
  rw [DmaTables.dma,hcpu]
  simp only [assert_true,bind_eq_bind,bind_some]
  by_cases hw : wordcount=0 ∨ w.addrSpaceByteCount<addr+2*wordcount
  · rw [if_pos hw]; exact ⟨_,rfl,hrefused⟩
  rw [if_neg hw]
  by_cases hi : initActive
  · rw [if_pos hi]; exact ⟨_,rfl,hrefused⟩
  rw [if_neg hi]
  by_cases ha : (!b.isCpuAccess r && answered)=true
  · rw [if_pos ha]; exact ⟨_,rfl,h.other hr _ _⟩
  rw [if_neg ha]
  by_cases ht : (s.npr.slotRequest (b.dmaSlot r)).isSome
  · rw [if_pos ht]; exact ⟨_,rfl,hrefused⟩
  rw [if_neg ht]
  refine h.accept (by simpa using ht) ⟨rfl,?_,?_,rfl,hc⟩ _
  · show 0<wordcount
    omega
  · show addr+2*wordcount≤w.addrSpaceByteCount
    omega

theorem Inv.dispatch (h : s.Inv w b) : ∃ s',s.dispatch w b=some s' ∧ s'.Inv w b := by
  rw [DmaTables.dispatch]
  by_cases he : s.pru=.ended
  case neg => rw [if_neg he]; exact ⟨s,rfl,h⟩
  rw [if_pos he,chunkCompleteEvent]
  have hfree : ({ s with pru := .free } : DmaTables ρ).Sound w b :=
    ⟨h.consistent,h.underway,fun _ => rfl,h.noClash⟩
  by_cases ho : s.orphanOnPru=true
  · rw [if_pos ho]
    have hs : ({ s with pru := .free,orphanOnPru := false } : DmaTables ρ).Sound w b :=
      ⟨h.consistent,h.underway,fun _ => rfl,h.noClash⟩
    cases ha : s.npr.active with
    | none =>
      rw [if_neg (by simp [ha])]
      exact ⟨_,rfl,hs,h.busy,fun hp => absurd rfl hp⟩
    | some r =>
      rw [if_pos (by simp [ha])]
      exact hs.executeActive h.busy ha fun _ => rfl
  · rw [if_neg ho]
    rw [Bool.not_eq_true] at ho
    obtain ⟨r,done,ha,hx,hu,hw,hst,hend⟩ := h.owned (by rw [he]; decide) ho
    simp only [ha]
    rw [hu.chunkComplete hw (hend he)]
    simp only [bind_eq_bind,bind_some]
    have hin := h.consistent.inSlot r ha
    -- the other requests stay under way
    have hothers {p : ρ} (hp : p≠r) (hps : s.npr.slotRequest (b.dmaSlot p)=some p)
        (q : DmaRequest) : ∃ d,(update s.request r q p).Underway w d := by
      rw [update_of_ne hp]
      exact h.underway p hps
    cases hm : ((s.request r).afterChunk done s.mailbox).2 with
    | true =>
      rw [if_pos rfl]
      refine Sound.activateExecute ⟨h.consistent.deactivate,fun p hp => ?_,fun _ => rfl,h.noClash⟩
        rfl ?_ fun _ => rfl
      · by_cases hpr : p=r
        · subst hpr
          refine ⟨done+(s.request p).nextWords done,?_⟩
          simpa [preempt,setRequest] using hu.next hm
        · exact hothers hpr hp _
      · intro hz
        have hbit := h.consistent.bit (b.dmaSlot r)
        have hz : s.npr.slotRequestMask=0 := hz
        rw [hin,hz] at hbit
        simp at hbit
    | false =>
      rw [if_neg (by decide)]
      obtain ⟨l,hl,hc,hla,hlr,-⟩ := h.consistent.activeComplete
      have hl' := hlr r ha
      simp only [setRequest,hl,bind_some]
      have hunder {p : ρ} (hp : l.slotRequest (b.dmaSlot p)=some p) :
          s.npr.slotRequest (b.dmaSlot p)=some p ∧ p≠r := by
        rw [hl'] at hp
        by_cases ht : b.dmaSlot p=b.dmaSlot r
        · have hp : (s.npr.clear (b.dmaSlot r)).slotRequest (b.dmaSlot p)=some p := hp
          rw [ht,clear_self] at hp
          cases hp
        · have hp : (s.npr.clear (b.dmaSlot r)).slotRequest (b.dmaSlot p)=some p := hp
          rw [clear_of_ne ht] at hp
          exact ⟨hp,fun hpr => ht (hpr ▸ rfl)⟩
      split_ifs
      all_goals
        refine Sound.activateNext ⟨hc,fun p hp => ?_,fun _ => rfl,h.noClash⟩ hla fun _ => rfl
        exact hothers (hunder hp).2 (hunder hp).1 _

/-- A scheduled request that is taken out of the tables, where the PRU does not have it or the latch
stands. -/
theorem Inv.remove (h : s.Inv w b) {r : ρ} (hr : s.npr.slotRequest (b.dmaSlot r)=some r)
    (hf : s.npr.active=some r → s.orphanOnPru=false → s.pru=.free) : ∃ s',({ (s.setExecuting r false) with
        npr := if (s.npr.clear (b.dmaSlot r)).active=some r then
          { s.npr.clear (b.dmaSlot r) with active := none }
          else s.npr.clear (b.dmaSlot r) : DmaTables ρ }.runQueued w)=some s' ∧ s'.Inv w b := by
  have hslots {l : Level ρ} (hl : l=s.npr.clear (b.dmaSlot r)) {p : ρ}
      (hp : l.slotRequest (b.dmaSlot p)=some p) : s.npr.slotRequest (b.dmaSlot p)=some p := by
    subst hl
    by_cases ht : b.dmaSlot p=b.dmaSlot r
    · rw [ht,clear_self] at hp
      cases hp
    · rwa [clear_of_ne ht] at hp
  by_cases ha : s.npr.active=some r
  · rw [if_pos (show (s.npr.clear (b.dmaSlot r)).active=some r from ha)]
    have hc : ({ s.npr with active := none } : Level ρ).Consistent b.dmaSlot :=
      h.consistent.deactivate
    refine Sound.runQueued ⟨hc.clear nofun,fun p hp => h.underway p (hslots rfl hp),h.canceled,
      h.noClash⟩ (fun _ => hf ha) fun hn => absurd rfl hn
  · rw [if_neg (show ¬(s.npr.clear (b.dmaSlot r)).active=some r from ha)]
    have hne (p : ρ) (hp : s.npr.active=some p) : b.dmaSlot p≠b.dmaSlot r := by
      intro ht
      have hin := h.consistent.inSlot p hp
      rw [ht,hr] at hin
      cases hin
      exact ha hp
    refine Sound.runQueued ⟨h.consistent.clear hne,fun p hp => h.underway p (hslots rfl hp),
      h.canceled,h.noClash⟩ (fun hn => h.free_of_idle hn) fun _ hb ho => ?_
    obtain ⟨p,done,hap,hx,hrest⟩ := h.owned hb ho
    have hpr : p≠r := by
      intro hpr
      exact ha (hpr ▸ hap)
    exact ⟨p,done,hap,by simpa [setExecuting,hpr] using hx,hrest⟩

theorem Inv.setComplete (h : s.Inv w b) (r : ρ) : (s.setComplete r).Inv w b :=
  ⟨⟨h.consistent,h.underway,h.canceled,h.noClash⟩,h.busy,h.owned⟩

omit [DecidableEq ρ] in
theorem Inv.cancelOnPru (h : s.Inv w b) (answers : Bool) : (s.cancelOnPru answers).1.Inv w b ∧
    ((s.cancelOnPru answers).2 → (s.cancelOnPru answers).1.pru=.free) ∧
    (s.cancelOnPru answers).1.npr=s.npr ∧ (s.cancelOnPru answers).1.executing=s.executing ∧
    (s.cancelOnPru answers).1.orphanOnPru=s.orphanOnPru := by
  cases answers with
  | false => exact ⟨h,nofun,rfl,rfl,rfl⟩
  | true =>
    simp only [DmaTables.cancelOnPru,if_true]
    by_cases hp : s.pru=.arbitrating
    · simp only [if_pos hp]
      exact ⟨⟨⟨h.consistent,h.underway,fun _ => rfl,h.noClash⟩,h.busy,fun hn => absurd rfl hn⟩,
        fun _ => trivial,trivial,trivial,trivial⟩
    · simp only [if_neg hp]
      exact ⟨h,fun hc => h.canceled (by simpa using hc),trivial,trivial,trivial⟩

theorem Inv.abandon (h : s.Inv w b) (r : ρ) (answers : Bool) : ∃ s',s.abandon w b r answers=some s' ∧ s'.Inv w b := by
  rw [DmaTables.abandon]
  by_cases hc : s.complete r ∨ s.npr.slotRequest (b.dmaSlot r)≠some r
  · rw [if_pos hc]; exact ⟨s,rfl,h⟩
  rw [if_neg hc]
  obtain ⟨-,hr⟩ := not_or.mp hc
  rw [not_not] at hr
  cases hx : s.executing r with
  | true =>
    obtain ⟨hi,hfree,hnpr,-,-⟩ := h.cancelOnPru answers
    simp only [if_true]
    cases ht : (s.cancelOnPru answers).2 with
    | false => exact ⟨_,by simp,hi⟩
    | true =>
      obtain ⟨s',hs',hinv⟩ := hi.remove (hnpr ▸ hr) fun _ _ => hfree ht
      rw [if_neg (by decide)]
      simp only [bind_eq_bind,hs',bind_some]
      exact ⟨_,rfl,hinv.setComplete r⟩
  | false =>
    obtain ⟨s',hs',hinv⟩ := h.remove hr fun ha ho => by
      by_contra hp
      obtain ⟨q,-,hq,hxq,-⟩ := h.owned hp ho
      rw [ha] at hq
      cases hq
      rw [hx] at hxq
      cases hxq
    simp only [Bool.false_eq_true,if_false,not_true_eq_false]
    simp only [bind_eq_bind,hs',bind_some]
    exact ⟨_,rfl,hinv.setComplete r⟩

theorem Inv.spinGiveUp (h : s.Inv w b) (r : ρ) : ∃ s',s.spinGiveUp w b r=some s' ∧ s'.Inv w b := by
  rw [DmaTables.spinGiveUp]
  by_cases hc : s.orphanOnPru ∧ s.npr.slotRequest (b.dmaSlot r)=some r
  · rw [if_pos hc]
    obtain ⟨s',hs',hinv⟩ := h.remove hc.2 fun _ ho => by rw [hc.1] at ho; cases ho
    simp only [bind_eq_bind,hs',bind_some]
    exact ⟨_,rfl,hinv.setComplete r⟩
  · rw [if_neg hc]; exact ⟨s,rfl,h⟩

omit [DecidableEq ρ] in
theorem Inv.pruStarts (h : s.Inv w b) : s.pruStarts.Inv w b := by
  rw [DmaTables.pruStarts]
  split_ifs with hp
  · refine ⟨⟨h.consistent,h.underway,nofun,h.noClash⟩,h.busy,fun _ ho => ?_⟩
    obtain ⟨r,done,ha,hx,hu,hw,hs,-⟩ := h.owned (by rw [hp]; decide) ho
    exact ⟨r,done,ha,hx,hu,hw,hs,nofun⟩
  · exact h

omit [DecidableEq ρ] in
theorem Inv.pruEnds (h : s.Inv w b) (status : DmaState) (addr : Nat) : (s.pruEnds status addr).Inv w b := by
  rw [DmaTables.pruEnds]
  by_cases hp : s.pru=.running ∧ (status=.ready ∨ status=.timeoutstop ∨ status=.initstop)
  case neg => rw [if_neg hp]; exact h
  rw [if_pos hp]
  refine ⟨⟨h.consistent,h.underway,fun hc => ?_,h.noClash⟩,h.busy,fun _ ho => ?_⟩
  · have hc : status=.canceled := hc
    obtain hs | hs | hs := hp.2 <;> rw [hs] at hc <;> cases hc
  · obtain ⟨r,done,ha,hx,hu,hw,hs,-⟩ := h.owned (by rw [hp.1]; decide) ho
    refine ⟨r,done,ha,hx,hu,hw,hs,fun _ hr => ?_⟩
    have hr : status=.ready := hr
    show (if status=.ready then _ else addr)=_
    rw [if_pos hr,hs,hw]

/-- In the loop of `requests_cancel_scheduled`: what the PRU has is an orphan, or of a request whose
slot is still to come. -/
structure Cancelling (b : Board ρ ι δ) (slots : List Slot) (s : DmaTables ρ) : Prop where
  placed : ∀ t r,s.npr.slotRequest t=some r → b.dmaSlot r=t
  canceled : s.mailbox.curStatus=.canceled → s.pru=.free
  noClash : s.clash=false
  owned : s.pru≠.free → s.orphanOnPru=false →
    ∃ r,b.dmaSlot r∈slots ∧ s.npr.slotRequest (b.dmaSlot r)=some r ∧ s.executing r=true

variable {slots : List Slot}

theorem Cancelling.drop {t : Slot} {q : ρ} {x : DmaRequest}
    (h : s.Cancelling b (t::slots)) (ht : s.npr.slotRequest t=some q)
    (hx : s.pru≠.free → s.orphanOnPru=false → s.executing q=false) : ({ (s.setRequest q x).setExecuting q false with
      npr := { s.npr with slotRequest := update s.npr.slotRequest t none } :
        DmaTables ρ }.setComplete q).Cancelling b slots := by
  refine ⟨fun u r hr => ?_,h.canceled,h.noClash,fun hp ho => ?_⟩
  · have hr : update s.npr.slotRequest t none u=some r := hr
    by_cases hu : u=t
    · rw [hu,update_self] at hr; cases hr
    · rw [update_of_ne hu] at hr
      exact h.placed u r hr
  · obtain ⟨r,hm,hr,hxr⟩ := h.owned hp ho
    have hrq : r≠q := by
      intro he
      rw [he,hx hp ho] at hxr
      cases hxr
    have hrt : b.dmaSlot r≠t := by
      intro he
      rw [he,ht] at hr
      cases hr
      exact hrq rfl
    refine ⟨r,(List.mem_cons.mp hm).resolve_left hrt,?_,?_⟩
    · show update s.npr.slotRequest t none (b.dmaSlot r)=some r
      rw [update_of_ne hrt]; exact hr
    · show update s.executing q false r=true
      rw [update_of_ne hrq]; exact hxr

theorem Cancelling.cancelSlot {t : Slot} (answers : Slot → Bool)
    (h : s.Cancelling b (t::slots)) : (s.cancelSlot answers t).Cancelling b slots := by
  rw [DmaTables.cancelSlot]
  cases ht : s.npr.slotRequest t with
  | none =>
    refine ⟨h.placed,h.canceled,h.noClash,fun hp ho => ?_⟩
    obtain ⟨r,hm,hr,hx⟩ := h.owned hp ho
    refine ⟨r,(List.mem_cons.mp hm).resolve_left fun he => ?_,hr,hx⟩
    rw [he,ht] at hr
    cases hr
  | some q =>
    simp only
    by_cases hx : s.executing q=true
    case neg =>
      rw [if_neg hx]
      exact h.drop ht fun _ _ => by simpa using hx
    rw [if_pos hx]
    cases hans : answers t with
    | false =>
      simp only [DmaTables.cancelOnPru,Bool.false_eq_true,if_false]
      have ho : ({ s with orphanOnPru := true } : DmaTables ρ).Cancelling b (t::slots) :=
        ⟨h.placed,h.canceled,h.noClash,nofun⟩
      exact ho.drop ht nofun
    | true =>
      simp only [DmaTables.cancelOnPru,if_true]
      by_cases hp : s.pru=.arbitrating
      · simp only [if_pos hp,decide_true,if_true]
        have hf : ({ s with
            pru := .free,mailbox := { s.mailbox with curStatus := .canceled } } :
            DmaTables ρ).Cancelling b (t::slots) :=
          ⟨h.placed,fun _ => rfl,h.noClash,fun hn => absurd rfl hn⟩
        exact hf.drop ht fun hn => absurd rfl hn
      · simp only [if_neg hp,decide_eq_true_eq]
        by_cases hc : s.mailbox.curStatus=.canceled
        · rw [if_pos hc]
          exact h.drop ht fun hn => absurd (h.canceled hc) hn
        · rw [if_neg hc]
          have ho : ({ s with orphanOnPru := true } : DmaTables ρ).Cancelling b (t::slots) :=
            ⟨h.placed,h.canceled,h.noClash,nofun⟩
          exact ho.drop ht nofun

theorem Cancelling.foldl (answers : Slot → Bool)
    (h : s.Cancelling b slots) : (slots.foldl (DmaTables.cancelSlot answers) s).Cancelling b [] := by
  induction slots generalizing s with
  | nil => exact h
  | cons t slots ih => exact ih (h.cancelSlot answers)

/-- `requests_cancel_all` keeps the tables, where an expired latch is not on what the PRU still has. -/
theorem Inv.cancelScheduled (h : s.Inv w b) (expired : Bool) (answers : Slot → Bool)
    (hexp : s.orphanOnPru → expired → s.pru=.free) : (s.cancelScheduled expired answers).Inv w b := by
  have hc : ({ s with
      orphanOnPru := if s.orphanOnPru ∧ expired then false else s.orphanOnPru,
      npr := { s.npr with slotRequestMask := 0,active := none } } :
      DmaTables ρ).Cancelling b (List.finRange 32) := by
    refine ⟨h.consistent.placed,h.canceled,h.noClash,fun hp ho => ?_⟩
    have hno : s.orphanOnPru=false := by
      have ho : (if s.orphanOnPru=true ∧ expired=true then false else s.orphanOnPru)=false := ho
      split_ifs at ho with he
      · exact absurd (hexp he.1 he.2) hp
      · exact ho
    obtain ⟨r,-,ha,hx,-⟩ := h.owned hp hno
    exact ⟨r,List.mem_finRange _,h.consistent.inSlot r ha,hx⟩
  have hd := hc.foldl answers
  have heq : s.cancelScheduled expired answers =
      { (List.finRange 32).foldl (DmaTables.cancelSlot answers)
        { s with
          orphanOnPru := if s.orphanOnPru ∧ expired then false else s.orphanOnPru,
          npr := { s.npr with slotRequestMask := 0,active := none } } with npr := .init } := by
    rw [DmaTables.cancelScheduled]
    by_cases he : s.orphanOnPru=true ∧ expired=true
    · simp only [if_pos he]
    · simp only [if_neg he]
  rw [heq]
  refine ⟨⟨init_consistent,nofun,hd.canceled,hd.noClash⟩,init_busy,fun hp ho => ?_⟩
  obtain ⟨r,hm,-⟩ := hd.owned hp ho
  cases hm

end DmaTables

end QUniLator.Adapter
