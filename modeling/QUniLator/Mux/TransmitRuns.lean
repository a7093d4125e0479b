import QUniLator.Mux.Transmit

namespace QUniLator.Mux

open Option Bool Dhv11

namespace DhvSeat

structure Inv (x : DhvSeat × Reports) : Prop where
  fresh : x.1.dev.Fresh
  line : x.1.dev.csrTxLine<8
  xmt : ∀ t,x.1.dev.xmt=some t → t.line<8
  record : x.2.completed=x.2.returned++x.1.pending

variable {s t : DhvSeat} {x y : DhvSeat × Reports} {e : DhvEvent}

theorem pending_reading (h : s.reading) : s.pending=[] := by
  rw [pending,if_pos h]

theorem pending_idle (h : s.dev.csrTxAct=false) : s.pending=[] := by
  rw [pending,h]
  cases s.reading <;> rfl

theorem pending_report (hr : s.reading=false) (ha : s.dev.csrTxAct) : s.pending=[s.dev.csrTxLine] := by
  rw [pending,hr,ha]
  rfl

theorem pending_congr (hr : t.reading=s.reading) (ha : t.dev.csrTxAct=s.dev.csrTxAct)
    (hl : t.dev.csrTxLine=s.dev.csrTxLine) : t.pending=s.pending := by
  rw [pending,pending,hr,ha,hl]

theorem Inv.returns (h : Inv x) (hr : x.1.reading=false) : (csrReport x.1.dev.csr).toList=x.1.pending := by
  rw [csrReport,h.fresh.csr,csrValue_act,csrValue_line _ h.line]
  cases ha : x.1.dev.csrTxAct with
  | false => rw [pending_idle ha]; rfl
  | true => rw [pending_report hr ha]; rfl

theorem Inv.completes (h : Inv x) {lines : List Nat} (hc : Completes lines x.1.dev t.dev)
    (hx : ∀ d,t.dev.xmt=some d → d.line<8) (hr : t.reading=x.1.reading)
    (hs : lines=[] ∨ x.1.dev.csrTxAct=false ∧ x.1.reading=false) : Inv (t,⟨x.2.completed++lines,x.2.returned⟩) := by
  by_cases hl : lines=[]
  · obtain ⟨ha,hline⟩ := hc.none hl
    refine ⟨hc.fresh,hline ▸ h.line,hx,?_⟩
    show x.2.completed++lines=x.2.returned++t.pending
    rw [hl,List.append_nil,pending_congr hr ha hline]
    exact h.record
  · obtain ⟨hact,hreading⟩ := hs.resolve_left hl
    obtain ⟨ha,hline,hlt⟩ := hc.one hl
    have hrec := h.record
    rw [pending_idle hact,List.append_nil] at hrec
    refine ⟨hc.fresh,hlt,hx,?_⟩
    show x.2.completed++lines=x.2.returned++t.pending
    rw [pending_report (hr.trans hreading) ha,← hline,hrec]

theorem Inv.cleared (h : Inv x) (hf : t.dev.Fresh) (hl : t.dev.csrTxLine<8)
    (hx : ∀ d,t.dev.xmt=some d → d.line<8) (ha : t.dev.csrTxAct=false) (hp : x.1.pending=[]) : Inv (t,x.2) := by
  refine ⟨hf,hl,hx,?_⟩
  show x.2.completed=x.2.returned++t.pending
  rw [pending_idle ha,← hp]
  exact h.record

theorem Inv.step (h : Inv x) (hc : x.1.single e) (hs : DhvSeat.step x e=some y) : Inv y := by
  obtain ⟨t,ht,rfl⟩ := map_eq_some_iff.mp hs
  rw [single,and_eq_true] at hc
  obtain ⟨hrep,hc⟩ := hc
  have hrep : x.1.reports e=[] ∨ x.1.dev.csrTxAct=false ∧ x.1.reading=false := by
    simpa [alone] using hrep
  have hsame (ht : t.dev=x.1.dev) (hp : t.pending=x.1.pending) : Inv (t,x.2) :=
    ⟨by rw [ht]; exact h.fresh,by rw [ht]; exact h.line,by rw [ht]; exact h.xmt,
      by rw [hp]; exact h.record⟩
  have hnil (l : List Nat) : l++[]=l := List.append_nil l
  cases e with
  | cycle r =>
    rw [Card.Seat.step] at ht
    split_ifs at ht with hg
    cases ht
    rw [and_eq_true,and_eq_true] at hg
    obtain ⟨⟨_,hinit⟩,hnone⟩ := hg
    have hfree : x.1.reading=false := by
      rw [reading,underway,isNone_iff_eq_none.mp hnone]
      rfl
    cases hr : isCsr r with
    | false =>
      have hno : DhvSeat.reading { x.1 with access := some (r,dhv11.value r x.1.state) }=false := by
        show (isCsr r && !x.1.lineInit)=false
        rw [hr]
        rfl
      rw [reports,DhvSeat.returns,hr,hnil]
      show Inv (_,⟨x.2.completed,x.2.returned++[]⟩)
      rw [hnil]
      exact hsame rfl (pending_congr (hno.trans hfree.symm) rfl rfl)
    | true =>
      have hyes : DhvSeat.reading { x.1 with access := some (r,dhv11.value r x.1.state) }=true := by
        show (isCsr r && !x.1.lineInit)=true
        rw [hr,hinit]
        rfl
      rw [reports,DhvSeat.returns,hr,hnil]
      refine ⟨h.fresh,h.line,h.xmt,?_⟩
      show x.2.completed=(x.2.returned++(csrReport x.1.dev.csr).toList)++_
      rw [h.returns hfree,pending_reading hyes,hnil]
      exact h.record
  | callback =>
    obtain ⟨a,hacc,rfl⟩ := map_eq_some_iff.mp ht
    rw [reports,DhvSeat.returns,hnil]
    show Inv (_,⟨x.2.completed,x.2.returned++[]⟩)
    rw [hnil]
    cases hinit : x.1.lineInit with
    | true =>
      have hr : x.1.reading=false := by rw [reading,hinit,Bool.not_true,Bool.and_false]
      refine ⟨h.fresh,h.line,h.xmt,?_⟩
      show x.2.completed=x.2.returned++DhvSeat.pending ⟨x.1.state,true,none⟩
      have hp : DhvSeat.pending ⟨x.1.state,true,none⟩=x.1.pending := pending_congr hr.symm rfl rfl
      rw [hp]
      exact h.record
    | false =>
      have hr : x.1.reading=isCsr a.1 := by
        rw [reading,underway,hacc,hinit]
        exact Bool.and_true _
      cases hcsr : isCsr a.1 with
      | true =>
        have hreg := isCsr_eq hcsr
        have ha := alike_note .csr none x.1.dev
        obtain ⟨hf,hact,hline,hx⟩ := readCsr_spec (h.fresh.note .csr none)
        refine h.cleared (t := ⟨dhv11.onRead a.1 x.1.state,false,none⟩) ?_ ?_ ?_ ?_
          (pending_reading (hr.trans hcsr))
        · rw [hreg]
          exact hf
        · rw [hreg]
          exact (hline.trans ha.line).symm ▸ h.line
        · rw [hreg]
          exact fun d hd => h.xmt d (ha.xmt ▸ hx ▸ hd)
        · rw [hreg]
          exact hact
      | false =>
        obtain ⟨hf,ha⟩ := onRead_other h.fresh hcsr
        refine ⟨hf,ha.line.symm ▸ h.line,fun d hd => h.xmt d (ha.xmt ▸ hd),?_⟩
        show x.2.completed=x.2.returned++DhvSeat.pending ⟨dhv11.onRead a.1 x.1.state,false,none⟩
        have hp : DhvSeat.pending ⟨dhv11.onRead a.1 x.1.state,false,none⟩=x.1.pending :=
          pending_congr (hr.trans hcsr).symm ha.act ha.line
        rw [hp]
        exact h.record
  | write r v =>
    rw [Card.Seat.step] at ht
    split_ifs at ht with hg
    obtain ⟨u,hu,rfl⟩ := map_eq_some_iff.mp ht
    rw [and_eq_true] at hg
    have hfree : x.1.reading=false := by
      rw [reading,underway,isNone_iff_eq_none.mp hg.2]
      rfl
    rw [DhvSeat.returns]
    show Inv (_,⟨x.2.completed++x.1.dev.writeReports r v,x.2.returned++[]⟩)
    rw [hnil]
    cases hres : x.1.dev.resets r v with
    | true =>
      obtain ⟨hf,hact,hline,hx,hno⟩ := onWrite_resets hu hres
      have hact' : x.1.dev.csrTxAct=false := by simpa [undisturbed,hres] using hc
      have hno : x.1.dev.writeReports r v=[] := hno
      rw [hno,hnil]
      refine h.cleared hf ?_ ?_ hact (pending_idle hact')
      · show u.csrTxLine<8
        rw [hline]
        decide
      · exact fun d hd => h.xmt d (hx ▸ hd)
    | false =>
      obtain ⟨hcomp,hx⟩ := onWrite_completes hu h.fresh hres
      exact h.completes (t := { x.1 with state := u }) hcomp (fun d hd => h.xmt d (hx ▸ hd)) rfl hrep
  | move m =>
    obtain ⟨u,hu,rfl⟩ := map_eq_some_iff.mp ht
    rw [DhvSeat.returns]
    show Inv (_,⟨x.2.completed++x.1.dev.moveReports m,x.2.returned++[]⟩)
    rw [hnil]
    obtain ⟨hcomp,hx⟩ := move_completes hu h.fresh h.xmt
    exact h.completes (t := { x.1 with state := u }) hcomp hx rfl hrep
  | power isOpen | initAssert isOpen =>
    cases ht
    rw [reports,DhvSeat.returns,hnil]
    show Inv (_,⟨x.2.completed,x.2.returned++[]⟩)
    rw [hnil]
    exact h.cleared (fresh_update _) (Nat.zero_lt_succ 7) h.xmt rfl (List.isEmpty_iff.mp hc)
  | initNegate =>
    cases ht
    rw [reports,DhvSeat.returns,hnil]
    show Inv (_,⟨x.2.completed,x.2.returned++[]⟩)
    rw [hnil]
    refine hsame rfl ?_
    cases hu : x.1.underway with
    | true =>
      have hact : x.1.dev.csrTxAct=false := by simpa [undisturbed,hu] using hc
      rw [pending_idle hact]
      exact pending_idle hact
    | false =>
      refine pending_congr ?_ rfl rfl
      rw [reading,reading,hu]
      show (x.1.underway && _)=_
      rw [hu]
      rfl

theorem start_inv : Inv (dhv11.start,⟨[],[]⟩) where
  fresh := ⟨by decide,rfl⟩
  line := by decide
  xmt := by rintro d ⟨⟩
  record := rfl

theorem Inv.announced (h : Inv x) (hc : x.1.single e) (hs : Card.Seat.step x.1 e=some t)
    (hr : x.1.reports e≠[]) (hie : t.dev.csrTxIe) : t.dev.xmtintr.raised=x.1.dev.xmtintr.raised+1 := by
  rw [single,and_eq_true] at hc
  have hact : x.1.dev.csrTxAct=false := by
    have hrep : x.1.reports e=[] ∨ x.1.dev.csrTxAct=false ∧ x.1.reading=false := by
      simpa [alone] using hc.1
    exact (hrep.resolve_left hr).1
  cases e with
  | write r v =>
    rw [Card.Seat.step] at hs
    split_ifs at hs with hg
    obtain ⟨u,hu,rfl⟩ := map_eq_some_iff.mp hs
    cases hres : x.1.dev.resets r v with
    | true => exact absurd (onWrite_resets hu hres).2.2.2.2 hr
    | false => exact (onWrite_completes hu h.fresh hres).1.raises hr hact hie
  | move m =>
    obtain ⟨u,hu,rfl⟩ := map_eq_some_iff.mp hs
    exact (move_completes hu h.fresh h.xmt).1.raises hr hact hie
  | cycle r | callback | power isOpen | initAssert isOpen | initNegate => exact absurd rfl hr

end DhvSeat

/-- In any run where each report is read before the next transmission completes, the reads of CSR return the
transmissions in the order of completion, each once, the last report standing until then. With TX.IE set each is
announced by an interrupt. -/
theorem transmit_reported {as : List DhvEvent} {s : DhvSeat} {l : Reports}
    (h : Run (Guarded (fun x e => x.1.single e=true) DhvSeat.step) (dhv11.start,⟨[],[]⟩) as (s,l)) :
    l.completed=l.returned++s.pending ∧
    ∀ e (t : DhvSeat),s.single e → Card.Seat.step s e=some t → s.reports e≠[] → t.dev.csrTxIe →
      t.dev.xmtintr.raised=s.dev.xmtintr.raised+1 := by
  have hinv := h.invariant (P := DhvSeat.Inv) (fun _ _ _ hx hs => hx.step hs.1 hs.2) DhvSeat.start_inv
  exact ⟨hinv.record,fun e t hc hs hr hie => hinv.announced hc hs hr hie⟩

/-- Two characters on two lines, each read back before the next one -/
theorem transmit_reported_two : ∃ (s : DhvSeat) (l : Reports),
    l.completed=[2,5] ∧ l.returned=[2] ∧ s.pending=[5] ∧ l.completed=l.returned++s.pending := by
  obtain ⟨⟨s,l⟩,hs,hp⟩ := run_of_foldlM (fun x e => x.1.single e=true) DhvSeat.step
    (fun x => x.2=⟨[2,5],[2]⟩ ∧ x.1.pending=[5])
    [.write DhvReg.csr 0o40002,.write DhvReg.rbuf 0o100101,.cycle DhvReg.csr,.callback,
      .write DhvReg.csr 0o40005,.write DhvReg.rbuf 0o100102] (dhv11.start,⟨[],[]⟩) (by decide)
  obtain ⟨hl,hpend⟩ := of_decide_eq_true hp
  cases hl
  exact ⟨s,_,rfl,rfl,hpend,(transmit_reported hs).1⟩

/-- Two characters on two lines without a read between them: the second report takes the place of the
first. -/
theorem transmit_overwrites : ∃ s l, Run (Guarded (fun _ _ => True) DhvSeat.step) (dhv11.start,⟨[],[]⟩)
      [.write DhvReg.csr 0o40002,.write DhvReg.rbuf 0o100101,.write DhvReg.csr 0o40005,
        .write DhvReg.rbuf 0o100102,.cycle DhvReg.csr,.callback] (s,l) ∧
    l.completed=[2,5] ∧ l.returned=[5] ∧ s.pending=[] ∧ l.completed≠l.returned++s.pending := by
  obtain ⟨⟨s,l⟩,hs,hp⟩ := run_of_foldlM (fun _ _ => True) DhvSeat.step
    (fun x => x.2=⟨[2,5],[5]⟩ ∧ x.1.pending=[])
    [.write DhvReg.csr 0o40002,.write DhvReg.rbuf 0o100101,.write DhvReg.csr 0o40005,
      .write DhvReg.rbuf 0o100102,.cycle DhvReg.csr,.callback] (dhv11.start,⟨[],[]⟩) (by decide)
  obtain ⟨hl,hpend⟩ := of_decide_eq_true hp
  cases hl
  refine ⟨s,_,hs,rfl,rfl,hpend,?_⟩
  rw [hpend]
  decide

end QUniLator.Mux
