import Mathlib.Tactic.IntervalCases
import QUniLator.Mux.Card

namespace QUniLator.Mux

open BitVec

/-- The lines whose transmissions are complete, and those that reads of CSR have returned, in order -/
structure Reports where
  completed : List Nat
  returned : List Nat
  deriving DecidableEq

def csrReport (w : Word) : Option Nat :=
  if w.getLsbD 15 then some ((w >>> 8) &&& 0o17).toNat else none

namespace Dhv11

def isCsr (r : DhvReg) : Bool := r=.csr

/-- The lines whose transmission a write completes: a programmed character is sent at once. -/
def writeReports (r : DhvReg) (v : Word) (s : Dhv11) : List Nat :=
  if r=.rbuf ∧ v &&& 0o100000≠0 then [s.csrChannel] else []

def moveReports (m : DhvMove) (s : Dhv11) : List Nat :=
  match m with
  | .xmtEnd _ _ => s.xmt.toList.map XmtDma.line
  | .tick | .receive _ _ | .xmtStart => []

def resets (r : DhvReg) (v : Word) (s : Dhv11) : Bool :=
  isCsr r && v &&& 0o40≠0 && !s.csrMasterReset

end Dhv11

abbrev DhvSeat := dhv11.Seat

abbrev DhvEvent := dhv11.Event

namespace DhvSeat

def dev (s : DhvSeat) : Dhv11 := s.state

def underway (s : DhvSeat) : Bool := s.access.any fun a => Dhv11.isCsr a.1

def reading (s : DhvSeat) : Bool := s.underway && !s.lineInit

def pending (s : DhvSeat) : List Nat :=
  if s.reading then [] else if s.dev.csrTxAct then [s.dev.csrTxLine] else []

def reports (s : DhvSeat) : DhvEvent → List Nat
  | .write r v => s.dev.writeReports r v
  | .move m => s.dev.moveReports m
  | .cycle _ | .callback | .power _ | .initAssert _ | .initNegate => []

def returns (s : DhvSeat) : DhvEvent → Option Nat
  | .cycle r => if Dhv11.isCsr r then csrReport s.dev.csr else none
  | .callback | .write _ _ | .move _ | .power _ | .initAssert _ | .initNegate => none

/-- No transmission completes while a report stands or a read of CSR is underway. -/
def alone (s : DhvSeat) (e : DhvEvent) : Bool :=
  (s.reports e).isEmpty || !s.dev.csrTxAct && !s.reading

/-- No reset comes while a report stands that no read has taken, and INIT does not end between a report
and the callback of a read. -/
def undisturbed (s : DhvSeat) : DhvEvent → Bool
  | .write r v => !(s.dev.resets r v && s.dev.csrTxAct)
  | .power _ | .initAssert _ => s.pending.isEmpty
  | .initNegate => !(s.underway && s.dev.csrTxAct)
  | .cycle _ | .callback | .move _ => true

def single (s : DhvSeat) (e : DhvEvent) : Bool := s.alone e && s.undisturbed e

def step (x : DhvSeat × Reports) (e : DhvEvent) : Option (DhvSeat × Reports) :=
  (Card.Seat.step x.1 e).map fun t =>
    (t,⟨x.2.completed++x.1.reports e,x.2.returned++(x.1.returns e).toList⟩)

end DhvSeat

namespace Dhv11

variable {s t u : Dhv11}

/-- CSR shows the state, and the transmitter's interrupt follows it. -/
structure Fresh (s : Dhv11) : Prop where
  csr : s.csr=s.csrValue
  level : s.xmtintr.signalLevel=(s.csrTxIe && s.csrTxAct)

/-- The report, and the transfer that runs, are as they were. -/
structure Alike (s t : Dhv11) : Prop where
  act : t.csrTxAct=s.csrTxAct
  line : t.csrTxLine=s.csrTxLine
  xmt : t.xmt=s.xmt

theorem Alike.refl (s : Dhv11) : Alike s s := ⟨rfl,rfl,rfl⟩

theorem Alike.trans (h : Alike s t) (h' : Alike t u) : Alike s u :=
  ⟨h'.act.trans h.act,h'.line.trans h.line,h'.xmt.trans h.xmt⟩

theorem update_signalLevel (level : Bool) (r : IntrRequest) : (r.update level).signalLevel=level := by
  rw [IntrRequest.update]
  by_cases h : r.signalLevel=level
  · rw [if_pos h]
    exact h
  · rw [if_neg h]

theorem fresh_update (s : Dhv11) : s.updateCsrAndIntr.Fresh :=
  ⟨rfl,update_signalLevel _ _⟩

theorem Fresh.congr (h : s.Fresh) (hv : t.csrValue=s.csrValue) (hc : t.csr=s.csr)
    (hx : t.xmtintr=s.xmtintr) (hie : t.csrTxIe=s.csrTxIe) (ha : t.csrTxAct=s.csrTxAct) : t.Fresh :=
  ⟨by rw [hc,hv]; exact h.csr,by rw [hx,hie,ha]; exact h.level⟩

theorem flag_getLsbD (b : Bool) (mask : Word) (i : Nat) : (flag b mask).getLsbD i=(b && mask.getLsbD i) := by
  cases b <;> simp [flag]

theorem csrValue_act (s : Dhv11) : s.csrValue.getLsbD 15=s.csrTxAct := by
  simp only [csrValue,getLsbD_or,getLsbD_and,flag_getLsbD]
  simp

theorem flag_line (b : Bool) (mask : Word) (h : (mask >>> 8) &&& 0o17=0) : (flag b mask >>> 8) &&& 0o17=0#16 := by
  cases b with
  | false => simp [flag]
  | true => exact h

theorem csrValue_line (s : Dhv11) (h : s.csrTxLine<8) : ((s.csrValue >>> 8) &&& 0o17).toNat=s.csrTxLine := by
  have hchan : ((BitVec.ofNat 16 s.csrChannel &&& 0o17) >>> 8) &&& 0o17=0#16 := by
    rw [ushiftRight_and_distrib]
    have hz : (0o17 : Word) >>> 8=0#16 := rfl
    rw [hz,and_zero,zero_and]
  simp only [csrValue,ushiftRight_or_distrib,BitVec.and_or_distrib_right,hchan,
    flag_line _ 0o100000 rfl,flag_line _ 0o040000 rfl,
    flag_line _ 0o020000 rfl,flag_line _ 0o000200 rfl,
    flag_line _ 0o000100 rfl,flag_line _ 0o000040 rfl,
    zero_or,or_zero]
  generalize s.csrTxLine=line at h
  interval_cases line <;> rfl

variable {r : DhvReg}

theorem isCsr_eq (h : isCsr r) : r=.csr := of_decide_eq_true h

/-! What the parts of the card do to the report -/

theorem alike_push (w : Word) (s : Dhv11) : Alike s (s.rxFifoPush w) := by
  rw [rxFifoPush]
  split_ifs <;> exact ⟨rfl,rfl,rfl⟩

theorem alike_complete (s : Dhv11) : Alike s s.completeSelftest := by
  rw [completeSelftest]
  split_ifs <;> exact ⟨rfl,rfl,rfl⟩

theorem alike_note (r : DhvReg) (w : Option Word) (s : Dhv11) : Alike s (s.noteAccess r w) := by
  unfold noteAccess
  dsimp only
  split_ifs <;> exact ⟨rfl,rfl,rfl⟩

theorem noteAccess_shows (r : DhvReg) (w : Option Word) (s : Dhv11) :
    (s.noteAccess r w).csrTxIe=s.csrTxIe ∧ (s.noteAccess r w).xmtintr=s.xmtintr ∧
      (s.noteAccess r w).csrChannel=s.csrChannel ∧ (s.noteAccess r w).csrMasterReset=s.csrMasterReset := by
  unfold noteAccess
  dsimp only
  split_ifs <;> exact ⟨rfl,rfl,rfl,rfl⟩

theorem Fresh.note (h : s.Fresh) (r : DhvReg) (w : Option Word) : (s.noteAccess r w).Fresh := by
  unfold noteAccess
  dsimp only
  split_ifs <;> exact h.congr rfl rfl rfl rfl rfl

theorem pollSelftest_spec (h : s.Fresh) : s.pollSelftest.Fresh ∧ Alike s s.pollSelftest := by
  unfold pollSelftest
  dsimp only
  split_ifs
  · obtain ⟨h1,h2,h3⟩ := alike_complete { s with selftestPolls := s.selftestPolls+1 }
    exact ⟨fresh_update _,⟨h1,h2,h3⟩⟩
  · exact ⟨h.congr rfl rfl rfl rfl rfl,⟨rfl,rfl,rfl⟩⟩
  · exact ⟨h,.refl s⟩

theorem readCsr_spec (h : s.Fresh) : s.readCsr.Fresh ∧ s.readCsr.csrTxAct=false ∧ s.readCsr.csrTxLine=s.csrTxLine ∧
      s.readCsr.xmt=s.xmt := by
  obtain ⟨hf,ha⟩ := pollSelftest_spec h
  rw [readCsr,clearTxAct]
  by_cases hact : s.pollSelftest.csrTxAct
  · rw [if_pos hact]
    exact ⟨fresh_update _,rfl,ha.line,ha.xmt⟩
  · rw [if_neg hact]
    exact ⟨hf,Bool.not_eq_true _ |>.mp hact,ha.line,ha.xmt⟩

theorem onRead_other (h : s.Fresh) (hr : isCsr r=false) : (s.onRead r).Fresh ∧ Alike s (s.onRead r) := by
  have hn := h.note r none
  have ha := alike_note r none s
  cases r with
  | csr => cases hr
  | rbuf => exact ⟨fresh_update _,ha.act,ha.line,ha.xmt⟩
  | lpr | lnctrl | tbuffad1 | tbuffad2 | tbuffct => exact ⟨hn,ha⟩

theorem tick_spec (h : s.Fresh) : s.tick.Fresh ∧ Alike s s.tick := by
  unfold tick
  dsimp only
  split_ifs
  · exact ⟨h.congr rfl rfl rfl rfl rfl,⟨rfl,rfl,rfl⟩⟩
  · obtain ⟨h1,h2,h3⟩ := alike_complete { s with selftestTicks := s.selftestTicks-1 }
    exact ⟨fresh_update _,⟨h1,h2,h3⟩⟩
  · exact ⟨h.congr rfl rfl rfl rfl rfl,⟨rfl,rfl,rfl⟩⟩
  · exact ⟨h,.refl s⟩

theorem update_raises {r : IntrRequest} (h : r.signalLevel=false) : (r.update true).raised=r.raised+1 := by
  rw [IntrRequest.update,if_neg (by rw [h]; simp)]
  rfl

/-- From `s` to `t` the transmissions of `lines` are completed: of none or of one. -/
structure Completes (lines : List Nat) (s t : Dhv11) : Prop where
  fresh : t.Fresh
  none : lines=[] → t.csrTxAct=s.csrTxAct ∧ t.csrTxLine=s.csrTxLine
  one : lines≠[] → t.csrTxAct=true ∧ lines=[t.csrTxLine] ∧ t.csrTxLine<8
  raises : lines≠[] → s.csrTxAct=false → t.csrTxIe → t.xmtintr.raised=s.xmtintr.raised+1

theorem completes_none (hf : t.Fresh) (ha : t.csrTxAct=s.csrTxAct)
    (hl : t.csrTxLine=s.csrTxLine) : Completes [] s t :=
  ⟨hf,fun _ => ⟨ha,hl⟩,fun hx => absurd rfl hx,fun hx => absurd rfl hx⟩

theorem Alike.completes (h : Alike s t) (hf : t.Fresh) : Completes [] s t :=
  completes_none hf h.act h.line

theorem completes_report {line : Nat} (hs : s.Fresh) (hline : line<8)
    (hx : t.xmtintr=s.xmtintr) : Completes [line] s (t.txReport line).updateCsrAndIntr := by
  refine ⟨fresh_update _,by rintro ⟨⟩,fun _ => ⟨rfl,?_,Nat.mod_lt line (by decide)⟩,fun _ ha ht => ?_⟩
  · show [line]=[line%8]
    rw [Nat.mod_eq_of_lt hline]
  · have ht : t.csrTxIe=true := ht
    have hlevel : s.xmtintr.signalLevel=false := by rw [hs.level,ha,Bool.and_false]
    show (t.xmtintr.update (t.csrTxIe && true)).raised=_
    rw [ht,hx]
    exact update_raises hlevel

theorem push_intr (w : Word) (s : Dhv11) : (s.rxFifoPush w).xmtintr=s.xmtintr := by
  rw [rxFifoPush]
  split_ifs <;> rfl

theorem pushes_intr (line : Nat) (bytes : List Byte) (s : Dhv11) :
    (bytes.foldl (fun s b => s.rxFifoPush (rbufWord 0 line b)) s).xmtintr=s.xmtintr := by
  induction bytes generalizing s with
  | nil => rfl
  | cons b bytes ih => exact (ih (s.rxFifoPush (rbufWord 0 line b))).trans (push_intr _ s)

theorem Completes.note {lines : List Nat} {w : Option Word}
    (h : Completes lines (s.noteAccess r w) t) : Completes lines s t := by
  have ha := alike_note r w s
  have hx := (noteAccess_shows r w s).2.1
  refine ⟨h.fresh,fun hl => ?_,h.one,fun hl hact ht => ?_⟩
  · rw [← ha.act,← ha.line]
    exact h.none hl
  · rw [← hx]
    exact h.raises hl (ha.act.trans hact) ht

theorem onWrite_completes {w : Word} (h : s.onWrite r w=some t) (hs : s.Fresh)
    (hr : s.resets r w=false) : Completes (s.writeReports r w) s t ∧ t.xmt=s.xmt := by
  have hn := hs.note r (some w)
  have ha := alike_note r (some w) s
  obtain ⟨-,hintr,hchan,hreset⟩ := noteAccess_shows r (some w) s
  unfold onWrite at h
  dsimp only at h
  by_cases hcsr : r=.csr
  · subst hcsr
    rw [if_pos rfl] at h
    cases h
    have hno : ¬(w &&& 0o40≠0 ∧ !(s.noteAccess .csr (some w)).csrMasterReset) := by
      rw [hreset]
      simpa [resets,isCsr] using hr
    unfold writeCsr
    dsimp only
    rw [if_neg hno,writeReports,if_neg (fun hx => by cases hx.1)]
    exact ⟨(Alike.completes ⟨ha.act,ha.line,ha.xmt⟩ (fresh_update _)),ha.xmt⟩
  · rw [if_neg hcsr] at h
    by_cases hc : 8 ≤ s.csrChannel
    · rw [if_pos hc] at h
      cases h
    · rw [if_neg hc] at h
      have hquiet (hne : r≠.rbuf) {u : Dhv11} (hu : Alike (s.noteAccess r (some w)) u)
          (hf : u.Fresh) : Completes (s.writeReports r w) s u ∧ u.xmt=s.xmt := by
        rw [writeReports,if_neg (fun hx => hne hx.1)]
        exact ⟨(ha.trans hu).completes hf,(ha.trans hu).xmt⟩
      cases r with
      | csr => exact absurd rfl hcsr
      | rbuf =>
        cases h
        rw [writeReports,writeTxchar]
        by_cases hw : w &&& 0o100000=0
        · rw [if_pos hw,if_neg (fun hx => hx.2 hw)]
          exact ⟨ha.completes hn,ha.xmt⟩
        · rw [if_neg hw,if_pos ⟨rfl,hw⟩]
          have hline : s.csrChannel<8 := Nat.lt_of_not_le hc
          by_cases hl : ((s.noteAccess .rbuf (some w)).chan s.csrChannel).wraps
          · dsimp only
            rw [if_pos hl]
            exact ⟨(completes_report hn hline (push_intr _ _)).note,(ha.trans (alike_push _ _)).xmt⟩
          · dsimp only
            rw [if_neg hl]
            exact ⟨(completes_report hn hline rfl).note,ha.xmt⟩
      | lpr =>
        cases h
        refine hquiet (by rintro ⟨⟩) ?_ ?_
        · rw [writeLpr]
          split_ifs
          · obtain ⟨h1,h2,h3⟩ := alike_push (rbufWord rbufDiag s.csrChannel 0o305)
              (s.noteAccess .lpr (some w))
            exact ⟨h1,h2,h3⟩
          · exact ⟨rfl,rfl,rfl⟩
        · rw [writeLpr]
          split_ifs
          · exact (fresh_update ((s.noteAccess .lpr (some w)).rxFifoPush
              (rbufWord rbufDiag s.csrChannel 0o305))).congr rfl rfl rfl rfl rfl
          · exact hn.congr rfl rfl rfl rfl rfl
      | lnctrl | tbuffad1 | tbuffad2 | tbuffct =>
        cases h
        exact hquiet (by rintro ⟨⟩) ⟨rfl,rfl,rfl⟩ (hn.congr rfl rfl rfl rfl rfl)

theorem onWrite_resets {w : Word} (h : s.onWrite r w=some t) (hr : s.resets r w) :
    t.Fresh ∧ t.csrTxAct=false ∧ t.csrTxLine=0 ∧ t.xmt=s.xmt ∧ s.writeReports r w=[] := by
  rw [resets,Bool.and_eq_true,Bool.and_eq_true] at hr
  obtain ⟨⟨hcsr,hw⟩,hm⟩ := hr
  have hcsr : r=.csr := of_decide_eq_true hcsr
  subst hcsr
  have ha := alike_note .csr (some w) s
  unfold onWrite at h
  dsimp only at h
  rw [if_pos rfl] at h
  cases h
  have hyes : w &&& 0o40≠0 ∧ !(s.noteAccess .csr (some w)).csrMasterReset := by
    rw [(noteAccess_shows .csr (some w) s).2.2.2]
    exact ⟨of_decide_eq_true hw,hm⟩
  unfold writeCsr
  dsimp only
  rw [if_pos hyes]
  exact ⟨fresh_update _,rfl,rfl,ha.xmt,rfl⟩

theorem move_completes {m : DhvMove} (h : s.move m=some t) (hs : s.Fresh) (hx : ∀ x,s.xmt=some x → x.line<8) :
    Completes (s.moveReports m) s t ∧ ∀ x,t.xmt=some x → x.line<8 := by
  cases m with
  | tick =>
    cases h
    obtain ⟨hf,ha⟩ := tick_spec hs
    exact ⟨ha.completes hf,fun x hx' => hx x (ha.xmt ▸ hx')⟩
  | receive line ch =>
    rw [move] at h
    split_ifs at h
    cases h
    obtain ⟨h1,h2,h3⟩ := alike_push (rbufWord 0 line ch) s
    exact ⟨Alike.completes ⟨h1,h2,h3⟩ (fresh_update _),fun x hx' => hx x (h3 ▸ hx')⟩
  | xmtStart =>
    rw [move] at h
    split_ifs at h
    obtain ⟨line,hline,ht⟩ := Option.bind_eq_some_iff.mp h
    cases ht
    refine ⟨completes_none (hs.congr rfl rfl rfl rfl rfl) rfl rfl,fun x hx' => ?_⟩
    cases hx'
    exact List.mem_range.mp (List.mem_of_find?_eq_some hline)
  | xmtEnd ok bytes =>
    obtain ⟨x,hxs,ht⟩ := Option.bind_eq_some_iff.mp h
    cases ht
    have hline := hx x hxs
    have hrep : s.moveReports (.xmtEnd ok bytes)=[x.line] := by
      show s.xmt.toList.map XmtDma.line=_
      rw [hxs]
      rfl
    rw [hrep]
    refine ⟨?_,by rintro y ⟨⟩⟩
    by_cases hw : x.wraps ok
    · dsimp only
      rw [if_pos hw]
      have hc := completes_report hs hline (pushes_intr x.line (bytes.take x.size) s)
      exact ⟨hc.fresh.congr rfl rfl rfl rfl rfl,hc.none,hc.one,hc.raises⟩
    · dsimp only
      rw [if_neg hw]
      have hc := completes_report (t := s) hs hline rfl
      exact ⟨hc.fresh.congr rfl rfl rfl rfl rfl,hc.none,hc.one,hc.raises⟩

end Dhv11

end QUniLator.Mux
