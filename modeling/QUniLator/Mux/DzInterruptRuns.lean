import QUniLator.Mux.DzInterrupts

namespace QUniLator.Mux

open Option

namespace Dzv11

variable {b : DzBoard}

theorem lineCount_pos : 0<b.lineCount := by cases b <;> decide

variable {s : Dzv11}

theorem select_spec {i : Nat} (h : s.selectNextTxLine b=some i) : s.txEnabled i ∧ i<b.lineCount := by
  unfold selectNextTxLine at h
  obtain ⟨n,-,hn⟩ := List.mem_map.mp (List.mem_of_find?_eq_some h)
  exact ⟨by simpa using List.find?_some h,hn ▸ Nat.mod_lt _ lineCount_pos⟩

theorem Scanned.update (h : Scanned b s) : Scanned b (s.updateCsrAndIntr b) := h

theorem scanned_of_not (h : s.csrTrdy=false) : Scanned b s :=
  fun ht => by simp [h] at ht

theorem scanned_scan {e : Dzv11} (h : e.csrTrdy → e.tdrPending=false ∧ e.csrTline<b.lineCount) :
    Scanned b (e.scanTxTrdy b) := by
  have hset : Scanned b e.settle := by
    intro ht
    obtain ⟨⟨ht,hm⟩,he⟩ : (e.csrTrdy=true ∧ e.csrMse=true) ∧
        (e.tdrPending=true ∨ e.txEnabled e.csrTline=true) := by simpa [settle] using ht
    obtain ⟨hp,hl⟩ := h ht
    exact ⟨hm,hp,by simpa [hp,settle] using he,hl⟩
  have hdrop : Scanned b (e.dropped b) := by
    obtain ⟨hd,hs⟩ | ⟨hd,-⟩ := e.dropped_cases (b := b)
    · rw [hd,← hs]
      exact hset
    · rw [hd]
      exact hset
  rw [scan_eq]
  unfold shown presentTrdy
  split_ifs with hm hp
  · cases hs : (e.dropped b).selectNextTxLine b with
    | none => exact hdrop
    | some i =>
      obtain ⟨he,hi⟩ := select_spec hs
      have hw : (e.dropped b).tdrPending=false := by
        cases hw : (e.dropped b).tdrPending with
        | false => rfl
        | true => simp [hw] at hp
      exact fun _ => ⟨hm,hw,he,hi⟩
  · exact hdrop
  · exact hdrop

theorem evalCsr_ready {v : Word} (h : (s.evalCsrDato v).csrTrdy) :
    s.csrTrdy=true ∧ (s.evalCsrDato v).tdrPending=s.tdrPending ∧ (s.evalCsrDato v).csrTline=s.csrTline := by
  unfold evalCsrDato at h ⊢
  by_cases hc : v &&& 0o20=0
  · rw [if_neg (by simpa using hc)] at h ⊢
    dsimp only at h ⊢
    split at h
    · rename_i hs
      rw [if_pos hs]
      exact ⟨h,rfl,rfl⟩
    · rename_i hs
      rw [if_neg hs]
      exact ⟨h,rfl,rfl⟩
  · rw [if_pos hc] at h
    exact absurd h (by simp [masterClear,setRbufDati])

theorem evalTdr_ready {v : Word} (h : (s.evalTdrDato b v).csrTrdy) :
    s.csrTrdy=true ∧ (s.evalTdrDato b v).tdrPending=s.tdrPending ∧ (s.evalTdrDato b v).csrTline=s.csrTline := by
  cases hm : s.csrMaint with
  | false =>
    rw [evalTdr_load hm] at h
    cases h
  | true =>
    by_cases hr : s.rising b v=0
    · rw [(evalTdr_wrap hm hr).2.2.1] at h
      cases h
    · have hf := breaks_frame (b := b) (breaking b (s.rising b v) (s.broken b v))
        (breakError (s.broken b v)) (s.broken b v)
      rw [← evalTdr_break hm hr] at hf
      obtain ⟨-,-,ht,-,hl,-,hp⟩ := hf
      exact ⟨ht.symm.trans h,hp,hl⟩

theorem scanned_op (h : Scanned b s) (o : DzOp) : Scanned b (s.op b o) := by
  cases o with
  | write r v =>
    cases r with
    | csr =>
      refine Scanned.update (scanned_scan fun ht => ?_)
      obtain ⟨hts,hp,hl⟩ := evalCsr_ready ht
      rw [hp,hl]
      exact ⟨(h hts).2.1,(h hts).2.2.2⟩
    | rbufLpr =>
      show Scanned b (s.evalLprDato b v)
      rw [evalLpr_frame]
      exact h
    | tcr => exact scanned_scan fun ht => ⟨(h ht).2.1,(h ht).2.2.2⟩
    | msrTdr =>
      refine Scanned.update (scanned_scan fun ht => ?_)
      obtain ⟨hts,hp,hl⟩ := evalTdr_ready ht
      rw [hp,hl]
      exact ⟨(h hts).2.1,(h hts).2.2.2⟩
  | read r => cases r <;> exact h
  | receive line ch =>
    refine Scanned.update ?_
    obtain ⟨-,-,ht,-,-,hm,hl,he,hp,-⟩ := s.siloPush_frame (b := b) line ch 0
    unfold Scanned
    rw [ht,hm,hl,he,hp]
    exact h
  | transmit =>
    have hs := scanned_scan (b := b) fun ht => ⟨(h ht).2.1,(h ht).2.2.2⟩
    show Scanned b (s.transmit b)
    unfold transmit
    dsimp only
    split_ifs
    · exact Scanned.update (scanned_of_not rfl)
    · exact hs
  | reset => exact Scanned.update (scanned_of_not rfl)

end Dzv11

namespace DzSeat

variable {b : DzBoard}

/-- The step keeps away from the two places where the requests lose the conditions: a power event without the rise of
DCLO while one waits, and a wrap that presents TRDY at once again. -/
def Heeded (b : DzBoard) (s : DzSeat) : DzEvent → Prop
  | .power dcloRaising => dcloRaising=false → s.rcv≠.posted ∧ s.xmt≠.posted
  | .write r a data => r=.msrTdr → s.board.wrapsReady b (merge b r a data (s.latch r))=false
  | _ => True

/-- What a bus cycle and the adapter see of the interrupts is what the flags say. While INIT is asserted
and the reset of it is still to come, `INTR()` does nothing. -/
structure InterruptsRight (b : DzBoard) (s : DzSeat) : Prop where
  csr : s.board.csr=s.board.csrValue b
  rcv : s.init≠.asserted → (s.rcv≠.none ↔ s.board.rcvCond=true)
  xmt : s.init≠.asserted → (s.xmt≠.none ↔ s.board.xmtCond=true)
  rcvOnce : s.board.rcvintr.raised=s.rcvRises
  xmtOnce : s.board.xmtintr.raised=s.xmtRises

structure IntrInv (b : DzBoard) (s : DzSeat) : Prop where
  agrees : s.board.Agrees b
  scanned : s.board.Scanned b
  rcv : s.init≠.asserted → (s.rcv≠.none ↔ s.board.rcvCond=true)
  xmt : s.init≠.asserted → (s.xmt≠.none ↔ s.board.xmtCond=true)
  quiet : s.init=.done → s.board.csrRie=false ∧ s.board.csrTie=false
  rcvOnce : s.board.rcvintr.raised=s.rcvRises
  xmtOnce : s.board.xmtintr.raised=s.xmtRises

theorem IntrInv.right {s : DzSeat} (h : IntrInv b s) : InterruptsRight b s :=
  ⟨h.agrees.csr,h.rcv,h.xmt,h.rcvOnce,h.xmtOnce⟩

theorem IntrInv.congr {s t : DzSeat} (h : IntrInv b s) (hb : t.board=s.board)
    (hi : t.init=s.init) (hr : t.rcv=s.rcv) (hx : t.xmt=s.xmt)
    (hrr : t.rcvRises=s.rcvRises) (hxr : t.xmtRises=s.xmtRises) : IntrInv b t := by
  obtain ⟨ha,hs,hrc,hxc,hq,hro,hxo⟩ := h
  constructor
  all_goals rw [hb]
  · exact ha
  · exact hs
  · rw [hi,hr]; exact hrc
  · rw [hi,hx]; exact hxc
  · rw [hi]; exact hq
  · rw [hrr]; exact hro
  · rw [hxr]; exact hxo

def SameEnables (s t : Dzv11) : Prop := t.csrRie=s.csrRie ∧ t.csrTie=s.csrTie

theorem conds_of_enables {s t : Dzv11} (h : SameEnables s t) (hr : s.csrRie=false)
    (ht : s.csrTie=false) : t.rcvCond=false ∧ t.xmtCond=false := by
  simp [Dzv11.rcvCond,Dzv11.xmtCond,h.1,h.2,hr,ht]

theorem IntrInv.perform {s : DzSeat} (h : IntrInv b s) {o : DzOp} (ht : s.board.Told b o)
    (hq : s.init≠.negated → SameEnables s.board (s.board.op b o) ∧
      SameEnables s.board (s.board.settled b o)) : IntrInv b (s.perform b o) := by
  have hlr : s.init≠.asserted → (s.rcv≠.none ↔ s.board.rcvintr.signalLevel=true) := by
    rw [h.agrees.rcv]
    exact h.rcv
  have hlx : s.init≠.asserted → (s.xmt≠.none ↔ s.board.xmtintr.signalLevel=true) := by
    rw [h.agrees.xmt]
    exact h.xmt
  cases hi : s.init with
  | negated =>
    have hna : s.init≠.asserted := by rw [hi]; rintro ⟨⟩
    have hdec : decide (s.init≠.negated)=false := by rw [hi]; rfl
    refine ⟨ht.agrees,Dzv11.scanned_op h.scanned o,fun _ => ?_,fun _ => ?_,fun hd => ?_,
      ht.rcv.trans (by rw [h.rcvOnce]; rfl),ht.xmt.trans (by rw [h.xmtOnce]; rfl)⟩
    · show s.rcv.after (decide (s.init≠.negated)) _ _≠_ ↔ (s.board.op b o).rcvCond=true
      rw [← ht.agrees.rcv,hdec]
      exact Post.after_stands ht.followsRcv (hlr hna)
    · show s.xmt.after (decide (s.init≠.negated)) _ _≠_ ↔ (s.board.op b o).xmtCond=true
      rw [← ht.agrees.xmt,hdec]
      exact Post.after_stands ht.followsXmt (hlx hna)
    · rw [show s.init=.done from hd] at hi
      cases hi
  | asserted =>
    refine ⟨ht.agrees,Dzv11.scanned_op h.scanned o,fun hn => absurd hi hn,
      fun hn => absurd hi hn,fun hd => ?_,ht.rcv.trans (by rw [h.rcvOnce]; rfl),
      ht.xmt.trans (by rw [h.xmtOnce]; rfl)⟩
    rw [show s.init=.done from hd] at hi
    cases hi
  | done =>
    have hna : s.init≠.asserted := by rw [hi]; rintro ⟨⟩
    obtain ⟨hrie,htie⟩ := h.quiet hi
    obtain ⟨ho,hs⟩ := hq (by rw [hi]; rintro ⟨⟩)
    have hc := conds_of_enables (s := s.board) (t := s.board) ⟨rfl,rfl⟩ hrie htie
    have hco := conds_of_enables ho hrie htie
    have hcs := conds_of_enables hs hrie htie
    have hrr : (s.board.op b o).rcvintr.raised=s.board.rcvintr.raised := by
      rw [ht.rcv,Dzv11.rises,hcs.1,hco.1]
      simp
    have hxr : (s.board.op b o).xmtintr.raised=s.board.xmtintr.raised := by
      rw [ht.xmt,Dzv11.rises,hcs.2,hco.2]
      simp
    refine ⟨ht.agrees,Dzv11.scanned_op h.scanned o,fun _ => ?_,fun _ => ?_,
      fun _ => ⟨ho.1.trans hrie,ho.2.trans htie⟩,
      ht.rcv.trans (by rw [h.rcvOnce]; rfl),ht.xmt.trans (by rw [h.xmtOnce]; rfl)⟩
    · show s.rcv.after _ _ _≠_ ↔ (s.board.op b o).rcvCond=true
      rw [Post.after_same hrr (by rw [ht.agrees.rcv,h.agrees.rcv,hc.1,hco.1]),hco.1,← hc.1]
      exact h.rcv hna
    · show s.xmt.after _ _ _≠_ ↔ (s.board.op b o).xmtCond=true
      rw [Post.after_same hxr (by rw [ht.agrees.xmt,h.agrees.xmt,hc.2,hco.2]),hco.2,← hc.2]
      exact h.xmt hna

theorem reset_conds (s : Dzv11) : (s.reset b).rcvCond=false ∧ (s.reset b).xmtCond=false ∧
    (s.reset b).rcvintr.raised=s.rcvintr.raised ∧ (s.reset b).xmtintr.raised=s.xmtintr.raised :=
  ⟨rfl,rfl,by rfl,by rfl⟩

theorem Post.reset_none {p : Post} {cancelAll : Bool} (h : cancelAll=false → p≠.posted) :
    p.reset cancelAll=.none := by
  cases cancelAll with
  | true => simp [Post.reset]
  | false => simp [Post.reset,h rfl]

theorem reset_quiet (s : DzSeat) (cancelAll : Bool) (hc : cancelAll=false → s.rcv≠.posted ∧ s.xmt≠.posted) :
    ((s.resetAll b cancelAll).rcv≠.none ↔ (s.resetAll b cancelAll).board.rcvCond) ∧
    ((s.resetAll b cancelAll).xmt≠.none ↔ (s.resetAll b cancelAll).board.xmtCond) := by
  obtain ⟨hr,hx,-,-⟩ := reset_conds (b := b) s.board
  have hpr := Post.reset_none (p := s.rcv) fun hf => (hc hf).1
  have hpx := Post.reset_none (p := s.xmt) fun hf => (hc hf).2
  refine ⟨?_,?_⟩
  · show s.rcv.reset cancelAll≠.none ↔ (s.board.reset b).rcvCond=true
    rw [hpr,hr]
    simp
  · show s.xmt.reset cancelAll≠.none ↔ (s.board.reset b).xmtCond=true
    rw [hpx,hx]
    simp

theorem IntrInv.resetAll {s : DzSeat} (h : IntrInv b s) {cancelAll : Bool}
    (hc : cancelAll=false → s.rcv≠.posted ∧ s.xmt≠.posted) : IntrInv b (s.resetAll b cancelAll) := by
  obtain ⟨hr,hx⟩ := s.reset_quiet (b := b) cancelAll hc
  obtain ⟨-,-,hrr,hxr⟩ := reset_conds (b := b) s.board
  exact ⟨Dzv11.agrees_update _,Dzv11.scanned_op h.scanned .reset,fun _ => hr,fun _ => hx,
    fun _ => ⟨rfl,rfl⟩,hrr.trans h.rcvOnce,hxr.trans h.xmtOnce⟩

theorem Post.grant_none (p : Post) : p.grant≠.none ↔ p≠.none := by
  cases p <;> simp [Post.grant]

theorem IntrInv.step {s t : DzSeat} {e : DzEvent} (h : IntrInv b s) (hh : Heeded b s e)
    (hs : s.step b e=some t) : IntrInv b t := by
  cases e with
  | write r a data =>
    simp only [DzSeat.step,ite_none_right_eq_some,Option.some.injEq] at hs
    obtain ⟨hi,rfl⟩ := hs
    have hl : IntrInv b (s.load r a (merge b r a data (s.latch r))) :=
      h.congr rfl rfl rfl rfl rfl rfl
    have ht : s.board.Told b (.write r (merge b r a data (s.latch r))) := by
      cases r with
      | csr => exact Dzv11.told_csr h.agrees _
      | rbufLpr => exact Dzv11.told_lpr h.agrees h.scanned _
      | tcr => exact Dzv11.told_tcr h.agrees _
      | msrTdr => exact Dzv11.told_tdr h.agrees (hh rfl)
    exact (hl.perform ht fun hn => absurd hi hn).congr rfl rfl rfl rfl rfl rfl
  | readRbuf =>
    simp only [DzSeat.step,ite_none_right_eq_some,Option.some.injEq] at hs
    obtain ⟨hi,rfl⟩ := hs
    exact h.perform (Dzv11.told_read h.agrees) fun hn => absurd hi hn
  | receive line ch =>
    simp only [DzSeat.step,ite_none_right_eq_some,Option.some.injEq] at hs
    obtain ⟨-,rfl⟩ := hs
    have hf := s.board.siloPush_frame (b := b) line ch 0
    exact h.perform (Dzv11.told_receive h.agrees line ch) fun _ =>
      ⟨⟨hf.2.2.2.1,hf.2.2.2.2.1⟩,hf.2.2.2.1,hf.2.2.2.2.1⟩
  | scan =>
    have hp : IntrInv b (s.perform b .transmit) := by
      refine h.perform (Dzv11.told_transmit h.agrees h.scanned) fun _ => ⟨?_,rfl,rfl⟩
      have hf := Dzv11.readyOnly_scan (b := b) s.board
      show SameEnables s.board (s.board.transmit b)
      unfold Dzv11.transmit
      dsimp only
      split_ifs <;> exact ⟨hf.rie,hf.tie⟩
    simp only [DzSeat.step] at hs
    split at hs <;> cases hs <;> exact hp.congr rfl rfl rfl rfl rfl rfl
  | send isOpen =>
    simp only [DzSeat.step] at hs
    split at hs <;> cases hs
    exact h.congr rfl rfl rfl rfl rfl rfl
  | grantRcv =>
    cases hs
    exact ⟨h.agrees,h.scanned,fun hi => (Post.grant_none _).trans (h.rcv hi),h.xmt,h.quiet,
      h.rcvOnce,h.xmtOnce⟩
  | grantXmt =>
    cases hs
    exact ⟨h.agrees,h.scanned,h.rcv,fun hi => (Post.grant_none _).trans (h.xmt hi),h.quiet,
      h.rcvOnce,h.xmtOnce⟩
  | power dcloRaising =>
    cases hs
    exact h.resetAll hh
  | initAssert =>
    simp only [DzSeat.step,ite_none_right_eq_some,Option.some.injEq] at hs
    obtain ⟨-,rfl⟩ := hs
    exact ⟨h.agrees,h.scanned,fun hn => absurd rfl hn,fun hn => absurd rfl hn,by rintro ⟨⟩,
      h.rcvOnce,h.xmtOnce⟩
  | initReset =>
    simp only [DzSeat.step,ite_none_right_eq_some,Option.some.injEq] at hs
    obtain ⟨-,rfl⟩ := hs
    obtain ⟨hr,hx⟩ := s.reset_quiet (b := b) true (by rintro ⟨⟩)
    obtain ⟨-,-,hrr,hxr⟩ := reset_conds (b := b) s.board
    exact ⟨Dzv11.agrees_update _,Dzv11.scanned_op h.scanned .reset,fun _ => hr,fun _ => hx,
      fun _ => ⟨rfl,rfl⟩,hrr.trans h.rcvOnce,hxr.trans h.xmtOnce⟩
  | initNegate =>
    simp only [DzSeat.step,ite_none_right_eq_some,Option.some.injEq] at hs
    obtain ⟨hi,rfl⟩ := hs
    have hna : s.init≠.asserted := by rw [hi]; rintro ⟨⟩
    exact ⟨h.agrees,h.scanned,fun _ => h.rcv hna,fun _ => h.xmt hna,by rintro ⟨⟩,h.rcvOnce,h.xmtOnce⟩

theorem start_intrInv : IntrInv b start := by
  refine ⟨⟨?_,rfl,rfl⟩,Dzv11.scanned_of_not rfl,fun _ => by simp [start,Dzv11.rcvCond],
    fun _ => by simp [start,Dzv11.xmtCond],fun _ => ⟨rfl,rfl⟩,rfl,rfl⟩
  cases b <;> rfl

/-- In every run that keeps away from the two places, a request is posted or granted exactly when its condition
stands, each rise of it made one call of `INTR()`, and CSR shows the flags. -/
theorem interrupts_right {es : List DzEvent} {t : DzSeat}
    (h : Run (Guarded (Heeded b) (step b)) start es t) : InterruptsRight b t :=
  (h.invariant (P := IntrInv b) (fun _ _ _ hs hn => hs.step hn.1 hn.2) start_intrInv).right

instance (b : DzBoard) (s : DzSeat) (e : DzEvent) : Decidable (Heeded b s e) := by
  cases e <;> unfold Heeded <;> infer_instance

def bothRequests : List DzEvent :=
  [.write .tcr .word 1,.write .csr .word 0o40140,.grantXmt,.receive 2 65,.grantRcv,.readRbuf]

/-- The transmitter's request, the receiver's in front of it, and the transmitter's again -/
theorem interrupts_right_both : ∃ t,Run (Guarded (Heeded .dzv11) (step .dzv11)) start bothRequests t ∧
    InterruptsRight .dzv11 t ∧ t.xmt=.posted ∧ t.xmtRises=2 ∧ t.rcvRises=1 := by
  obtain ⟨t,h,ht⟩ := run_of_foldlM (Heeded .dzv11) (step .dzv11)
    (fun t => t.xmt=.posted ∧ t.xmtRises=2 ∧ t.rcvRises=1) bothRequests start (by decide +kernel)
  exact ⟨t,h,interrupts_right h,by simpa using ht⟩

/-- A power event without DCLO resets the board while its request waits, which stays, for a condition that is gone. A
wrap in maintenance mode presents TRDY anew without an interrupt. -/
theorem interrupts_astray : (∃ t,Run (Guarded (fun _ _ => True) (step .dzv11)) start
      [.write .tcr .word 1,.write .csr .word 0o40040,.power false] t ∧
      ¬InterruptsRight .dzv11 t ∧ t.board.xmtCond=false ∧ t.xmt=.posted) ∧
    (∃ t,Run (Guarded (fun _ _ => True) (step .dzv11)) start
      [.write .tcr .word 1,.write .csr .word 0o40050,.grantXmt,.write .msrTdr .low 65] t ∧
      ¬InterruptsRight .dzv11 t ∧ t.board.xmtintr.raised=1 ∧ t.xmtRises=2) := by
  obtain ⟨s,hs,hst⟩ := run_of_foldlM (fun _ _ => True) (step .dzv11)
    (fun t => t.init=.negated ∧ t.board.xmtCond=false ∧ t.xmt=.posted)
    [.write .tcr .word 1,.write .csr .word 0o40040,.power false] start (by decide +kernel)
  obtain ⟨t,ht,htt⟩ := run_of_foldlM (fun _ _ => True) (step .dzv11)
    (fun t => t.board.xmtintr.raised=1 ∧ t.xmtRises=2)
    [.write .tcr .word 1,.write .csr .word 0o40050,.grantXmt,.write .msrTdr .low 65] start
    (by decide +kernel)
  obtain ⟨hi,hc,hx⟩ : s.init=.negated ∧ s.board.xmtCond=false ∧ s.xmt=.posted := by
    simpa using hst
  obtain ⟨hr,hn⟩ : t.board.xmtintr.raised=1 ∧ t.xmtRises=2 := by simpa using htt
  refine ⟨⟨s,hs,fun h => ?_,hc,hx⟩,t,ht,fun h => ?_,hr,hn⟩
  · have := (h.xmt (by simp [hi])).mp (by simp [hx])
    simp [hc] at this
  · have := h.xmtOnce
    omega

end DzSeat

end QUniLator.Mux
