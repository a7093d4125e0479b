import Mathlib.Tactic.IntervalCases
import QUniLator.Mux.Receive

namespace QUniLator.Mux

open List BitVec

namespace Dhv11

def loads (skip : Bool) : List (SiloOp Word) := .clear::(selftestCodes skip).map .push

def polledDone (s : Dhv11) : Bool := s.csrMasterReset && s.selftestTarget ≤ s.selftestPolls+1

/-- A round of `worker_rcv` that completes it -/
def tickedDone (s : Dhv11) : Bool :=
  s.selftestPending && s.pollActiveTicks=0 && s.selftestTicks-1≤0 && s.csrMasterReset

end Dhv11

def dhvReceiver : Receiver dhv11 where
  isRbuf := fun (r : DhvReg) => r=.rbuf
  fifo := Dhv11.rxFifo
  capacity := 256
  lines := 8
  entry := rbufWord 0
  reads := fun (r : DhvReg) (s : Dhv11) =>
    match r with
    | .rbuf => [.drop]
    | .csr => if s.polledDone then Dhv11.loads s.selftestSkip else []
    | .lpr | .lnctrl | .tbuffad1 | .tbuffad2 | .tbuffct => []
  writes := fun (r : DhvReg) w (s : Dhv11) =>
    match r with
    | .csr => if w &&& 0o40≠0 ∧ !s.csrMasterReset then [.clear] else []
    | .rbuf =>
      if w &&& 0o100000≠0 ∧ (s.chan s.csrChannel).wraps then
        [.push (rbufWord 0 s.csrChannel (w.setWidth 8))]
      else []
    | .lpr => if w &&& 0o6=0o2 then [.push (rbufWord rbufDiag s.csrChannel 0o305)] else []
    | .lnctrl | .tbuffad1 | .tbuffad2 | .tbuffct => []
  moves := fun (m : DhvMove) (s : Dhv11) =>
    match m with
    | .tick => if s.tickedDone then Dhv11.loads s.selftestSkip else []
    | .receive line ch => [.push (rbufWord 0 line ch)]
    | .xmtStart => []
    | .xmtEnd ok bytes =>
      (s.xmt.map fun x =>
        if x.wraps ok then (bytes.take x.size).map fun b => .push (rbufWord 0 x.line b)
        else []).getD []
  resets := (Dhv11.selftestCodes false).map .push

theorem dhv_isRbuf {r : DhvReg} (h : dhvReceiver.isRbuf r) : r=.rbuf := of_decide_eq_true h

theorem rbufValid_rbufWord (marker : Word) (line : Nat) (ch : Byte) : rbufValid (rbufWord marker line ch) := by
  rw [rbufValid,rbufWord,getLsbD_or,getLsbD_or,getLsbD_or]
  rfl

theorem carries_word (line : Nat) (hline : line<8) (ch : Byte) :
    Carries (0o100000 ||| (BitVec.ofNat 16 line <<< 8) ||| ch.setWidth 16) line ch := by
  refine ⟨?_,?_,?_⟩
  · rw [rbufValid,getLsbD_or,getLsbD_or]
    rfl
  · have hch : (ch.setWidth 16) >>> 8=0#16 := by
      ext i hi
      simp
    rw [ushiftRight_or_distrib,hch,or_zero]
    interval_cases line <;> rfl
  · have hshift : ((BitVec.ofNat 16 line) <<< 8).setWidth 8=0#8 := by
      ext i hi
      simp
    rw [setWidth_or,setWidth_or,hshift,setWidth_setWidth_of_le ch (by omega),
      setWidth_eq]
    exact zero_or

theorem rbufWord_carries (line : Nat) (hline : line<8) (ch : Byte) : Carries (rbufWord 0 line ch) line ch := by
  have h := carries_word line hline ch
  rw [rbufWord,Nat.mod_eq_of_lt hline]
  exact h

namespace Dhv11

/-- `Receiver.Does` of this card -/
def Does (ops : List (SiloOp Word)) (s t : Dhv11) : Prop := dhvReceiver.Does ops s t

variable {s t u : Dhv11} {ops ops' : List (SiloOp Word)}

theorem Does.trans (h : Does ops s t) (h' : Does ops' t u) : Does (ops++ops') s u :=
  Receiver.Does.trans h h'

theorem Does.quiet (h : Does ops s t) (h' : Does [] t u) : Does ops s u := by
  have hu := h.trans h'
  rwa [append_nil] at hu

theorem does_push (s : Dhv11) {w : Word} (hw : rbufValid w) : Does [.push w] s (s.rxFifoPush w) where
  fifo := by
    show (s.rxFifoPush w).rxFifo=pushFull markOverrun (decide (256 ≤ s.rxFifo.length)) w s.rxFifo
    rw [rxFifoPush,pushFull]
    by_cases h : 256 ≤ s.rxFifo.length
    · rw [if_pos h,if_pos (decide_eq_true h)]
      rfl
    · rw [if_neg h,if_neg (by rwa [decide_eq_true_eq])]
      rfl
  shown := by
    intro _ r hr
    cases dhv_isRbuf hr
    rfl
  valid := by
    intro x hx
    cases mem_singleton.mp hx
    exact hw

theorem does_keep (hf : t.rxFifo=s.rxFifo) (hr : t.rbuf=s.rbuf) : Does [] s t := by
  refine Receiver.Does.none hf fun hs r hx => ?_
  have hs := hs r hx
  cases dhv_isRbuf hx
  show t.rbuf=t.rxFifo.head?.getD 0
  rw [hf,hr]
  exact hs

theorem valid_loads (skip : Bool) (w : Word) (hw : SiloOp.push w∈loads skip) : rbufValid w := by
  obtain hw | hw := mem_cons.mp hw
  · cases hw
  · obtain ⟨x,hx,he⟩ := List.mem_map.mp hw
    cases he
    simp only [selftestCodes,mem_cons,not_mem_nil,or_false] at hx
    obtain rfl | rfl | rfl | rfl | rfl | rfl | rfl | rfl := hx <;> exact rbufValid_rbufWord _ _ _

theorem foldl_loads (skip : Bool) (l : List Word) :
    (loads skip).foldl (SiloOp.onEntries 256 markOverrun) l=selftestCodes skip := by
  rw [loads,foldl_cons]
  exact SiloOp.foldl_push (selftestCodes skip) [] (by simp [selftestCodes])

theorem does_load (s : Dhv11) : Does (loads s.selftestSkip) s s.loadSelftestCodes where
  fifo := (foldl_loads s.selftestSkip s.rxFifo).symm
  shown := by
    intro _ r hr
    cases dhv_isRbuf hr
    rfl
  valid := valid_loads s.selftestSkip

theorem does_pushes (line : Nat) (bytes : List Byte) (s : Dhv11) :
    Does (bytes.map fun b => .push (rbufWord 0 line b)) s
      (bytes.foldl (fun s b => s.rxFifoPush (rbufWord 0 line b)) s) := by
  induction bytes generalizing s with
  | nil => exact does_keep rfl rfl
  | cons b bytes ih => exact (s.does_push (rbufValid_rbufWord 0 line b)).trans (ih _)

theorem noteAccess_fifo (r : DhvReg) (w : Option Word) (s : Dhv11) : (s.noteAccess r w).rxFifo=s.rxFifo := by
  unfold noteAccess
  dsimp only
  split_ifs <;> rfl

theorem noteAccess_rbuf (r : DhvReg) (w : Option Word) (s : Dhv11) : (s.noteAccess r w).rbuf=s.rbuf := by
  unfold noteAccess
  dsimp only
  split_ifs <;> rfl

theorem noteAccess_masterReset (r : DhvReg) (w : Option Word) (s : Dhv11) :
    (s.noteAccess r w).csrMasterReset=s.csrMasterReset := by
  unfold noteAccess
  dsimp only
  split_ifs <;> rfl

theorem noteAccess_chan (r : DhvReg) (w : Option Word) (s : Dhv11) : (s.noteAccess r w).chan=s.chan := by
  unfold noteAccess
  dsimp only
  split_ifs <;> rfl

theorem noteAccess_read (r : DhvReg) (s : Dhv11) : (s.noteAccess r none).polledDone=s.polledDone ∧
      (s.noteAccess r none).selftestSkip=s.selftestSkip := by
  unfold noteAccess
  dsimp only
  split_ifs with h hw
  · cases hw.1
  · exact ⟨rfl,rfl⟩
  · exact ⟨rfl,rfl⟩

theorem does_note (r : DhvReg) (w : Option Word) (s : Dhv11) : Does [] s (s.noteAccess r w) :=
  does_keep (noteAccess_fifo r w s) (noteAccess_rbuf r w s)

theorem does_update (s : Dhv11) : Does [] s s.updateCsrAndIntr := does_keep rfl rfl

theorem does_complete (h : s.csrMasterReset) : Does (loads s.selftestSkip) s s.completeSelftest := by
  rw [completeSelftest,if_pos h]
  have hd : Does [] s s.setDefaults := does_keep rfl rfl
  exact (hd.trans s.setDefaults.does_load).quiet (does_keep rfl rfl)

theorem does_clearTxAct (s : Dhv11) : Does [] s s.clearTxAct := by
  rw [clearTxAct]
  split_ifs
  all_goals exact does_keep rfl rfl

theorem does_pollSelftest (s : Dhv11) :
    Does (if s.polledDone then loads s.selftestSkip else []) s s.pollSelftest := by
  rw [pollSelftest,polledDone]
  by_cases hm : s.csrMasterReset
  · by_cases hp : s.selftestTarget ≤ s.selftestPolls+1
    · rw [if_pos hm,if_pos (by simp [hm,hp]),if_pos hp]
      have hd : Does [] s { s with selftestPolls := s.selftestPolls+1 } := does_keep rfl rfl
      have hc := does_complete (s := { s with selftestPolls := s.selftestPolls+1 }) hm
      exact (hd.trans hc).quiet (does_update _)
    · rw [if_pos hm,if_neg (by simp [hp]),if_neg hp]
      exact does_keep rfl rfl
  · rw [if_neg hm,if_neg (by simp [hm])]
    exact does_keep rfl rfl

theorem does_readRbuf (s : Dhv11) : Does [.drop] s s.readRbuf where
  fifo := rfl
  shown := by
    intro _ r hr
    cases dhv_isRbuf hr
    rfl
  valid := by simp

theorem does_onRead (r : DhvReg) (s : Dhv11) : Does (dhvReceiver.reads r s) s (s.onRead r) := by
  have hn := does_note r none s
  cases r with
  | csr =>
    have hr := does_pollSelftest (s.noteAccess .csr none)
    rw [(noteAccess_read .csr s).1,(noteAccess_read .csr s).2] at hr
    exact hn.trans (hr.quiet (does_clearTxAct _))
  | rbuf => exact hn.trans (does_readRbuf _)
  | lpr | lnctrl | tbuffad1 | tbuffad2 | tbuffct => exact hn

theorem does_masterReset (s : Dhv11) : Does [.clear] s s.masterReset where
  fifo := rfl
  shown := by
    intro _ r hr
    cases dhv_isRbuf hr
    rfl
  valid := by simp

theorem does_writeCsr (w : Word) (s : Dhv11) :
    Does (if w &&& 0o40≠0 ∧ !s.csrMasterReset then [.clear] else []) s (s.writeCsr w) := by
  unfold writeCsr
  dsimp only
  have hd : Does [] s { s with
      csrRxIe := w &&& 0o100≠0,csrTxIe := w &&& 0o40000≠0,csrChannel := (w &&& 0o17).toNat } :=
    does_keep rfl rfl
  by_cases h : w &&& 0o40≠0 ∧ !s.csrMasterReset
  · rw [if_pos h,if_pos h]
    exact (hd.trans (does_masterReset _)).quiet (does_update _)
  · rw [if_neg h,if_neg h]
    exact hd.quiet (does_update _)

theorem does_writeTxchar (c : Nat) (w : Word) (s : Dhv11) :
    Does (if w &&& 0o100000≠0 ∧ (s.chan c).wraps then [.push (rbufWord 0 c (w.setWidth 8))] else [])
      s (s.writeTxchar c w) := by
  rw [writeTxchar]
  by_cases hw : w &&& 0o100000=0
  · rw [if_pos hw,if_neg (fun h => h.1 hw)]
    exact does_keep rfl rfl
  · rw [if_neg hw]
    by_cases hl : (s.chan c).wraps
    · rw [if_pos ⟨hw,hl⟩,if_pos hl]
      exact (s.does_push (rbufValid_rbufWord 0 c _)).quiet (does_keep rfl rfl)
    · rw [if_neg (fun h => hl h.2),if_neg hl]
      exact does_keep rfl rfl

theorem does_writeLpr (c : Nat) (w : Word) (s : Dhv11) :
    Does (if w &&& 0o6=0o2 then [.push (rbufWord rbufDiag c 0o305)] else []) s (s.writeLpr c w) := by
  rw [writeLpr]
  split_ifs
  · exact (s.does_push (rbufValid_rbufWord rbufDiag c _)).quiet (does_keep rfl rfl)
  · exact does_keep rfl rfl

theorem does_onWrite (r : DhvReg) (w : Word) (s t : Dhv11) (h : s.onWrite r w=some t) :
    Does (dhvReceiver.writes r w s) s t := by
  have hn := does_note r (some w) s
  unfold onWrite at h
  dsimp only at h
  by_cases hr : r=.csr
  · subst hr
    rw [if_pos rfl] at h
    cases h
    have hw := does_writeCsr w (s.noteAccess .csr (some w))
    rw [noteAccess_masterReset] at hw
    exact hn.trans hw
  · rw [if_neg hr] at h
    split_ifs at h
    cases r with
    | csr => exact absurd rfl hr
    | rbuf =>
      cases h
      have hw := does_writeTxchar s.csrChannel w (s.noteAccess .rbuf (some w))
      rw [noteAccess_chan] at hw
      exact hn.trans hw
    | lpr =>
      cases h
      exact hn.trans (does_writeLpr s.csrChannel w _)
    | lnctrl | tbuffad1 | tbuffad2 | tbuffct =>
      cases h
      exact hn.quiet (does_keep rfl rfl)

theorem does_tick (s : Dhv11) : Does (if s.tickedDone then loads s.selftestSkip else []) s s.tick := by
  rw [tick,tickedDone]
  by_cases hp : s.selftestPending
  · rw [if_neg (not_not.mpr hp)]
    by_cases ha : 0<s.pollActiveTicks
    · rw [if_pos ha,if_neg (by simp [Nat.ne_of_gt ha])]
      exact does_keep rfl rfl
    · have ha0 : s.pollActiveTicks=0 := Nat.eq_zero_of_not_pos ha
      rw [if_neg ha]
      by_cases ht : s.selftestTicks-1≤0
      · rw [if_pos ht]
        have hd : Does [] s { s with selftestTicks := s.selftestTicks-1 } := does_keep rfl rfl
        by_cases hm : s.csrMasterReset
        · rw [if_pos (by simp only [hp,ha0,ht,hm,decide_true,Bool.and_self])]
          have hc := does_complete (s := { s with selftestTicks := s.selftestTicks-1 }) hm
          exact (hd.trans hc).quiet (does_update _)
        · rw [if_neg (by simp [hm]),completeSelftest,if_neg hm]
          exact does_keep rfl rfl
      · rw [if_neg ht,if_neg (by simp only [ht,decide_false,Bool.and_false,Bool.false_and]; simp)]
        exact does_keep rfl rfl
  · rw [if_pos hp,if_neg (by simp [hp])]
    exact does_keep rfl rfl

theorem does_move (m : DhvMove) (s t : Dhv11) (h : s.move m=some t) : Does (dhvReceiver.moves m s) s t := by
  cases m with
  | tick =>
    cases h
    exact s.does_tick
  | receive line ch =>
    rw [move] at h
    split_ifs at h
    cases h
    exact (s.does_push (rbufValid_rbufWord 0 line ch)).quiet (does_update _)
  | xmtStart =>
    rw [move] at h
    split_ifs at h
    obtain ⟨line,_,hs⟩ := Option.bind_eq_some_iff.mp h
    cases hs
    exact does_keep rfl rfl
  | xmtEnd ok bytes =>
    obtain ⟨x,hx,hs⟩ := Option.bind_eq_some_iff.mp h
    cases hs
    show Does ((s.xmt.map fun x => _).getD []) s _
    rw [hx]
    show Does (if x.wraps ok then _ else []) s _
    by_cases hw : x.wraps ok
    · rw [if_pos hw,if_pos hw]
      exact (does_pushes x.line _ s).quiet (does_keep rfl rfl)
    · rw [if_neg hw,if_neg hw]
      exact does_keep rfl rfl

theorem does_reset (isOpen : Nat → Bool) (s : Dhv11) : Does (.clear::dhvReceiver.resets) s (s.reset isOpen) where
  fifo := (foldl_loads false s.rxFifo).symm
  shown := by
    intro _ r hr
    cases dhv_isRbuf hr
    rfl
  valid := valid_loads false

end Dhv11

theorem input_loads (skip : Bool) : ∀ op∈Dhv11.loads skip,op.IsInput := by
  intro op hop
  obtain rfl | hop := mem_cons.mp hop
  · exact trivial
  · exact input_push id (Dhv11.selftestCodes skip) op hop

theorem dhv_lawful : dhvReceiver.Lawful where
  capacity := by decide
  initial := rfl
  initialShown := by
    intro r hr
    cases dhv_isRbuf hr
    rfl
  rbuf := by
    intro r s hr
    cases dhv_isRbuf hr
    rfl
  readInput := by
    intro r s hr
    cases r with
    | rbuf => cases hr
    | csr => exact input_if (input_loads _)
    | lpr | lnctrl | tbuffad1 | tbuffad2 | tbuffct => exact input_nil
  writeInput := by
    intro r w s
    cases r with
    | csr | rbuf | lpr => exact input_if (input_one trivial)
    | lnctrl | tbuffad1 | tbuffad2 | tbuffct => exact input_nil
  moveInput := by
    intro m s
    cases m with
    | tick => exact input_if (input_loads _)
    | receive line ch => exact input_one trivial
    | xmtStart => exact input_nil
    | xmtEnd ok bytes =>
      show ∀ op∈(Option.map _ (Dhv11.xmt s)).getD [],_
      cases Dhv11.xmt s with
      | none => exact input_nil
      | some x => exact input_if (input_push _ _)
  resetInput := input_push id (Dhv11.selftestCodes false)
  read := Dhv11.does_onRead
  write := Dhv11.does_onWrite
  move := Dhv11.does_move
  reset := Dhv11.does_reset
  entry := rbufWord_carries

end QUniLator.Mux
