import QUniLator.Mux.DhvReceiver

namespace QUniLator.Mux

def dzReceiver (b : DzBoard) : Receiver (dzv11 b) where
  isRbuf := fun (r : DzReg) => r=.rbufLpr
  fifo := Dzv11.silo
  capacity := 64
  lines := b.lineCount
  entry := dzWord b 0
  reads := fun (r : DzReg) _ =>
    match r with
    | .rbufLpr => [.drop]
    | .csr | .tcr | .msrTdr => []
  writes := fun (r : DzReg) w (s : Dzv11) =>
    match r with
    | .csr => if w &&& 0o20≠0 ∨ s.csrMse ∧ w &&& 0o40=0 then [.clear] else []
    | .msrTdr =>
      if s.csrMaint then
        if s.rising b w≠0 then
          (s.breaking b (s.rising b w)).map fun i => .push (dzWord b (s.breakError i) i 0)
        else if s.rxEnabled (s.csrTline%b.lineCount) then
          [.push (dzWord b 0 (s.csrTline%b.lineCount) (w.setWidth 8))]
        else []
      else []
    | .rbufLpr | .tcr => []
  moves := fun (m : DzMove) _ =>
    match m with
    | .receive line ch => [.push (dzWord b 0 line ch)]
    | .transmit => []
  resets := []

theorem dz_isRbuf {b : DzBoard} {r : DzReg} (h : (dzReceiver b).isRbuf r) : r=.rbufLpr :=
  of_decide_eq_true h

theorem rbufValid_dzWord (b : DzBoard) (errBits : Word) (line : Nat) (ch : Byte) :
    rbufValid (dzWord b errBits line ch) := by
  rw [rbufValid,dzWord,BitVec.getLsbD_or,BitVec.getLsbD_or,BitVec.getLsbD_or]
  rfl

theorem dzWord_carries (b : DzBoard) (line : Nat) (hline : line<b.lineCount) (ch : Byte) :
    Carries (dzWord b 0 line ch) line ch := by
  have h8 : line<8 := by cases b <;> exact Nat.lt_of_lt_of_le hline (by decide)
  have h := carries_word line h8 ch
  rw [dzWord,Nat.mod_eq_of_lt hline]
  exact (congrArg (fun x => Carries (x ||| ch.setWidth 16) line ch) BitVec.or_zero).mpr h

namespace Dzv11

/-- `Receiver.Does` of a board -/
def Does (b : DzBoard) (ops : List (SiloOp Word)) (s t : Dzv11) : Prop := (dzReceiver b).Does ops s t

variable {b : DzBoard} {s t u : Dzv11} {ops ops' : List (SiloOp Word)}

theorem Does.trans (h : Does b ops s t) (h' : Does b ops' t u) : Does b (ops++ops') s u :=
  Receiver.Does.trans h h'

theorem Does.quiet (h : Does b ops s t) (h' : Does b [] t u) : Does b ops s u := by
  have hu := h.trans h'
  rwa [List.append_nil] at hu

theorem countAlarm_silo (s : Dzv11) : s.countAlarm.silo=s.silo := by
  rw [countAlarm]
  split_ifs <;> rfl

theorem does_push (b : DzBoard) (line : Nat) (ch : Byte) (errBits : Word) (s : Dzv11) :
    Does b [.push (dzWord b errBits line ch)] s (s.siloPush b line ch errBits) where
  fifo := by
    show (s.siloPush b line ch errBits).silo =
      pushFull markOverrun (decide (64 ≤ s.silo.length)) (dzWord b errBits line ch) s.silo
    rw [pushFull]
    by_cases h : 64 ≤ s.silo.length
    · rw [if_pos (decide_eq_true h),siloPush,if_pos h]
      exact countAlarm_silo _
    · rw [if_neg (by rwa [decide_eq_true_eq]),siloPush,if_neg h]
      exact countAlarm_silo _
  shown := by
    intro _ r hr
    cases dz_isRbuf hr
    rfl
  valid := by
    intro x hx
    cases List.mem_singleton.mp hx
    exact rbufValid_dzWord b errBits line ch

theorem does_keep (b : DzBoard) (hf : t.silo=s.silo) (hr : t.rbuf=s.rbuf) : Does b [] s t := by
  refine Receiver.Does.none hf fun hs r hx => ?_
  have hs := hs r hx
  cases dz_isRbuf hx
  show t.rbuf=t.silo.head?.getD 0
  rw [hf,hr]
  exact hs

theorem does_clear (b : DzBoard) (hf : t.silo=[]) (hr : t.rbuf=0) : Does b [.clear] s t where
  fifo := hf
  shown := by
    intro _ r hx
    cases dz_isRbuf hx
    show t.rbuf=t.silo.head?.getD 0
    rw [hf,hr]
    rfl
  valid := by simp

theorem does_update (b : DzBoard) (s : Dzv11) : Does b [] s (s.updateCsrAndIntr b) :=
  does_keep b rfl rfl

theorem does_presentTrdy (b : DzBoard) (s : Dzv11) : Does b [] s (s.presentTrdy b) := by
  rw [presentTrdy]
  split_ifs
  · cases s.selectNextTxLine b with
    | none | some i => exact does_keep b rfl rfl
  · exact does_keep b rfl rfl

theorem does_scan (b : DzBoard) (s : Dzv11) : Does b [] s (s.scanTxTrdy b) := by
  have hdrop : Does b [] s (s.dropTrdy b) := by
    rw [dropTrdy]
    split_ifs
    all_goals exact does_keep b rfl rfl
  rw [scanTxTrdy]
  split_ifs
  · exact does_keep b rfl rfl
  · exact does_keep b rfl rfl
  · exact hdrop.trans (does_presentTrdy b _)

theorem does_evalCsr (b : DzBoard) (w : Word) (s : Dzv11) :
    Does b (if w &&& 0o20≠0 ∨ s.csrMse ∧ w &&& 0o40=0 then [.clear] else []) s (s.evalCsrDato w) := by
  rw [evalCsrDato]
  by_cases hclr : w &&& 0o20≠0
  · rw [if_pos (.inl hclr),if_pos hclr]
    exact does_clear b rfl rfl
  · rw [if_neg hclr]
    by_cases hm : s.csrMse ∧ w &&& 0o40=0
    · have hscan : (s.csrMse && !decide (w &&& 0o40≠0))=true := by
        rw [hm.1,decide_eq_false (not_not.mpr hm.2)]
        rfl
      rw [if_pos (.inr hm),if_pos hscan]
      exact does_clear b rfl rfl
    · rw [if_neg (not_or.mpr ⟨hclr,hm⟩),if_neg (by simpa using hm)]
      exact does_keep b rfl rfl

theorem does_breaks (b : DzBoard) (err : Nat → Word) (lines : List Nat) (s : Dzv11) :
    Does b (lines.map fun i => .push (dzWord b (err i) i 0)) s
      (lines.foldl (fun t i => t.siloPush b i 0 (err i)) s) := by
  induction lines generalizing s with
  | nil => exact does_keep b rfl rfl
  | cons i lines ih => exact (does_push b i 0 (err i) s).trans (ih _)

theorem does_evalTdr (b : DzBoard) (w : Word) (s : Dzv11) :
    Does b ((dzReceiver b).writes .msrTdr w s) s (s.evalTdrDato b w) := by
  unfold evalTdrDato
  dsimp only
  show Does b (if s.csrMaint then _ else _) s _
  have hd : Does b [] s { s with txBreak := newBreak b w } := does_keep b rfl rfl
  by_cases hm : s.csrMaint
  · rw [if_pos hm,if_pos hm]
    by_cases hr : s.rising b w≠0
    · rw [if_pos hr,if_pos hr]
      exact hd.trans (does_breaks b _ _ _)
    · rw [if_neg hr,if_neg hr]
      by_cases he : s.rxEnabled (s.csrTline%b.lineCount)
      · rw [if_pos he,if_pos he]
        exact (hd.trans (does_push b _ _ 0 _)).quiet (does_keep b rfl rfl)
      · rw [if_neg he,if_neg he]
        exact does_keep b rfl rfl
  · rw [if_neg hm,if_neg hm]
    exact does_keep b rfl rfl

theorem does_onRead (b : DzBoard) (r : DzReg) (s : Dzv11) : Does b ((dzReceiver b).reads r s) s (s.onRead b r) := by
  cases r with
  | rbufLpr =>
    refine ⟨rfl,?_,by simp [dzReceiver]⟩
    intro _ r hr
    cases dz_isRbuf hr
    rfl
  | csr | tcr | msrTdr => exact does_keep b rfl rfl

theorem does_onWrite (b : DzBoard) (r : DzReg) (w : Word) (s : Dzv11) :
    Does b ((dzReceiver b).writes r w s) s (s.onWrite b r w) := by
  cases r with
  | csr => exact ((does_evalCsr b w s).quiet (does_scan b _)).quiet (does_update b _)
  | rbufLpr =>
    show Does b [] s (s.evalLprDato b w)
    unfold evalLprDato
    dsimp only
    split_ifs
    all_goals exact does_keep b rfl rfl
  | tcr =>
    have hd : Does b [] s (s.evalTcrDato w) := does_keep b rfl rfl
    exact hd.trans (does_scan b _)
  | msrTdr => exact ((does_evalTdr b w s).quiet (does_scan b _)).quiet (does_update b _)

theorem does_move (b : DzBoard) (m : DzMove) (s t : Dzv11) (h : s.move b m=some t) :
    Does b ((dzReceiver b).moves m s) s t := by
  cases m with
  | receive line ch =>
    rw [move] at h
    split_ifs at h
    cases h
    exact (does_push b line ch 0 s).quiet (does_update b _)
  | transmit =>
    cases h
    have hd := does_scan b s
    show Does b [] s (s.transmit b)
    unfold transmit
    dsimp only
    split_ifs
    · exact hd.trans (does_keep b rfl rfl)
    · exact hd

end Dzv11

theorem dz_lawful (b : DzBoard) : (dzReceiver b).Lawful where
  capacity := by show 2≤64; decide
  initial := rfl
  initialShown := by
    intro r hr
    cases dz_isRbuf hr
    rfl
  rbuf := by
    intro r s hr
    cases dz_isRbuf hr
    rfl
  readInput := by
    intro r s hr
    cases r with
    | rbufLpr => cases hr
    | csr | tcr | msrTdr => exact input_nil
  writeInput := by
    intro r w s
    cases r with
    | csr => exact input_if (input_one trivial)
    | msrTdr =>
      show ∀ op∈(if Dzv11.csrMaint s then _ else _),_
      refine input_if ?_
      split_ifs
      · exact input_push _ _
      · exact input_one trivial
      · exact input_nil
    | rbufLpr | tcr => exact input_nil
  moveInput := by
    intro m s
    cases m with
    | receive line ch => exact input_one trivial
    | transmit => exact input_nil
  resetInput := input_nil
  read := Dzv11.does_onRead b
  write := by
    intro r w s t h
    cases h
    exact Dzv11.does_onWrite b r w s
  move := Dzv11.does_move b
  reset := fun _ _ => Dzv11.does_clear b rfl rfl
  entry := dzWord_carries b

end QUniLator.Mux
