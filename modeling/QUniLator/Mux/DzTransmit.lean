import Mathlib.Data.List.Range
import Mathlib.Tactic.IntervalCases
import QUniLator.Mux.DzInterruptRuns

namespace QUniLator.Mux

open List Option Prod

namespace Dzv11

variable {b : DzBoard}

theorem dzFlag_getLsbD (f : Bool) (mask : Word) (i : Nat) : (flag f mask).getLsbD i=(f && mask.getLsbD i) := by
  cases f <;> simp [flag]

theorem lineCount_le : b.lineCount≤8 := by cases b <;> decide

theorem csrValue_trdy (s : Dzv11) : shownTrdy (s.csrValue b)=s.csrTrdy := by
  have hl := Nat.lt_of_lt_of_le (Nat.mod_lt s.csrTline (lineCount_pos (b := b))) lineCount_le
  unfold shownTrdy csrValue
  simp only [BitVec.getLsbD_or,dzFlag_getLsbD]
  generalize s.csrTline%b.lineCount=line at hl
  interval_cases line <;> simp

theorem dzFlag_line (f : Bool) (mask : Word) (h : (mask >>> 8) &&& 7=0) : (flag f mask >>> 8) &&& 7=0#16 := by
  cases f with
  | false => simp [flag]
  | true => exact h

theorem csrValue_shownLine (s : Dzv11) : shownLine (s.csrValue b)=s.csrTline%b.lineCount := by
  have hl := Nat.lt_of_lt_of_le (Nat.mod_lt s.csrTline (lineCount_pos (b := b))) lineCount_le
  simp only [shownLine,csrValue,BitVec.ushiftRight_or_distrib,BitVec.and_or_distrib_right,
    dzFlag_line _ 0o100000 rfl,dzFlag_line _ 0o040000 rfl,dzFlag_line _ 0o020000 rfl,
    dzFlag_line _ 0o010000 rfl,dzFlag_line _ 0o000200 rfl,dzFlag_line _ 0o000100 rfl,
    dzFlag_line _ 0o000040 rfl,dzFlag_line _ 0o000010 rfl,BitVec.zero_or,BitVec.or_zero]
  generalize s.csrTline%b.lineCount=line at hl
  interval_cases line <;> rfl

/-- `select_next_tx_line` from line `a` on -/
def nextLine (b : DzBoard) (a : Nat) (enabled : Nat → Bool) : Option Nat :=
  ((List.range b.lineCount).map fun n => (a+1+n)%b.lineCount).find? enabled

/-- How many lines come before `j` after line `a` -/
def ahead (b : DzBoard) (a j : Nat) : Nat := (j+b.lineCount-1-a)%b.lineCount

theorem ahead_lt (a j : Nat) : ahead b a j<b.lineCount := Nat.mod_lt _ lineCount_pos

theorem nextLine_turn {a c j : Nat} {enabled : Nat → Bool} (h : nextLine b a enabled=some c)
    (ha : a<b.lineCount) (hj : j<b.lineCount) (he : enabled j) : j=c ∨ ahead b c j<ahead b a j := by
  obtain ⟨hc,m,hm,hcm,hbefore⟩ := List.find?_eq_some_iff_getElem.mp h
  have hmn : m<b.lineCount := by simpa using hm
  clear hc
  simp only [getElem_map,getElem_range] at hcm hbefore
  have hk : m≤ahead b a j := by
    by_contra hlt
    have := hbefore (ahead b a j) (by omega)
    rw [show (a+1+ahead b a j)%b.lineCount=j by
      unfold ahead; cases b <;> simp only [DzBoard.lineCount] at * <;> omega,he] at this
    cases this
  unfold ahead at hk ⊢
  cases b <;> simp only [DzBoard.lineCount] at * <;> omega

theorem nextLine_isSome {a j : Nat} {enabled : Nat → Bool} (ha : a<b.lineCount)
    (hj : j<b.lineCount) (he : enabled j) : (nextLine b a enabled).isSome := by
  unfold nextLine
  rw [List.find?_isSome]
  refine ⟨j,mem_map.mpr ⟨ahead b a j,mem_range.mpr (ahead_lt a j),?_⟩,he⟩
  unfold ahead
  cases b <;> simp only [DzBoard.lineCount] at * <;> omega

theorem scan_turn (e : Dzv11) : (e.settle.csrTrdy=(e.scanTxTrdy b).csrTrdy ∧ (e.scanTxTrdy b).csrTline=e.csrTline) ∨
    (e.settle.csrTrdy=false ∧ (e.scanTxTrdy b).csrTrdy ∧
      nextLine b e.csrTline e.txEnabled=some (e.scanTxTrdy b).csrTline) := by
  rw [scan_eq]
  obtain ⟨hd,hs⟩ | ⟨hd,hs⟩ := e.dropped_cases (b := b)
  · rw [hd]
    obtain hsh | ⟨ht,i,hi,hsh⟩ := e.shown_cases (b := b)
    · rw [hsh,hs]
      exact .inl ⟨rfl,rfl⟩
    · rw [hsh,hs]
      exact .inr ⟨ht,rfl,hi⟩
  · rw [hd]
    obtain hsh | ⟨ht,i,hi,hsh⟩ := (e.settle.updateCsrAndIntr b).shown_cases (b := b)
    · rw [hsh]
      exact .inl ⟨rfl,rfl⟩
    · rw [hsh]
      exact .inr ⟨hs,rfl,hi⟩

theorem scan_presents {e : Dzv11} {i : Nat} (hl : e.csrTline<b.lineCount) (hm : e.csrMse)
    (hp : e.tdrPending=false) (hi : i<b.lineCount) (he : e.txEnabled i) : (e.scanTxTrdy b).csrTrdy=true := by
  have hd : (e.dropped b).csrMse=true ∧ (e.dropped b).tdrPending=false ∧
      (e.dropped b).csrTline=e.csrTline ∧ (e.dropped b).txEnabled=e.txEnabled := by
    unfold dropped
    split_ifs <;> exact ⟨hm,hp,rfl,rfl⟩
  obtain ⟨hdm,hdp,hdl,hde⟩ := hd
  rw [scan_eq,shown,if_pos hdm]
  unfold presentTrdy
  cases ht : (e.dropped b).csrTrdy with
  | true => simpa using ht
  | false =>
    obtain ⟨c,hc⟩ := isSome_iff_exists.mp (nextLine_isSome hl hi he)
    have hs : (e.dropped b).selectNextTxLine b=some c := by
      rw [selectNextTxLine,hdl,hde]
      exact hc
    simp only [hdp,hs]
    rfl

variable {b : DzBoard}

/-- Master Clear, as far as the transmitter goes -/
structure Cleared (t : Dzv11) : Prop where
  line : t.csrTline=0
  mse : t.csrMse=false
  trdy : t.csrTrdy=false
  pending : t.tdrPending=false
  txEnabled : ∀ i,t.txEnabled i=false

/-- The line and the transmit buffer are as they were. -/
structure SameBuffer (s t : Dzv11) : Prop where
  line : t.csrTline=s.csrTline
  pending : t.tdrPending=s.tdrPending
  tdrLine : t.tdrLine=s.tdrLine
  tdrChar : t.tdrChar=s.tdrChar

theorem SameBuffer.trans {s t u : Dzv11} (h : SameBuffer s t) (h' : SameBuffer t u) : SameBuffer s u :=
  ⟨h'.line.trans h.line,h'.pending.trans h.pending,h'.tdrLine.trans h.tdrLine,
    h'.tdrChar.trans h.tdrChar⟩

theorem SameBuffer.waiting_eq {s t : Dzv11} (h : SameBuffer s t) : t.waiting=s.waiting := by
  unfold waiting
  rw [h.pending,h.tdrLine,h.tdrChar]

variable {s : Dzv11}

theorem waiting_of_not (h : s.tdrPending=false) : s.waiting=[] := by
  simp [waiting,h]

theorem waiting_of (h : s.tdrPending) : s.waiting=[⟨s.tdrLine,s.tdrChar⟩] := by
  simp [waiting,h]

theorem sameBuffer_push (line : Nat) (ch : Byte) (err : Word) (s : Dzv11) :
    SameBuffer s (s.siloPush b line ch err) := by
  unfold siloPush countAlarm setRbufDati
  dsimp only
  split_ifs <;> exact ⟨rfl,rfl,rfl,rfl⟩

theorem sameBuffer_breaks (lines : List Nat) (err : Nat → Word) (s : Dzv11) :
    SameBuffer s (lines.foldl (fun t i => t.siloPush b i 0 (err i)) s) := by
  induction lines generalizing s with
  | nil => exact ⟨rfl,rfl,rfl,rfl⟩
  | cons i is ih => exact (sameBuffer_push i 0 (err i) s).trans (ih _)

theorem evalCsr_buffer (v : Word) (s : Dzv11) : (v &&& 0o20=0 → SameBuffer s (s.evalCsrDato v)) ∧
    (v &&& 0o20≠0 → Cleared (s.evalCsrDato v)) := by
  unfold evalCsrDato
  by_cases hc : v &&& 0o20=0
  · rw [if_neg (by simpa using hc)]
    refine ⟨fun _ => ?_,fun h => absurd hc h⟩
    dsimp only
    split <;> exact ⟨rfl,rfl,rfl,rfl⟩
  · rw [if_pos hc]
    exact ⟨fun h => absurd h hc,fun _ => ⟨rfl,rfl,rfl,rfl,fun _ => rfl⟩⟩

theorem sameBuffer_lpr (v : Word) (s : Dzv11) : SameBuffer s (s.evalLprDato b v) := by
  rw [evalLpr_frame]
  exact ⟨rfl,rfl,rfl,rfl⟩

theorem evalTdr_line (v : Word) (s : Dzv11) : (s.evalTdrDato b v).csrTline=s.csrTline := by
  cases hm : s.csrMaint with
  | false => rw [evalTdr_load hm]
  | true =>
    by_cases hr : s.rising b v=0
    · exact (evalTdr_wrap hm hr).2.2.2.2.2.1
    · rw [evalTdr_break hm hr]
      exact (sameBuffer_breaks _ _ _).line

theorem eval_line (r : DzReg) (v : Word) (s : Dzv11) :
    (s.eval b r v).csrTline=s.csrTline ∨ Cleared (s.eval b r v) := by
  cases r with
  | csr =>
    by_cases hc : v &&& 0o20=0
    · exact .inl ((s.evalCsr_buffer v).1 hc).line
    · exact .inr ((s.evalCsr_buffer v).2 hc)
  | rbufLpr => exact .inl (s.sameBuffer_lpr v).line
  | tcr => exact .inl rfl
  | msrTdr => exact .inl (s.evalTdr_line v)

/-- The line after an operation: TRDY is presented for the next line that is enabled, or the line stays, or
no line is enabled any more. -/
def Turn (b : DzBoard) (s : Dzv11) (o : DzOp) : Prop :=
  (s.presents b o=true ∧ nextLine b s.csrTline (s.op b o).txEnabled=some (s.op b o).csrTline) ∨
  (s.presents b o=false ∧ ((s.op b o).csrTline=s.csrTline ∨
    (s.op b o).csrTline=0 ∧ ∀ i,(s.op b o).txEnabled i=false))

theorem turn_scan {s e : Dzv11} {o : DzOp} (hs : s.settled b o=e.settle)
    (ht : (s.op b o).csrTrdy=(e.scanTxTrdy b).csrTrdy)
    (hl : (s.op b o).csrTline=(e.scanTxTrdy b).csrTline) (hx : (s.op b o).txEnabled=e.txEnabled)
    (he : e.csrTline=s.csrTline ∨ Cleared e) : Turn b s o := by
  unfold Turn presents
  rw [hs,ht,hl,hx]
  obtain ⟨hst,hsl⟩ | ⟨hst,hsp,hn⟩ := e.scan_turn (b := b)
  · refine .inr ⟨by rw [hst]; simp,?_⟩
    rw [hsl]
    exact he.imp_right fun hc => ⟨hc.line,hc.txEnabled⟩
  · obtain he | hc := he
    · exact .inl ⟨by simp [hst,hsp],he ▸ hn⟩
    · obtain ⟨j,-,hj⟩ : ∃ j,j∈_ ∧ e.txEnabled j=true :=
        ⟨_,List.mem_of_find?_eq_some hn,List.find?_some hn⟩
      rw [hc.txEnabled] at hj
      cases hj

theorem turn_same {o : DzOp} (hs : (s.settled b o).csrTrdy=(s.op b o).csrTrdy) (hl : (s.op b o).csrTline=s.csrTline ∨
      (s.op b o).csrTline=0 ∧ ∀ i,(s.op b o).txEnabled i=false) : Turn b s o :=
  .inr ⟨by unfold presents; rw [hs]; simp,hl⟩

theorem transmit_idle (h : s.tdrPending=false) : s.transmit b=s.scanTxTrdy b := by
  unfold transmit
  dsimp only
  rw [if_neg (by rw [(readyOnly_scan s).tdrPending,h]; rintro ⟨⟩)]

theorem transmit_takes (h : s.tdrPending) : s.transmit b =
    ({ s.scanTxTrdy b with tdrPending := false,csrTrdy := false } : Dzv11).updateCsrAndIntr b := by
  unfold transmit
  dsimp only
  rw [if_pos (by rw [(readyOnly_scan s).tdrPending,h])]

theorem scan_line_waiting (hp : s.tdrPending) (ht : s.csrTrdy=false) : (s.scanTxTrdy b).csrTline=s.csrTline := by
  obtain ⟨-,hl⟩ | ⟨-,hsp,-⟩ := s.scan_turn (b := b)
  · exact hl
  · rw [scan_waiting hp ht] at hsp
    cases hsp

theorem Scanned.trdy_waiting (h : Scanned b s) (hp : s.tdrPending) : s.csrTrdy=false := by
  by_contra hn
  simpa [hp] using (h (by simpa using hn)).2.1

theorem turn_op (hs : Scanned b s) (o : DzOp) : Turn b s o := by
  cases o with
  | write r v =>
    cases r with
    | csr => exact turn_scan rfl rfl rfl (readyOnly_scan _).txEnabled (s.eval_line .csr v)
    | rbufLpr =>
      exact turn_same (congrArg csrTrdy (Scanned.settle_eq (scanned_op hs (.write .rbufLpr v))))
        (.inl (s.sameBuffer_lpr v).line)
    | tcr => exact turn_scan rfl rfl rfl (readyOnly_scan _).txEnabled (s.eval_line .tcr v)
    | msrTdr => exact turn_scan rfl rfl rfl (readyOnly_scan _).txEnabled (s.eval_line .msrTdr v)
  | read r => cases r <;> exact turn_same rfl (.inl rfl)
  | receive line ch => exact turn_same rfl (.inl (s.sameBuffer_push line ch 0).line)
  | transmit =>
    cases hp : s.tdrPending with
    | true =>
      have ht := hs.trdy_waiting hp
      have hop : s.op b .transmit=_ := transmit_takes hp
      refine turn_same ?_ (.inl ?_)
      · rw [hop]
        show (s.csrTrdy && _ && _)=false
        simp [ht]
      · rw [hop]
        exact scan_line_waiting hp ht
    | false =>
      have hop : s.op b .transmit=_ := transmit_idle hp
      exact turn_scan rfl (by rw [hop]) (by rw [hop])
        (by rw [hop]; exact (readyOnly_scan s).txEnabled) (.inl rfl)
  | reset => exact turn_same rfl (.inr ⟨rfl,fun _ => rfl⟩)

/-- TRDY is presented whenever the scanner is on, a line is enabled and no character waits. -/
def Presented (b : DzBoard) (s : Dzv11) : Prop :=
  s.csrMse=true → s.tdrPending=false → ∀ i<b.lineCount,s.txEnabled i=true → s.csrTrdy=true

theorem presented_scan {e : Dzv11} (hl : e.csrTline<b.lineCount) : Presented b (e.scanTxTrdy b) := by
  have hf := e.readyOnly_scan (b := b)
  intro hm hp i hi he
  rw [hf.mse] at hm
  rw [hf.tdrPending] at hp
  rw [hf.txEnabled] at he
  exact scan_presents hl hm hp hi he

theorem eval_lt {r : DzReg} {v : Word} (h : s.csrTline<b.lineCount) : (s.eval b r v).csrTline<b.lineCount := by
  obtain hl | hc := s.eval_line (b := b) r v
  · rw [hl]
    exact h
  · rw [hc.line]
    exact lineCount_pos

theorem presented_write (h : Presented b s) (hl : s.csrTline<b.lineCount) (r : DzReg)
    (v : Word) : Presented b (s.op b (.write r v)) := by
  cases r with
  | csr => exact presented_scan (eval_lt (r := .csr) hl)
  | rbufLpr =>
    show Presented b (s.evalLprDato b v)
    rw [evalLpr_frame]
    exact h
  | tcr => exact presented_scan (eval_lt (r := .tcr) hl)
  | msrTdr => exact presented_scan (eval_lt (r := .msrTdr) hl)

theorem presented_receive (h : Presented b s) (line : Nat) (ch : Byte) : Presented b (s.op b (.receive line ch)) := by
  obtain ⟨-,-,ht,-,-,hm,-,he,hp,-⟩ := s.siloPush_frame (b := b) line ch 0
  show Presented b (s.siloPush b line ch 0)
  unfold Presented
  rw [ht,hm,he,hp]
  exact h

theorem agrees_op (ha : Agrees b s) (hs : Scanned b s) (o : DzOp) : Agrees b (s.op b o) := by
  cases o with
  | write r v =>
    cases r with
    | csr | msrTdr => exact agrees_update _
    | rbufLpr => exact (told_lpr ha hs v).agrees
    | tcr => exact (told_tcr ha v).agrees
  | read r =>
    cases r with
    | rbufLpr => exact agrees_update _
    | csr | tcr | msrTdr => exact ha
  | receive line ch | reset => exact agrees_update _
  | transmit => exact (told_transmit ha hs).agrees

end Dzv11

namespace DzSeat

variable {b : DzBoard}

/-- The driver loads a character only while CSR shows TRDY. A write of the break byte alone comes while a
character waits, or sets a break bit in maintenance mode. -/
def Driven (b : DzBoard) (s : DzSeat) : DzEvent → Prop
  | .write r a data => r=.msrTdr → (a≠.high → shownTrdy s.board.csr=true) ∧
    (a=.high → s.board.csrMaint=false ∧ s.board.tdrPending=true ∨
      s.board.csrMaint=true ∧ s.board.rising b (merge b r a data (s.latch r))≠0)
  | _ => True

/-- What the workers do by themselves -/
inductive Works (b : DzBoard) (s t : DzSeat) : Prop
  | scan (h : s.step b .scan=some t)
  | send (isOpen : Bool) (h : s.step b (.send isOpen)=some t)

/-- The characters due have been sent, each once and in order, up to those the worker holds or has still to take, and
it sends those. With the worker at rest TRDY is shown for an enabled line when the scanner is on and there is one. No
enabled line is passed over as often as there are lines. -/
structure TransmitRight (b : DzBoard) (s : DzSeat) : Prop where
  inOrder : s.due=s.out.map fst++s.worker.held++s.board.waiting
  loaded : s.due.Sublist s.loaded
  sends : ∃ t,Relation.ReflTransGen (Works b) s t ∧ t.due=s.due ∧ t.out.map fst=s.due
  presented : s.worker=.resting → s.board.waiting=[] → s.board.csrMse=true →
    (∃ i<b.lineCount,s.board.txEnabled i=true) →
    shownTrdy s.board.csr=true ∧ s.board.txEnabled (shownLine s.board.csr)=true
  inTurn : ∀ i<b.lineCount,s.passed i<b.lineCount

structure XmtInv (b : DzBoard) (s : DzSeat) : Prop where
  agrees : s.board.Agrees b
  scanned : s.board.Scanned b
  line : s.board.csrTline<b.lineCount
  inOrder : s.due=s.out.map fst++s.worker.held++s.board.waiting
  loaded : s.due.Sublist s.loaded
  buffer : s.board.tdrPending=true → s.board.tdrLine=s.board.csrTline ∧
    s.board.tdrChar=(s.latch .msrTdr).setWidth 8
  presented : s.worker=.resting → s.board.Presented b
  turns : ∀ i<b.lineCount,s.passed i+Dzv11.ahead b s.board.csrTline i<b.lineCount

variable {s : DzSeat} {due gone : List Frame}

theorem turns_op {o : DzOp} (hl : s.board.csrTline<b.lineCount)
    (h : ∀ i<b.lineCount,s.passed i+Dzv11.ahead b s.board.csrTline i<b.lineCount)
    (ht : s.board.Turn b o) : (s.board.op b o).csrTline<b.lineCount ∧ ∀ i<b.lineCount,
      s.nextPassed b o i+Dzv11.ahead b (s.board.op b o).csrTline i<b.lineCount := by
  have hlt : (s.board.op b o).csrTline<b.lineCount := by
    obtain ⟨-,hn⟩ | ⟨-,hsame | ⟨hz,-⟩⟩ := ht
    · obtain ⟨n,-,hn⟩ := mem_map.mp (List.mem_of_find?_eq_some hn)
      exact hn ▸ Nat.mod_lt _ Dzv11.lineCount_pos
    · exact hsame ▸ hl
    · rw [hz]
      exact Dzv11.lineCount_pos
  refine ⟨hlt,fun i hi => ?_⟩
  have ha := Dzv11.ahead_lt (b := b) (s.board.op b o).csrTline i
  unfold nextPassed
  dsimp only
  cases he : (s.board.op b o).txEnabled i with
  | false => simpa using ha
  | true =>
    obtain ⟨hp,hn⟩ | ⟨hp,hsame | ⟨-,hz⟩⟩ := ht
    · rw [hp]
      by_cases hc : i=(s.board.op b o).csrTline
      · simpa [hc] using Dzv11.ahead_lt (b := b) (s.board.op b o).csrTline _
      · have := (Dzv11.nextLine_turn hn hl hi he).resolve_left hc
        have := h i hi
        simp only [Bool.not_true,Bool.false_eq_true,if_false,if_true,if_neg hc]
        omega
    · rw [hp,hsame]
      simpa using h i hi
    · rw [hz] at he
      cases he

/-! The parts of a write -/

theorem nextLatch_tdr (r : DzReg) (v : Word) (latch : DzReg → Word) :
    nextLatch b r v latch .msrTdr=if r=.msrTdr then v else latch .msrTdr := by
  unfold nextLatch
  cases r with
  | csr =>
    rw [if_neg (show ¬DzReg.csr=.msrTdr by rintro ⟨⟩)]
    by_cases hc : v &&& 0o20≠0
    · rw [if_pos ⟨rfl,hc⟩]
      rfl
    · rw [if_neg (fun h => hc h.2)]
      rfl
  | rbufLpr | tcr | msrTdr => simp

theorem merge_high (r : DzReg) (data latch : Word) : (merge b r .high data latch).setWidth 8=latch.setWidth 8 := by
  unfold merge
  ext i hi
  have hm : i=0 ∨ i=1 ∨ i=2 ∨ i=3 ∨ i=4 ∨ i=5 ∨ i=6 ∨ i=7 := by omega
  rcases hm with rfl | rfl | rfl | rfl | rfl | rfl | rfl | rfl <;> simp

/-- What an operation makes of the transmit buffer: it empties it, or what it holds stands for the line of
CSR and the low byte of the flipflops -/
structure Buffered (t : Dzv11) (due : List Frame) (gone : List Frame) (latch : Word) : Prop where
  inOrder : due=gone++t.waiting
  buffer : t.tdrPending=true → t.tdrLine=t.csrTline ∧ t.tdrChar=latch.setWidth 8

theorem buffered_of_scan {e t : Dzv11} {latch : Word}
    (ht : e.tdrPending → e.csrTrdy=false) (h : Buffered e due gone latch)
    (hp : t.tdrPending=(e.scanTxTrdy b).tdrPending) (hl : t.tdrLine=(e.scanTxTrdy b).tdrLine)
    (hc : t.tdrChar=(e.scanTxTrdy b).tdrChar) (hn : t.csrTline=(e.scanTxTrdy b).csrTline) :
    Buffered t due gone latch := by
  have hf := e.readyOnly_scan (b := b)
  have hb : t.waiting=e.waiting := by
    unfold Dzv11.waiting
    rw [hp,hl,hc,hf.tdrPending,hf.tdrLine,hf.tdrChar]
  refine ⟨by rw [hb]; exact h.inOrder,fun hw => ?_⟩
  rw [hp,hf.tdrPending] at hw
  obtain ⟨hbl,hbc⟩ := h.buffer hw
  rw [hl,hn,hc,hf.tdrLine,hf.tdrChar,Dzv11.scan_line_waiting hw (ht hw)]
  exact ⟨hbl,hbc⟩

theorem Buffered.same {s t : Dzv11} {latch latch' : Word} (h : Buffered s due gone latch) (hs : Dzv11.SameBuffer s t)
    (hl : latch'.setWidth 8=(latch.setWidth 8 : Byte)) : Buffered t due gone latch' := by
  refine ⟨by rw [hs.waiting_eq]; exact h.inOrder,fun hw => ?_⟩
  rw [hs.pending] at hw
  rw [hs.tdrLine,hs.line,hs.tdrChar,hl]
  exact h.buffer hw

theorem buffered_none {t : Dzv11} {gone : List Frame} {latch : Word} (h : t.tdrPending=false) :
    Buffered t gone gone latch :=
  ⟨by rw [Dzv11.waiting_of_not h,append_nil],fun hw => by simp [h] at hw⟩

theorem Buffered.drop {s t : Dzv11} {latch latch' : Word} (h : Buffered s due gone latch) (ht : t.tdrPending=false) :
    Buffered t (if s.tdrPending then due.dropLast else due) gone latch' := by
  have hd : (if s.tdrPending then due.dropLast else due)=gone := by
    rw [h.inOrder]
    cases hp : s.tdrPending with
    | true => simp [Dzv11.waiting_of hp]
    | false => simp [Dzv11.waiting_of_not hp]
  rw [hd]
  exact buffered_none ht

theorem XmtInv.buffered (h : XmtInv b s) :
    Buffered s.board s.due (s.out.map fst++s.worker.held) (s.latch .msrTdr) :=
  ⟨h.inOrder,h.buffer⟩

theorem load_due_csr (s : DzSeat) (a : Access) (v : Word) : (s.load .csr a v).due =
    if v &&& 0o20≠0 ∧ s.board.tdrPending then s.due.dropLast else s.due := by
  simp [load,Dzv11.loads]

theorem XmtInv.write_buffered (h : XmtInv b s) {r : DzReg} {a : Access} {data : Word}
    (hd : Driven b s (.write r a data)) : let v := merge b r a data (s.latch r)
    Buffered (s.board.op b (.write r v)) (s.load r a v).due
      (s.out.map fst++s.worker.held) (nextLatch b r v s.latch .msrTdr) := by
  intro v
  have hb := h.buffered
  have ht : s.board.tdrPending=true → s.board.csrTrdy=false := h.scanned.trdy_waiting
  rw [nextLatch_tdr]
  cases r with
  | csr =>
    rw [if_neg (by rintro ⟨⟩)]
    obtain ⟨hsame,hclear⟩ := s.board.evalCsr_buffer v
    by_cases hc : v &&& 0o20=0
    · rw [load_due_csr,if_neg (fun h => h.1 hc)]
      refine buffered_of_scan (b := b) (e := s.board.evalCsrDato v) ?_ (hb.same (hsame hc) rfl) rfl
        rfl rfl rfl
      intro hp
      rw [(hsame hc).pending] at hp
      by_contra hn
      have := (Dzv11.evalCsr_ready (by simpa using hn)).1
      rw [ht hp] at this
      cases this
    · have hdue : (s.load .csr a v).due =
          if s.board.tdrPending then s.due.dropLast else s.due := by
        rw [load_due_csr]
        simp only [ne_eq,hc,not_false_eq_true,true_and]
      rw [hdue]
      refine hb.drop ?_
      show ((s.board.evalCsrDato v).scanTxTrdy b).tdrPending=false
      rw [(Dzv11.readyOnly_scan _).tdrPending]
      exact (hclear hc).pending
  | rbufLpr =>
    rw [if_neg (by rintro ⟨⟩)]
    have hdue : (s.load .rbufLpr a v).due=s.due := by simp [load,Dzv11.loads]
    rw [hdue]
    exact hb.same (s.board.sameBuffer_lpr v) rfl
  | tcr =>
    rw [if_neg (by rintro ⟨⟩)]
    have hdue : (s.load .tcr a v).due=s.due := by simp [load,Dzv11.loads]
    rw [hdue]
    exact buffered_of_scan (b := b) (e := s.board.evalTcrDato v) ht
      (hb.same ⟨rfl,rfl,rfl,rfl⟩ rfl) rfl rfl rfl rfl
  | msrTdr =>
    rw [if_pos rfl]
    obtain ⟨hlow,hhigh⟩ := hd rfl
    have hmod := Nat.mod_eq_of_lt h.line
    suffices he : Buffered (s.board.evalTdrDato b v) (s.load .msrTdr a v).due
        (s.out.map fst++s.worker.held) v ∧
        ((s.board.evalTdrDato b v).tdrPending=true → (s.board.evalTdrDato b v).csrTrdy=false) by
      exact buffered_of_scan (b := b) he.2 he.1 rfl rfl rfl rfl
    by_cases ha : a=.high
    · have hdue : (s.load .msrTdr a v).due=s.due := by simp [load,Dzv11.loads,ha]
      have hv : v.setWidth 8=((s.latch .msrTdr).setWidth 8 : Byte) := by
        show (merge b _ a _ _).setWidth 8=_
        rw [ha]
        exact merge_high _ _ _
      rw [hdue]
      obtain ⟨hm,hp⟩ | ⟨hm,hr⟩ := hhigh ha
      · obtain ⟨hl,hc⟩ := h.buffer hp
        have hs : Dzv11.SameBuffer s.board (s.board.evalTdrDato b v) := by
          rw [Dzv11.evalTdr_load hm]
          exact ⟨rfl,hp.symm,(hmod.trans hl.symm),hv.trans hc.symm⟩
        exact ⟨hb.same hs hv,fun _ => by rw [Dzv11.evalTdr_load hm]⟩
      · have hs : Dzv11.SameBuffer s.board (s.board.evalTdrDato b v) := by
          rw [Dzv11.evalTdr_break hm hr]
          have hbr : Dzv11.SameBuffer s.board (s.board.broken b v) := ⟨rfl,rfl,rfl,rfl⟩
          exact hbr.trans (Dzv11.sameBuffer_breaks _ _ _)
        refine ⟨hb.same hs hv,fun hp => ?_⟩
        rw [hs.pending] at hp
        by_contra hn
        have := (Dzv11.evalTdr_ready (by simpa using hn)).1
        rw [ht hp] at this
        cases this
    · have hrdy : s.board.csrTrdy=true := by
        rw [← Dzv11.csrValue_trdy (b := b),← h.agrees.csr]
        exact hlow ha
      have hp : s.board.tdrPending=false := (h.scanned hrdy).2.1
      cases hm : s.board.csrMaint with
      | false =>
        have hdue : (s.load .msrTdr a v).due =
            s.due++[⟨shownLine s.board.csr,v.setWidth 8⟩] := by
          simp [load,Dzv11.loads,ha,hm]
        rw [hdue,Dzv11.evalTdr_load hm,h.agrees.csr,Dzv11.csrValue_shownLine]
        refine ⟨⟨?_,fun _ => ⟨hmod,rfl⟩⟩,fun _ => rfl⟩
        rw [h.inOrder,Dzv11.waiting_of_not hp,append_nil]
        rfl
      | true =>
        have hdue : (s.load .msrTdr a v).due=s.due := by
          simp [load,Dzv11.loads,hm]
        have hpe : (s.board.evalTdrDato b v).tdrPending=false := by
          by_cases hr : s.board.rising b v=0
          · rw [(Dzv11.evalTdr_wrap hm hr).2.2.2.2.2.2.2.1,hp]
          · rw [Dzv11.evalTdr_break hm hr,(Dzv11.sameBuffer_breaks _ _ _).pending]
            exact hp
        rw [hdue,h.inOrder,Dzv11.waiting_of_not hp,append_nil]
        exact ⟨buffered_none hpe,fun h => by simp [hpe] at h⟩

theorem load_loaded (s : DzSeat) (r : DzReg) (a : Access) (v : Word) (h : s.due.Sublist s.loaded) :
    (s.load r a v).due.Sublist (s.load r a v).loaded := by
  unfold load
  dsimp only
  by_cases hl : r=.msrTdr ∧ a≠.high
  · rw [if_pos hl]
    split_ifs
    · exact h.append (Sublist.refl _)
    · exact ((dropLast_sublist _).trans h).trans (sublist_append_left _ _)
    · exact h.trans (sublist_append_left _ _)
  · rw [if_neg hl,if_neg (by
      intro hn
      simp only [Dzv11.loads,Bool.and_eq_true,decide_eq_true_eq] at hn
      exact hl hn.1)]
    split_ifs
    · exact (dropLast_sublist _).trans h
    · exact h

theorem XmtInv.op {s t : DzSeat} (h : XmtInv b s) {o : DzOp} (hb : t.board=s.board.op b o)
    (hbuf : Buffered t.board t.due (t.out.map fst++t.worker.held) (t.latch .msrTdr))
    (hl : t.due.Sublist t.loaded) (hp : t.worker=.resting → t.board.Presented b)
    (ht : t.passed=s.nextPassed b o) : XmtInv b t := by
  obtain ⟨hlt,hturns⟩ := turns_op (b := b) h.line h.turns (Dzv11.turn_op h.scanned o)
  refine ⟨?_,?_,?_,hbuf.inOrder,hl,hbuf.buffer,hp,?_⟩
  · rw [hb]
    exact Dzv11.agrees_op h.agrees h.scanned o
  · rw [hb]
    exact Dzv11.scanned_op h.scanned o
  · rw [hb]
    exact hlt
  · rw [hb,ht]
    exact hturns

theorem XmtInv.resetAll (h : XmtInv b s) (cancelAll : Bool) : XmtInv b (s.resetAll b cancelAll) := by
  refine h.op (o := .reset) rfl (h.buffered.drop rfl) ?_ (fun _ hm => by cases hm) rfl
  show (if s.board.tdrPending then s.due.dropLast else s.due).Sublist s.loaded
  split_ifs
  · exact (dropLast_sublist _).trans h.loaded
  · exact h.loaded

theorem XmtInv.scan {s t : DzSeat} (h : XmtInv b s) (hs : s.step b .scan=some t) : XmtInv b t := by
  have hf := s.board.readyOnly_scan (b := b)
  have hw : s.worker.held=[] := by
    cases hw : s.worker with
    | resting | sent => rfl
    | sending f => simp [DzSeat.step,hw] at hs
  have ht : t={ s.perform b .transmit with
      worker := if (s.board.scanTxTrdy b).tdrPending then .sending ⟨s.board.tdrLine,s.board.tdrChar⟩
        else .resting } := by
    cases hw : s.worker with
    | resting | sent =>
      simp only [DzSeat.step,hw,some.injEq] at hs
      exact hs.symm
    | sending f => simp [DzSeat.step,hw] at hs
  subst ht
  rw [hf.tdrPending]
  have hop : (s.perform b .transmit).board=s.board.transmit b := rfl
  cases hp : s.board.tdrPending with
  | true =>
    refine h.op (o := .transmit) rfl ?_ h.loaded (by rintro ⟨⟩) rfl
    have hdue : s.due=s.out.map fst++[⟨s.board.tdrLine,s.board.tdrChar⟩] := by
      rw [h.inOrder,hw,Dzv11.waiting_of hp,append_nil]
    show Buffered (s.board.transmit b) s.due (s.out.map fst++[_]) _
    rw [hdue]
    exact buffered_none (by rw [Dzv11.transmit_takes hp]; rfl)
  | false =>
    refine h.op (o := .transmit) rfl ?_ h.loaded (fun _ => ?_) rfl
    · have hdue : s.due=s.out.map fst++[] := by
        rw [h.inOrder,hw,Dzv11.waiting_of_not hp,append_nil]
      show Buffered (s.board.transmit b) s.due (s.out.map fst++[]) _
      rw [hdue]
      exact buffered_none (by rw [Dzv11.transmit_idle hp,hf.tdrPending]; exact hp)
    · show Dzv11.Presented b (s.board.transmit b)
      rw [Dzv11.transmit_idle hp]
      exact Dzv11.presented_scan h.line

theorem XmtInv.send {s t : DzSeat} (h : XmtInv b s) {isOpen : Bool}
    (hs : s.step b (.send isOpen)=some t) : XmtInv b t := by
  cases hw : s.worker with
  | resting | sent => simp [DzSeat.step,hw] at hs
  | sending f =>
    simp only [DzSeat.step,hw,some.injEq] at hs
    subst hs
    refine ⟨h.agrees,h.scanned,h.line,?_,h.loaded,h.buffer,by rintro ⟨⟩,h.turns⟩
    rw [h.inOrder,hw]
    simp [Xmt.held]

theorem XmtInv.congr {s t : DzSeat} (h : XmtInv b s) (hb : t.board=s.board)
    (hl : t.latch=s.latch) (hw : t.worker=s.worker) (ho : t.out=s.out) (hd : t.due=s.due)
    (hn : t.loaded=s.loaded) (hp : t.passed=s.passed) : XmtInv b t := by
  obtain ⟨h1,h2,h3,h4,h5,h6,h7,h8⟩ := h
  constructor
  · rwa [hb]
  · rwa [hb]
  · rwa [hb]
  · rwa [hd,ho,hw,hb]
  · rwa [hd,hn]
  · rwa [hb,hl]
  · rwa [hb,hw]
  · rwa [hb,hp]

theorem XmtInv.step {s t : DzSeat} {e : DzEvent} (h : XmtInv b s) (hd : Driven b s e)
    (hs : s.step b e=some t) : XmtInv b t := by
  cases e with
  | write r a data =>
    have hb := h.write_buffered hd
    simp only [DzSeat.step,ite_none_right_eq_some,some.injEq] at hs
    obtain ⟨-,rfl⟩ := hs
    exact h.op (o := .write r (merge b r a data (s.latch r))) rfl hb (load_loaded s r a _ h.loaded)
      (fun hw => Dzv11.presented_write (h.presented hw) h.line _ _) rfl
  | readRbuf =>
    simp only [DzSeat.step,ite_none_right_eq_some,some.injEq] at hs
    obtain ⟨-,rfl⟩ := hs
    exact h.op (o := .read .rbufLpr) rfl (h.buffered.same ⟨rfl,rfl,rfl,rfl⟩ rfl) h.loaded
      (fun hw => h.presented hw) rfl
  | receive line ch =>
    simp only [DzSeat.step,ite_none_right_eq_some,some.injEq] at hs
    obtain ⟨-,rfl⟩ := hs
    have hp := s.board.sameBuffer_push (b := b) line ch 0
    exact h.op (o := .receive line ch) rfl
      (h.buffered.same ⟨hp.line,hp.pending,hp.tdrLine,hp.tdrChar⟩ rfl) h.loaded
      (fun hw => Dzv11.presented_receive (h.presented hw) line ch) rfl
  | scan => exact h.scan hs
  | send isOpen => exact h.send hs
  | grantRcv | grantXmt =>
    cases hs
    exact h.congr rfl rfl rfl rfl rfl rfl rfl
  | power dcloRaising =>
    cases hs
    exact h.resetAll dcloRaising
  | initReset =>
    simp only [DzSeat.step,ite_none_right_eq_some,some.injEq] at hs
    obtain ⟨-,rfl⟩ := hs
    exact (h.resetAll true).congr rfl rfl rfl rfl rfl rfl rfl
  | initAssert | initNegate =>
    simp only [DzSeat.step,ite_none_right_eq_some,some.injEq] at hs
    obtain ⟨-,rfl⟩ := hs
    exact h.congr rfl rfl rfl rfl rfl rfl rfl

theorem start_xmtInv : XmtInv b start := by
  refine ⟨start_intrInv.agrees,Dzv11.scanned_of_not rfl,Dzv11.lineCount_pos,rfl,.refl _,
    fun h => (by cases h),fun _ h => (by cases h),fun i _ => ?_⟩
  rw [show (start.passed i)=0 from rfl,Nat.zero_add]
  exact Dzv11.ahead_lt _ i

/-! What is in flight comes out. -/

theorem XmtInv.sends_held (h : XmtInv b s) :
    ∃ t,Relation.ReflTransGen (Works b) s t ∧ t.due=s.due ∧ t.worker.held=[] ∧ t.board=s.board ∧ XmtInv b t := by
  cases hw : s.worker with
  | resting | sent => exact ⟨s,.refl,rfl,by rw [hw]; rfl,rfl,h⟩
  | sending f =>
    have hs : s.step b (.send true)=some { s with out := s.out++[(f,true)],worker := .sent } := by
      simp [DzSeat.step,hw]
    exact ⟨_,.single (.send true hs),rfl,rfl,rfl,h.send hs⟩

theorem XmtInv.sends (h : XmtInv b s) :
    ∃ t,Relation.ReflTransGen (Works b) s t ∧ t.due=s.due ∧ t.out.map fst=s.due := by
  obtain ⟨s1,hr1,hd1,hh1,-,h1⟩ := h.sends_held
  have hscan : ∃ s2,s1.step b .scan=some s2 ∧ s2.due=s1.due ∧ s2.board.waiting=[] := by
    have hw : (s1.board.transmit b).waiting=[] := by
      refine Dzv11.waiting_of_not ?_
      cases hp : s1.board.tdrPending with
      | true => rw [Dzv11.transmit_takes hp]; rfl
      | false => rw [Dzv11.transmit_idle hp,(Dzv11.readyOnly_scan _).tdrPending]; exact hp
    cases hk : s1.worker with
    | resting | sent => simp only [DzSeat.step,hk]; exact ⟨_,rfl,rfl,hw⟩
    | sending f => simp [hk,Xmt.held] at hh1
  obtain ⟨s2,hs2,hd2,hw2⟩ := hscan
  have h2 := h1.scan hs2
  obtain ⟨s3,hr3,hd3,hh3,hb3,h3⟩ := h2.sends_held
  have hw3 : s3.board.waiting=[] := by rw [hb3,hw2]
  refine ⟨s3,hr1.trans (hr3.head (.scan hs2)),by rw [hd3,hd2,hd1],?_⟩
  have := h3.inOrder
  rw [hh3,hw3,append_nil,append_nil] at this
  rw [← this,hd3,hd2,hd1]

theorem XmtInv.right (h : XmtInv b s) : TransmitRight b s where
  inOrder := h.inOrder
  loaded := h.loaded
  sends := h.sends
  presented := by
    rintro hw hn hm ⟨i,hi,he⟩
    have hp : s.board.tdrPending=false := by
      by_contra hp
      rw [Dzv11.waiting_of (by simpa using hp)] at hn
      cases hn
    have ht := h.presented hw hm hp i hi he
    rw [h.agrees.csr,Dzv11.csrValue_trdy,Dzv11.csrValue_shownLine,Nat.mod_eq_of_lt h.line]
    exact ⟨ht,(h.scanned ht).2.2.1⟩
  inTurn := fun i hi => Nat.lt_of_le_of_lt (Nat.le_add_right _ _) (h.turns i hi)

/-- In every run of a driver that loads a character only while TRDY is shown, the transmitter sends what is
due. -/
theorem transmit_inOrder {es : List DzEvent} {t : DzSeat}
    (h : Run (Guarded (Driven b) (step b)) start es t) : TransmitRight b t :=
  (h.invariant (P := XmtInv b) (fun _ _ _ hs hn => hs.step hn.1 hn.2) start_xmtInv).right

instance (b : DzBoard) (s : DzSeat) : (e : DzEvent) → Decidable (Driven b s e)
  | .write r a data => inferInstanceAs (Decidable (r=.msrTdr →
      (a≠.high → shownTrdy s.board.csr=true) ∧
      (a=.high → s.board.csrMaint=false ∧ s.board.tdrPending=true ∨
        s.board.csrMaint=true ∧ s.board.rising b (merge b r a data (s.latch r))≠0)))
  | .readRbuf => .isTrue trivial
  | .receive _ _ => .isTrue trivial
  | .scan => .isTrue trivial
  | .send _ => .isTrue trivial
  | .grantRcv => .isTrue trivial
  | .grantXmt => .isTrue trivial
  | .power _ => .isTrue trivial
  | .initAssert => .isTrue trivial
  | .initReset => .isTrue trivial
  | .initNegate => .isTrue trivial

def twoCharacters : List DzEvent :=
  [.write .tcr .word 5,.write .csr .word 0o40,.write .msrTdr .low 65,.scan,.send true,.scan,
    .write .msrTdr .low 66,.write .msrTdr .high 0x400,.write .tcr .high 0x300,.scan]

theorem transmit_inOrder_two : ∃ t,Run (Guarded (Driven .dzv11) (step .dzv11)) start twoCharacters t ∧
    TransmitRight .dzv11 t ∧ t.out=[(⟨2,65⟩,true)] ∧ t.worker=.sending ⟨0,66⟩ := by
  obtain ⟨t,h,ht⟩ := run_of_foldlM (Driven .dzv11) (step .dzv11)
    (fun t => t.out=[(⟨2,65⟩,true)] ∧ t.worker=.sending ⟨0,66⟩) twoCharacters start
    (by decide +kernel)
  exact ⟨t,h,transmit_inOrder h,by simpa using ht⟩

/-- A write of the break byte alone sends a character nobody loaded. One that waits is lost to Master Clear, and one
loaded in maintenance mode is not sent. -/
theorem transmit_astray : (∃ t,Run (Guarded (fun _ _ => True) (step .dzv11)) start
      [.write .tcr .word 1,.write .csr .word 0o40,.write .msrTdr .high 0x100,.scan,.send true] t ∧
      t.loaded=[] ∧ t.out=[(⟨0,0⟩,true)]) ∧ (∃ t,Run (Guarded (fun _ _ => True) (step .dzv11)) start
      [.write .tcr .word 1,.write .csr .word 0o40,.write .msrTdr .low 65,.write .csr .word 0o20,
        .scan] t ∧ t.loaded=[⟨0,65⟩] ∧ t.out=[] ∧ t.worker=.resting ∧ t.board.waiting=[]) ∧
    (∃ t,Run (Guarded (fun _ _ => True) (step .dzv11)) start
      [.write .tcr .word 1,.write .csr .word 0o50,.write .msrTdr .low 65,.scan] t ∧
      t.loaded=[⟨0,65⟩] ∧ t.out=[] ∧ t.worker=.resting ∧ t.board.waiting=[]) := by
  obtain ⟨s,hs,hst⟩ := run_of_foldlM (fun _ _ => True) (step .dzv11)
    (fun t => t.loaded=[] ∧ t.out=[(⟨0,0⟩,true)])
    [.write .tcr .word 1,.write .csr .word 0o40,.write .msrTdr .high 0x100,.scan,.send true] start
    (by decide +kernel)
  obtain ⟨t,ht,htt⟩ := run_of_foldlM (fun _ _ => True) (step .dzv11)
    (fun t => t.loaded=[⟨0,65⟩] ∧ t.out=[] ∧ t.worker=.resting ∧ t.board.waiting=[])
    [.write .tcr .word 1,.write .csr .word 0o40,.write .msrTdr .low 65,.write .csr .word 0o20,.scan]
    start (by decide +kernel)
  obtain ⟨u,hu,hut⟩ := run_of_foldlM (fun _ _ => True) (step .dzv11)
    (fun t => t.loaded=[⟨0,65⟩] ∧ t.out=[] ∧ t.worker=.resting ∧ t.board.waiting=[])
    [.write .tcr .word 1,.write .csr .word 0o50,.write .msrTdr .low 65,.scan] start (by decide +kernel)
  exact ⟨⟨s,hs,by simpa using hst⟩,⟨t,ht,by simpa using htt⟩,u,hu,by simpa using hut⟩

end DzSeat

end QUniLator.Mux
