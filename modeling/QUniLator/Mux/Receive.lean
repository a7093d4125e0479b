import QUniLator.Framework.Silo
import QUniLator.Mux.Card

namespace QUniLator.Mux

open List Option Bool BitVec
open SiloOp (onLedger onSilo)

def rbufValid (w : Word) : Bool := w.getLsbD 15

def markOverrun (w : Word) : Word := w ||| rbufOverrun

def Card.Seat.returns {c : Card} (s : c.Seat) : c.Event → Option Word
  | .cycle r => if rbufValid (c.value r s.state) then some (c.value r s.state) else none
  | .callback | .write _ _ | .move _ | .power _ | .initAssert _ | .initNegate => none

/-- The word that came with `VALID`, with the line and the character that it names -/
def Carries (w : Word) (line : Nat) (ch : Byte) : Prop :=
  rbufValid w ∧ ((w >>> 8) &&& 7).toNat=line ∧ w.setWidth 8=ch

theorem input_push {α : Type*} (f : α → Word) (l : List α) : ∀ op∈l.map fun a => SiloOp.push (f a),op.IsInput := by
  intro op hop
  obtain ⟨a,_,rfl⟩ := List.mem_map.mp hop
  exact trivial

theorem input_if {p : Prop} [Decidable p] {l : List (SiloOp Word)} (h : ∀ op∈l,op.IsInput) :
    ∀ op∈(if p then l else []),op.IsInput := by
  split_ifs
  · exact h
  · exact fun op hop => absurd hop not_mem_nil

theorem input_one {op : SiloOp Word} (h : op.IsInput) : ∀ x∈[op],x.IsInput := by
  intro x hx
  rw [mem_singleton.mp hx]
  exact h

theorem input_nil : ∀ op∈([] : List (SiloOp Word)),op.IsInput :=
  fun _ hop => absurd hop not_mem_nil

/-- The FIFO of a card, with what each part puts into it and takes: `entry` is what a received character becomes. A
reset clears it, and puts in what `resets` says. -/
structure Receiver (c : Card) where
  isRbuf : c.Reg → Bool
  fifo : c.State → List Word
  capacity : Nat
  lines : Nat
  entry : Nat → Byte → Word
  reads : c.Reg → c.State → List (SiloOp Word)
  writes : c.Reg → Word → c.State → List (SiloOp Word)
  moves : c.Move → c.State → List (SiloOp Word)
  resets : List (SiloOp Word)

namespace Receiver

variable {c : Card} (v : Receiver c)

def underway (s : c.Seat) : Bool := s.access.any fun a => v.isRbuf a.1

def reading (s : c.Seat) : Bool := v.underway s && !s.lineInit

def silo (s : c.Seat) : Silo Word := ⟨v.fifo s.state,v.reading s⟩

def ops (s : c.Seat) : c.Event → List (SiloOp Word)
  | .cycle r => if v.isRbuf r then [.take] else []
  | .callback =>
    if s.lineInit then [] else (s.access.map fun a => v.reads a.1 s.state).getD []
  | .write r w => v.writes r w s.state
  | .move m => v.moves m s.state
  | .power _ | .initAssert _ => .clear::v.resets
  | .initNegate => []

/-- While a read of RBUF is underway, nothing is put into an empty FIFO, and INIT does not end. -/
def calm (s : c.Seat) (e : c.Event) : Bool :=
  match e with
  | .initAssert _ => true
  | .initNegate => !v.underway s
  | .cycle _ | .callback | .write _ _ | .move _ | .power _ =>
    !(v.reading s && SiloOp.fills (v.fifo s.state).isEmpty (v.ops s e))

/-- A step, with the ledger of what was received and of what reads have returned -/
def step (x : c.Seat × Ledger Word) (e : c.Event) : Option (c.Seat × Ledger Word) :=
  (x.1.step e).map fun t =>
    (t,(v.ops x.1 e).foldl (SiloOp.onLedger v.capacity markOverrun (x.1.returns e)) x.2)

/-- Reads have returned what was received, in order, and the rest is in the FIFO. All of it is valid. -/
structure Delivers (s : c.Seat) (l : Ledger Word) : Prop where
  order : l.kept=l.returned++(v.silo s).unread
  valid : ∀ w∈l.kept,rbufValid w

def Shown (s : c.State) : Prop :=
  ∀ r,v.isRbuf r → c.value r s=(v.fifo s).head?.getD 0

/-- From `s` to `t` the FIFO sees `ops`. -/
structure Does (ops : List (SiloOp Word)) (s t : c.State) : Prop where
  fifo : v.fifo t=ops.foldl (SiloOp.onEntries v.capacity markOverrun) (v.fifo s)
  shown : v.Shown s → v.Shown t
  valid : ∀ w,SiloOp.push w∈ops → rbufValid w

/-- The card does to its FIFO what the receiver says. -/
structure Lawful : Prop where
  capacity : 2≤v.capacity
  initial : v.fifo c.initial=[]
  initialShown : v.Shown c.initial
  rbuf : ∀ r s,v.isRbuf r → v.reads r s=[.drop]
  readInput : ∀ r s,v.isRbuf r=false → ∀ op∈v.reads r s,op.IsInput
  writeInput : ∀ r w s,∀ op∈v.writes r w s,op.IsInput
  moveInput : ∀ m s,∀ op∈v.moves m s,op.IsInput
  resetInput : ∀ op∈v.resets,op.IsInput
  read : ∀ r s,v.Does (v.reads r s) s (c.onRead r s)
  write : ∀ r w s t,c.onWrite r w s=some t → v.Does (v.writes r w s) s t
  move : ∀ m s t,c.move m s=some t → v.Does (v.moves m s) s t
  reset : ∀ isOpen s,v.Does (.clear::v.resets) s (c.reset isOpen s)
  entry : ∀ line<v.lines,∀ ch,Carries (v.entry line ch) line ch

end Receiver

theorem rbufValid_markOverrun (w : Word) : rbufValid (markOverrun w)=rbufValid w := by
  rw [rbufValid,rbufValid,markOverrun,getLsbD_or]
  simp [rbufOverrun]

theorem markOverrun_flag (w : Word) : (markOverrun w).getLsbD 14 := by
  rw [markOverrun,getLsbD_or]
  simp [rbufOverrun]

theorem carries_markOverrun {w : Word} {line : Nat} {ch : Byte} (h : Carries w line ch) :
    Carries (markOverrun w) line ch := by
  obtain ⟨hv,hline,hch⟩ := h
  have hshift : (rbufOverrun >>> 8) &&& 7=0 := by decide
  have hlow : rbufOverrun.setWidth 8=0#8 := by decide
  refine ⟨by rwa [rbufValid_markOverrun],?_,?_⟩
  · rw [markOverrun,ushiftRight_or_distrib,BitVec.and_or_distrib_right,hshift]
    rw [← hline]
    exact congrArg BitVec.toNat or_zero
  · rw [markOverrun,setWidth_or,hlow,or_zero]
    exact hch

section
variable {c : Card} {v : Receiver c} {ops ops' : List (SiloOp Word)} {s t u : c.State}

theorem Receiver.Does.none (hf : v.fifo t=v.fifo s) (hs : v.Shown s → v.Shown t) : v.Does [] s t :=
  ⟨hf,hs,fun _ hw => absurd hw not_mem_nil⟩

theorem Receiver.Does.trans (h : v.Does ops s t) (h' : v.Does ops' t u) : v.Does (ops++ops') s u where
  fifo := by rw [foldl_append,← h.fifo]; exact h'.fifo
  shown := fun hs => h'.shown (h.shown hs)
  valid := fun w hw => (mem_append.mp hw).elim (h.valid w) (h'.valid w)

theorem mem_pushFull {full : Bool} {a w : Word} {l : List Word}
    (hw : w∈pushFull markOverrun full a l) : w∈l ∨ w=a ∨ w=markOverrun a := by
  rw [pushFull] at hw
  split_ifs at hw
  · obtain hw | hw := mem_append.mp hw
    · exact .inl (mem_of_mem_dropLast hw)
    · exact .inr (.inr (mem_singleton.mp hw))
  · obtain hw | hw := mem_append.mp hw
    · exact .inl hw
    · exact .inr (.inl (mem_singleton.mp hw))

theorem valid_pushFull {full : Bool} {a : Word} {l : List Word} (ha : rbufValid a)
    (hl : ∀ w∈l,rbufValid w) : ∀ w∈pushFull markOverrun full a l,rbufValid w := by
  intro w hw
  obtain hw | rfl | rfl := mem_pushFull hw
  · exact hl w hw
  · exact ha
  · rw [rbufValid_markOverrun]
    exact ha

theorem valid_onEntries {n : Nat} (hv : ∀ w,SiloOp.push w∈ops → rbufValid w) {l : List Word}
    (hl : ∀ w∈l,rbufValid w) : ∀ w∈ops.foldl (SiloOp.onEntries n markOverrun) l,rbufValid w := by
  induction ops generalizing l with
  | nil => exact hl
  | cons op ops ih =>
    refine ih (fun w hw => hv w (mem_cons_of_mem op hw)) ?_
    cases op with
    | push a => exact valid_pushFull (hv a mem_cons_self) hl
    | clear => exact fun w hw => absurd hw not_mem_nil
    | take => exact hl
    | drop => exact fun w hw => hl w (mem_of_mem_tail hw)

theorem valid_onLedger {n : Nat} {taken : Option Word} (hv : ∀ w,SiloOp.push w∈ops → rbufValid w)
    {l : Ledger Word} (hl : ∀ w∈l.kept,rbufValid w) :
    ∀ w∈(ops.foldl (onLedger n markOverrun taken) l).kept,rbufValid w := by
  induction ops generalizing l with
  | nil => exact hl
  | cons op ops ih =>
    refine ih (fun w hw => hv w (mem_cons_of_mem op hw)) ?_
    cases op with
    | push a => exact valid_pushFull (hv a mem_cons_self) hl
    | clear => exact fun w hw => absurd hw not_mem_nil
    | take | drop => exact hl

end

namespace Receiver

variable {c : Card} {v : Receiver c}

structure Inv (v : Receiver c) (x : c.Seat × Ledger Word) : Prop where
  agrees : x.2.Agrees (v.silo x.1)
  shown : v.Shown x.1.state
  entries : ∀ w∈v.fifo x.1.state,rbufValid w
  kept : ∀ w∈x.2.kept,rbufValid w

variable {x : c.Seat × Ledger Word}

theorem Inv.does (h : v.Inv x) {ops : List (SiloOp Word)}
    {taken : Option Word} {t : c.Seat} (hd : v.Does ops x.1.state t.state)
    (ha : (ops.foldl (onLedger v.capacity markOverrun taken) x.2).Agrees (v.silo t)) :
    v.Inv (t,ops.foldl (onLedger v.capacity markOverrun taken) x.2) where
  agrees := ha
  shown := hd.shown h.shown
  entries := by
    show ∀ w∈v.fifo t.state,_
    rw [hd.fifo]
    exact valid_onEntries hd.valid h.entries
  kept := valid_onLedger hd.valid h.kept

theorem Inv.inputs (h : v.Inv x) (hl : v.Lawful)
    {ops : List (SiloOp Word)} {taken : Option Word} {t : c.Seat} (hd : v.Does ops x.1.state t.state)
    (hi : ∀ op∈ops,op.IsInput) (hr : v.reading t=v.reading x.1)
    (hf : v.reading x.1 → SiloOp.fills (v.fifo x.1.state).isEmpty ops=false) :
    v.Inv (t,ops.foldl (onLedger v.capacity markOverrun taken) x.2) := by
  refine h.does hd ?_
  rw [silo,hd.fifo,hr]
  exact h.agrees.inputs hl.capacity taken ops hi hf

theorem Inv.taken (h : v.Inv x) {r : c.Reg} (hr : v.isRbuf r) : x.1.returns (.cycle r)=(v.fifo x.1.state).head? := by
  rw [Card.Seat.returns,h.shown r hr]
  cases he : v.fifo x.1.state with
  | nil => rfl
  | cons y ys =>
    have hy := h.entries y (by rw [he]; exact mem_cons_self)
    exact if_pos hy

theorem Inv.step {x y : c.Seat × Ledger Word} {e : c.Event} (h : v.Inv x) (hl : v.Lawful)
    (hc : v.calm x.1 e) (hs : v.step x e=some y) : v.Inv y := by
  obtain ⟨t,ht,rfl⟩ := map_eq_some_iff.mp hs
  have hkeep (hr : v.reading t=v.reading x.1) (hf : t.state=x.1.state) :
      v.Inv (t,x.2) := by
    have hd : v.Does [] x.1.state t.state := .none (by rw [hf]) (by rw [hf]; exact id)
    show v.Inv (t,[].foldl (onLedger v.capacity markOverrun none) x.2)
    exact h.inputs hl hd (by rintro op ⟨⟩) hr (fun _ => rfl)
  cases e with
  | cycle r =>
    rw [Card.Seat.step] at ht
    split_ifs at ht with hg
    cases ht
    rw [and_eq_true,and_eq_true] at hg
    obtain ⟨⟨_,hinit⟩,hnone⟩ := hg
    have hfree : v.reading x.1=false := by
      rw [reading,underway,isNone_iff_eq_none.mp hnone]
      rfl
    cases hr : v.isRbuf r with
    | false =>
      rw [ops,hr]
      refine hkeep ?_ rfl
      rw [hfree,reading,underway]
      show (v.isRbuf r && _)=false
      rw [hr]
      rfl
    | true =>
      have htaken := h.taken hr
      rw [ops,hr]
      refine h.does ⟨rfl,id,by simp⟩ ?_
      have hnew : v.silo { x.1 with access := some (r,c.value r x.1.state) } =
          onSilo v.capacity markOverrun (v.silo x.1) .take := by
        rw [silo,reading,underway]
        show (⟨_,v.isRbuf r && !x.1.lineInit⟩ : Silo Word)=_
        rw [hr,hinit]
        rfl
      rw [hnew]
      exact h.agrees.step hl.capacity .take hfree (fun _ => htaken)
  | callback =>
    obtain ⟨a,hacc,rfl⟩ := map_eq_some_iff.mp ht
    have hdone : v.reading ⟨if x.1.lineInit then x.1.state else c.onRead a.1 x.1.state,
        x.1.lineInit,none⟩=false := rfl
    cases hinit : x.1.lineInit with
    | true =>
      have hr : v.reading x.1=false := by rw [reading,hinit,Bool.not_true,Bool.and_false]
      have hk := hkeep (by rw [hr]; exact hdone) (by rw [hinit]; rfl)
      rw [hinit] at hk
      rw [ops,hinit]
      exact hk
    | false =>
      rw [hinit] at hdone
      have hops : v.ops x.1 .callback=v.reads a.1 x.1.state := by
        rw [ops,hinit,hacc]
        rfl
      rw [hops]
      cases hr : v.isRbuf a.1 with
      | true =>
        have hreading : v.reading x.1=true := by
          rw [reading,underway,hacc,hinit]
          show (v.isRbuf a.1 && _)=true
          rw [hr]
          rfl
        have hd := hl.read a.1 x.1.state
        rw [hl.rbuf _ _ hr] at hd ⊢
        refine h.does (t := ⟨c.onRead a.1 x.1.state,false,none⟩) hd ?_
        have ha : (onLedger v.capacity markOverrun (x.1.returns .callback) x.2 .drop).Agrees
            (onSilo v.capacity markOverrun (v.silo x.1) .drop) :=
          h.agrees.step hl.capacity .drop hreading (by rintro ⟨⟩)
        rw [silo,hd.fifo]
        exact ha
      | false =>
        have hreading : v.reading x.1=false := by
          rw [reading,underway,hacc]
          show (v.isRbuf a.1 && _)=false
          rw [hr]
          rfl
        exact h.inputs hl (t := ⟨c.onRead a.1 x.1.state,false,none⟩) (hl.read a.1 x.1.state)
          (hl.readInput _ _ hr) (by rw [hreading]; rfl) (fun hx => by rw [hreading] at hx; cases hx)
  | write r w =>
    rw [Card.Seat.step] at ht
    split_ifs at ht with hg
    obtain ⟨u,hu,rfl⟩ := map_eq_some_iff.mp ht
    exact h.inputs hl (hl.write _ _ _ _ hu) (hl.writeInput _ _ _) rfl
      fun hr => by simpa only [calm,hr,Bool.true_and,not_eq_true'] using hc
  | move m =>
    obtain ⟨u,hu,rfl⟩ := map_eq_some_iff.mp ht
    exact h.inputs hl (hl.move _ _ _ hu) (hl.moveInput _ _) rfl
      fun hr => by simpa only [calm,hr,Bool.true_and,not_eq_true'] using hc
  | power isOpen =>
    cases ht
    refine h.inputs hl (hl.reset isOpen x.1.state) ?_ rfl
      fun hr => by simpa only [calm,hr,Bool.true_and,not_eq_true'] using hc
    exact fun op hop => (mem_cons.mp hop).elim (fun he => he ▸ trivial) (hl.resetInput op)
  | initAssert isOpen =>
    cases ht
    have hd := hl.reset isOpen x.1.state
    refine h.does (t := ⟨_,true,x.1.access⟩) hd ?_
    have hreading : v.reading ⟨c.reset isOpen x.1.state,true,x.1.access⟩=false := by
      rw [reading,Bool.not_true,Bool.and_false]
    rw [silo,hreading,hd.fifo]
    -- the read that is underway ends without its callback
    exact (Ledger.agrees_empty false).inputs hl.capacity (x.1.returns (.initAssert isOpen)) v.resets
      hl.resetInput (by rintro ⟨⟩)
  | initNegate =>
    cases ht
    refine hkeep ?_ rfl
    have hc : v.underway x.1=false := by simpa only [calm,not_eq_true'] using hc
    have hc' : v.underway { x.1 with lineInit := false }=false := hc
    rw [reading,reading,hc,hc',Bool.false_and,Bool.false_and]

theorem inv_start (hl : v.Lawful) : v.Inv (c.start,⟨[],[],0⟩) where
  agrees := by
    rw [silo]
    show Ledger.Agrees _ ⟨v.fifo c.initial,_⟩
    rw [hl.initial]
    exact Ledger.agrees_empty _
  shown := hl.initialShown
  entries := by
    show ∀ w∈v.fifo c.initial,_
    rw [hl.initial]
    exact fun w hw => absurd hw not_mem_nil
  kept := fun w hw => absurd hw not_mem_nil

theorem Inv.delivers (h : v.Inv x) : v.Delivers x.1 x.2 :=
  ⟨h.agrees.kept,h.kept⟩

end Receiver

end QUniLator.Mux
