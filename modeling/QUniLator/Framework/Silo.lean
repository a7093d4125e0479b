import Mathlib.Data.List.Basic

namespace QUniLator

open List

/-- A queue whose reader first takes the value of its front, and drops the front later: `reading` tells
that a read has taken it and is not over yet. -/
structure Silo (α : Type*) where
  entries : List α
  reading : Bool

/-- What has been put into a silo since it was cleared last, and has not been replaced, what reads have
taken of it, and how many of these are over. -/
structure Ledger (α : Type*) where
  kept : List α
  returned : List α
  popped : Nat
  deriving DecidableEq

inductive SiloOp (α : Type*)
  | push (a : α)
  | clear
  | take
  | drop

/-- A full queue keeps its length: the newest entry gives way to the marked one that comes. -/
def pushFull {α : Type*} (mark : α → α) (full : Bool) (a : α) (l : List α) : List α :=
  if full then l.dropLast++[mark a] else l++[a]

namespace SiloOp

variable {α : Type*} (capacity : Nat) (mark : α → α)

def onEntries (l : List α) : SiloOp α → List α
  | .push a => pushFull mark (capacity≤l.length) a l
  | .clear => []
  | .take => l
  | .drop => l.tail

def onSilo (s : Silo α) (op : SiloOp α) : Silo α where
  entries := op.onEntries capacity mark s.entries
  reading :=
    match op with
    | .push _ | .clear => s.reading
    | .take => true
    | .drop => false

def onLedger (taken : Option α) (l : Ledger α) : SiloOp α → Ledger α
  | .push a => { l with kept := pushFull mark (capacity≤l.kept.length-l.popped) a l.kept }
  | .clear => ⟨[],[],0⟩
  | .take => { l with returned := l.returned++taken.toList }
  | .drop => { l with popped := l.returned.length }

/-- A read begins when none is open, an open one ends, and nothing is put into an empty silo while one
is open. -/
def Allowed (s : Silo α) : SiloOp α → Prop
  | .push _ => s.reading → s.entries≠[]
  | .clear => True
  | .take => s.reading=false
  | .drop => s.reading

def IsInput : SiloOp α → Prop
  | .push _ | .clear => True
  | .take | .drop => False

def fills : Bool → List (SiloOp α) → Bool
  | _,[] => false
  | empty,.push _::ops => empty || fills false ops
  | _,.clear::ops => fills true ops
  | empty,.take::ops => fills empty ops
  | empty,.drop::ops => fills empty ops

end SiloOp

def Silo.unread {α : Type*} (s : Silo α) : List α :=
  if s.reading then s.entries.tail else s.entries

/-- What was kept is what reads have taken and what is still unread, in order. -/
structure Ledger.Agrees {α : Type*} (l : Ledger α) (s : Silo α) : Prop where
  kept : l.kept=l.returned++s.unread
  popped : l.popped+(s.entries.length-s.unread.length)=l.returned.length

section
variable {α : Type*} {capacity : Nat} {mark : α → α} {l : Ledger α} {s : Silo α}

theorem pushFull_ne_nil (full : Bool) (a : α) (r : List α) : pushFull mark full a r≠[] := by
  rw [pushFull]
  split_ifs <;> exact append_ne_nil_of_right_ne_nil _ (cons_ne_nil _ _)

theorem pushFull_append (full : Bool) (a : α) (k r : List α) (hr : full → r≠[]) :
    pushFull mark full a (k++r)=k++pushFull mark full a r := by
  rw [pushFull,pushFull]
  split_ifs with h
  · rw [dropLast_append_of_ne_nil (hr h),append_assoc]
  · rw [append_assoc]

theorem pushFull_length (full : Bool) (a : α) (r : List α) (hr : full → r≠[]) :
    (pushFull mark full a r).length=if full then r.length else r.length+1 := by
  rw [pushFull]
  split_ifs with h
  · have hpos := length_pos_of_ne_nil (hr h)
    rw [length_append,length_dropLast,length_singleton]
    omega
  · rw [length_append,length_singleton]

theorem SiloOp.foldl_push (l k : List α) (h : k.length+l.length ≤ capacity) :
    (l.map SiloOp.push).foldl (SiloOp.onEntries capacity mark) k=k++l := by
  induction l generalizing k with
  | nil => rw [append_nil]; rfl
  | cons a l ih =>
    rw [length_cons] at h
    have hpush : SiloOp.onEntries capacity mark k (.push a)=k++[a] := by
      rw [SiloOp.onEntries,pushFull,if_neg]
      rw [decide_eq_true_eq]
      omega
    rw [map_cons,foldl_cons,hpush,ih (k++[a]),append_assoc]
    · rfl
    · rw [length_append,length_singleton]
      omega

theorem Silo.unread_le (s : Silo α) : s.unread.length ≤ s.entries.length := by
  rw [Silo.unread]
  split_ifs
  · rw [length_tail]
    omega
  · exact Nat.le_refl _

/-- The entries are the unread ones, after the front that an open read has taken. -/
theorem Ledger.Agrees.size (h : l.Agrees s) : l.kept.length-l.popped=s.entries.length := by
  have hk := congrArg List.length h.kept
  have hp := h.popped
  have hle := s.unread_le
  rw [length_append] at hk
  omega

theorem Ledger.Agrees.push (h : l.Agrees s) (hc : 2 ≤ capacity) (a : α)
    (ha : (SiloOp.push a).Allowed s) : (SiloOp.onLedger capacity mark none l (.push a)).Agrees
      (SiloOp.onSilo capacity mark s (.push a)) := by
  have hsize := h.size
  have hkept := h.kept
  have hpopped := h.popped
  -- a full silo has an unread entry, which gives way
  have hunread (hf : capacity ≤ s.entries.length) : s.unread≠[] := by
    rw [Silo.unread]
    intro hx
    have hx := congrArg List.length hx
    split_ifs at hx
    · rw [length_tail,length_nil] at hx
      omega
    · rw [length_nil] at hx
      omega
  let full := decide (capacity ≤ s.entries.length)
  have hfull : decide (capacity≤l.kept.length-l.popped)=full := by rw [hsize]
  have hnew : (SiloOp.onSilo capacity mark s (.push a)).unread=pushFull mark full a s.unread := by
    rw [Silo.unread,Silo.unread]
    show (if s.reading then (pushFull mark full a s.entries).tail
      else pushFull mark full a s.entries)=_
    cases hr : s.reading with
    | false => rfl
    | true =>
      obtain ⟨x,rest,he⟩ := exists_cons_of_ne_nil (ha hr)
      have hrest (hf : full=true) : rest≠[] := by
        have hu := hunread (of_decide_eq_true hf)
        rw [Silo.unread,hr,he] at hu
        exact hu
      rw [he]
      simp only [if_true,tail_cons]
      rw [← singleton_append,pushFull_append full a [x] rest hrest]
      rfl
  have hlen : (pushFull mark full a s.entries).length-(pushFull mark full a s.unread).length =
      s.entries.length-s.unread.length := by
    rw [pushFull_length full a s.unread fun hf => hunread (of_decide_eq_true hf),
      pushFull_length full a s.entries fun hf hx => by
        have hf := of_decide_eq_true hf
        rw [hx,length_nil] at hf
        omega]
    split_ifs
    · rfl
    · omega
  constructor
  · show pushFull mark (decide (capacity≤l.kept.length-l.popped)) a l.kept=l.returned++_
    rw [hfull,hnew,hkept,pushFull_append full a l.returned s.unread fun hf => hunread (of_decide_eq_true hf)]
  · show l.popped+((pushFull mark full a s.entries).length-_)=_
    rw [hnew,hlen]
    exact hpopped

theorem Ledger.agrees_empty (reading : Bool) : (⟨[],[],0⟩ : Ledger α).Agrees ⟨[],reading⟩ := by
  cases reading <;> exact ⟨rfl,rfl⟩

theorem Ledger.Agrees.step (h : l.Agrees s) (hc : 2 ≤ capacity) {taken : Option α}
    (op : SiloOp α) (ha : op.Allowed s) (ht : op=.take → taken=s.entries.head?) :
    (op.onLedger capacity mark taken l).Agrees (op.onSilo capacity mark s) := by
  have hk := h.kept
  have hp := h.popped
  cases op with
  | push a => exact h.push hc a ha
  | clear => exact Ledger.agrees_empty s.reading
  | take =>
    have ha : s.reading=false := ha
    have hu : s.unread=s.entries := by rw [Silo.unread,ha]; rfl
    rw [hu] at hk hp
    rw [ht rfl]
    cases he : s.entries with
    | nil =>
      rw [he] at hk hp
      constructor
      · show l.kept=(l.returned++[])++s.entries.tail
        rw [hk,he]
        simp
      · show l.popped+(s.entries.length-s.entries.tail.length)=(l.returned++[]).length
        rw [he,append_nil]
        exact hp
    | cons y ys =>
      rw [he] at hk hp
      constructor
      · show l.kept=(l.returned++[y])++s.entries.tail
        rw [hk,he,append_assoc]
        rfl
      · show l.popped+(s.entries.length-s.entries.tail.length)=(l.returned++[y]).length
        rw [he,length_append,tail_cons,length_cons,length_singleton]
        rw [Nat.sub_self] at hp
        omega
  | drop =>
    have ha : s.reading=true := ha
    have hu : s.unread=s.entries.tail := by rw [Silo.unread,if_pos ha]
    constructor
    · exact hk.trans (by rw [hu]; rfl)
    · show l.returned.length+(s.entries.tail.length-s.entries.tail.length)=_
      rw [Nat.sub_self]
      rfl

/-- Inputs of a silo that put nothing into it when it is empty and a read is open -/
theorem Ledger.Agrees.inputs (hc : 2 ≤ capacity) (taken : Option α) (ops : List (SiloOp α))
    (hi : ∀ op∈ops,op.IsInput) (h : l.Agrees s) (hf : s.reading → SiloOp.fills s.entries.isEmpty ops=false) :
    (ops.foldl (SiloOp.onLedger capacity mark taken) l).Agrees
      ⟨ops.foldl (SiloOp.onEntries capacity mark) s.entries,s.reading⟩ := by
  induction ops generalizing l s with
  | nil => exact h
  | cons op ops ih =>
    have hrest (op' : SiloOp α) (hm : op'∈ops) := hi op' (mem_cons_of_mem op hm)
    have hop := hi op mem_cons_self
    cases op with
    | take | drop => exact absurd hop id
    | clear =>
      exact ih hrest (h.step hc .clear trivial (by rintro ⟨⟩)) hf
    | push a =>
      have ha : (SiloOp.push a).Allowed s := by
        intro hr he
        have hf := hf hr
        rw [he] at hf
        cases hf
      refine ih hrest (h.step hc (.push a) ha (by rintro ⟨⟩)) fun hr => ?_
      have hf := hf hr
      rw [SiloOp.fills,Bool.or_eq_false_iff] at hf
      have hne : (pushFull mark (capacity ≤ s.entries.length) a s.entries).isEmpty=false :=
        isEmpty_eq_false_iff.mpr (pushFull_ne_nil _ _ _)
      show SiloOp.fills (pushFull mark (capacity ≤ s.entries.length) a s.entries).isEmpty ops=false
      rw [hne]
      exact hf.2

end

end QUniLator
