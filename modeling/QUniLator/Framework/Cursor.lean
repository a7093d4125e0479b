import Mathlib.Data.List.Basic

namespace QUniLator

/-- A sequence with a cursor between two of its elements: the elements before it, nearest first, and
those after it. -/
structure Cursor (α : Type*) where
  before : List α
  after : List α

namespace Cursor
variable {α : Type*} (c : Cursor α)

/-- The cursor before the first element of `as`. -/
def start (as : List α) : Cursor α := ⟨[],as⟩

def forward : Option α × Cursor α :=
  match c.after with
  | [] => (none,c)
  | a::as => (some a,⟨a::c.before,as⟩)

def reverse : Option α × Cursor α :=
  match c.before with
  | [] => (none,c)
  | b::bs => (some b,⟨bs,b::c.after⟩)

def rewind : Cursor α := ⟨[],c.before.reverse++c.after⟩

/-- The element `a` in place of everything after the cursor, which ends up after it. -/
def write (a : α) : Cursor α := ⟨a::c.before,[]⟩

def erase : Cursor α := ⟨c.before,[]⟩

theorem reverse_forward {a : α} (h : c.forward.1=some a) : c.forward.2.reverse=(some a,c) := by
  obtain ⟨bs,as⟩ := c
  cases as with
  | nil => simp [forward] at h
  | cons x as =>
    obtain rfl : x=a := by simpa [forward] using h
    rfl

theorem forward_reverse {a : α} (h : c.reverse.1=some a) : c.reverse.2.forward=(some a,c) := by
  obtain ⟨bs,as⟩ := c
  cases bs with
  | nil => simp [reverse] at h
  | cons x bs =>
    obtain rfl : x=a := by simpa [reverse] using h
    rfl

end Cursor

end QUniLator
