import Mathlib.Data.List.Basic

namespace QUniLator

open List

/-- What has been put into a buffer with room for `room` items, for the sequence that `tag` names -/
structure Segment (ι α : Type*) where
  tag : ι
  room : Nat
  items : List α
  deriving DecidableEq,Repr

/-- The segments hold `xs` from its start, each as much as there is room for, and `rest` is left of it. -/
def CutTo {ι α : Type*} (xs : List α) : List (Segment ι α) → List α → Prop
  | [],rest => xs=rest
  | s::segs,rest => s.items=xs.take s.room ∧ CutTo (xs.drop s.room) segs rest

/-- The last segments of the log are those of the sequence `xs` that `i` names, without any other between
them, and the log has no more of it; `rest` is left. -/
def CutLast {ι α : Type*} (log : List (Segment ι α)) (i : ι) (xs rest : List α) : Prop :=
  ∃ before segs,log=before++segs ∧ (∀ s∈before,s.tag≠i) ∧ (∀ s∈segs,s.tag=i) ∧ CutTo xs segs rest

/-- All of `xs` is in the log, and its last segment has just been put there. -/
structure Delivered {ι α : Type*} (log : List (Segment ι α)) (i : ι) (xs : List α) : Prop where
  last : log.getLast?.map Segment.tag=some i
  cut : CutLast log i xs []

section
variable {ι α : Type*} {log segs : List (Segment ι α)} {i : ι} {xs rest : List α}

theorem take_min (xs : List α) (n : Nat) : xs.take (min xs.length n)=xs.take n := by
  rw [← take_take,take_of_length_le (length_take_le' n xs)]

theorem drop_min (xs : List α) (n : Nat) : xs.drop (min xs.length n)=xs.drop n := by
  obtain h | h := Nat.le_total xs.length n
  · rw [Nat.min_eq_left h,drop_of_length_le h,drop_length]
  · rw [Nat.min_eq_right h]

theorem CutTo.next (h : CutTo xs segs rest) (room : Nat) :
    CutTo xs (segs++[⟨i,room,rest.take room⟩]) (rest.drop room) := by
  induction segs generalizing xs with
  | nil =>
    have h : xs=rest := h
    rw [h]
    exact ⟨rfl,rfl⟩
  | cons s segs ih => exact ⟨h.1,ih h.2⟩

theorem CutLast.none (h : ∀ s∈log,s.tag≠i) (xs : List α) : CutLast log i xs xs :=
  ⟨log,[],(append_nil log).symm,h,by rintro s ⟨⟩,rfl⟩

theorem CutLast.next (h : CutLast log i xs rest) (room : Nat) :
    CutLast (log++[⟨i,room,rest.take room⟩]) i xs (rest.drop room) := by
  obtain ⟨before,segs,hlog,hb,hsegs,hc⟩ := h
  refine ⟨before,segs++[⟨i,room,rest.take room⟩],?_,hb,?_,hc.next room⟩
  · rw [hlog,List.append_assoc]
  · intro s hs
    obtain hs | hs := mem_append.mp hs
    · exact hsegs s hs
    · rw [mem_singleton.mp hs]

end

end QUniLator
