import Mathlib.Data.BitVec
import QUniLator.Framework.Attempt

namespace QUniLator.Adapter

open BitVec Function

/-- `PRIORITY_SLOT_COUNT` slots -/
abbrev Slot := Fin 32

/-- `priority_request_level_c`, over request objects `ρ` -/
structure Level (ρ : Type) where
  slotRequest : Slot → Option ρ
  slotRequestMask : BitVec 32
  active : Option ρ

/-- `__builtin_ffs`, the lowest slot of a mask -/
def ffs (mask : BitVec 32) : Option Slot :=
  (List.finRange 32).find? fun s : Slot => mask.getLsbD s

theorem ffs_none (mask : BitVec 32) : ffs mask=none ↔ mask=0 := by
  rw [ffs,List.find?_eq_none]
  refine ⟨fun h => eq_of_getLsbD_eq fun i hi => ?_,fun h s _ => ?_⟩
  · rw [Bool.eq_false_iff.mpr (h ⟨i,hi⟩ (List.mem_finRange _)),ofNat_eq_ofNat,getLsbD_zero]
  · simp [h]

theorem ffs_some {mask : BitVec 32} {s : Slot} (h : ffs mask=some s) : mask.getLsbD s=true := by
  have hs := List.find?_some h
  exact hs

namespace Level

variable {ρ : Type}

/-- A level without requests, as `requests_init` leaves it -/
def init : Level ρ := ⟨fun _ => none,0,none⟩

/-- The slot of a request is marked with it, at the end of `request_schedule`. -/
def put (s : Slot) (r : ρ) (l : Level ρ) : Level ρ :=
  { l with
    slotRequest := update l.slotRequest s (some r)
    slotRequestMask := l.slotRequestMask ||| BitVec.twoPow 32 s }

def clear (s : Slot) (l : Level ρ) : Level ρ :=
  { l with
    slotRequest := update l.slotRequest s none
    slotRequestMask := l.slotRequestMask &&& ~~~BitVec.twoPow 32 s }

/-- `request_activate_lowest_slot` -/
def activateLowest (l : Level ρ) : Option (Level ρ) := do
  assert l.active.isNone
  match ffs l.slotRequestMask with
  | none => pure l
  | some s =>
    assert (l.slotRequest s).isSome
    pure { l with active := l.slotRequest s }

/-- `request_active_complete`, with the request it removed -/
def activeComplete [DecidableEq ρ] (slot : ρ → Slot) (l : Level ρ) : Option (Level ρ × Option ρ) :=
  match l.active with
  | none => pure (l,none)
  | some r => do
    assert (l.slotRequest (slot r)=some r)
    pure ({ l.clear (slot r) with active := none },some r)

/-- A set bit is a request in its slot, and the active request is in its slot. -/
structure Consistent (slot : ρ → Slot) (l : Level ρ) : Prop where
  bit : ∀ s : Slot,l.slotRequestMask.getLsbD s=(l.slotRequest s).isSome
  placed : ∀ s r,l.slotRequest s=some r → slot r=s
  inSlot : ∀ r,l.active=some r → l.slotRequest (slot r)=some r

def Busy (l : Level ρ) : Prop := l.active=none → l.slotRequestMask=0

variable {slot : ρ → Slot} {l : Level ρ}

theorem init_consistent : (init : Level ρ).Consistent slot :=
  ⟨fun s => by simp [init],nofun,nofun⟩

theorem init_busy : (init : Level ρ).Busy := fun _ => rfl

theorem bit_twoPow (s t : Slot) : (BitVec.twoPow 32 s).getLsbD t=decide (s=t) := by
  rw [getLsbD_twoPow]
  simp [Fin.ext_iff]

@[simp] theorem put_self (s : Slot) (r : ρ) : (l.put s r).slotRequest s=some r :=
  update_self ..

theorem put_of_ne {s t : Slot} (r : ρ) (h : t≠s) : (l.put s r).slotRequest t=l.slotRequest t :=
  update_of_ne h ..

@[simp] theorem clear_self (s : Slot) : (l.clear s).slotRequest s=none :=
  update_self ..

theorem clear_of_ne {s t : Slot} (h : t≠s) : (l.clear s).slotRequest t=l.slotRequest t :=
  update_of_ne h ..

theorem Consistent.put (h : l.Consistent slot) {r : ρ} (hr : l.slotRequest (slot r)=none) :
    (l.put (slot r) r).Consistent slot := by
  refine ⟨fun s => ?_,fun s q hq => ?_,fun q hq => ?_⟩
  · have hb := h.bit s
    simp only [Level.put,getLsbD_or,bit_twoPow,hb]
    by_cases hs : s=slot r
    · simp [hs]
    · simp [hs,Ne.symm hs]
  · by_cases hs : s=slot r
    · subst hs
      rw [put_self] at hq
      cases hq; rfl
    · rw [put_of_ne r hs] at hq
      exact h.placed s q hq
  · have hq := h.inSlot q hq
    rw [put_of_ne]
    · exact hq
    · intro hs
      rw [hs,hr] at hq
      cases hq

theorem Consistent.clear (h : l.Consistent slot) {s : Slot}
    (ha : ∀ r,l.active=some r → slot r≠s) : (l.clear s).Consistent slot := by
  refine ⟨fun t => ?_,fun t q hq => ?_,fun q hq => ?_⟩
  · have hb := h.bit t
    simp only [Level.clear,getLsbD_and,getLsbD_not,bit_twoPow,hb]
    by_cases hs : t=s
    · simp [hs]
    · simp [hs,Ne.symm hs]
  · by_cases hs : t=s
    · rw [hs,clear_self] at hq; cases hq
    · rw [clear_of_ne hs] at hq
      exact h.placed t q hq
  · rw [clear_of_ne (ha q hq)]
    exact h.inSlot q hq

theorem Consistent.deactivate (h : l.Consistent slot) : { l with active := none : Level ρ }.Consistent slot :=
  ⟨h.bit,h.placed,nofun⟩

theorem Consistent.activateLowest (h : l.Consistent slot) (ha : l.active=none) :
    ∃ r,l.activateLowest=some { l with active := r } ∧
      { l with active := r : Level ρ }.Consistent slot ∧ { l with active := r : Level ρ }.Busy := by
  cases hf : ffs l.slotRequestMask with
  | none =>
    have hz := (ffs_none _).mp hf
    refine ⟨l.active,?_,h,fun _ => hz⟩
    show l.activateLowest=some l
    rw [Level.activateLowest,hf,ha]
    rfl
  | some s =>
    have hb := ffs_some hf
    rw [h.bit] at hb
    obtain ⟨r,hr⟩ := Option.isSome_iff_exists.mp hb
    refine ⟨some r,?_,⟨h.bit,h.placed,fun q hq => ?_⟩,nofun⟩
    · rw [Level.activateLowest,hf,ha]
      simp [hr]
    · cases hq
      rw [h.placed s r hr]
      exact hr

theorem Consistent.activeComplete [DecidableEq ρ] (h : l.Consistent slot) :
    ∃ l',l.activeComplete slot=some (l',l.active) ∧ l'.Consistent slot ∧ l'.active=none ∧
      (∀ r,l.active=some r → l'={ l.clear (slot r) with active := none }) ∧ (l.active=none → l'=l) := by
  rw [Level.activeComplete]
  cases ha : l.active with
  | none => exact ⟨l,rfl,h,ha,nofun,fun _ => rfl⟩
  | some r =>
    have hd : { l with active := none : Level ρ }.Consistent slot := h.deactivate
    refine ⟨{ l.clear (slot r) with active := none },?_,hd.clear nofun,rfl,?_,nofun⟩
    · simp [h.inSlot r ha]
    · intro q hq
      cases hq; rfl

end Level

end QUniLator.Adapter
