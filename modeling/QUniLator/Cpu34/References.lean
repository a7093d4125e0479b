import QUniLator.Cpu34.Kd11ea

/-! What a reference does, case by case. -/

namespace QUniLator.Cpu34

open Attempt

/-- The outcomes of `dati`. -/
inductive Reads (bus : Bus) (b : Bool) (s : State) : Option Unit → State → Prop
  | odd (h : b=false ∧ s.ba.getLsbD 0=true) : Reads bus b s none (s.refused 4)
  | aborted {mmu : Kt11d} (h : s.mmu.relocate s.ba s.mmu.accessSpace .read=(mmu,none)) :
      Reads bus b s none ({ s with mmu := mmu }.refused abortVector)
  | inside {mmu : Kt11d} {pa : Uint} {w : Word}
      (h : s.mmu.relocate s.ba s.mmu.accessSpace .read=(mmu,some pa))
      (hw : { s with mmu := mmu }.readInternal pa=some w) :
      Reads bus b s (some ()) { s with mmu := mmu,bdata := w }.completed
  | timeout {mmu : Kt11d} {pa : Uint}
      (h : s.mmu.relocate s.ba s.mmu.accessSpace .read=(mmu,some pa))
      (hw : { s with mmu := mmu }.readInternal pa=none) :
      Reads bus b s none
        ({ s with mmu := mmu,log := .dati (wordAddress pa)::s.log }.refused 4)
  | answered {mmu : Kt11d} {pa : Uint} {w : Word}
      (h : s.mmu.relocate s.ba s.mmu.accessSpace .read=(mmu,some pa))
      (hw : { s with mmu := mmu }.readInternal pa=none) :
      Reads bus b s (some ())
        { s with mmu := mmu,log := .dati (wordAddress pa)::s.log,bdata := w }.completed

/-- What `dato` puts on the bus. -/
def written (b : Bool) (pa : Uint) (w : Word) : BusEvent :=
  if b then .datob pa w else .dato (wordAddress pa) w

/-- The outcomes of `dato`. -/
inductive Stores (b : Bool) (s : State) : Option Unit → State → Prop
  | odd (h : b=false ∧ s.ba.getLsbD 0=true) : Stores b s none (s.refused 4)
  | aborted {mmu : Kt11d} (h : s.mmu.relocate s.ba s.mmu.accessSpace .write=(mmu,none)) :
      Stores b s none ({ s with mmu := mmu }.refused abortVector)
  | inside {mmu : Kt11d} {pa : Uint} {t : State}
      (h : s.mmu.relocate s.ba s.mmu.accessSpace .write=(mmu,some pa))
      (ht : { s with mmu := mmu }.writeInternal pa b=some t) : Stores b s (some ()) t.completed
  | timeout {mmu : Kt11d} {pa : Uint}
      (h : s.mmu.relocate s.ba s.mmu.accessSpace .write=(mmu,some pa))
      (ht : { s with mmu := mmu }.writeInternal pa b=none) :
      Stores b s none ({ s with mmu := mmu,log := written b pa s.bdata::s.log }.refused 4)
  | answered {mmu : Kt11d} {pa : Uint}
      (h : s.mmu.relocate s.ba s.mmu.accessSpace .write=(mmu,some pa))
      (ht : { s with mmu := mmu }.writeInternal pa b=none) :
      Stores b s (some ()) { s with mmu := mmu,log := written b pa s.bdata::s.log }.completed

section
variable (bus : Bus) (b : Bool) (s : State)

theorem dati_reads : Reads bus b s (dati bus b s).1 (dati bus b s).2 := by
  by_cases hodd : (!b && s.ba.getLsbD 0)=true
  · simp only [dati,hodd,if_true]
    exact .odd (by simpa using hodd)
  · rcases hr : s.mmu.relocate s.ba s.mmu.accessSpace .read with ⟨mmu,pa⟩
    simp only [dati,hodd,hr,Bool.false_eq_true,if_false]
    cases pa with
    | none => exact .aborted hr
    | some pa =>
      cases hw : { s with mmu := mmu }.readInternal pa with
      | some w =>
        simp only [hw]
        exact .inside hr hw
      | none =>
        simp only [hw]
        cases bus.dati s.log (wordAddress pa) with
        | none => exact .timeout hr hw
        | some w => exact .answered hr hw

theorem dato_stores : Stores b s (dato bus b s).1 (dato bus b s).2 := by
  by_cases hodd : (!b && s.ba.getLsbD 0)=true
  · simp only [dato,hodd,if_true]
    exact .odd (by simpa using hodd)
  · rcases hr : s.mmu.relocate s.ba s.mmu.accessSpace .write with ⟨mmu,pa⟩
    simp only [dato,hodd,hr,Bool.false_eq_true,if_false]
    cases pa with
    | none => exact .aborted hr
    | some pa =>
      cases ht : { s with mmu := mmu }.writeInternal pa b with
      | some t =>
        simp only [ht]
        exact .inside hr ht
      | none =>
        simp only [ht]
        have hanswer (c : Bool) : Stores b s
            (if c then (some (),{ s with mmu := mmu,log := written b pa s.bdata::s.log }.completed)
              else (none,{ s with mmu := mmu,log := written b pa s.bdata::s.log }.refused 4)).1
            (if c then (some (),{ s with mmu := mmu,log := written b pa s.bdata::s.log }.completed)
              else (none,{ s with mmu := mmu,log := written b pa s.bdata::s.log }.refused 4)).2 := by
          cases c with
          | true => exact .answered hr ht
          | false => exact .timeout hr ht
        exact hanswer _

end

variable {b : Bool} {bus : Bus}

theorem keepsOr_dati {I E : State → Prop} (h : ∀ s x t,I s → Reads bus b s x t → (x≠none → I t) ∧ (x=none → E t)) :
    KeepsOr I E (dati bus b) := by
  intro s hs
  have hd := dati_reads bus b s
  refine ⟨?_,?_⟩
  · intro a t ht
    rw [ht] at hd
    exact (h s _ t hs hd).1 (by simp)
  · intro t ht
    rw [ht] at hd
    exact (h s _ t hs hd).2 rfl

theorem keepsOr_dato {I E : State → Prop} (h : ∀ s x t,I s → Stores b s x t → (x≠none → I t) ∧ (x=none → E t)) :
    KeepsOr I E (dato bus b) := by
  intro s hs
  have hd := dato_stores bus b s
  refine ⟨?_,?_⟩
  · intro a t ht
    rw [ht] at hd
    exact (h s _ t hs hd).1 (by simp)
  · intro t ht
    rw [ht] at hd
    exact (h s _ t hs hd).2 rfl

theorem keeps_dati {I : State → Prop} (h : ∀ s x t,I s → Reads bus b s x t → I t) : Keeps I (dati bus b) :=
  keepsOr_dati fun s x t hs hr => ⟨fun _ => h s x t hs hr,fun _ => h s x t hs hr⟩

theorem keeps_dato {I : State → Prop} (h : ∀ s x t,I s → Stores b s x t → I t) : Keeps I (dato bus b) :=
  keepsOr_dato fun s x t hs hr => ⟨fun _ => h s x t hs hr,fun _ => h s x t hs hr⟩

theorem writeInternal_cases {s t : State} {pa : Uint} (h : s.writeInternal pa b=some t) : 0o760000≤pa ∧
      ((∃ mmu mask,s.mmu.writeReg (wordAddress pa) s.bdata mask=some mmu ∧
        t={ s with mmu := mmu }) ∨ t=s ∨ ∃ psw,t=s.setPsw psw) := by
  simp only [State.writeInternal] at h
  by_cases hp : pa<0o760000
  · rw [if_pos hp] at h
    cases h
  · refine ⟨by simpa using hp,?_⟩
    rw [if_neg hp] at h
    split at h
    case h_1 mmu hm =>
      cases h
      exact .inl ⟨mmu,_,hm,rfl⟩
    case h_2 =>
      split at h
      · cases h
        exact .inr (.inl rfl)
      · split at h
        · cases h
          exact .inr (.inr ⟨_,rfl⟩)
        · cases h

end QUniLator.Cpu34
