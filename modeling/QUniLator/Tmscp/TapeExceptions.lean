import QUniLator.Tmscp.TapeServer

/-!
The serious exception of a unit: what it blocks, and what clears it.
-/

namespace QUniLator.Tmscp

open Mscp List Option

/-- What happens to the tapes of a controller: a command of the host, a controller reset, another medium in
a unit, and INIT or a change of power on the bus. -/
inductive Event where
  | command (m : Message)
  | reset
  | mount (unitNumber : Nat) (medium : Medium)
  | busInit

/-- The commands that the server answers for any medium. None of them reaches a drive. -/
def transport (opcode : Nat) : Bool :=
  opcode∈[Mscp.Opcode.abort,Mscp.Opcode.getCommandStatus,Mscp.Opcode.setControllerCharacteristics]

namespace Tapes

/-- A command of the polling loop that is dispatched: its modifiers stand where the status will. -/
def dispatch (s : Tapes) (m : Message) : Option (Outcome × Bool) :=
  s.dispatchCommand m m.opcode m.unitNumber m.status

def step (s : Tapes) : Event → Option Tapes
  | .command m => if transport m.opcode then some s else (s.dispatch m).map (fun o => o.1.tapes)
  | .reset => some s.resetDrives
  | .mount unitNumber medium =>
    match s.getTapeDrive unitNumber with
    | none => none
    | some d => some (s.setUnit unitNumber (d.onImageChanged medium))
  | .busInit => some { s with units := s.units.map TapeUnit.onInitChanged }

end Tapes

def Event.clears (u : Nat) : Event → Bool
  | .command m => !transport m.opcode && m.unitNumber=u && has m.status mdCse
  | .reset => true
  | .mount unitNumber _ => unitNumber=u
  | .busInit => false

def runsTape (u : Nat) (m : Message) : Bool := m.unitNumber=u && Tapes.motion m.opcode

def Blocked (s : Tapes) (u : Nat) (d : TapeUnit) : Prop :=
  ∃ e,s.getTapeDrive u=some e ∧ e.tape=d.tape ∧ e.seriousException=true

/-- What an event is to do: leave a unit with an exception alone, refuse motion commands for it, and leave none
latched after a reset or another medium. -/
structure Upheld (s : Tapes) (e : Event) (t : Tapes) : Prop where
  blocked : ∀ u d,s.getTapeDrive u=some d → d.seriousException=true → e.clears u=false → Blocked t u d
  refused : ∀ u d m,s.getTapeDrive u=some d → d.seriousException=true → e=.command m →
    e.clears u=false → runsTape u m=true →
    ∃ o,s.dispatch m=some o ∧ o.1.cmdStatus=Tapes.refusedMotion d
  reset : e=.reset → ∀ u d,t.getTapeDrive u=some d → d.seriousException=false
  mount : ∀ u medium,e=.mount u medium → ∀ d,t.getTapeDrive u=some d → d.seriousException=false

def FindsNone (s : Tapes) : Event → Prop
  | .reset => ∀ u d,s.getTapeDrive u=some d → d.seriousException=false
  | .mount u _ => ∀ d,s.getTapeDrive u=some d → d.seriousException=false
  | _ => True

theorem getTapeDrive_set (s : Tapes) (v : Nat) (e : TapeUnit) (u : Nat) : (s.setUnit v e).getTapeDrive u =
      if v=u then (s.getTapeDrive u).map (fun _ => e) else s.getTapeDrive u := by
  unfold Tapes.getTapeDrive Tapes.setUnit
  dsimp only
  rw [List.getElem?_set]
  split_ifs with hv hlt
  · subst hv
    rw [List.getElem?_eq_getElem hlt,map_some]
  · subst hv
    rw [List.getElem?_eq_none (Nat.le_of_not_lt hlt),map_none]
  · rfl

theorem getTapeDrive_map (s : Tapes) (f : TapeUnit → TapeUnit) (u : Nat) :
    ({ s with units := s.units.map f } : Tapes).getTapeDrive u=(s.getTapeDrive u).map f :=
  List.getElem?_map ..

def Spares (d e : TapeUnit) : Prop := e.tape=d.tape ∧ e.seriousException=d.seriousException

variable {d : TapeUnit} {u : Nat} {s t : Tapes}

theorem blocked_refl {s : Tapes} (hu : s.getTapeDrive u=some d)
    (hx : d.seriousException) : Blocked s u d := ⟨d,hu,rfl,hx⟩

theorem blocked_setUnit {s : Tapes} {u v : Nat} {d e f : TapeUnit} (hu : s.getTapeDrive u=some d)
    (hx : d.seriousException) (hv : s.getTapeDrive v=some f) (hs : v=u → Spares f e) :
    Blocked (s.setUnit v e) u d := by
  unfold Blocked
  rw [getTapeDrive_set]
  by_cases hvu : v=u
  · subst hvu
    obtain rfl := some.inj (hv.symm.trans hu)
    rw [if_pos rfl,hu]
    obtain ⟨htape,hexc⟩ := hs rfl
    exact ⟨e,rfl,htape,hexc.trans hx⟩
  · rw [if_neg hvu]
    exact ⟨d,hu,rfl,hx⟩

theorem availableUnit_some {s : Tapes} {v : Nat} {f : TapeUnit} (h : s.availableUnit v=some f) :
    s.getTapeDrive v=some f := (filter_eq_some_iff.mp h).1

section
variable {s : Tapes} {u v opcode modifiers : Nat} {d : TapeUnit} {m : Message} {o : Outcome × Bool}
  (hu : s.getTapeDrive u=some d)

include hu in
theorem clearException_blocked (hno : v=u → has modifiers mdCse=false) :
    (s.clearException v modifiers).getTapeDrive u=some d := by
  unfold Tapes.clearException
  split_ifs with hcse
  · have hvu : v≠u := by
      intro h
      simp [hno h] at hcse
    cases s.getTapeDrive v with
    | none => exact hu
    | some f =>
      dsimp only
      rw [getTapeDrive_set,if_neg hvu]
      exact hu
  · exact hu

variable (hx : d.seriousException=true)
include hu hx

theorem blocked_available : Blocked (s.available m v).tapes u d := by
  unfold Tapes.available
  cases hv : s.availableUnit v with
  | none => exact blocked_refl hu hx
  | some f => exact blocked_setUnit hu hx (availableUnit_some hv) (fun _ => ⟨rfl,rfl⟩)

theorem blocked_characteristics (bringOnline : Bool) :
    Blocked (s.setUnitCharacteristicsInternal m v modifiers bringOnline).tapes u d := by
  unfold Tapes.setUnitCharacteristicsInternal
  cases hv : s.availableUnit v with
  | none => exact blocked_refl hu hx
  | some f =>
    have hspare : ∀ b : Bool,Spares f (if b then f.setSoftwareWriteProtect true else f) := by
      intro b
      cases b <;> exact ⟨rfl,rfl⟩
    have hspares := hspare (has modifiers mdSwp)
    cases bringOnline with
    | true | false => exact blocked_setUnit hu hx (availableUnit_some hv) (fun _ => hspares)

theorem blocked_getUnitStatus : Blocked (s.getUnitStatus m v modifiers).tapes u d := by
  unfold Tapes.getUnitStatus
  dsimp only
  split <;> exact blocked_refl hu hx

theorem blocked_flush : Blocked (s.flush m v).tapes u d := by
  unfold Tapes.flush
  dsimp only
  split <;> exact blocked_refl hu hx

theorem blocked_eraseGap : Blocked (s.eraseGap m v).tapes u d := by
  unfold Tapes.eraseGap
  dsimp only
  split <;> exact blocked_refl hu hx

theorem blocked_other {f e : TapeUnit} (hv : s.getTapeDrive v=some f) (hvu : v≠u) :
    Blocked (s.setUnit v e) u d := blocked_setUnit hu hx hv (fun h => absurd h hvu)

theorem blocked_transfer (command : TapeUnit → HostMemory → ReadWriteParameters → Transfer) (hvu : v≠u) :
    Blocked (s.transfer m v command).tapes u d := by
  unfold Tapes.transfer
  cases hv : s.getTapeDrive v with
  | none => exact blocked_refl hu hx
  | some f =>
    obtain ⟨e,hget,htape,hexc⟩ := blocked_other hu hx (e := (command f s.host (readWriteParameters m)).unit)
      hv hvu
    exact ⟨e,hget,htape,hexc⟩

theorem blocked_execute (hno : v=u → Tapes.motion opcode=false)
    (ho : s.execute m opcode v modifiers=some o) : Blocked o.1.tapes u d := by
  have hmotion : Tapes.motion opcode=true → v≠u := by
    intro h hvu
    simp [hno hvu] at h
  unfold Tapes.execute at ho
  dsimp only at ho
  by_cases h1 : opcode=Mscp.Opcode.getUnitStatus
  · rw [if_pos h1] at ho
    obtain rfl := some.inj ho
    exact blocked_getUnitStatus hu hx
  rw [if_neg h1] at ho
  by_cases h2 : opcode=Mscp.Opcode.available
  · rw [if_pos h2] at ho
    obtain rfl := some.inj ho
    exact blocked_available hu hx
  rw [if_neg h2] at ho
  by_cases h3 : opcode=Mscp.Opcode.online
  · rw [if_pos h3] at ho
    obtain rfl := some.inj ho
    exact blocked_characteristics hu hx true
  rw [if_neg h3] at ho
  by_cases h4 : opcode=Mscp.Opcode.setUnitCharacteristics
  · rw [if_pos h4] at ho
    obtain rfl := some.inj ho
    exact blocked_characteristics hu hx false
  rw [if_neg h4] at ho
  by_cases h5 : opcode=Mscp.Opcode.erase
  · rw [if_pos h5] at ho
    have hvu := hmotion (by rw [h5]; rfl)
    cases hv : s.getTapeDrive v with
    | none =>
      rw [hv] at ho
      obtain rfl := some.inj ho
      exact blocked_refl hu hx
    | some f =>
      rw [hv] at ho
      obtain rfl := some.inj ho
      exact blocked_other hu hx hv hvu
  rw [if_neg h5] at ho
  by_cases h6 : opcode=Opcode.flush
  · rw [if_pos h6] at ho
    obtain rfl := some.inj ho
    exact blocked_flush hu hx
  rw [if_neg h6] at ho
  by_cases h7 : opcode=Opcode.eraseGap
  · rw [if_pos h7] at ho
    obtain rfl := some.inj ho
    exact blocked_eraseGap hu hx
  rw [if_neg h7] at ho
  by_cases h8 : opcode=Mscp.Opcode.read
  · rw [if_pos h8] at ho
    obtain rfl := some.inj ho
    exact blocked_transfer hu hx _ (hmotion (by rw [h8]; rfl))
  rw [if_neg h8] at ho
  by_cases h9 : opcode=Mscp.Opcode.access
  · rw [if_pos h9] at ho
    obtain rfl := some.inj ho
    exact blocked_transfer hu hx _ (hmotion (by rw [h9]; rfl))
  rw [if_neg h9] at ho
  by_cases h10 : opcode=Mscp.Opcode.write
  · rw [if_pos h10] at ho
    obtain rfl := some.inj ho
    exact blocked_transfer hu hx _ (hmotion (by rw [h10]; rfl))
  rw [if_neg h10] at ho
  by_cases h11 : opcode=Opcode.writeTapeMark
  · rw [if_pos h11] at ho
    have hvu := hmotion (by rw [h11]; rfl)
    cases hv : s.getTapeDrive v with
    | none =>
      rw [hv] at ho
      obtain rfl := some.inj ho
      exact blocked_refl hu hx
    | some f =>
      rw [hv] at ho
      obtain rfl := some.inj ho
      exact blocked_other hu hx hv hvu
  rw [if_neg h11] at ho
  by_cases h12 : opcode=Opcode.reposition
  · rw [if_pos h12] at ho
    have hvu := hmotion (by rw [h12]; rfl)
    cases hv : s.getTapeDrive v with
    | none =>
      rw [hv] at ho
      obtain rfl := some.inj ho
      exact blocked_refl hu hx
    | some f =>
      rw [hv] at ho
      obtain ⟨r,-,rfl⟩ := map_eq_some_iff.mp ho
      exact blocked_other hu hx hv hvu
  rw [if_neg h12] at ho
  obtain rfl := some.inj ho
  exact blocked_refl hu hx

theorem blocked_dispatch (hno : v=u → has modifiers mdCse=false)
    (ho : s.dispatchCommand m opcode v modifiers=some o) : Blocked o.1.tapes u d := by
  have hcleared := clearException_blocked hu hno
  unfold Tapes.dispatchCommand at ho
  dsimp only at ho
  cases hf : ((s.clearException v modifiers).getTapeDrive v).filter
      (fun d => Tapes.motion opcode && d.seriousException) with
  | some f =>
    rw [hf] at ho
    obtain rfl := some.inj ho
    exact blocked_refl hcleared hx
  | none =>
    rw [hf] at ho
    refine blocked_execute hcleared hx (fun hvu => ?_) ho
    subst hvu
    rw [hcleared] at hf
    simpa [Option.filter,hx] using hf

theorem refused_dispatch (hmotion : Tapes.motion opcode) (hno : has modifiers mdCse=false) :
    ∃ o,s.dispatchCommand m opcode u modifiers=some o ∧ o.1.cmdStatus=Tapes.refusedMotion d := by
  have hcleared := clearException_blocked (v := u) hu (fun _ => hno)
  unfold Tapes.dispatchCommand
  dsimp only
  have hf : ((s.clearException u modifiers).getTapeDrive u).filter
      (fun d => Tapes.motion opcode && d.seriousException)=some d := by
    rw [hcleared]
    simp [Option.filter,hx,hmotion]
  rw [hf]
  exact ⟨_,rfl,rfl⟩

end

theorem mem_opcode {m : Message} (h : Tapes.motion m.opcode) : transport m.opcode=false := by
  unfold Tapes.motion at h
  have hmem := of_decide_eq_true h
  simp only [mem_cons,not_mem_nil,or_false] at hmem
  unfold transport
  rcases hmem with h | h | h | h | h | h | h <;> rw [h] <;> rfl

theorem clears_command {m : Message} (ht : transport m.opcode=false)
    (hc : (Event.command m).clears u=false) : m.unitNumber=u → has m.status mdCse=false := by
  intro hu
  simpa [Event.clears,ht,hu] using hc

theorem onImageChanged_seriousException (d : TapeUnit) (medium : Medium) :
    (d.onImageChanged medium).seriousException=d.seriousException := by
  cases medium <;> rfl

theorem Event.blocked {e : Event} (h : s.step e=some t)
    (hu : s.getTapeDrive u=some d) (hx : d.seriousException) (hc : e.clears u=false) : Blocked t u d := by
  cases e with
  | command m =>
    rw [Tapes.step] at h
    split_ifs at h with ht
    · obtain rfl := some.inj h
      exact blocked_refl hu hx
    · obtain ⟨o,ho,rfl⟩ := map_eq_some_iff.mp h
      exact blocked_dispatch hu hx (clears_command (by simpa using ht) hc) ho
  | reset => cases hc
  | mount v medium =>
    rw [Tapes.step] at h
    cases hv : s.getTapeDrive v with
    | none => simp [hv] at h
    | some f =>
      rw [hv] at h
      obtain rfl := some.inj h
      exact blocked_other hu hx hv (by simpa [Event.clears] using hc)
  | busInit =>
    obtain rfl := some.inj h
    refine ⟨d.onInitChanged,?_,rfl,hx⟩
    rw [getTapeDrive_map,hu,map_some]

theorem Event.refused {s : Tapes} {m : Message} (hu : s.getTapeDrive u=some d)
    (hx : d.seriousException) (hc : (Event.command m).clears u=false) (hr : runsTape u m) :
    ∃ o,s.dispatch m=some o ∧ o.1.cmdStatus=Tapes.refusedMotion d := by
  obtain ⟨hunit,hmotion⟩ := Bool.and_eq_true_iff.mp hr
  have hunit : m.unitNumber=u := of_decide_eq_true hunit
  have hno := clears_command (mem_opcode hmotion) hc hunit
  unfold Tapes.dispatch
  rw [hunit]
  exact refused_dispatch hu hx hmotion hno

theorem upheld_iff {e : Event} (h : s.step e=some t) : Upheld s e t ↔ FindsNone s e := by
  constructor
  · intro hup
    cases e with
    | command m | busInit => trivial
    | reset =>
      intro u d hu
      obtain rfl := some.inj h
      refine hup.reset rfl u d.setOffline ?_
      rw [Tapes.resetDrives,getTapeDrive_map,hu,map_some]
    | mount v medium =>
      intro d hv
      rw [Tapes.step,hv] at h
      obtain rfl := some.inj h
      rw [← onImageChanged_seriousException d medium]
      refine hup.mount v medium rfl _ ?_
      rw [getTapeDrive_set,if_pos rfl,hv,map_some]
  · intro hnone
    refine ⟨fun u d hu hx hc => Event.blocked h hu hx hc,fun u d m hu hx he hc hr => ?_,?_,?_⟩
    · subst he
      exact Event.refused hu hx hc hr
    · rintro rfl u d hu
      obtain rfl := some.inj h
      rw [Tapes.resetDrives,getTapeDrive_map] at hu
      obtain ⟨f,hf,rfl⟩ := map_eq_some_iff.mp hu
      exact hnone u f hf
    · rintro v medium rfl d hd
      rw [Tapes.step] at h
      cases hv : s.getTapeDrive v with
      | none => simp [hv] at h
      | some f =>
        rw [hv] at h
        obtain rfl := some.inj h
        rw [getTapeDrive_set,if_pos rfl,hv,map_some] at hd
        obtain rfl := some.inj hd
        rw [onImageChanged_seriousException]
        exact hnone f hv

def Upholds (s : Tapes) (e : Event) (t : Tapes) : Prop := s.step e=some t ∧ Upheld s e t

theorem upholds_run {es : List Event} (h : Run (Guarded FindsNone Tapes.step) s es t) : Run Upholds s es t :=
  h.mono (fun _ _ _ hg => ⟨hg.2,(upheld_iff hg.2).mpr hg.1⟩)

theorem blocked_run {es : List Event} (h : Run Upholds s es t)
    (hu : s.getTapeDrive u=some d) (hx : d.seriousException) (hc : ∀ e∈es,e.clears u=false) : Blocked t u d := by
  induction h generalizing d with
  | nil s => exact blocked_refl hu hx
  | @cons s v t a as h hs ih =>
    obtain ⟨f,hf,htape,hfx⟩ := h.2.blocked u d hu hx (hc a mem_cons_self)
    obtain ⟨g,hg,hgtape,hgx⟩ := ih hf hfx (fun e he => hc e (mem_cons_of_mem a he))
    exact ⟨g,hg,hgtape.trans htape,hgx⟩

/-- Where resets and mounts find no exception latched, every step blocks the units with one and leaves none after a
reset or a mount, and from a unit with an exception up to the next event that clears it the tape stays as it is. -/
theorem exception_blocks (s t : Tapes) (es : List Event) (h : Run (Guarded FindsNone Tapes.step) s es t) :
    Run Upholds s es t ∧ ∀ u d,s.getTapeDrive u=some d → d.seriousException → (∀ e∈es,e.clears u=false) →
      Blocked t u d :=
  ⟨upholds_run h,fun _ _ hu hx hc => blocked_run (upholds_run h) hu hx hc⟩

def markFirst : TapeUnit where
  tape := ⟨.ofBytes (Tape.bytes [.object .mark 0]),true,false,0,0,4⟩
  online := true
  softwareWriteProtect := false
  seriousException := false
  leotReported := false
  capacity := 0
  unitDeviceNumber := 1

def oneTape : Tapes := ⟨[markFirst],⟨0x400000,fun _ => 0,fun _ => true⟩⟩

def readUnit : Message where
  messageLength := 36
  credits := 0
  messageType := 0
  connectionId := 1
  referenceNumber := 1
  unitNumber := 0
  reserved := 0
  opcode := Mscp.Opcode.read
  flags := 0
  status := 0
  parameters := lePut 4 512++replicate 20 0

/-- A READ of a unit with an exception is refused and leaves its tape alone. -/
theorem exception_blocks_read : ∃ t,
    Run (Guarded FindsNone Tapes.step) ⟨[markFirst.setSeriousException],oneTape.host⟩ [.command readUnit] t ∧
    Run Upholds ⟨[markFirst.setSeriousException],oneTape.host⟩ [.command readUnit] t ∧
    Blocked t 0 markFirst.setSeriousException := by
  obtain ⟨t,ht⟩ := isSome_iff_exists.mp
    (show (Tapes.step ⟨[markFirst.setSeriousException],oneTape.host⟩ (.command readUnit)).isSome=true by
      decide +kernel)
  have hrun : Run (Guarded FindsNone Tapes.step) ⟨[markFirst.setSeriousException],oneTape.host⟩
      [.command readUnit] t := .cons ⟨trivial,ht⟩ (.nil t)
  obtain ⟨hup,hblocks⟩ := exception_blocks _ _ _ hrun
  exact ⟨t,hrun,hup,hblocks 0 _ rfl rfl (by decide)⟩

/-- The exception of a tape mark outlives a reset of the controller. -/
theorem exception_outlives_reset : ¬∀ (s t : Tapes) (es : List Event),
    Run (fun s e t => s.step e=some t) s es t → Run Upholds s es t := by
  intro h
  obtain ⟨t,hrun,hp⟩ := run_of_foldlM (fun _ _ => True) Tapes.step
    (fun t => t.units.any (fun d => d.seriousException)) [.command readUnit,.reset] oneTape (by decide +kernel)
  obtain ⟨d,hd,hx⟩ := List.any_eq_true.mp hp
  obtain ⟨u,hu⟩ := mem_iff_getElem?.mp hd
  cases h _ _ _ (hrun.mono (fun _ _ _ hg => hg.2)) with
  | cons hread hrest =>
    cases hrest with
    | cons hreset hend =>
      cases hend
      exact absurd (hreset.2.reset rfl u d hu) (by simp [hx])

end QUniLator.Tmscp
