import QUniLator.Tmscp.TapeReposition

/-!
The report of the end of the tape, over runs of commands on a unit.
-/

namespace QUniLator.Tape

open Option

theorem writeRecord_result (t : Tape) (buf : List UInt8) :
    (t.writeRecord buf).2.result=.record ∨ (t.writeRecord buf).1=t := by
  unfold writeRecord
  dsimp only
  split_ifs
  · exact .inr rfl
  · exact .inl rfl
  · exact .inl rfl

theorem writeTapeMark_pos (t : Tape) : t.pos≤t.writeTapeMark.1.pos := by
  unfold writeTapeMark
  split_ifs
  · exact Nat.le_refl _
  · exact Nat.le_add_right _ _

theorem writeTapeMark_isOpen (t : Tape) : t.writeTapeMark.1.isOpen=t.isOpen :=
  call_isOpen t .writeTapeMark

theorem writeRecord_isOpen (t : Tape) (buf : List UInt8) : (t.writeRecord buf).1.isOpen=t.isOpen :=
  call_isOpen t (.writeRecord buf)

end QUniLator.Tape

namespace QUniLator.Tmscp

open Mscp Option

/-- The commands that run the tape of a unit, with the host's memory where they need it. -/
inductive Command where
  | read (h : HostMemory) (p : ReadWriteParameters)
  | access (h : HostMemory) (p : ReadWriteParameters)
  | write (h : HostMemory) (p : ReadWriteParameters)
  | writeTapeMark
  | reposition (p : RepositionParameters)

def perform (d : TapeUnit) (c : Command) (modifiers : Nat) : Option (TapeUnit × Nat) :=
  match c with
  | .read h p => some ((read d h p modifiers).unit,(read d h p modifiers).cmdStatus)
  | .access h p => some ((access d h p modifiers).unit,(access d h p modifiers).cmdStatus)
  | .write h p => some ((write d h p).unit,(write d h p).cmdStatus)
  | .writeTapeMark => some ((writeTapeMark d).1,(writeTapeMark d).2.2)
  | .reposition p => (reposition d p modifiers).map (fun r => (r.1,r.2.2))

def cleared (d : TapeUnit) (modifiers : Nat) : TapeUnit :=
  if has modifiers mdCse then d.clearSeriousException else d

/-- What `dispatch_command` does with a motion command on its unit. -/
def issue (d : TapeUnit) (c : Command) (modifiers : Nat) : Option (TapeUnit × Nat) :=
  let d := cleared d modifiers
  if d.seriousException then some (d,Tapes.refusedMotion d) else perform d c modifiers

def commandOf (m : Message) (h : HostMemory) (opcode : Nat) : Option Command :=
  if opcode=Mscp.Opcode.read then some (.read h (readWriteParameters m))
  else if opcode=Mscp.Opcode.access then some (.access h (readWriteParameters m))
  else if opcode=Mscp.Opcode.write then some (.write h (readWriteParameters m))
  else if opcode=Opcode.writeTapeMark then some .writeTapeMark
  else if opcode=Opcode.reposition then some (.reposition (repositionParameters m))
  else none

variable {d : TapeUnit} {s : Tapes} {unitNumber : Nat} {c : Command} {cmdStatus : Nat}

theorem getTapeDrive_setUnit (h : s.getTapeDrive unitNumber=some d)
    (e : TapeUnit) : (s.setUnit unitNumber e).getTapeDrive unitNumber=some e := by
  unfold Tapes.getTapeDrive at h ⊢
  obtain ⟨hlt,-⟩ := List.getElem?_eq_some_iff.mp h
  simp [Tapes.setUnit,hlt]

theorem clearException_eq (h : s.getTapeDrive unitNumber=some d) (modifiers : Nat) :
    (s.clearException unitNumber modifiers).getTapeDrive unitNumber=some (cleared d modifiers) ∧
      (s.clearException unitNumber modifiers).host=s.host := by
  unfold Tapes.clearException cleared
  split_ifs
  · rw [h]
    exact ⟨getTapeDrive_setUnit h _,rfl⟩
  · exact ⟨h,rfl⟩

theorem transfer_unit (m : Message) (h : s.getTapeDrive unitNumber=some d)
    (command : TapeUnit → HostMemory → ReadWriteParameters → Transfer) :
    (s.transfer m unitNumber command).tapes.getTapeDrive unitNumber =
        some (command d s.host (readWriteParameters m)).unit ∧
      (s.transfer m unitNumber command).cmdStatus=(command d s.host (readWriteParameters m)).cmdStatus := by
  unfold Tapes.transfer
  rw [h]
  exact ⟨getTapeDrive_setUnit h _,rfl⟩

theorem execute_perform {unitNumber opcode : Nat} (m : Message)
    (h : s.getTapeDrive unitNumber=some d) (hc : commandOf m s.host opcode=some c) (modifiers : Nat) :
    (s.execute m opcode unitNumber modifiers).map (fun o => (o.1.tapes.getTapeDrive unitNumber,o.1.cmdStatus)) =
    (perform d c modifiers).map (fun r => (some r.1,r.2)) := by
  unfold commandOf at hc
  split_ifs at hc with h1 h2 h3 h4 h5
  · subst h1
    obtain rfl := some.inj hc
    obtain ⟨hu,hs⟩ := transfer_unit m h (fun d h p => read d h p modifiers)
    exact congrArg some (Prod.ext hu hs)
  · subst h2
    obtain rfl := some.inj hc
    obtain ⟨hu,hs⟩ := transfer_unit m h (fun d h p => access d h p modifiers)
    exact congrArg some (Prod.ext hu hs)
  · subst h3
    obtain rfl := some.inj hc
    obtain ⟨hu,hs⟩ := transfer_unit m h write
    exact congrArg some (Prod.ext hu hs)
  · subst h4
    obtain rfl := some.inj hc
    simp +decide only [Tapes.execute,h,reduceIte]
    exact congrArg some (Prod.ext (getTapeDrive_setUnit h _) rfl)
  · subst h5
    obtain rfl := some.inj hc
    simp +decide only [Tapes.execute,h,reduceIte]
    unfold perform
    dsimp only
    rw [map_map,map_map]
    congr 1
    funext r
    exact Prod.ext (getTapeDrive_setUnit h _) rfl

theorem dispatch_issue {unitNumber opcode : Nat} (m : Message)
    (h : s.getTapeDrive unitNumber=some d) (hc : commandOf m s.host opcode=some c) (modifiers : Nat) :
    (s.dispatchCommand m opcode unitNumber modifiers).map
      (fun o => (o.1.tapes.getTapeDrive unitNumber,o.1.cmdStatus)) =
    (issue d c modifiers).map (fun r => (some r.1,r.2)) := by
  obtain ⟨hclear,hhost⟩ := clearException_eq h modifiers
  have hmotion : Tapes.motion opcode=true := by
    unfold commandOf at hc
    split_ifs at hc with h1 h2 h3 h4 h5
    · rw [h1]; rfl
    · rw [h2]; rfl
    · rw [h3]; rfl
    · rw [h4]; rfl
    · rw [h5]; rfl
  rw [← hhost] at hc
  unfold Tapes.dispatchCommand issue
  dsimp only
  cases hexc : (cleared d modifiers).seriousException with
  | true =>
    have hfilter : (some (cleared d modifiers)).filter (fun d => Tapes.motion opcode && d.seriousException) =
        some (cleared d modifiers) := by
      simp [Option.filter,hmotion,hexc]
    rw [hclear,hfilter]
    simp [hclear]
  | false =>
    have hfilter : (some (cleared d modifiers)).filter (fun d => Tapes.motion opcode && d.seriousException) =
        none := by
      simp [Option.filter,hexc]
    rw [hclear,hfilter]
    exact execute_perform m hclear hc modifiers

def Plain (cmdStatus : Nat) : Prop := cmdStatus=success ∨ cmdStatus=successEot

instance (cmdStatus : Nat) : Decidable (Plain cmdStatus) :=
  inferInstanceAs (Decidable (cmdStatus=success ∨ cmdStatus=successEot))

def Command.goesBack : Command → Bool
  | .read _ _ => true
  | .reposition _ => true
  | _ => false

/-- The commands that ask for the report before they know that they can give it. -/
def Command.asksEarly : Command → Bool
  | .read _ _ => true
  | .access _ _ => true
  | _ => false

/-- What a command does with the latch of the report: it leaves it alone, or asks for the report. -/
inductive Latch (d : TapeUnit) (c : Command) (e : TapeUnit) (cmdStatus : Nat) : Prop
  | kept (hl : e.leotReported=d.leotReported) (hs : cmdStatus≠successEot)
      (hp : cmdStatus=success → c=.writeTapeMark) (hpos : c.goesBack=false → d.tape.pos≤e.tape.pos)
  | asked (ho : d.tape.isOpen=true) (hc : c≠.writeTapeMark)
      (hl : e.leotReported=e.atEndOfTape)
      (hs : Plain cmdStatus →
        cmdStatus=if e.atEndOfTape && !d.leotReported then successEot else success)
      (hp : c.asksEarly=false → Plain cmdStatus)

theorem success_ne : success≠successEot := by decide

theorem not_plain_of_outcome {r : Tape.Result} (h : outcome cmdStatus=some r)
    (hr : r≠.record) : ¬Plain cmdStatus := by
  rintro (rfl | rfl)
  · rw [outcome_success.1] at h
    exact hr (some.inj h).symm
  · rw [outcome_success.2] at h
    exact hr (some.inj h).symm

theorem not_plain_iff (cmdStatus : Nat) : ¬Plain cmdStatus ↔ cmdStatus≠success ∧ cmdStatus≠successEot :=
  not_or

theorem not_plain_driveError : ¬Plain driveError := by decide

theorem not_plain_hostBuffer : ¬Plain (status Mscp.Status.hostBufferAccessError nxm 0) := by decide

theorem stoppedRead_status (d : TapeUnit) (h : HostMemory) (p : ReadWriteParameters) (r : Tape.Result) :
    ¬Plain (stoppedRead d h p r).cmdStatus ∧ (stoppedRead d h p r).unit.leotReported=d.leotReported := by
  cases r with
  | tapeMark => exact ⟨(by decide : ¬Plain (status Status.tapeMark 0 efSeriousException)),rfl⟩
  | beginOfTape => exact ⟨(by decide : ¬Plain (status Status.bot 0 efPositionLost)),rfl⟩
  | record | endOfMedium | error => exact ⟨not_plain_driveError,rfl⟩

theorem takeEndOfTapeReport_eq (d : TapeUnit) :
    d.takeEndOfTapeReport.2.leotReported=d.takeEndOfTapeReport.2.atEndOfTape ∧
    (successStatus d).1=(if d.takeEndOfTapeReport.2.atEndOfTape && !d.leotReported then successEot else success) := by
  have hend : ∀ b,TapeUnit.atEndOfTape { d with leotReported := b }=d.atEndOfTape := fun _ => rfl
  unfold successStatus TapeUnit.takeEndOfTapeReport
  cases he : d.atEndOfTape with
  | false => simp [hend,he]
  | true =>
    cases hl : d.leotReported with
    | false => simp [hend,he]
    | true => simp [he,hl]

theorem atEndOfTape_noRecord (d : TapeUnit) (r : Tape.Result) :
    (noRecord d r).1.atEndOfTape=d.atEndOfTape ∧ (noRecord d r).1.leotReported=d.leotReported := by
  cases r <;> exact ⟨rfl,rfl⟩

theorem refusal_status (h : refusal d=some cmdStatus) : ¬Plain cmdStatus := by
  unfold refusal at h
  split_ifs at h
  all_goals
    obtain rfl := some.inj h
    decide

theorem writeRefusal_status (h : writeRefusal d=some cmdStatus) : ¬Plain cmdStatus := by
  unfold writeRefusal at h
  cases hr : refusal d with
  | some s =>
    rw [hr] at h
    obtain rfl := some.inj h
    exact refusal_status hr
  | none =>
    rw [hr] at h
    dsimp only at h
    split_ifs at h
    obtain rfl := some.inj h
    unfold writeProtected
    split_ifs
    · decide
    · decide

theorem writeRefusal_none (h : writeRefusal d=none) : refusal d=none := by
  unfold writeRefusal at h
  cases hr : refusal d with
  | none => rfl
  | some s => simp [hr] at h

theorem Latch.stopped {d e : TapeUnit} (hl : e.leotReported=d.leotReported) (hs : ¬Plain cmdStatus)
    (hpos : c.goesBack=false → d.tape.pos≤e.tape.pos) : Latch d c e cmdStatus := by
  obtain ⟨h1,h2⟩ := (not_plain_iff cmdStatus).mp hs
  exact .kept hl h2 (fun h => absurd h h1) hpos

section
variable {d : TapeUnit} {h : HostMemory} {p : ReadWriteParameters} {modifiers : Nat}

theorem deliver_status (a : Tape.Answer) {cmdStatus : Nat} (hs : Plain (deliver d h p a cmdStatus).cmdStatus) :
    (deliver d h p a cmdStatus).cmdStatus=cmdStatus := by
  have hcut : ¬Plain (status Status.recordTruncated 0 0) := by decide
  unfold deliver at hs ⊢
  dsimp only at hs ⊢
  split_ifs at hs ⊢
  · exact absurd hs not_plain_hostBuffer
  · exact absurd hs hcut
  · rfl
  · exact absurd hs not_plain_hostBuffer
  · exact absurd hs hcut
  · rfl

/-- A command that has asked for the report, and then ends with a mark, an end of the tape or an error. -/
theorem Latch.noRecord {c : Command} {e : TapeUnit} {r : Tape.Result} (ho : d.tape.isOpen)
    (hc : c.asksEarly) (hr : r≠.record) (hl : e.leotReported=e.atEndOfTape) :
    Latch d c (Tmscp.noRecord e r).1 (Tmscp.noRecord e r).2 := by
  obtain ⟨hend,hrep⟩ := atEndOfTape_noRecord e r
  have hno := not_plain_of_outcome (noRecord_outcome e r hr) hr
  exact .asked ho (fun hw => by simp [hw,Command.asksEarly] at hc) (by rw [hrep,hend,hl])
    (fun hs => absurd hs hno) (fun hf => by simp [hc] at hf)

theorem latch_read : Latch d (.read h p) (read d h p modifiers).unit (read d h p modifiers).cmdStatus := by
  cases hd : refusal d with
  | some cmdStatus =>
    have hr : read d h p modifiers=⟨d,h,p,cmdStatus⟩ := by
      unfold read
      rw [hd]
    rw [hr]
    exact .stopped rfl (refusal_status hd) (fun _ => Nat.le_refl _)
  | none =>
    have ho := (refusal_none hd).1
    unfold read
    rw [hd]
    rcases readTape d.tape (has modifiers mdRev) p.byteCount with ⟨t,r⟩
    cases r with
    | error sres =>
      obtain ⟨hno,hl⟩ := stoppedRead_status { d with tape := t } h p sres
      exact .stopped hl hno (fun hb => by cases hb)
    | ok a =>
      dsimp only
      obtain ⟨hl,hs⟩ := takeEndOfTapeReport_eq { d with tape := t }
      cases ha : a.result with
      | record =>
        rw [deliver_tape]
        exact .asked ho (by simp) hl (fun hp => (deliver_status a hp).trans hs) (fun hf => by cases hf)
      | tapeMark | endOfMedium | beginOfTape | error => exact .noRecord ho rfl (by simp) hl

theorem latch_access : Latch d (.access h p) (access d h p modifiers).unit (access d h p modifiers).cmdStatus := by
  cases hd : refusal d with
  | some cmdStatus =>
    have hr : access d h p modifiers=⟨d,h,p,cmdStatus⟩ := by
      unfold access
      rw [hd]
    rw [hr]
    exact .stopped rfl (refusal_status hd) (fun _ => Nat.le_refl _)
  | none =>
    have ho := (refusal_none hd).1
    unfold access
    rw [hd]
    rcases (if has modifiers mdRev then d.tape.spaceReverse else d.tape.spaceForward) with ⟨t,a⟩
    dsimp only
    obtain ⟨hl,hs⟩ := takeEndOfTapeReport_eq { d with tape := t }
    cases ha : a.result with
    | record => exact .asked ho (by simp) hl (fun _ => hs) (fun hf => by cases hf)
    | tapeMark | endOfMedium | beginOfTape | error => exact .noRecord ho rfl (by simp) hl

theorem plain_successStatus (d : TapeUnit) : Plain (successStatus d).1 := by
  rw [(takeEndOfTapeReport_eq d).2]
  split_ifs
  · exact .inr rfl
  · exact .inl rfl

theorem latch_write : Latch d (.write h p) (write d h p).unit (write d h p).cmdStatus := by
  unfold write
  dsimp only
  cases hd : writeRefusal d with
  | some cmdStatus => exact .stopped rfl (writeRefusal_status hd) (fun _ => Nat.le_refl _)
  | none =>
    have ho := (refusal_none (writeRefusal_none hd)).1
    dsimp only
    split_ifs with hzero
    · exact .stopped rfl not_plain_driveError (fun _ => Nat.le_refl _)
    · cases h.dmaRead (p.bufferPhysicalAddress &&& 0x00ffffff) (wholeWords p.byteCount) with
      | none => exact .stopped rfl not_plain_hostBuffer (fun _ => Nat.le_refl _)
      | some mem =>
        dsimp only
        have hsame := d.tape.writeRecord_result (mem.take p.byteCount)
        rcases hw : d.tape.writeRecord (mem.take p.byteCount) with ⟨t,a⟩
        rw [hw] at hsame
        dsimp only at hsame ⊢
        split_ifs with hrecord
        · obtain ⟨hl,hs⟩ := takeEndOfTapeReport_eq { d with tape := t }
          exact .asked ho (by simp) hl (fun _ => hs) (fun _ => plain_successStatus _)
        · have ht := hsame.resolve_left hrecord
          exact .stopped rfl not_plain_driveError (fun _ => Nat.le_of_eq (congrArg Tape.pos ht.symm))

theorem latch_writeTapeMark : Latch d .writeTapeMark (writeTapeMark d).1 (writeTapeMark d).2.2 := by
  unfold writeTapeMark
  cases hd : writeRefusal d with
  | some cmdStatus => exact .stopped rfl (writeRefusal_status hd) (fun _ => Nat.le_refl _)
  | none =>
    have hpos := d.tape.writeTapeMark_pos
    rcases hw : d.tape.writeTapeMark with ⟨t,a⟩
    rw [hw] at hpos
    dsimp only at hpos ⊢
    split_ifs
    · exact .kept rfl success_ne (fun _ => rfl) (fun _ => hpos)
    · exact .stopped rfl not_plain_driveError (fun _ => hpos)

theorem not_plain_stop {c : Spacing} {cmdStatus : Nat} (hs : c.Stop cmdStatus) : ¬Plain cmdStatus := by
  rcases hs with ⟨rfl,-⟩ | rfl | rfl | rfl
  all_goals decide

theorem reposition_runs (t : Tape) (p : RepositionParameters) (modifiers : Nat) :
    ∃ u,runWhile (spacing p modifiers).busy (spacing p modifiers).body (repositionRounds t)
        (repositionStart t)=some u ∧ ∀ cmdStatus,u.status=some cmdStatus → (spacing p modifiers).Stop cmdStatus := by
  obtain ⟨u,records,marks,hrun,haccounts,-⟩ := Spacing.loop_accounts (spacing_sound p modifiers) t
  obtain ⟨n,hn⟩ := Nat.le.dest ((spacing p modifiers).objects_lt t)
  refine ⟨u,?_,haccounts.stop⟩
  rw [← hn]
  exact runWhile_mono hrun n

theorem latch_reposition (d : TapeUnit) (modifiers : Nat) (q : RepositionParameters) :
    ∃ e q' cmdStatus,reposition d q modifiers=some (e,q',cmdStatus) ∧ Latch d (.reposition q) e cmdStatus := by
  unfold reposition
  cases hd : refusal d with
  | some cmdStatus => exact ⟨_,_,_,rfl,.stopped rfl (refusal_status hd) (fun _ => Nat.le_refl _)⟩
  | none =>
    have ho := (refusal_none hd).1
    dsimp only
    split_ifs with hrwd
    · obtain ⟨hl,hs⟩ := takeEndOfTapeReport_eq { d with tape := d.tape.rewind }
      refine ⟨_,_,_,rfl,.asked ho (by simp) hl (fun _ => ?_) (fun _ => .inl rfl)⟩
      -- At the beginning of the tape nothing is due.
      have hstart : TapeUnit.atEndOfTape { d with tape := d.tape.rewind }=false := by
        simp [TapeUnit.atEndOfTape,Tape.rewind]
      unfold TapeUnit.takeEndOfTapeReport
      rw [hstart]
      simp [TapeUnit.atEndOfTape,Tape.rewind]
    · obtain ⟨u,hu,hstop⟩ := reposition_runs d.tape q modifiers
      rw [hu,map_some]
      cases hs : u.status with
      | some cmdStatus =>
        exact ⟨_,_,_,rfl,.stopped rfl (not_plain_stop (hstop _ hs)) (fun hb => by cases hb)⟩
      | none =>
        obtain ⟨hl,hs⟩ := takeEndOfTapeReport_eq { d with tape := u.tape }
        exact ⟨_,_,_,rfl,.asked ho (by simp) hl (fun _ => hs) (fun _ => plain_successStatus _)⟩

end

theorem latch_perform (d : TapeUnit) (c : Command) (modifiers : Nat) :
    ∃ e cmdStatus,perform d c modifiers=some (e,cmdStatus) ∧ Latch d c e cmdStatus := by
  cases c with
  | read h p => exact ⟨_,_,rfl,latch_read⟩
  | access h p => exact ⟨_,_,rfl,latch_access⟩
  | write h p => exact ⟨_,_,rfl,latch_write⟩
  | writeTapeMark => exact ⟨_,_,rfl,latch_writeTapeMark⟩
  | reposition p =>
    obtain ⟨e,q,cmdStatus,hr,hl⟩ := latch_reposition d modifiers p
    exact ⟨e,cmdStatus,by rw [perform,hr,map_some],hl⟩

theorem refusedMotion_status (d : TapeUnit) : ¬Plain (Tapes.refusedMotion d) := by
  unfold Tapes.refusedMotion TapeUnit.endFlags
  split_ifs
  all_goals decide

theorem Latch.of_cleared {d e : TapeUnit} {modifiers cmdStatus : Nat}
    (hl : Latch (cleared d modifiers) c e cmdStatus) : Latch d c e cmdStatus := by
  have htape : (cleared d modifiers).tape=d.tape ∧
      (cleared d modifiers).leotReported=d.leotReported := by
    unfold cleared
    split_ifs <;> exact ⟨rfl,rfl⟩
  cases hl with
  | kept hl hs hp hpos => exact .kept (hl.trans htape.2) hs hp (fun hb => htape.1 ▸ hpos hb)
  | asked ho hc hl hs hp => exact .asked (htape.1 ▸ ho) hc hl (fun h => htape.2 ▸ hs h) hp

theorem latch_issue (d : TapeUnit) (c : Command) (modifiers : Nat) :
    ∃ e cmdStatus,issue d c modifiers=some (e,cmdStatus) ∧ Latch d c e cmdStatus := by
  unfold issue
  dsimp only
  split_ifs with hexc
  · exact ⟨_,_,rfl,.of_cleared (.stopped rfl (refusedMotion_status _) (fun _ => Nat.le_refl _))⟩
  · obtain ⟨e,cmdStatus,hp,hl⟩ := latch_perform (cleared d modifiers) c modifiers
    exact ⟨e,cmdStatus,hp,hl.of_cleared⟩

theorem access_steady (d : TapeUnit) (h : HostMemory) (p : ReadWriteParameters) (modifiers : Nat) :
    Steady d (access d h p modifiers).unit := by
  unfold access
  cases refusal d with
  | some cmdStatus => exact .refl d
  | none =>
    have hmoved : (if has modifiers mdRev then d.tape.spaceReverse else d.tape.spaceForward).1.isOpen =
        d.tape.isOpen := by
      split_ifs
      · exact (Tape.spaceReverse_cases _).same.isOpen
      · exact (Tape.readForward_cases _ _ _).same.isOpen
    rcases hr : (if has modifiers mdRev then d.tape.spaceReverse else d.tape.spaceForward) with ⟨t,a⟩
    rw [hr] at hmoved
    have hreport := (steady_tape (d := d) hmoved).trans (steady_report { d with tape := t })
    dsimp only
    cases a.result with
    | record => exact hreport
    | tapeMark | endOfMedium | beginOfTape | error => exact hreport.trans (steady_noRecord _ _)

theorem write_steady (d : TapeUnit) (h : HostMemory) (p : ReadWriteParameters) : Steady d (write d h p).unit := by
  unfold write
  dsimp only
  cases writeRefusal d with
  | some cmdStatus => exact .refl d
  | none =>
    dsimp only
    split_ifs with hzero
    · exact .refl d
    · cases h.dmaRead (p.bufferPhysicalAddress &&& 0x00ffffff) (wholeWords p.byteCount) with
      | none => exact .refl d
      | some mem =>
        have htape := steady_tape (d := d) (d.tape.writeRecord_isOpen (mem.take p.byteCount))
        dsimp only
        split_ifs
        · exact htape.trans (steady_report _)
        · exact htape

theorem writeTapeMark_steady (d : TapeUnit) : Steady d (writeTapeMark d).1 := by
  unfold writeTapeMark
  cases writeRefusal d with
  | some cmdStatus => exact .refl d
  | none =>
    have htape := steady_tape (d := d) d.tape.writeTapeMark_isOpen
    dsimp only
    split_ifs <;> exact htape

theorem runWhile_isOpen (c : Spacing) (fuel : Nat) {s u : Repositioning}
    (h : runWhile c.busy c.body fuel s=some u) : u.tape.isOpen=s.tape.isOpen := by
  induction fuel generalizing s with
  | zero =>
    rw [runWhile] at h
    split_ifs at h
    obtain rfl := some.inj h
    rfl
  | succ fuel ih =>
    rw [runWhile] at h
    split_ifs at h
    · rw [ih h,Spacing.body_tape,Spacing.space_isOpen]
    · obtain rfl := some.inj h
      rfl

theorem reposition_steady {p : RepositionParameters} {modifiers : Nat}
    {r : TapeUnit × RepositionParameters × Nat} (h : reposition d p modifiers=some r) : Steady d r.1 := by
  unfold reposition at h
  cases hd : refusal d with
  | some cmdStatus =>
    rw [hd] at h
    obtain rfl := some.inj h
    exact .refl d
  | none =>
    rw [hd] at h
    dsimp only at h
    split_ifs at h
    · obtain rfl := some.inj h
      exact (steady_tape (d := d) (t := d.tape.rewind) rfl).trans (steady_report _)
    · obtain ⟨u,hu,rfl⟩ := map_eq_some_iff.mp h
      have htape := steady_tape (d := d) (runWhile_isOpen _ _ hu)
      cases u.status with
      | none => exact htape.trans (steady_report _)
      | some cmdStatus => exact htape

theorem steady_perform {d e : TapeUnit} {modifiers cmdStatus : Nat}
    (h : perform d c modifiers=some (e,cmdStatus)) : Steady d e := by
  cases c with
  | read m p =>
    obtain rfl := congrArg Prod.fst (some.inj h)
    exact read_steady d m p modifiers
  | access m p =>
    obtain rfl := congrArg Prod.fst (some.inj h)
    exact access_steady d m p modifiers
  | write m p =>
    obtain rfl := congrArg Prod.fst (some.inj h)
    exact write_steady d m p
  | writeTapeMark =>
    obtain rfl := congrArg Prod.fst (some.inj h)
    exact writeTapeMark_steady d
  | reposition p =>
    obtain ⟨r,hr,he⟩ := map_eq_some_iff.mp h
    obtain rfl := congrArg Prod.fst he
    exact reposition_steady hr

/-- Whether the report of the end of the tape is due: nothing is known, the head has been below the capacity and
nothing was reported since, or it was reported. -/
inductive Phase where
  | unknown
  | due
  | reported
  deriving DecidableEq

def below (d : TapeUnit) : Bool := d.tape.pos<d.capacity

/-- `counts` says which commands are to report. -/
def Phase.next (counts : Command → Bool) (ph : Phase) (c : Command) (e : TapeUnit) (cmdStatus : Nat) : Phase :=
  if below e then .due
  else if ph=.due ∧ counts c=true ∧ Plain cmdStatus then .reported
  else ph

/-- The first command to report that ends plainly past the capacity reports, and no command after it. -/
structure Right (counts : Command → Bool) (ph : Phase) (c : Command) (e : TapeUnit) (cmdStatus : Nat) : Prop where
  first : ph=.due → counts c=true → Plain cmdStatus → below e=false → cmdStatus=successEot
  once : ph=.reported → cmdStatus≠successEot

def RightAlong (counts : Command → Bool) : TapeUnit → Phase → List (Command × Nat) → Prop
  | _,_,[] => True
  | d,ph,(c,modifiers)::cs =>
    match issue d c modifiers with
    | none => False
    | some (e,cmdStatus) => Right counts ph c e cmdStatus ∧ RightAlong counts e (ph.next counts c e cmdStatus) cs

/-- What the code leaves out: a READ or ACCESS that takes the report comes to a plain success, and a READ or
reposition back below the capacity clears the latch. -/
structure Careful (d : TapeUnit) (c : Command) (e : TapeUnit) (cmdStatus : Nat) : Prop where
  taken : c.asksEarly=true → d.leotReported=false → e.leotReported=true → Plain cmdStatus
  back : c.goesBack=true → d.leotReported=true → below e=true → e.leotReported=false

def CarefulAlong : TapeUnit → List (Command × Nat) → Prop
  | _,[] => True
  | d,(c,modifiers)::cs =>
    match issue d c modifiers with
    | none => True
    | some (e,cmdStatus) => Careful d c e cmdStatus ∧ CarefulAlong e cs

def transfers : Command → Bool
  | .read _ _ => true
  | .write _ _ => true
  | .access _ _ => true
  | _ => false

def reports : Command → Bool
  | .writeTapeMark => false
  | _ => true

/-- The latch is set past the capacity only, and says what is due and what was reported. -/
structure Synced (ph : Phase) (d : TapeUnit) : Prop where
  past : d.leotReported=true → below d=false
  due : ph=.due → d.leotReported=false
  reported : ph=.reported → d.leotReported=true

theorem steady_issue {d e : TapeUnit} {modifiers cmdStatus : Nat}
    (h : issue d c modifiers=some (e,cmdStatus)) : Steady d e := by
  have hclear : Steady d (cleared d modifiers) := by
    unfold cleared
    split_ifs <;> exact ⟨rfl,rfl,rfl⟩
  unfold issue at h
  dsimp only at h
  split_ifs at h with hexc
  · obtain ⟨rfl,-⟩ := Prod.mk.injEq _ _ _ _ ▸ some.inj h
    exact hclear
  · exact hclear.trans (steady_perform h)

theorem atEndOfTape_below (ho : d.tape.isOpen) (hc : d.capacity≠0) : d.atEndOfTape = !below d := by
  unfold TapeUnit.atEndOfTape below
  rw [ho]
  by_cases hlt : d.tape.pos<d.capacity
  · simp [hlt]
  · simp [hc,hlt,Nat.le_of_not_lt hlt]

theorem Synced.step {d e : TapeUnit} {ph : Phase} (hs : Synced ph d)
    (hcap : d.capacity≠0) (hsteady : Steady d e) (hl : Latch d c e cmdStatus) (hc : Careful d c e cmdStatus) :
    Right reports ph c e cmdStatus ∧ Synced (ph.next reports c e cmdStatus) e := by
  cases hl with
  | kept hl hno hp hpos =>
    have hright : Right reports ph c e cmdStatus := by
      refine ⟨fun _ hcounts hplain _ => ?_,fun _ => hno⟩
      obtain rfl := hp (hplain.resolve_right hno)
      cases hcounts
    have hpast : e.leotReported=true → below e=false := by
      intro hset
      by_contra hb
      have hb : below e=true := by simpa using hb
      cases hback : c.goesBack with
      | true => simp [hc.back hback (hl ▸ hset) hb] at hset
      | false =>
        have hd := hs.past (hl ▸ hset)
        have hle := hpos hback
        unfold below at hb hd
        rw [hsteady.capacity] at hb
        simp only [decide_eq_true_eq,decide_eq_false_iff_not] at hb hd
        omega
    refine ⟨hright,hpast,fun hdue => ?_,fun hrep => ?_⟩
    · unfold Phase.next at hdue
      split_ifs at hdue with hb hnow
      · cases hset : e.leotReported with
        | false => rfl
        | true => simp [hpast hset] at hb
      · rw [hl]
        exact hs.due hdue
    · unfold Phase.next at hrep
      split_ifs at hrep with hb hnow
      · obtain ⟨-,hcounts,hplain⟩ := hnow
        obtain rfl := hp (hplain.resolve_right hno)
        cases hcounts
      · rw [hl]
        exact hs.reported hrep
  | asked ho hmark hl hstatus hplain =>
    have hend : e.leotReported = !below e := by
      rw [hl]
      exact atEndOfTape_below (hsteady.isOpen.trans ho) (hsteady.capacity.trans_ne hcap)
    rw [← hl,hend] at hstatus
    have hcounts : reports c=true := by
      cases c with
      | writeTapeMark => exact absurd rfl hmark
      | read h p | access h p | write h p | reposition p => rfl
    refine ⟨⟨fun hdue _ hp hb => ?_,fun hrep hsucc => ?_⟩,fun hset => ?_,fun hdue => ?_,fun hrep => ?_⟩
    · rw [hstatus hp,hb,hs.due hdue]
      rfl
    · have hs' := hstatus (.inr hsucc)
      rw [hs.reported hrep,Bool.not_true,Bool.and_false,if_neg Bool.false_ne_true] at hs'
      exact success_ne (hs'.symm.trans hsucc)
    · simpa [hend] using hset
    · unfold Phase.next at hdue
      split_ifs at hdue with hb hnow
      · rw [hend,hb]
        rfl
      · -- The report was due, and was taken by a command that does not give it.
        by_contra hset
        have hset : e.leotReported=true := by simpa using hset
        refine hnow ⟨hdue,hcounts,?_⟩
        cases hearly : c.asksEarly with
        | true => exact hc.taken hearly (hs.due hdue) hset
        | false => exact hplain hearly
    · unfold Phase.next at hrep
      split_ifs at hrep with hb hnow
      all_goals simpa [hend] using hb

theorem right_along {ph : Phase} (cs : List (Command × Nat)) (hcap : d.capacity≠0)
    (hs : Synced ph d) (hc : CarefulAlong d cs) : RightAlong reports d ph cs := by
  induction cs generalizing d ph with
  | nil => trivial
  | cons a cs ih =>
    obtain ⟨c,modifiers⟩ := a
    obtain ⟨e,cmdStatus,hissue,hl⟩ := latch_issue d c modifiers
    have hsteady := steady_issue hissue
    rw [CarefulAlong,hissue] at hc
    rw [RightAlong,hissue]
    obtain ⟨hright,hsynced⟩ := hs.step hcap hsteady hl hc.1
    exact ⟨hright,ih (hsteady.capacity.trans_ne hcap) hsynced hc.2⟩

/-- After the head has been below the capacity, the first READ, WRITE, ACCESS or REPOSITION that ends plainly past it
reports the end of the tape, and no command does again before the head was below it once more. -/
theorem report_once (d : TapeUnit) (cs : List (Command × Nat)) (hcap : d.capacity≠0)
    (hs : d.leotReported → below d=false) (hc : CarefulAlong d cs) : RightAlong reports d .unknown cs :=
  right_along cs hcap ⟨hs,(fun h => by cases h),(fun h => by cases h)⟩ hc

instance (counts : Command → Bool) (ph : Phase) (c : Command) (e : TapeUnit) (cmdStatus : Nat) :
    Decidable (Right counts ph c e cmdStatus) :=
  decidable_of_iff
    ((ph=.due → counts c=true → Plain cmdStatus → below e=false → cmdStatus=successEot) ∧
      (ph=.reported → cmdStatus≠successEot))
    ⟨fun h => ⟨h.1,h.2⟩,fun h => ⟨h.first,h.once⟩⟩

instance RightAlong.decidable (counts : Command → Bool) :
    (d : TapeUnit) → (ph : Phase) → (cs : List (Command × Nat)) → Decidable (RightAlong counts d ph cs)
  | _,_,[] => inferInstanceAs (Decidable True)
  | d,ph,(c,modifiers)::cs =>
    show Decidable (match issue d c modifiers with
      | none => False
      | some (e,cmdStatus) => Right counts ph c e cmdStatus ∧
        RightAlong counts e (ph.next counts c e cmdStatus) cs) from
    match issue d c modifiers with
    | none => inferInstanceAs (Decidable False)
    | some (e,cmdStatus) =>
      have := RightAlong.decidable counts e (ph.next counts c e cmdStatus) cs
      inferInstance

instance (d : TapeUnit) (c : Command) (e : TapeUnit) (cmdStatus : Nat) :
    Decidable (Careful d c e cmdStatus) :=
  decidable_of_iff
    ((c.asksEarly=true → d.leotReported=false → e.leotReported=true → Plain cmdStatus) ∧
      (c.goesBack=true → d.leotReported=true → below e=true → e.leotReported=false))
    ⟨fun h => ⟨h.1,h.2⟩,fun h => ⟨h.taken,h.back⟩⟩

instance CarefulAlong.decidable :
    (d : TapeUnit) → (cs : List (Command × Nat)) → Decidable (CarefulAlong d cs)
  | _,[] => inferInstanceAs (Decidable True)
  | d,(c,modifiers)::cs =>
    show Decidable (match issue d c modifiers with
      | none => True
      | some (e,cmdStatus) => Careful d c e cmdStatus ∧ CarefulAlong e cs) from
    match issue d c modifiers with
    | none => inferInstanceAs (Decidable True)
    | some (e,_) =>
      have := CarefulAlong.decidable e cs
      inferInstance

def shortTape : TapeUnit where
  tape := ⟨.ofBytes (Tape.bytes [twoBytes,twoBytes]),true,false,0,0,20⟩
  online := true
  softwareWriteProtect := false
  seriousException := false
  leotReported := false
  capacity := 5
  unitDeviceNumber := 1

def acrossCapacity : List (Command × Nat) :=
  [(.reposition ⟨0,0,0,0,0⟩,mdRwd),(.access quietHost ⟨0,0,0,0,0,0⟩,0),(.access quietHost ⟨0,0,0,0,0,0⟩,0)]

theorem report_once_across : shortTape.capacity≠0 ∧
    (shortTape.leotReported → below shortTape=false) ∧ CarefulAlong shortTape acrossCapacity ∧
    RightAlong reports shortTape .unknown acrossCapacity :=
  have hcareful : CarefulAlong shortTape acrossCapacity := by decide +kernel
  ⟨by decide,by decide,hcareful,report_once shortTape acrossCapacity (by decide) (by decide) hcareful⟩

/-- A reposition over the first record takes the report, which the ACCESS of the second then lacks. -/
theorem reposition_takes_report : ¬∀ (d : TapeUnit) (cs : List (Command × Nat)),d.capacity≠0 →
    (d.leotReported → below d=false) → RightAlong transfers d .unknown cs := by
  intro h
  have hright := h shortTape [(.reposition ⟨0,0,0,0,0⟩,mdRwd),(.reposition ⟨1,0,0,0,0⟩,0),
    (.access quietHost ⟨0,0,0,0,0,0⟩,0)] (by decide) (by decide)
  exact absurd hright (by decide +kernel)

end QUniLator.Tmscp
