import QUniLator.Disks.RxCpu
import QUniLator.Framework.File

namespace QUniLator.Disks.Rx

open List File

def checkDiskAddress (track sector : Nat) : Bool := track<cylinderCount && 1 ≤ sector && sector ≤ sectorCount

theorem checkDiskAddress_iff {t a : Nat} : checkDiskAddress t a ↔ t<77 ∧ 1≤a ∧ a≤26 := by
  simp only [checkDiskAddress,Bool.and_eq_true,decide_eq_true_eq,and_assoc]
  rfl

/-- `RX0102drive_c`. The rows of `deleted_data_marks` follow one another in `marks`; the mark of the last sector of
a row lies in the next one, and that of the last track behind the array. -/
structure Drive where
  image : Option File
  readonly : Bool
  doubleDensity : Bool
  logicalLayout : Bool
  imagetrack0 : Bool
  marks : Nat → Bool
  cylinder : Nat

namespace Drive

variable (d : Drive)

def sectorSize : Nat := if d.doubleDensity then 256 else 128

def sectorImageOffset (track sector : Nat) : Nat := (track*sectorCount+(sector-1))*d.sectorSize

def interleaveIndex (track sector : Nat) : Nat :=
  let skewed := (sector-1+26-6*(track-1)%26)%26
  if skewed%2=1 then (skewed-1)/2+13 else skewed/2

/-- None for a sector that the image does not carry -/
def sectorFileOffset (track sector : Nat) : Option Nat :=
  if d.logicalLayout then
    if track=0 then none else some (d.sectorImageOffset (track-1) (interleaveIndex track sector+1))
  else if d.imagetrack0 then some (d.sectorImageOffset track sector)
  else if track=0 then none
  else some (d.sectorImageOffset (track-1) sector)

def markAt (track sector : Nat) : Nat := track*sectorCount+sector

def sectorRead (track sector : Nat) : Option (List UInt8 × Bool) :=
  if checkDiskAddress track sector then
    d.image.map fun (f : File) =>
      ((d.sectorFileOffset track sector).elim (replicate d.sectorSize 0) (f.preadCleared d.sectorSize),
        d.marks (markAt track sector))
  else none

/-- A write to a medium that is protected is no error. -/
def sectorWrite (buffer : List UInt8) (deleted : Bool) (track sector : Nat) : Option Drive :=
  if checkDiskAddress track sector then
    d.image.map fun (f : File) =>
      if d.readonly then d
      else
        { d with
          marks := fun i => if i=markAt track sector then deleted else d.marks i
          image := some ((d.sectorFileOffset track sector).elim f (f.pwrite (buffer.take d.sectorSize))) }
  else none

def medium : Option File × Bool × (Nat → Bool) := (d.image,d.doubleDensity,d.marks)

variable {d} {d' : Drive} {t t' a a' track sector : Nat} {buffer : List UInt8} {deleted : Bool}

theorem interleaveIndex_lt (track sector : Nat) : interleaveIndex track sector<26 := by
  unfold interleaveIndex
  dsimp only
  split_ifs <;> omega

theorem interleaveIndex_inj (h1 : 1≤a ∧ a≤26) (h2 : 1≤a' ∧ a'≤26)
    (h : interleaveIndex t a=interleaveIndex t a') : a=a' := by
  unfold interleaveIndex at h
  dsimp only at h
  split_ifs at h <;> omega

/-- A sector has its place in the image for itself, in either layout. -/
theorem offsets_apart {o o' : Nat} (h1 : checkDiskAddress t a) (h2 : checkDiskAddress t' a')
    (ho : d.sectorFileOffset t a=some o) (ho' : d.sectorFileOffset t' a'=some o') (hne : (t,a)≠(t',a')) :
    o+d.sectorSize≤o' ∨ o'+d.sectorSize≤o := by
  rw [checkDiskAddress_iff] at h1 h2
  have hplace : ∃ p p',o=p*d.sectorSize ∧ o'=p'*d.sectorSize ∧ p≠p' := by
    have := interleaveIndex_lt t a
    have := interleaveIndex_lt t' a'
    unfold sectorFileOffset sectorImageOffset sectorCount at ho ho'
    split_ifs at ho ho' with hl h0 h0' h0' h0
    all_goals
      cases ho
      cases ho'
      refine ⟨_,_,rfl,rfl,fun he => hne ?_⟩
      have ht : t=t' := by omega
      subst ht
    · rw [interleaveIndex_inj (t := t) h1.2 h2.2 (by omega)]
    · rw [show a=a' by omega]
    · rw [show a=a' by omega]
  obtain ⟨p,p',rfl,rfl,hp⟩ := hplace
  have := apart_of_ne 0 d.sectorSize hp
  omega

theorem sectorSize_le : d.sectorSize≤256 := by
  unfold sectorSize
  split_ifs <;> omega

theorem sectorRead_length {r : List UInt8 × Bool} (h : d.sectorRead track sector=some r) :
    r.1.length=d.sectorSize := by
  unfold sectorRead at h
  split_ifs at h
  obtain ⟨f,-,rfl⟩ := Option.map_eq_some_iff.mp h
  cases d.sectorFileOffset track sector with
  | none => exact length_replicate
  | some o => rw [Option.elim_some,preadCleared_eq,slice_length]

theorem markAt_ne (h : 1≤a ∧ a≤26) (h' : 1≤a' ∧ a'≤26) (hne : (t,a)≠(t',a')) : markAt t a≠markAt t' a' := by
  intro he
  unfold markAt sectorCount at he
  have ht : t=t' := by omega
  subst ht
  exact hne (by rw [show a=a' by omega])

theorem sectorWrite_density (h : d.sectorWrite buffer deleted track sector=some d') :
    d'.doubleDensity=d.doubleDensity := by
  unfold sectorWrite at h
  split_ifs at h <;> obtain ⟨f,-,rfl⟩ := Option.map_eq_some_iff.mp h <;> rfl

/-- A write that reaches the image is read back, and every other sector is as it was. -/
theorem sectorWrite_stores {o : Nat} (h : d.sectorWrite buffer deleted track sector=some d')
    (hr : d.readonly=false) (ho : d.sectorFileOffset track sector=some o) (hb : buffer.length=256) :
    d'.sectorRead track sector=some (buffer.take d.sectorSize,deleted) ∧
    ∀ t a,checkDiskAddress t a → (t,a)≠(track,sector) → d'.sectorRead t a=d.sectorRead t a := by
  unfold sectorWrite at h
  split_ifs at h with hc hp
  · cases hr.symm.trans hp
  obtain ⟨f,hf,rfl⟩ := Option.map_eq_some_iff.mp h
  have hlen : (buffer.take d.sectorSize).length=d.sectorSize := by
    have := d.sectorSize_le
    rw [length_take]
    omega
  have hpatch (p : Nat) : (f.pwrite (buffer.take d.sectorSize) o).preadCleared d.sectorSize p =
      slice (patch f.byte o (buffer.take d.sectorSize)) p d.sectorSize := by
    rw [preadCleared_eq,pwrite_byte]
  refine ⟨?_,fun t a ha hne => ?_⟩
  · unfold sectorRead
    rw [if_pos hc]
    change some ((Option.elim (d.sectorFileOffset track sector) _ _),_)=_
    rw [ho]
    dsimp only [Option.elim_some]
    rw [if_pos rfl]
    change some ((f.pwrite _ o).preadCleared d.sectorSize o,deleted)=_
    have := slice_patch f.byte o (buffer.take d.sectorSize)
    rw [hlen] at this
    rw [hpatch,this]
  · unfold sectorRead
    rw [if_pos ha,if_pos ha,hf,Option.map_some,Option.map_some]
    dsimp only
    rw [if_neg (markAt_ne (checkDiskAddress_iff.mp ha).2 (checkDiskAddress_iff.mp hc).2 hne)]
    change some (Option.elim (d.sectorFileOffset t a) (replicate d.sectorSize 0) _,_)=_
    cases ha' : d.sectorFileOffset t a with
    | none => rfl
    | some p =>
      rw [ho]
      change some ((f.pwrite _ o).preadCleared d.sectorSize p,_)=some (f.preadCleared _ p,_)
      rw [hpatch,preadCleared_eq,slice_patch_other]
      rw [hlen]
      exact offsets_apart ha hc ha' ho hne

end Drive

/-- `RX0102uCPU_c` with the selected drive, for one command. A transfer step `waits` for words that do not come. -/
structure Box where
  isRx02 : Bool
  drive : Drive
  density : Bool
  deletedDataMark : Bool
  sectorBuffer : List UInt8
  rxsa : Nat
  rxta : Nat
  signalError : Bool
  waits : Bool

namespace Box

variable (s : Box)

/-- `rxdb_after_write`, for the words of a transfer that takes parameters -/
def receive (f : Function) (ws : List Nat) : Box :=
  match f,ws with
  | .setMediaDensity,w::_ => { s with signalError := decide (w≠0x49) }
  | .readSector,w::v::_ | .writeSector,w::v::_ | .writeSectorWithDeletedData,w::v::_ =>
    { s with
      rxsa := w%0x20,rxta := v%0x80
      signalError := decide (w%0x20<1 ∨ w%0x20>sectorCount) || decide (v%0x80≥cylinderCount) }
  | _,_ => { s with waits := true }

def transfer (r : Option Box) : Box :=
  if s.drive.doubleDensity≠s.density then { s with signalError := true }
  else r.getD { s with signalError := true }

def sectorWrite (buffer : List UInt8) (deleted : Bool) (track sector : Nat) : Option Box :=
  (s.drive.sectorWrite buffer deleted track sector).map fun d => { s with drive := d }

def sectorRead : Option Box :=
  (s.drive.sectorRead s.rxta s.rxsa).map fun r =>
    { s with sectorBuffer := r.1++s.sectorBuffer.drop s.drive.sectorSize,deletedDataMark := r.2 }

/-- The sectors of a track from `sector` on -/
def formatTrack : Nat → Nat → Box → Box
  | 0,_,s => s
  | n+1,sector,s =>
    match s.sectorWrite (replicate 256 0) false s.drive.cylinder sector with
    | some s => formatTrack n (sector+1) s
    | none => { s with signalError := true }

def stepExecute (f : Function) (ws : List Nat) : Step → Box
  | .transferBufferWrite => s.receive f ws
  | .seek => { s with drive := { s.drive with cylinder := s.rxta } }
  | .sectorWrite => s.transfer (s.sectorWrite s.sectorBuffer s.deletedDataMark s.rxta s.rxsa)
  | .sectorRead => s.transfer s.sectorRead
  | .seekNext => { s with drive := { s.drive with cylinder := s.drive.cylinder+1 } }
  | .formatTrack => formatTrack sectorCount 1 s
  | .transferBufferRead | .headSettle | .initDone | .doneReadErrorCode | .done => s

/-- The steps of a program, up to an error or a transfer that waits -/
def run (f : Function) (ws : List Nat) : List Step → Box → Box
  | [],s => s
  | st::steps,s =>
    if (s.stepExecute f ws st).signalError || (s.stepExecute f ws st).waits then s.stepExecute f ws st
    else run f ws steps (s.stepExecute f ws st)

/-- What `go` does before the program. None: the image is protected, which an assertion of `truncate` excludes. -/
def begin (c : Command) : Option Box :=
  let s := { s with
    density := c.doubleDensity,deletedDataMark := c.function=.writeSectorWithDeletedData
    signalError := false,waits := false }
  if c.function=.setMediaDensity ∧ s.isRx02 then
    if s.drive.image.isNone then some { s with signalError := true }
    else if s.drive.readonly then none
    else some { s with
      drive := { s.drive with image := some .empty,doubleDensity := c.doubleDensity },rxta := 0 }
  else some s

/-- A command, with the words that the host writes for it -/
def command (f : Function) (doubleDensity : Bool) (ws : List Nat) : Option Box :=
  let c : Command := ⟨f,doubleDensity,0,s.drive.image.isSome⟩
  (s.begin c).map fun t => if t.signalError then t else run f ws (c.program s.isRx02) t

variable {s} {t : Box} {f : Function} {e : Bool} {q l : List Nat} {w v c : Nat} {z : Step}

theorem run_halts {steps : List Step} (h : ((s.stepExecute f q z).signalError || (s.stepExecute f q z).waits)) :
    run f q (z::steps) s=s.stepExecute f q z := if_pos h

theorem run_on {steps : List Step} (h : ((s.stepExecute f q z).signalError || (s.stepExecute f q z).waits)=false) :
    run f q (z::steps) s=run f q steps (s.stepExecute f q z) := if_neg (by simp [h])

theorem run_last : run f q [z,.done] s=s.stepExecute f q z := by
  cases h : (s.stepExecute f q z).signalError || (s.stepExecute f q z).waits with
  | true => exact run_halts h
  | false =>
    rw [run_on h]
    exact run_on (s := s.stepExecute f q z) (z := .done) h

/-- The functions that take a disk address, with what they do there -/
def Addresses (f : Function) (z : Step) : Prop :=
  f=.readSector ∧ z=.sectorRead ∨ (f=.writeSector ∨ f=.writeSectorWithDeletedData) ∧ z=.sectorWrite

/-- The processor with the head on the addressed track -/
def arrived (s : Box) (f : Function) (e : Bool) (w v : Nat) : Box :=
  { s with
    drive := { s.drive with cylinder := v%0x80 },density := e
    deletedDataMark := f=.writeSectorWithDeletedData,rxsa := w%0x20,rxta := v%0x80,signalError := false
    waits := false }

theorem address_error (w v : Nat) :
    (decide (w%0x20<1 ∨ w%0x20>sectorCount) || decide (v%0x80≥cylinderCount))=!checkDiskAddress (v%0x80) (w%0x20) := by
  unfold checkDiskAddress
  rw [Bool.eq_iff_iff]
  simp
  omega

/-- Without an address the program waits; a wrong one is an error; and else the step is carried out there. -/
theorem command_sector (hf : Addresses f z) : ∃ t,s.command f e q=some t ∧
    (q.length<2 → t.drive=s.drive ∧ t.waits) ∧ ∀ w v l,q=w::v::l →
      (checkDiskAddress (v%0x80) (w%0x20)=false → t.drive=s.drive ∧ t.signalError) ∧
      (checkDiskAddress (v%0x80) (w%0x20) → t=(s.arrived f e w v).stepExecute f q z) := by
  have hcmd : ∃ b : Box,b={ s with
      density := e,deletedDataMark := decide (f=.writeSectorWithDeletedData),signalError := false
      waits := false } ∧
      s.command f e q=some (run f q [.transferBufferWrite,.seek,.headSettle,z,.done] b) := by
    obtain ⟨rfl,rfl⟩ | ⟨rfl | rfl,rfl⟩ := hf <;> exact ⟨_,rfl,rfl⟩
  obtain ⟨b,hb,hcmd⟩ := hcmd
  refine ⟨_,hcmd,fun hl => ?_,?_⟩
  · have hrec : b.stepExecute f q .transferBufferWrite={ b with waits := true } := by
      obtain ⟨rfl,rfl⟩ | ⟨rfl | rfl,rfl⟩ := hf
      all_goals
        match q,hl with
        | [],_ | [_],_ => rfl
    rw [run_halts (by rw [hrec,Bool.or_true]),hrec,hb]
    exact ⟨rfl,rfl⟩
  · rintro w v l rfl
    have hrec : b.stepExecute f (w::v::l) .transferBufferWrite={ b with
        rxsa := w%0x20,rxta := v%0x80,signalError := !checkDiskAddress (v%0x80) (w%0x20) } := by
      rw [← address_error]
      obtain ⟨rfl,rfl⟩ | ⟨rfl | rfl,rfl⟩ := hf <;> rfl
    refine ⟨fun hc => ?_,fun hc => ?_⟩
    · rw [run_halts (by rw [hrec,hc]; rfl),hrec,hc,hb]
      exact ⟨rfl,rfl⟩
    · rw [run_on (by rw [hrec,hc,hb]; rfl),hrec,hc,hb,run_on rfl,run_on rfl,run_last]
      rfl

/-- What a read or a write of a sector needs besides an address: the density of the medium, and a medium -/
def Admits (s : Box) (e : Bool) (q : List Nat) : Prop :=
  ∃ w v l,q=w::v::l ∧ checkDiskAddress (v%0x80) (w%0x20)=true ∧ s.drive.doubleDensity=e ∧
    s.drive.image.isSome=true

theorem command_write (hf : f=.writeSector ∨ f=.writeSectorWithDeletedData) : ∃ t,s.command f e q=some t ∧
    (¬s.Admits e q → (t.signalError || t.waits) ∧ t.drive.medium=s.drive.medium) ∧
    ∀ w v l,q=w::v::l → s.Admits e q → t.signalError=false ∧ t.waits=false ∧
      (s.arrived f e w v).drive.sectorWrite s.sectorBuffer (f=.writeSectorWithDeletedData) (v%0x80) (w%0x20) =
        some t.drive := by
  obtain ⟨t,ht,hshort,hlong⟩ := s.command_sector (e := e) (q := q) (.inr ⟨hf,rfl⟩)
  have hstep (w v : Nat) (hd : s.drive.doubleDensity=e) :
      (s.arrived f e w v).stepExecute f q .sectorWrite =
        (((s.arrived f e w v).drive.sectorWrite s.sectorBuffer (f=.writeSectorWithDeletedData) (v%0x80)
          (w%0x20)).map fun d => { s.arrived f e w v with drive := d }).getD
            { s.arrived f e w v with signalError := true } := if_neg (not_not.mpr hd)
  refine ⟨t,ht,fun hn => ?_,?_⟩
  · match q,hn,hshort,hlong,hstep with
    | [],_,hshort,_,_ | [_],_,hshort,_,_ =>
      obtain ⟨hd,hw⟩ := hshort (by simp)
      exact ⟨by rw [hw,Bool.or_true],by rw [hd]⟩
    | w::v::l,hn,_,hlong,hstep =>
      obtain ⟨hbad,hgood⟩ := hlong w v l rfl
      cases hc : checkDiskAddress (v%0x80) (w%0x20) with
      | false =>
        obtain ⟨hd,he⟩ := hbad hc
        exact ⟨by rw [he,Bool.true_or],by rw [hd]⟩
      | true =>
        rw [hgood hc]
        by_cases hd : s.drive.doubleDensity=e
        · have hnone : (s.arrived f e w v).drive.image=none := by
            by_contra hne
            exact hn ⟨w,v,l,rfl,hc,hd,Option.isSome_iff_ne_none.mpr hne⟩
          rw [hstep w v hd,Drive.sectorWrite,hnone,if_pos hc]
          exact ⟨rfl,rfl⟩
        · have herr : (s.arrived f e w v).stepExecute f (w::v::l) .sectorWrite=
              { s.arrived f e w v with signalError := true } := if_pos hd
          rw [herr]
          exact ⟨rfl,rfl⟩
  · rintro w v l rfl ⟨_,_,_,he,hc,hd,himage⟩
    cases he
    obtain ⟨d,hw⟩ := Option.isSome_iff_exists.mp
      (show ((s.arrived f e w v).drive.sectorWrite s.sectorBuffer (f=.writeSectorWithDeletedData) (v%0x80)
        (w%0x20)).isSome=true by
          rw [Drive.sectorWrite,if_pos hc,Option.isSome_map]
          exact himage)
    rw [(hlong w v l rfl).2 hc,hstep w v hd,hw]
    exact ⟨rfl,rfl,rfl⟩

theorem command_read {r : List UInt8 × Bool} (hd : s.drive.doubleDensity=e)
    (hr : s.drive.sectorRead (v%0x80) (w%0x20)=some r) :
    ∃ u,s.command .readSector e [w,v]=some u ∧ u.signalError=false ∧
      u.sectorBuffer.take s.drive.sectorSize=r.1 ∧ u.deletedDataMark=r.2 := by
  have hc : checkDiskAddress (v%0x80) (w%0x20)=true := by
    unfold Drive.sectorRead at hr
    split_ifs at hr with hc
    exact hc
  obtain ⟨u,hu,-,hlong⟩ := s.command_sector (e := e) (q := [w,v]) (.inl ⟨rfl,rfl⟩)
  have hstep : (s.arrived .readSector e w v).sectorRead=some { s.arrived .readSector e w v with
      sectorBuffer := r.1++s.sectorBuffer.drop s.drive.sectorSize,deletedDataMark := r.2 } :=
    congrArg (Option.map _) hr
  have hdens : ¬(s.arrived .readSector e w v).drive.doubleDensity≠(s.arrived .readSector e w v).density :=
    not_not.mpr hd
  refine ⟨u,hu,?_⟩
  rw [(hlong w v [] rfl).2 hc,stepExecute,transfer,if_neg hdens,hstep]
  exact ⟨rfl,take_left' (Drive.sectorRead_length hr),rfl⟩

/-- A written sector is alone changed, and a READ SECTOR after it returns what was written, with the mark. -/
def Stores (s : Box) (f : Function) (e : Bool) (w v : Nat) : Prop :=
  ∃ t u,s.command f e [w,v]=some t ∧
    (∀ track sector,checkDiskAddress track sector=true → (track,sector)≠(v%0x80,w%0x20) →
      t.drive.sectorRead track sector=s.drive.sectorRead track sector) ∧
    t.command .readSector e [w,v]=some u ∧ u.signalError=false ∧
    u.sectorBuffer.take s.drive.sectorSize=s.sectorBuffer.take s.drive.sectorSize ∧
    u.deletedDataMark=decide (f=.writeSectorWithDeletedData)

theorem stores (hf : f=.writeSector ∨ f=.writeSectorWithDeletedData) (ha : s.Admits e [w,v])
    (hr : s.drive.readonly=false) (ho : (s.drive.sectorFileOffset (v%0x80) (w%0x20)).isSome)
    (hb : s.sectorBuffer.length=256) : s.Stores f e w v := by
  obtain ⟨o,ho⟩ := Option.isSome_iff_exists.mp ho
  obtain ⟨t,ht,-,hgood⟩ := s.command_write (e := e) (q := [w,v]) hf
  obtain ⟨-,-,hw⟩ := hgood w v [] rfl ha
  have hd : t.drive.doubleDensity=(s.arrived f e w v).drive.doubleDensity := Drive.sectorWrite_density hw
  have hsize : t.drive.sectorSize=s.drive.sectorSize := by
    unfold Drive.sectorSize
    rw [hd]
    rfl
  obtain ⟨_,_,_,_,_,hx,_⟩ := ha
  obtain ⟨hread,hother⟩ := Drive.sectorWrite_stores hw hr ho hb
  obtain ⟨u,hu,he,htake,hmark⟩ := command_read (hd.trans hx) hread
  rw [hsize] at htake
  exact ⟨t,u,ht,hother,hu,he,htake,hmark⟩

theorem command_protected (hf : f=.writeSector ∨ f=.writeSectorWithDeletedData) (hr : s.drive.readonly)
    (h : s.command f e q=some t) : t.drive.medium=s.drive.medium := by
  obtain ⟨t',ht,hbad,hgood⟩ := s.command_write (e := e) (q := q) hf
  cases h.symm.trans ht
  by_cases ha : s.Admits e q
  · have ⟨w,v,l,he,_⟩ := ha
    obtain ⟨-,-,hw⟩ := hgood w v l he ha
    unfold Drive.sectorWrite at hw
    split_ifs at hw with _ hn
    · obtain ⟨-,-,hw⟩ := Option.map_eq_some_iff.mp hw
      rw [← hw]
      rfl
    · exact absurd hr hn
  · exact (hbad ha).2

/-- The box in front of the program that formats -/
def emptied (s : Box) (e : Bool) : Box :=
  { s with
    drive := { s.drive with image := some .empty,doubleDensity := e },density := e
    deletedDataMark := false,rxta := 0,signalError := false,waits := false }

def densityProgram : List Step :=
  .transferBufferWrite::.seek::.formatTrack::
    ((replicate 76 [Step.seekNext,.formatTrack]).flatten++[.done])

/-- The RX01 does nothing and a drive without a medium nothing but the error; else the medium is emptied first. -/
theorem command_density (h : s.command .setMediaDensity e q=some t) : s.isRx02=false ∧ t.drive=s.drive ∨
    s.isRx02=true ∧ s.drive.image=none ∧ t.signalError ∧ t.drive=s.drive ∨
    s.isRx02=true ∧ ∃ f,s.drive.image=some f ∧ s.drive.readonly=false ∧
      t=run .setMediaDensity q densityProgram (s.emptied e) := by
  obtain ⟨b,hb,ht⟩ := Option.map_eq_some_iff.mp h
  unfold begin at hb
  dsimp only at hb
  split_ifs at hb with hs hi hr
  · cases hb
    exact .inr (.inl ⟨hs.2,Option.isNone_iff_eq_none.mp hi,ht ▸ rfl,ht ▸ rfl⟩)
  · obtain ⟨f,hf⟩ : ∃ f,s.drive.image=some f := Option.ne_none_iff_exists'.mp (by simpa using hi)
    cases hb
    rw [hs.2,hf,if_neg Bool.false_ne_true] at ht
    refine .inr (.inr ⟨hs.2,f,hf,Bool.eq_false_iff.mpr hr,ht.symm.trans ?_⟩)
    simp only [emptied,hs.2]
    rfl
  · cases hb
    have hx : s.isRx02=false := Bool.not_eq_true _ ▸ fun hx => hs ⟨rfl,hx⟩
    rw [hx] at ht
    exact .inl ⟨hx,ht ▸ rfl⟩

/-- The format has come to track `c` of a medium that reads as zeros. -/
structure Formatting (e : Bool) (c : Nat) (s : Box) : Prop where
  image : ∃ f,s.drive.image=some f ∧ ∀ i,f.byte i=0
  writable : s.drive.readonly=false
  density : s.drive.doubleDensity=e
  cylinder : s.drive.cylinder=c
  quiet : (s.signalError || s.waits)=false

def Blank (d : Drive) : Prop := ∀ track sector,checkDiskAddress track sector=true →
  (d.sectorRead track sector).map Prod.fst=some (replicate d.sectorSize 0)

theorem Formatting.write {a : Nat} (h : s.Formatting e c) (hc : c<77) (ha : a<26) :
    ∃ t,s.sectorWrite (replicate 256 0) false c (a+1)=some t ∧ t.Formatting e c := by
  obtain ⟨f,hf,hz⟩ := h.image
  have hw : s.sectorWrite (replicate 256 0) false c (a+1)=some { s with
      drive := { s.drive with
        marks := fun i => if i=Drive.markAt c (a+1) then false else s.drive.marks i
        image := some ((s.drive.sectorFileOffset c (a+1)).elim f
          (f.pwrite ((replicate 256 0).take s.drive.sectorSize))) } } := by
    unfold sectorWrite Drive.sectorWrite
    rw [if_pos (checkDiskAddress_iff.mpr (by omega)),hf,Option.map_some,
      if_neg (by rw [h.writable]; exact Bool.false_ne_true)]
    rfl
  refine ⟨_,hw,⟨_,rfl,fun i => ?_⟩,h.writable,h.density,h.cylinder,h.quiet⟩
  cases s.drive.sectorFileOffset c (a+1) with
  | none => exact hz i
  | some o =>
    rw [Option.elim_some,pwrite_byte,take_replicate,patch]
    split_ifs
    · cases hg : (replicate (min s.drive.sectorSize 256) (0 : UInt8))[i-o]? with
      | none => exact hz i
      | some x => exact eq_of_mem_replicate (mem_of_getElem? hg)
    · exact hz i

theorem Formatting.track {n a : Nat} (h : s.Formatting e c) (hc : c<77) (hn : a+n≤26) :
    (formatTrack n (a+1) s).Formatting e c := by
  induction n generalizing a s with
  | zero => exact h
  | succ n ih =>
    obtain ⟨t,ht,hf⟩ := h.write (a := a) hc (by omega)
    unfold formatTrack
    rw [h.cylinder,ht]
    exact ih hf (by omega)

/-- Each track after the one that is formatted -/
theorem Formatting.tracks {k : Nat} (h : s.Formatting e c) (hk : c+k<77) :
    (run f q ((replicate k [Step.seekNext,.formatTrack]).flatten++[.done]) s).Formatting e (c+k) := by
  induction k generalizing c s with
  | zero =>
    change (run f q [.done] s).Formatting e c
    rw [run_on (z := .done) h.quiet]
    exact h
  | succ k ih =>
    have hseek : (s.stepExecute f q .seekNext).Formatting e (c+1) :=
      ⟨h.image,h.writable,h.density,congrArg (·+1) h.cylinder,h.quiet⟩
    have hnext := hseek.track (n := 26) (a := 0) (by omega) (by omega)
    have hrest := ih hnext (by omega)
    rw [replicate_succ,flatten_cons,append_assoc]
    change (run f q (_::_::_) s).Formatting e _
    rw [run_on hseek.quiet,run_on (z := .formatTrack) hnext.quiet]
    rwa [Nat.add_assoc,Nat.add_comm 1] at hrest

theorem Formatting.blank (h : s.Formatting e c) : Blank s.drive := by
  intro track sector hc
  obtain ⟨f,hf,hz⟩ := h.image
  unfold Drive.sectorRead
  rw [if_pos hc,hf,Option.map_some,Option.map_some]
  cases s.drive.sectorFileOffset track sector with
  | none => rfl
  | some o =>
    rw [Option.elim_some,preadCleared_eq,slice_replicate _ _ _ 0 fun i _ _ => hz i]

/-- A format that ends without an error has cleared the medium. -/
theorem command_format (hx : s.isRx02) (h : s.command .setMediaDensity e q=some t)
    (he : (t.signalError || t.waits)=false) : Blank t.drive := by
  obtain ⟨hn,_⟩ | ⟨-,-,hn,-⟩ | ⟨-,f,hi,hr,rfl⟩ := command_density h
  · cases hn.symm.trans hx
  · rw [hn] at he
    cases he
  have hkey : (s.emptied e).stepExecute .setMediaDensity q .transferBufferWrite=s.emptied e := by
    match q,he with
    | [],he => cases he
    | w::l,he =>
      by_cases hw : w=0x49
      · subst hw
        rfl
      · rw [densityProgram,run_halts (by simp [stepExecute,receive,hw])] at he
        simp [stepExecute,receive,hw] at he
  have hseek : ((s.emptied e).stepExecute .setMediaDensity q .seek).Formatting e 0 :=
    ⟨⟨_,rfl,fun _ => rfl⟩,hr,rfl,rfl,rfl⟩
  have hfirst := hseek.track (n := 26) (a := 0) (by omega) (by omega)
  have hall := hfirst.tracks (f := .setMediaDensity) (q := q) (k := 76) (by omega)
  rw [densityProgram,run_on (by rw [hkey]; rfl),hkey,run_on hseek.quiet,run_on (z := .formatTrack) hfirst.quiet]
  exact hall.blank

end Box

end QUniLator.Disks.Rx
