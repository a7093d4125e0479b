import QUniLator.Tape.Position
import QUniLator.Framework.Loop
import QUniLator.Mscp.Disk

/-!
`mscp_tape_c`: the tape behind a unit of the tape controller, with the latches that its commands share.
-/

namespace QUniLator.Tmscp

structure TapeUnit where
  tape : Tape
  online : Bool
  softwareWriteProtect : Bool
  seriousException : Bool
  leotReported : Bool
  /-- The `capacity` parameter; 0 for a tape without an end. -/
  capacity : Nat
  unitDeviceNumber : Nat

/-- What the `image` parameter comes to name: nothing, no file that can be opened, or a file. -/
inductive Medium where
  | detached
  | unopenable
  | image (f : File) (readonly : Bool)

/-- `TK50_MEDIA_ID` -/
def mediaId : Nat := 0x6d68b032

/-- `TK50_CLASS_MODEL` -/
def classModel : Nat := 0x0303

namespace TapeUnit

def isAvailable (d : TapeUnit) : Bool := d.tape.isOpen

def setOnline (d : TapeUnit) : TapeUnit := { d with online := true }

def setOffline (d : TapeUnit) : TapeUnit := { d with online := false }

def isHardwareWriteProtected (d : TapeUnit) : Bool := d.tape.isOpen && d.tape.readonly

def isWriteProtected (d : TapeUnit) : Bool := d.softwareWriteProtect || d.isHardwareWriteProtected

def setSoftwareWriteProtect (d : TapeUnit) (on : Bool) : TapeUnit := { d with softwareWriteProtect := on }

def setSeriousException (d : TapeUnit) : TapeUnit := { d with seriousException := true }

def clearSeriousException (d : TapeUnit) : TapeUnit := { d with seriousException := false }

def atEndOfTape (d : TapeUnit) : Bool :=
  d.tape.isOpen && d.capacity != 0 && decide (d.capacity≤d.tape.pos)

def takeEndOfTapeReport (d : TapeUnit) : Bool × TapeUnit :=
  if d.atEndOfTape then
    if d.leotReported then (false,d) else (true,{ d with leotReported := true })
  else (false,{ d with leotReported := false })

def endFlags (d : TapeUnit) : Nat :=
  (if d.seriousException then 0x10 else 0) ||| (if d.atEndOfTape then 0x08 else 0)

/-- `on_param_changed` for the `image` parameter. -/
def onImageChanged (d : TapeUnit) (medium : Medium) : TapeUnit :=
  let d := { d with tape := d.tape.close }
  let d := d.setOffline
  let d := { d with softwareWriteProtect := false }
  match medium with
  | .detached => d
  | .unopenable => { d with tape := { d.tape with readonly := true } }
  | .image f readonly => { d with tape := d.tape.open_ f readonly }

/-- `on_init_changed`, and `on_power_changed` -/
def onInitChanged (d : TapeUnit) : TapeUnit := d.setOffline

end TapeUnit

/-!
The tape server: the TMSCP commands on the units of a tape controller.
-/

open Mscp

namespace Opcode
def flush : Nat := 0x13
def eraseGap : Nat := 0x16
def writeTapeMark : Nat := 0x24
def reposition : Nat := 0x25
end Opcode

namespace Status
def dataError : Nat := 0x8
def driveError : Nat := 0xb
def bot : Nat := 13
def tapeMark : Nat := 14
def recordTruncated : Nat := 16
def seriousException : Nat := 18
end Status

def noVolume : Nat := 0x1
def swWriteLock : Nat := 128
def sucEot : Nat := 0x20

def efSeriousException : Nat := 0x10
def efEndOfTape : Nat := 0x08
def efPositionLost : Nat := 0x04

def mdCse : Nat := 0x2000
def mdRev : Nat := 0x0008
def mdSwp : Nat := 0x0004
def mdObc : Nat := 0x0004
def mdRwd : Nat := 0x0002
def mdNxu : Nat := 0x0001

def ufWps : Nat := 0x1000
def ufWph : Nat := 0x2000

def tapeFormat : Nat := 0x0201
def maxRecordSize : Nat := 0x0000ffff

def has (modifiers md : Nat) : Bool := modifiers &&& md != 0

def success : Nat := status Mscp.Status.success 0 0

def successEot : Nat := status Mscp.Status.success sucEot efEndOfTape

def driveError : Nat := status Status.driveError 0 0

def unitUnknownOffline : Nat := status Mscp.Status.unitOffline unitUnknown 0

/-- `ReadWriteParameters`, of a command and of its end message. -/
structure ReadWriteParameters where
  byteCount : Nat
  bufferPhysicalAddress : Nat
  map : Nat
  reserved : Nat
  position : Nat
  recordSize : Nat
  deriving DecidableEq

def readWriteParameters (m : Message) : ReadWriteParameters where
  byteCount := m.parameter 0 4
  bufferPhysicalAddress := m.parameter 4 4
  map := m.parameter 8 4
  reserved := m.parameter 12 4
  position := m.parameter 16 4
  recordSize := m.parameter 20 4

def putReadWrite (m : Message) (p : ReadWriteParameters) : Message :=
  { m with messageLength := 24+headerSize }.answer [(4,p.byteCount),(4,p.bufferPhysicalAddress),(4,p.map),
    (4,p.reserved),(4,p.position),(4,p.recordSize)]

structure RepositionParameters where
  recordCount : Nat
  tapeMarkCount : Nat
  reserved0 : Nat
  reserved1 : Nat
  position : Nat
  deriving DecidableEq

def repositionParameters (m : Message) : RepositionParameters where
  recordCount := m.parameter 0 4
  tapeMarkCount := m.parameter 4 4
  reserved0 := m.parameter 8 4
  reserved1 := m.parameter 12 4
  position := m.parameter 16 4

def putReposition (m : Message) (p : RepositionParameters) : Message :=
  { m with messageLength := 20+headerSize }.answer [(4,p.recordCount),(4,p.tapeMarkCount),(4,p.reserved0),
    (4,p.reserved1),(4,p.position)]

def positionField (t : Tape) : Nat := t.objp%0x100000000

/-- What a command comes to on its unit: the unit, the host's memory, the parameters and the status. -/
structure Transfer where
  unit : TapeUnit
  host : HostMemory
  params : ReadWriteParameters
  cmdStatus : Nat

def wholeWords (count : Nat) : Nat := (count+1)%0x100000000/2*2

/-- The bytes that `Read` allocates. -/
def bufSize (byteCount : Nat) : Nat := if wholeWords byteCount=0 then 2 else wholeWords byteCount

/-- The status of a success, which takes the one report of the end of the tape. -/
def successStatus (d : TapeUnit) : Nat × TapeUnit :=
  let (eot,d) := d.takeEndOfTapeReport
  (if eot then successEot else success,d)

/-- The motion of `Read`. Reverse, it backs up over the preceding record and reads it forward, or stops
with what backing up comes to. -/
def readTape (t : Tape) (reverse : Bool) (byteCount : Nat) : Tape × Except Tape.Result Tape.Answer :=
  if reverse then
    let (t,sres) := t.spaceReverse
    if sres.result=.record then
      let (t,a) := t.readForward true byteCount
      (t,.ok a)
    else (t,.error sres.result)
  else
    let (t,a) := t.readForward true byteCount
    (t,.ok a)

/-- The bytes that `Read` hands to the host. -/
def dmaLength (a : Tape.Answer) (byteCount : Nat) : Nat := wholeWords (min a.recLen byteCount)

/-- The buffer of `Read`: zeros, with the record's bytes at its start. -/
def bufferBytes (a : Tape.Answer) (n : Nat) : List UInt8 := (List.range n).map (fun i => a.data[i]?.getD 0)

def refusal (d : TapeUnit) : Option Nat :=
  if !d.isAvailable then some unitUnknownOffline
  else if !d.online then some (status Mscp.Status.unitAvailable 0 0)
  else none

/-- The end of `Read`, by what backing up stopped with. -/
def stoppedRead (d : TapeUnit) (h : HostMemory) (p : ReadWriteParameters) : Tape.Result → Transfer
  | .beginOfTape =>
    ⟨d,h,{ p with position := positionField d.tape,recordSize := 0,byteCount := 0 },
      status Status.bot 0 efPositionLost⟩
  | .tapeMark =>
    ⟨d.setSeriousException,h,{ p with position := positionField d.tape,recordSize := 0,byteCount := 0 },
      status Status.tapeMark 0 efSeriousException⟩
  | _ => ⟨d,h,p,driveError⟩

/-- The end of `Read` after a record that was read. -/
def deliver (d : TapeUnit) (h : HostMemory) (p : ReadWriteParameters) (a : Tape.Answer)
    (cmdStatus : Nat) : Transfer :=
  let xfer := min a.recLen p.byteCount
  let dmaLen := dmaLength a p.byteCount
  let bufferAddress := p.bufferPhysicalAddress &&& 0x00ffffff
  let (h,written) := if dmaLen=0 then (h,true) else h.dmaWrite bufferAddress (bufferBytes a dmaLen)
  if !written then
    ⟨d,h,{ p with recordSize := a.recLen,byteCount := 0 },status Mscp.Status.hostBufferAccessError nxm 0⟩
  else
    ⟨d,h,{ p with recordSize := a.recLen,byteCount := xfer },
      if p.byteCount<a.recLen then status Status.recordTruncated 0 0 else cmdStatus⟩

def noRecord (d : TapeUnit) : Tape.Result → TapeUnit × Nat
  | .tapeMark => (d.setSeriousException,status Status.tapeMark 0 efSeriousException)
  | .endOfMedium => (d,status Status.dataError 0 efEndOfTape)
  | .beginOfTape => (d,status Status.bot 0 efPositionLost)
  | _ => (d,driveError)

def read (d : TapeUnit) (h : HostMemory) (p : ReadWriteParameters) (modifiers : Nat) : Transfer :=
  match refusal d with
  | some cmdStatus => ⟨d,h,p,cmdStatus⟩
  | none =>
    let (t,r) := readTape d.tape (has modifiers mdRev) p.byteCount
    let d := { d with tape := t }
    match r with
    | .error sres => stoppedRead d h p sres
    | .ok a =>
      let p := { p with position := positionField t }
      let (successStatus,d) := successStatus d
      match a.result with
      | .record => deliver d h p a successStatus
      | result =>
        let (d,cmdStatus) := noRecord d result
        ⟨d,h,{ p with recordSize := 0,byteCount := 0 },cmdStatus⟩

def access (d : TapeUnit) (h : HostMemory) (p : ReadWriteParameters) (modifiers : Nat) : Transfer :=
  match refusal d with
  | some cmdStatus => ⟨d,h,p,cmdStatus⟩
  | none =>
    let (t,a) := if has modifiers mdRev then d.tape.spaceReverse else d.tape.spaceForward
    let d := { d with tape := t }
    let p := { p with position := positionField t,byteCount := 0 }
    let (successStatus,d) := successStatus d
    match a.result with
    | .record => ⟨d,h,{ p with recordSize := a.recLen },successStatus⟩
    | result =>
      let (d,cmdStatus) := noRecord d result
      ⟨d,h,{ p with recordSize := 0 },cmdStatus⟩

def writeProtected (d : TapeUnit) : Nat :=
  status Mscp.Status.writeProtected (if d.isHardwareWriteProtected then hwWriteLock else swWriteLock)
    efSeriousException

def writeRefusal (d : TapeUnit) : Option Nat :=
  match refusal d with
  | some cmdStatus => some cmdStatus
  | none => if d.isWriteProtected then some (writeProtected d) else none

def write (d : TapeUnit) (h : HostMemory) (p : ReadWriteParameters) : Transfer :=
  let bufferAddress := p.bufferPhysicalAddress &&& 0x00ffffff
  match writeRefusal d with
  | some cmdStatus => ⟨d,h,p,cmdStatus⟩
  | none =>
    if p.byteCount=0 then ⟨d,h,p,driveError⟩
    else
      match h.dmaRead bufferAddress (wholeWords p.byteCount) with
      | none => ⟨d,h,p,status Mscp.Status.hostBufferAccessError nxm 0⟩
      | some mem =>
        let (t,a) := d.tape.writeRecord (mem.take p.byteCount)
        let d := { d with tape := t }
        if a.result=.record then
          let p := { p with position := positionField t,recordSize := p.byteCount }
          let (cmdStatus,d) := successStatus d
          ⟨d,h,p,cmdStatus⟩
        else ⟨d,h,p,driveError⟩

def writeTapeMark (d : TapeUnit) : TapeUnit × Option Nat × Nat :=
  match writeRefusal d with
  | some cmdStatus => (d,none,cmdStatus)
  | none =>
    let (t,a) := d.tape.writeTapeMark
    let d := { d with tape := t }
    if a.result=.record then (d,some (positionField t),success) else (d,some 0,driveError)

/-- `Erase` writes a tape mark, which cuts the medium off behind it. -/
def erase (d : TapeUnit) : TapeUnit × Nat :=
  match writeRefusal d with
  | some cmdStatus => (d,cmdStatus)
  | none =>
    let (t,a) := d.tape.writeTapeMark
    ({ d with tape := t },if a.result=.record then success else driveError)

/-- What a reposition spaces over: records, objects of either kind, or tape marks. -/
structure Spacing where
  reverse : Bool
  objectMode : Bool
  spacingRecords : Bool
  target : Nat
  deriving DecidableEq

def spacing (p : RepositionParameters) (modifiers : Nat) : Spacing :=
  let objectMode := has modifiers mdObc
  let spacingRecords := objectMode || p.recordCount != 0
  ⟨has modifiers mdRev,objectMode,spacingRecords,if spacingRecords then p.recordCount else p.tapeMarkCount⟩

/-- The variables of the loop; `status` is set where the loop breaks. -/
structure Repositioning where
  tape : Tape
  recordsSkipped : Nat
  tapeMarksSkipped : Nat
  done : Nat
  status : Option Nat

namespace Spacing

def space (c : Spacing) (t : Tape) : Tape × Tape.Answer :=
  if c.reverse then t.spaceReverse else t.spaceForward

/-- `while (done < target)`, unless the body broke off. -/
def busy (c : Spacing) (s : Repositioning) : Bool := s.status.isNone && decide (s.done<c.target)

def body (c : Spacing) (s : Repositioning) : Repositioning :=
  let (t,a) := c.space s.tape
  let s := { s with tape := t }
  match a.result with
  | .record =>
    { s with
      recordsSkipped := (s.recordsSkipped+1)%0x100000000,
      done := if c.spacingRecords then s.done+1 else s.done }
  | .tapeMark =>
    let s := { s with tapeMarksSkipped := (s.tapeMarksSkipped+1)%0x100000000 }
    if c.objectMode || !c.spacingRecords then { s with done := s.done+1 }
    else { s with status := some (status Status.tapeMark 0 0) }
  | .beginOfTape => { s with status := some (status Status.bot 0 0) }
  | .endOfMedium => { s with status := some (status Mscp.Status.success 0 efEndOfTape) }
  | .error => { s with status := some driveError }

end Spacing

def repositionRounds (t : Tape) : Nat := t.pos/4+t.size/4+2

def repositionStart (t : Tape) : Repositioning := ⟨t,0,0,0,none⟩

/-- `none` would be a loop that does not end in its rounds. -/
def reposition (d : TapeUnit) (p : RepositionParameters) (modifiers : Nat) :
    Option (TapeUnit × RepositionParameters × Nat) :=
  match refusal d with
  | some cmdStatus => some (d,p,cmdStatus)
  | none =>
    if has modifiers mdRwd then
      let d := { d with tape := d.tape.rewind }
      let (_,d) := d.takeEndOfTapeReport
      some (d,{ p with recordCount := 0,tapeMarkCount := 0,position := 0 },success)
    else
      let c := spacing p modifiers
      (runWhile c.busy c.body (repositionRounds d.tape) (repositionStart d.tape)).map (fun s =>
        let d := { d with tape := s.tape }
        let p :=
          { p with
            recordCount := s.recordsSkipped,tapeMarkCount := s.tapeMarksSkipped,
            position := positionField s.tape }
        match s.status with
        | none =>
          let (cmdStatus,d) := successStatus d
          (d,p,cmdStatus)
        | some cmdStatus => (d,p,cmdStatus))

/-- The tapes of a controller, and the memory of its host. -/
structure Tapes where
  units : List TapeUnit
  host : HostMemory

/-- What a command comes to: the tapes, the packet it leaves and the status. -/
structure Outcome where
  tapes : Tapes
  message : Message
  cmdStatus : Nat

namespace Tapes

def getTapeDrive (s : Tapes) (unitNumber : Nat) : Option TapeUnit := s.units[unitNumber]?

def setUnit (s : Tapes) (unitNumber : Nat) (d : TapeUnit) : Tapes :=
  { s with units := s.units.set unitNumber d }

def resetDrives (s : Tapes) : Tapes := { s with units := s.units.map TapeUnit.setOffline }

def availableUnit (s : Tapes) (unitNumber : Nat) : Option TapeUnit :=
  (s.getTapeDrive unitNumber).filter TapeUnit.isAvailable

def tapeUnitFlags (d : TapeUnit) : Nat :=
  (if d.isHardwareWriteProtected then ufWph else 0) ||| (if d.isWriteProtected then ufWps else 0)

def getUnitStatus (s : Tapes) (m : Message) (unitNumber modifiers : Nat) : Outcome :=
  let m := { m with messageLength := 32+headerSize }
  let wraps := has modifiers mdNxu && decide (s.units.length≤unitNumber)
  let m := if wraps then { m with unitNumber := 0 } else m
  let m := m.setParameters 0 (List.replicate 32 0)
  match s.availableUnit (if wraps then 0 else unitNumber) with
  | none => ⟨s,m,status Mscp.Status.unitOffline noVolume 0⟩
  | some d =>
    let m := m.answer [(2,0),(2,tapeUnitFlags d),(4,0),(4,d.unitDeviceNumber),(2,0),(2,classModel),(4,mediaId),
      (2,tapeFormat),(2,0),(2,tapeFormat),(2,0),(2,0),(2,0)]
    ⟨s,m,if d.online then success else status Mscp.Status.unitAvailable 0 0⟩

def available (s : Tapes) (m : Message) (unitNumber : Nat) : Outcome :=
  let m := { m with messageLength := headerSize }
  match s.availableUnit unitNumber with
  | none => ⟨s,m,unitUnknownOffline⟩
  | some d => ⟨s.setUnit unitNumber d.setOffline,m,success⟩

def setUnitCharacteristicsInternal (s : Tapes) (m : Message) (unitNumber modifiers : Nat)
    (bringOnline : Bool) : Outcome :=
  let m := { m with messageLength := 32+headerSize }
  match s.availableUnit unitNumber with
  | none => ⟨s,m,unitUnknownOffline⟩
  | some d =>
    let d := if has modifiers mdSwp then d.setSoftwareWriteProtect true else d
    let m := m.answer [(2,0),(2,tapeUnitFlags d),(4,0),(4,d.unitDeviceNumber),(2,0),(2,classModel),(4,mediaId),
      (2,tapeFormat),(2,0),(4,maxRecordSize),(2,0),(2,0)]
    if bringOnline then
      ⟨s.setUnit unitNumber d.setOnline,m,
        status Mscp.Status.success (if d.online then alreadyOnline else 0) 0⟩
    else ⟨s.setUnit unitNumber d,m,success⟩

def putPosition (m : Message) (position : Nat) : Message :=
  m.answer [(4,0),(4,0),(4,0),(4,0),(4,position)]

def flush (s : Tapes) (m : Message) (unitNumber : Nat) : Outcome :=
  let m := { m with messageLength := 20+headerSize }
  match s.availableUnit unitNumber with
  | none => ⟨s,m,unitUnknownOffline⟩
  | some d => ⟨s,putPosition m (positionField d.tape),success⟩

def eraseGap (s : Tapes) (m : Message) (unitNumber : Nat) : Outcome :=
  let m := { m with messageLength := headerSize }
  match s.availableUnit unitNumber with
  | none => ⟨s,m,unitUnknownOffline⟩
  | some _ => ⟨s,m,success⟩

def transfer (s : Tapes) (m : Message) (unitNumber : Nat)
    (command : TapeUnit → HostMemory → ReadWriteParameters → Transfer) : Outcome :=
  match s.getTapeDrive unitNumber with
  | none => ⟨s,{ m with messageLength := 24+headerSize },unitUnknownOffline⟩
  | some d =>
    let r := command d s.host (readWriteParameters m)
    ⟨{ s.setUnit unitNumber r.unit with host := r.host },putReadWrite m r.params,r.cmdStatus⟩

def motion (opcode : Nat) : Bool :=
  opcode∈[Mscp.Opcode.read,Mscp.Opcode.access,Mscp.Opcode.write,Opcode.writeTapeMark,Opcode.reposition,
    Mscp.Opcode.erase,Opcode.eraseGap]

def refusedMotion (d : TapeUnit) : Nat := status Status.seriousException 0 d.endFlags

/-- The second switch of `dispatch_command`; the last component says whether the opcode is one it
knows. -/
def execute (s : Tapes) (m : Message) (opcode unitNumber modifiers : Nat) : Option (Outcome × Bool) :=
  let known (o : Outcome) := some (o,true)
  if opcode=Mscp.Opcode.getUnitStatus then known (s.getUnitStatus m unitNumber modifiers)
  else if opcode=Mscp.Opcode.available then known (s.available m unitNumber)
  else if opcode=Mscp.Opcode.online then
    known (s.setUnitCharacteristicsInternal m unitNumber modifiers true)
  else if opcode=Mscp.Opcode.setUnitCharacteristics then
    known (s.setUnitCharacteristicsInternal m unitNumber modifiers false)
  else if opcode=Mscp.Opcode.erase then
    let m := { m with messageLength := headerSize }
    match s.getTapeDrive unitNumber with
    | none => known ⟨s,m,unitUnknownOffline⟩
    | some d => known ⟨s.setUnit unitNumber (erase d).1,m,(erase d).2⟩
  else if opcode=Opcode.flush then known (s.flush m unitNumber)
  else if opcode=Opcode.eraseGap then known (s.eraseGap m unitNumber)
  else if opcode=Mscp.Opcode.read then
    known (s.transfer m unitNumber (fun d h p => read d h p modifiers))
  else if opcode=Mscp.Opcode.access then
    known (s.transfer m unitNumber (fun d h p => access d h p modifiers))
  else if opcode=Mscp.Opcode.write then known (s.transfer m unitNumber write)
  else if opcode=Opcode.writeTapeMark then
    let m := { m with messageLength := 20+headerSize }
    match s.getTapeDrive unitNumber with
    | none => known ⟨s,m,unitUnknownOffline⟩
    | some d =>
      let (d,position,cmdStatus) := writeTapeMark d
      known ⟨s.setUnit unitNumber d,match position with | none => m | some n => putPosition m n,cmdStatus⟩
  else if opcode=Opcode.reposition then
    match s.getTapeDrive unitNumber with
    | none => known ⟨s,{ m with messageLength := 20+headerSize },unitUnknownOffline⟩
    | some d =>
      (reposition d (repositionParameters m) modifiers).map (fun r =>
        (⟨s.setUnit unitNumber r.1,putReposition m r.2.1,r.2.2⟩,true))
  else some (⟨s,m,0⟩,false)

def clearException (s : Tapes) (unitNumber modifiers : Nat) : Tapes :=
  if has modifiers mdCse then
    match s.getTapeDrive unitNumber with
    | none => s
    | some d => s.setUnit unitNumber d.clearSeriousException
  else s

def dispatchCommand (s : Tapes) (m : Message) (opcode unitNumber modifiers : Nat) : Option (Outcome × Bool) :=
  let s := s.clearException unitNumber modifiers
  match (s.getTapeDrive unitNumber).filter (fun d => motion opcode && d.seriousException) with
  | some d => some (⟨s,m,refusedMotion d⟩,true)
  | none => s.execute m opcode unitNumber modifiers

end Tapes

end QUniLator.Tmscp
