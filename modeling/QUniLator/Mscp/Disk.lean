import QUniLator.Mscp.Drive
import QUniLator.Mscp.Message

/-!
The MSCP disk server: the commands a host can put in the ring, on the units of a controller. A command
that reaches a failing assert has no result.
-/

namespace QUniLator.Mscp

open List

/-- `answers` is the words the bus answers for: all of them on a quiet day, none while INIT holds the
adapter off. -/
structure HostMemory where
  addrSpaceByteCount : Nat
  byte : Nat → UInt8
  answers : Nat → Bool

namespace HostMemory

/-- The adapter refuses a transfer of no words, and one past the end of the address space. -/
def reaches (h : HostMemory) (address len : Nat) : Bool :=
  len%2=0 && decide (address+len≤h.addrSpaceByteCount) && decide (0<len)

def word (address i : Nat) : Nat := address/2+i

def dmaRead (h : HostMemory) (address len : Nat) : Option (List UInt8) :=
  if h.reaches address len && (range (len/2)).all (fun i => h.answers (word address i)) then
    some (slice h.byte (address/2*2) len)
  else none

def dmaWrite (h : HostMemory) (address : Nat) (buffer : List UInt8) : HostMemory × Bool :=
  if h.reaches address buffer.length then
    let words := (range (buffer.length/2)).takeWhile (fun i => h.answers (word address i))
    ({ h with byte := patch h.byte (address/2*2) (buffer.take (2*words.length)) },
      words.length=buffer.length/2)
  else (h,false)

end HostMemory

def bufferFill : UInt8 := 0xc3

/-- A little-endian parameter of `n` bytes at `off`. -/
def Message.parameter (m : Message) (off n : Nat) : Nat :=
  leGet ((range n).map (fun k => m.parameters[off+k]?.getD bufferFill))

/-- The parameters with `bs` stored at `off`. -/
def Message.setParameters (m : Message) (off : Nat) (bs : List UInt8) : Message :=
  let missing := off+bs.length-m.parameters.length
  { m with parameters := overwrite (m.parameters++replicate missing bufferFill) off bs }

/-- The end message's length and its parameters, from the sizes and values of the fields. -/
def Message.answer (m : Message) (fields : List (Nat × Nat)) : Message :=
  m.setParameters 0 (fields.flatMap (fun f => lePut f.1 f.2))

def status (code subcode flags : Nat) : Nat :=
  flags <<< 8 ||| ((code &&& 0x1f) ||| (subcode &&& 0x7ff) <<< 5) <<< 16

def headerOffset : Nat := 4

namespace Opcode
def abort : Nat := 0x1
def getCommandStatus : Nat := 0x2
def getUnitStatus : Nat := 0x3
def setControllerCharacteristics : Nat := 0x4
def available : Nat := 0x8
def online : Nat := 0x9
def setUnitCharacteristics : Nat := 0xa
def determineAccessPaths : Nat := 0x0b
def access : Nat := 0x10
def erase : Nat := 0x12
def replace : Nat := 0x14
def compareHostData : Nat := 0x20
def read : Nat := 0x21
def write : Nat := 0x22
end Opcode

namespace Status
def success : Nat := 0x0
def invalidCommand : Nat := 0x1
def unitOffline : Nat := 0x3
def unitAvailable : Nat := 0x4
def writeProtected : Nat := 0x6
def compareError : Nat := 0x7
def hostBufferAccessError : Nat := 0x9
end Status

def alreadyOnline : Nat := 0x100
def stillConnected : Nat := 0x40
def unitUnknown : Nat := 0x0
def hwWriteLock : Nat := 256
def nxm : Nat := 0x3
def removableMedia : Nat := 0x80
def writeProtectHardware : Nat := 0x2000

/-- The disks of a controller, and the memory of its host. `fresh` is what newly allocated storage
holds. -/
structure Disks (blk : Nat) where
  units : List (MscpDrive blk)
  host : HostMemory
  fresh : Nat → UInt8
  controllerIdentifier : Nat
  controllerClassModel : Nat
  hostTimeout : Nat
  controllerFlags : Nat

namespace Disks
variable {blk : Nat}

/-- `GetDiskDrive`: it asks the port only for a unit the port has. -/
def getDiskDrive (s : Disks blk) (unitNumber : Nat) : Option (MscpDrive blk) :=
  s.units[unitNumber]?

def setUnit (s : Disks blk) (unitNumber : Nat) (d : MscpDrive blk) : Disks blk :=
  { s with units := s.units.set unitNumber d }

def resetDrives (s : Disks blk) : Disks blk :=
  { s with units := s.units.map MscpDrive.setOffline }

end Disks

/-- What a command comes to: the disks, the packet it leaves and the status. -/
structure Outcome (blk : Nat) where
  disks : Disks blk
  message : Message
  cmdStatus : Nat

/-- `ReadWriteEraseParameters` -/
structure TransferParameters where
  byteCount : Nat
  bufferPhysicalAddress : Nat
  lbn : Nat

def Message.transferParameters (m : Message) : TransferParameters where
  byteCount := m.parameter 0 4
  bufferPhysicalAddress := m.parameter 4 4
  lbn := m.parameter 16 4

/-- `sizeof(ReadWriteEraseParameters)` -/
def transferParametersSize : Nat := 20

namespace MscpDrive
variable {blk : Nat}

/-- The checks `DoDiskTransfer` makes before it transfers: a status where one fails. -/
def refusal (d : MscpDrive blk) (operation : Nat) (p : TransferParameters) : Option Nat :=
  if !d.isAvailable then some (status Status.unitOffline unitUnknown 0)
  else if !d.online then some (status Status.unitAvailable 0 0)
  else if (d.getBlockCount+d.getRCTBlockCount)%2^32≤p.lbn then
    some (status Status.invalidCommand (16+headerOffset) 0)
  else if ((d.getBlockCount+d.getRCTBlockCount)%2^32-p.lbn)*blockSize%2^32<p.byteCount then
    some (status Status.invalidCommand (0+headerOffset) 0)
  else if d.getBlockCount≤p.lbn ∧ p.byteCount≠blockSize then
    some (status Status.invalidCommand (0+headerOffset) 0)
  else if (operation=Opcode.write ∨ operation=Opcode.erase) ∧ d.isWriteProtected then
    some (status Status.writeProtected hwWriteLock 0)
  else none

def rctAccess (d : MscpDrive blk) (p : TransferParameters) : Bool := d.getBlockCount≤p.lbn

def readBlocks (d : MscpDrive blk) (p : TransferParameters) (buffer : List UInt8) :
    Option (List UInt8 × MscpDrive blk) :=
  if d.rctAccess p then (d.readRCTBlock (p.lbn-d.getBlockCount)).map (fun bs => (bs,d))
  else d.read p.lbn buffer

def writeBlocks (d : MscpDrive blk) (p : TransferParameters) (buffer : List UInt8) : Option (MscpDrive blk) :=
  if d.rctAccess p then d.writeRCTBlock (p.lbn-d.getBlockCount) buffer else d.write p.lbn buffer

def transfer (d : MscpDrive blk) (host : HostMemory) (fresh : Nat → UInt8) (operation : Nat)
    (p : TransferParameters) : Option (MscpDrive blk × HostMemory × Nat) :=
  let address := p.bufferPhysicalAddress &&& 0x00ffffff
  let buffer := slice fresh 0 p.byteCount
  let bufferError := status Status.hostBufferAccessError nxm 0
  let success := status Status.success 0 0
  if operation=Opcode.access then some (d,host,success)
  else if operation=Opcode.compareHostData then do
    let (diskBuffer,d) ← d.readBlocks p buffer
    match host.dmaRead address p.byteCount with
    | none => return (d,host,bufferError)
    | some memBuffer =>
      if diskBuffer=memBuffer then return (d,host,success)
      else return (d,host,status Status.compareError 0 0)
  else if operation=Opcode.erase then do
    let d ← d.writeBlocks p (replicate p.byteCount 0)
    return (d,host,success)
  else if operation=Opcode.read then do
    let (diskBuffer,d) ← d.readBlocks p buffer
    let (host,written) := host.dmaWrite address diskBuffer
    return (d,host,if written then success else bufferError)
  else if operation=Opcode.write then
    match host.dmaRead address p.byteCount with
    | none => some (d,host,bufferError)
    | some memBuffer => do
      let d ← d.writeBlocks p memBuffer
      return (d,host,success)
  else none

end MscpDrive

namespace Disks
variable {blk : Nat}

def doDiskTransfer (s : Disks blk) (operation : Nat) (m : Message) (unitNumber : Nat) : Option (Outcome blk) :=
  let p := m.transferParameters
  let m := { m with messageLength := transferParametersSize+headerSize }
  match s.getDiskDrive unitNumber with
  | none => some ⟨s,m,status Status.unitOffline unitUnknown 0⟩
  | some d =>
    match d.refusal operation p with
    | some cmdStatus => some ⟨s,m,cmdStatus⟩
    | none => do
      let (d,host,cmdStatus) ← d.transfer s.host s.fresh operation p
      let m := if cmdStatus=status Status.success 0 0 then m.setParameters 16 (lePut 4 0) else m
      return ⟨{ s.setUnit unitNumber d with host := host },m,cmdStatus⟩

def availableUnit (s : Disks blk) (unitNumber : Nat) : Option (MscpDrive blk) :=
  (s.getDiskDrive unitNumber).filter MscpDrive.isAvailable

def unitOffline : Nat := status Status.unitOffline unitUnknown 0

def available (s : Disks blk) (m : Message) (unitNumber : Nat) : Outcome blk :=
  match s.availableUnit unitNumber with
  | none => ⟨s,m,unitOffline⟩
  | some d => ⟨s.setUnit unitNumber d.setOffline,m,status Status.success stillConnected 0⟩

def determineAccessPaths (s : Disks blk) (m : Message) (unitNumber : Nat) : Outcome blk :=
  match s.availableUnit unitNumber with
  | none => ⟨s,m,unitOffline⟩
  | some _ => ⟨s,m,status Status.success 0 0⟩

def replace (s : Disks blk) (m : Message) (unitNumber : Nat) : Outcome blk :=
  s.determineAccessPaths { m with messageLength := headerSize } unitNumber

def diskUnitFlags (d : MscpDrive blk) : Nat :=
  (if d.info.removable then removableMedia else 0) |||
    (if d.isWriteProtected then writeProtectHardware else 0)

/-- `sizeof(GetUnitStatusResponseParameters)` -/
def unitStatusSize : Nat := 36

/-- The Next Unit modifier: the first unit from `unitNumber` on with a medium, else unit 0. -/
def nextUnit (s : Disks blk) (unitNumber : Nat) : Nat :=
  ((range' unitNumber (s.units.length-unitNumber)).find?
    (fun u => (s.availableUnit u).isSome)).getD 0

def getUnitStatus (s : Disks blk) (m : Message) (unitNumber modifiers : Nat) : Outcome blk :=
  let m := { m with messageLength := unitStatusSize+headerSize }
  let unitNumber := if modifiers%2=1 then s.nextUnit unitNumber else unitNumber
  let m := if modifiers%2=1 then { m with unitNumber := unitNumber } else m
  match s.availableUnit unitNumber with
  | none => ⟨s,m.setParameters 0 (replicate unitStatusSize 0),unitOffline⟩
  | some d =>
    let m := m.answer [(2,0),(2,diskUnitFlags d),(4,0),(4,d.unitDeviceNumber),(2,0),
      (2,d.getClassModel),(4,d.info.mediaId),(2,unitNumber),(2,0),(2,d.info.sectsPerTrack),
      (2,d.info.tracksPerGroup),(2,d.info.groupsPerCylinder),(2,0),(2,d.info.rctSize),
      (1,d.getRBNs),(1,d.getRCTCopies)]
    ⟨s,m,if d.online then status Status.success 0 0 else status Status.unitAvailable 0 0⟩

/-- `sizeof(SetUnitCharacteristicsResponseParameters)` -/
def unitCharacteristicsSize : Nat := 32

def setUnitCharacteristicsInternal (s : Disks blk) (m : Message) (unitNumber : Nat)
    (bringOnline : Bool) : Outcome blk :=
  let m := { m with messageLength := unitCharacteristicsSize+headerSize }
  match s.availableUnit unitNumber with
  | none => ⟨s,m.setParameters 0 (replicate unitCharacteristicsSize 0),unitOffline⟩
  | some d =>
    let m := m.answer [(2,diskUnitFlags d),(2,0),(4,0),(4,d.unitDeviceNumber),(2,0),
      (2,d.getClassModel),(4,d.info.mediaId),(4,0),(4,d.getBlockCount),(4,0)]
    if bringOnline then
      ⟨s.setUnit unitNumber d.setOnline,m,
        status Status.success (if d.online then alreadyOnline else 0) 0⟩
    else ⟨s,m,status Status.success 0 0⟩

def getCommandStatus (s : Disks blk) (m : Message) : Outcome blk :=
  let m := { m with messageLength := 8+headerSize }
  ⟨s,m.setParameters 4 (lePut 4 0),status Status.success 0 0⟩

/-- `sizeof(SetControllerCharacteristicsParameters)` -/
def controllerCharacteristicsSize : Nat := 16

def setControllerCharacteristics (s : Disks blk) (m : Message) : Outcome blk :=
  let version := m.parameter 0 2
  let controllerFlags := m.parameter 2 2
  let hostTimeout := m.parameter 4 2
  let m := { m with messageLength := controllerCharacteristicsSize+headerSize }
  if version≠0 then ⟨s,m,status Status.invalidCommand 0 0⟩
  else
    ⟨{ s with hostTimeout := hostTimeout,controllerFlags := controllerFlags },
      m.answer [(2,version),(2,controllerFlags &&& 0xfe),(2,0xff),(2,0),
        (4,s.controllerIdentifier),(2,0),(2,s.controllerClassModel)],
      status Status.success 0 0⟩

/-- What `Poll` and `dispatch_command` do with an opcode; the last component says whether it is one
they know. -/
def dispatch (s : Disks blk) (m : Message) : Option (Outcome blk × Bool) :=
  let known (o : Option (Outcome blk)) := o.map (fun o => (o,true))
  let modifiers := m.status
  let unit := m.unitNumber
  if m.opcode=Opcode.abort then known (some ⟨s,m,status Status.success 0 0⟩)
  else if m.opcode=Opcode.getCommandStatus then known (some (s.getCommandStatus m))
  else if m.opcode=Opcode.setControllerCharacteristics then
    known (some (s.setControllerCharacteristics m))
  else if m.opcode∈[Opcode.access,Opcode.compareHostData,Opcode.erase,Opcode.read,Opcode.write]
    then known (s.doDiskTransfer m.opcode m unit)
  else if m.opcode=Opcode.available then known (some (s.available m unit))
  else if m.opcode=Opcode.determineAccessPaths then known (some (s.determineAccessPaths m unit))
  else if m.opcode=Opcode.getUnitStatus then known (some (s.getUnitStatus m unit modifiers))
  else if m.opcode=Opcode.online then
    known (some (s.setUnitCharacteristicsInternal m unit true))
  else if m.opcode=Opcode.replace then known (some (s.replace m unit))
  else if m.opcode=Opcode.setUnitCharacteristics then
    known (some (s.setUnitCharacteristicsInternal m unit false))
  else some (⟨s,m,0⟩,false)

/-- The disk server as the port's controller, for the commands that pass their asserts. -/
def controller (capabilityFlags microcodeId : Nat) (twentyTwoBitDMA : Bool) : Controller (Disks blk) where
  dispatch s m :=
    match s.dispatch m with
    | none => (s,m,0,true)
    | some (o,handled) => (o.disks,o.message,o.cmdStatus,handled)
  resetDrives := resetDrives
  capabilityFlags := capabilityFlags
  microcodeId := microcodeId
  twentyTwoBitDMA := twentyTwoBitDMA

/-- One command through `Poll` with its asserts: `PostResponse` has one on the response's length. -/
def serve (c : Controller (Disks blk)) (u : Server (Disks blk)) (m : Message) :
    Option (Server (Disks blk) × Message) := do
  assert (u.drives.dispatch m).isSome
  let r := execute c u m
  assert (0 < r.2.messageLength)
  return r

end Disks

end QUniLator.Mscp
