import QUniLator.Storage.StorageImage

/-! `mscp_drive_c`: the disk behind a unit, its table of drive types, and the replacement blocks it keeps in memory.
Counters and byte offsets are 32 bits wide. -/

namespace QUniLator.Mscp

structure DriveInfo where
  typeName : String
  blockCount : Nat
  sectsPerTrack : Nat
  tracksPerGroup : Nat
  groupsPerCylinder : Nat
  mediaId : Nat
  model : Nat
  rctSize : Nat
  removable : Bool
  deriving DecidableEq

/-- `g_driveTable` -/
def driveTable : List DriveInfo := [
  ⟨"RX50",800,10,5,16,0x25658032,7,0,true⟩,
  ⟨"RX33",2400,15,2,1,0x25658021,10,0,true⟩,
  ⟨"RD51",21600,18,4,1,0x25644033,6,36,false⟩,
  ⟨"RD31",41560,17,4,1,0x2564401f,12,3,false⟩,
  ⟨"RC25",50902,50,8,1,0x20643019,2,0,true⟩,
  ⟨"RC25F",50902,50,8,1,0x20643319,3,0,true⟩,
  ⟨"RD52",60480,17,8,1,0x25644034,8,4,false⟩,
  ⟨"RD32",83236,17,6,1,0x25641047,15,4,false⟩,
  ⟨"RD53",138672,17,8,1,0x25644035,9,5,false⟩,
  ⟨"RA80",237212,31,14,1,0x20643019,1,0,false⟩,
  ⟨"RD54",311200,17,15,1,0x25644036,13,7,false⟩,
  ⟨"RA60",400176,42,60,1,0x22a4103c,4,1008,true⟩,
  ⟨"RA70",547041,33,11,1,0x20643019,18,198,false⟩,
  ⟨"RA81",891072,51,14,1,0x25641051,5,2856,false⟩,
  ⟨"RA82",1216665,57,15,1,0x25641052,11,3420,false⟩,
  ⟨"RA71",1367310,51,14,1,0x25641047,40,1428,false⟩,
  ⟨"RA72",1953300,51,20,1,0x25641048,37,2040,false⟩,
  ⟨"RA90",2376153,69,13,1,0x2564105a,19,1794,false⟩,
  ⟨"RA92",2940951,73,13,1,0x2564105c,29,949,false⟩,
  ⟨"RA73",3920490,70,21,1,0x25641049,47,198,false⟩]

theorem driveTable_size (t : DriveInfo) (h : t∈driveTable) : 0<t.blockCount ∧ (t.blockCount+t.rctSize)*512<2^31 := by
  revert t
  decide

/-- `GetBlockSize` -/
def blockSize : Nat := 512

structure MscpDrive (blk : Nat) where
  storage : StorageDrive blk
  info : DriveInfo
  online : Bool
  unitDeviceNumber : Nat
  useImageSize : Bool
  rctData : Nat → UInt8
  inTable : info∈driveTable

namespace MscpDrive
variable {blk : Nat}

/-- `SetDriveType`, which clears the replacement blocks; a name the table does not have is refused. -/
def setDriveType (d : MscpDrive blk) (typeName : String) : MscpDrive blk :=
  match h : driveTable.find? (fun t => t.typeName.toLower == typeName.toLower) with
  | none => d
  | some t =>
    { d with info := t,rctData := fun _ => 0,inTable := List.mem_of_find?_eq_some h }

def getBlockCount (d : MscpDrive blk) : Nat :=
  if d.useImageSize then d.storage.imageSize/blockSize%2^32 else d.info.blockCount

def getRCTCopies (_ : MscpDrive blk) : Nat := 1

def getRCTBlockCount (d : MscpDrive blk) : Nat := d.info.rctSize*d.getRCTCopies

def getRBNs (_ : MscpDrive blk) : Nat := 0

/-- `_unitClassModel` -/
def getClassModel (d : MscpDrive blk) : Nat := 0x0200 ||| d.info.model

def isAvailable (d : MscpDrive blk) : Bool := d.storage.imageIsOpen

def isWriteProtected (d : MscpDrive blk) : Bool := d.storage.imageIsReadonly

def setOnline (d : MscpDrive blk) : MscpDrive blk := { d with online := true }

def setOffline (d : MscpDrive blk) : MscpDrive blk := { d with online := false }

/-- The byte offset of a block, a product of two `uint32_t`. -/
def byteOffset (blockNumber : Nat) : Nat := blockNumber*blockSize%2^32

def write (d : MscpDrive blk) (blockNumber : Nat) (buffer : List UInt8) : Option (MscpDrive blk) := do
  let s ← d.storage.imageWrite buffer (byteOffset blockNumber)
  let s ← s.imageClearRemainingBlockBytes blockSize (byteOffset blockNumber) buffer.length
  return { d with storage := s }

/-- `buffer` is the storage `new` returns. -/
def read (d : MscpDrive blk) (blockNumber : Nat) (buffer : List UInt8) : Option (List UInt8 × MscpDrive blk) :=
  (d.storage.imageRead buffer (byteOffset blockNumber)).map
    (fun r => (r.1,{ d with storage := r.2 }))

def rctBlock (d : MscpDrive blk) (rctBlockNumber : Nat) : List UInt8 :=
  slice d.rctData (rctBlockNumber*blockSize) blockSize

def readRCTBlock (d : MscpDrive blk) (rctBlockNumber : Nat) : Option (List UInt8) := do
  assert (rctBlockNumber<d.getRCTBlockCount)
  return d.rctBlock rctBlockNumber

def writeRCTBlock (d : MscpDrive blk) (rctBlockNumber : Nat) (buffer : List UInt8) : Option (MscpDrive blk) := do
  assert (rctBlockNumber<d.getRCTBlockCount)
  return { d with
    rctData := patch d.rctData (rctBlockNumber*blockSize) (buffer.take blockSize) }

end MscpDrive

end QUniLator.Mscp
