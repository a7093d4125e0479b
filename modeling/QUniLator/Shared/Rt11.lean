import QUniLator.Framework.Extents
import QUniLator.Shared.Names

namespace QUniLator.Shared

/-- A call that does not return: it throws a `filesystem_exception`, or an assertion, a `FATAL` or a null
pointer ends the process. -/
inductive Failure
  | thrown | killed
  deriving DecidableEq,Repr

/-- The drives that `get_documented_layout_info` knows -/
inductive DriveType
  | rk035 | tu58 | tu56 | rf | rs | rp023 | rx01 | rx02 | rk067 | rl01 | rl02 | rx50 | rx33 | mscp
  deriving DecidableEq,Repr

def DriveType.dirSegCount : DriveType → Nat
  | .tu58 | .tu56 | .rx01 => 1
  | .rf | .rs | .rx02 | .rx50 => 4
  | .rk035 | .rl01 | .rx33 => 16
  | .rp023 | .rk067 | .rl02 | .mscp => 31

/-- `is_RX`: the floppies on which RT-11 has the sectors interleaved -/
def DriveType.isRX : DriveType → Bool
  | .rx01 | .rx02 => true
  | _ => false

/-- `file_rt11_c`, with the sizes of its streams. `year` is `tm_year`. -/
structure RtFile where
  name : Name
  internal : Bool
  blockCount : Nat
  year : Nat
  streamData : Option Nat
  streamDirExt : Option Nat
  streamPrefix : Option Nat
  deriving DecidableEq,Repr

/-- `filesystem_rt11_c` with its image. A drive holds its default directory, and blocks have 16 bits. -/
structure Rt11 where
  drive : DriveType
  blockcount : Nat
  dataSize : Nat
  dirEntryExtraBytes : Nat
  files : List RtFile
  usable : 6+2*drive.dirSegCount≤blockcount
  addressed : blockcount≤0x10000
  inside : 512*blockcount≤dataSize

/-- What `calc_block_use` finds -/
structure BlockUse where
  dirTotalSegNum : Nat
  dirMaxUsedSegNr : Nat
  usedFileBlocks : Nat
  freeBlocks : Nat
  deriving DecidableEq,Repr

/-- A file with the starts that `calc_layout` gives it and its streams -/
structure Placed where
  file : RtFile
  blockNr : Nat
  prefixNr : Nat
  dataNr : Nat
  deriving DecidableEq,Repr

/-- `render_directory` under way: the segment that is filled, those written, and the segment of every entry -/
structure Directory where
  dsNr : Nat
  written : List Nat
  entries : List (RtFile × Nat)
  deriving DecidableEq,Repr

structure Rendered where
  use : BlockUse
  placed : List Placed
  directory : Directory
  deriving DecidableEq,Repr

def neededBlocks (byteCount : Nat) : Nat := (byteCount+511)/512

/-- `assert(p)`, or a `FATAL` unless `p` -/
def ensure (p : Prop) [Decidable p] (e : Failure) : Except Failure Unit :=
  if p then .ok () else .error e

def bootblockFilename : Name := makeFilename .rt11 "$BOOT".toList "BLK".toList

def monitorFilename : Name := makeFilename .rt11 "$MONI".toList "TOR".toList

def isBootblock (hostfname : Name) : Bool :=
  filenameFromHost .rt11 (streamCode .rt11 hostfname).1=("$BOOT".toList,"BLK".toList)

def isMonitor (hostfname : Name) : Bool :=
  filenameFromHost .rt11 (streamCode .rt11 hostfname).1=("$MONI".toList,"TOR".toList)

def RtFile.prefixBlocks (f : RtFile) : Nat := f.streamPrefix.elim 0 fun size => neededBlocks (size+2)

def RtFile.dataBlocks (f : RtFile) : Nat := f.streamData.elim 0 neededBlocks

namespace Rt11

variable (v : Rt11)

def regular : List RtFile := v.files.filter (!·.internal)

def fileCount : Nat := v.regular.length

def usedBlocks : Nat := (v.regular.map (·.blockCount)).sum

def availableBlocks : Nat := v.blockcount-6

/-- `directory_entries_per_segment` -/
def entriesPerSegment : Nat := (2*512-10-2)/(14+v.dirEntryExtraBytes)

/-- `directory_needed_segments`, with an entry for the free space -/
def neededSegments (fileCount : Nat) : Nat :=
  (fileCount+1+v.entriesPerSegment-1)/v.entriesPerSegment

def plannedSegments (avgBlocks : Nat) : Nat → Nat
  | 0 => v.neededSegments v.fileCount
  | n+1 =>
    let segments := v.neededSegments (v.fileCount+(n+1)*3/2)
    if v.availableBlocks<v.usedBlocks+(n+1)*avgBlocks+2*segments then plannedSegments avgBlocks n
    else segments

def totalSegments (freeBlocks : Nat) : Nat :=
  if v.fileCount=0 then v.drive.dirSegCount
  else
    let avgBlocks := max 1 (v.usedBlocks/v.fileCount)
    max v.drive.dirSegCount (min 31 (v.plannedSegments avgBlocks (freeBlocks/avgBlocks)))

/-- `calc_block_use`. With a size to test it only looks whether a file of it fits. -/
def calcBlockUse (testDataSize : Nat) : Except Failure (Option BlockUse) := do
  ensure (v.dirEntryExtraBytes≤16) .killed
  let used := v.usedBlocks+neededBlocks testDataSize
  let maxUsed := v.neededSegments (if testDataSize=0 then v.fileCount else v.fileCount+1)
  ensure (used+2*maxUsed≤v.availableBlocks) .thrown
  if testDataSize=0 then
    let total := v.totalSegments (v.availableBlocks-used-2*maxUsed)
    ensure (used+2*total≤v.availableBlocks) .killed
    pure (some ⟨total,if v.fileCount=0 then 1 else maxUsed,used,v.availableBlocks-used-2*total⟩)
  else pure none

def placeFiles : Nat → List RtFile → Except Failure (List Placed)
  | _,[] => pure []
  | start,f::fs => do
    let dataNr := start+f.prefixBlocks
    let next := dataNr+f.dataBlocks
    ensure (next-start%0x10000=f.blockCount) .killed
    let rest ← placeFiles next fs
    pure (⟨f,start%0x10000,start%0x10000,dataNr%0x10000⟩::rest)

/-- `set_blocks`, with its assertions: interleaved sectors are written in whole blocks, and a write to the
image starts in it. -/
def setBlocks (size start : Nat) : Except Failure Unit :=
  if v.drive.isRX then ensure (size%512=0) .killed
  else ensure (512*start<v.dataSize) .killed

def fileByPath (n : Name) : Option RtFile := (v.files.filter (·.name=n)).getLast?

/-- The boot block, or the monitor, as `render` writes it. It has a data stream. -/
def renderInternal (n : Name) (fits : Nat → Bool) (start blocks : Nat) : Except Failure Unit :=
  match v.fileByPath n with
  | none => v.setBlocks (512*blocks) start
  | some f =>
    match f.streamData with
    | none => .error .killed
    | some size => do
      ensure (fits size) .thrown
      v.setBlocks size start

/-- `DIR_SEGMENT_BLOCK_NR` -/
def segmentBlock (dsNr : Nat) : Nat := 6+2*(dsNr-1)

/-- `render_directory_entry` into a segment of two blocks, of a file or of the free space -/
def renderDirectoryEntry (f : Option RtFile) (deNr : Nat) : Except Failure Unit := do
  let words := 7+v.dirEntryExtraBytes/2
  let deOffset := 10+deNr*2*words
  match f with
  | none => pure ()
  | some f => do
    -- date_encode
    ensure (72≤f.year ∧ f.year≤99) .killed
    match f.streamDirExt with
    | none => pure ()
    | some size => do
      ensure (size≤v.dirEntryExtraBytes) .thrown
      ensure (deOffset+14+size-1<2*512) .killed
  -- the marker behind the entry
  ensure (deOffset+2*words<2*512) .killed

def moveTo (next : Nat) (d : Directory) : Except Failure Directory :=
  if next=d.dsNr then pure d
  else do
    v.setBlocks (2*512) (segmentBlock d.dsNr)
    pure { d with dsNr := next,written := d.written++[d.dsNr] }

/-- `render_directory` from the given file on, then the entry of the free space -/
def renderEntries : List RtFile → Nat → Directory → Except Failure Directory
  | [],dirFileNo,d => do
    let d ← v.moveTo (dirFileNo/v.entriesPerSegment+1) d
    v.renderDirectoryEntry none (dirFileNo%v.entriesPerSegment)
    v.setBlocks (2*512) (segmentBlock d.dsNr)
    pure { d with written := d.written++[d.dsNr] }
  | f::fs,dirFileNo,d => do
    let d ← v.moveTo (dirFileNo/v.entriesPerSegment+1) d
    v.renderDirectoryEntry (some f) (dirFileNo%v.entriesPerSegment)
    renderEntries fs (dirFileNo+1) { d with entries := d.entries++[(f,d.dsNr)] }

def renderDirectory : Except Failure Directory := v.renderEntries v.regular 0 ⟨1,[],[]⟩

/-- `render_file_data` of a prefix, behind the word for its number of blocks -/
def renderPrefix (p : Placed) : Except Failure Unit :=
  match p.file.streamPrefix with
  | none => pure ()
  | some size => do
    ensure (neededBlocks (size+2)%0x10000≤255) .killed
    v.setBlocks (size+2) p.prefixNr

/-- `render_file_data` of the data, in whole blocks -/
def renderData (p : Placed) : Except Failure Unit :=
  match p.file.streamData with
  | none => pure ()
  | some size => v.setBlocks (512*neededBlocks size) p.dataNr

def renderFileData : List Placed → Except Failure Unit
  | [] => pure ()
  | p::ps => do
    v.renderPrefix p
    v.renderData p
    renderFileData ps

/-- `render`, after the `calc_block_use` of its layout -/
def renderUse (use : BlockUse) : Except Failure Rendered := do
  let placed ← placeFiles (6+2*use.dirTotalSegNum) v.regular
  v.renderInternal bootblockFilename (·=512) 0 1
  v.renderInternal monitorFilename (·≤4*512) 2 4
  v.setBlocks 512 1
  let directory ← v.renderDirectory
  v.renderFileData placed
  pure ⟨use,placed,directory⟩

def render : Except Failure Rendered := do
  match ← v.calcBlockUse 0 with
  | none => .error .killed
  | some use => v.renderUse use

end Rt11

/-- `file_host_c`, and whether it is a plain file of the root -/
structure HostEntry where
  plain : Bool
  name : Name
  fileSize : Nat
  year : Nat
  deriving DecidableEq,Repr

namespace HostEntry

variable (h : HostEntry)

def internal : Bool := isBootblock h.name || isMonitor h.name

def code : StreamCode := (streamCode .rt11 h.name).2

def file : RtFile where
  name := volumeName .rt11 h.name
  internal := h.internal
  blockCount :=
    match h.code with
    | .data => neededBlocks h.fileSize%0x10000
    | .dirExt => 0
    | .prefixBlocks => neededBlocks (h.fileSize+2)%0x10000
  year := max 72 (min h.year 99)
  streamData := if h.code=.data then some h.fileSize else none
  streamDirExt := if h.code=.dirExt then some h.fileSize else none
  streamPrefix := if h.code=.prefixBlocks then some h.fileSize else none

end HostEntry

namespace Rt11

variable (h : HostEntry) (v : Rt11)

/-- The file added to `rootdir`. The largest `dirext` stream sets the size of the entries, in 16 bits. -/
def addFile : Rt11 :=
  { v with
    files := v.files++[h.file]
    dirEntryExtraBytes :=
      if h.code=.dirExt ∧ v.dirEntryExtraBytes<h.fileSize then h.fileSize%0x10000
      else v.dirEntryExtraBytes }

/-- What `calc_block_use` is asked for: internal files take no room. -/
def testDataSize : Nat := if h.internal then 0 else h.fileSize

/-- The end of `import_host_file`, after `calc_block_use`: the volume, and the failure if it does not return -/
def taken : Except Failure (Option BlockUse) → Rt11 × Option Failure
  | .error e => (v,some e)
  | .ok _ => (v.addFile h,none)

def importHostFile : Rt11 × Option Failure :=
  if h.plain=false then (v,none)
  else if (v.fileByPath (volumeName .rt11 h.name)).isSome=true then (v,none)
  else if h.fileSize=0 then (v,none)
  else if isBootblock h.name=true ∧ h.fileSize≠512 then (v,some .thrown)
  else if isMonitor h.name=true ∧ 4*512<h.fileSize then (v,some .thrown)
  else if isVolumeInfo .rt11 h.name=true then (v,none)
  else v.taken h (v.calcBlockUse (testDataSize h))

end Rt11

end QUniLator.Shared
