import QUniLator.Framework.Bitmap
import QUniLator.Framework.Cut
import QUniLator.Framework.File

/-! The copy-on-write disk image: a base file, a sparse overlay with the blocks written since, and the bitmap that
says which. Positions, lengths and counters are natural numbers, `uint64_t` and `off_t` in the code. -/

namespace QUniLator.Cow

open List

def blockSize : Nat := 512

/-- Blocks per page of the file system the overlay lives on, from its `st_blksize`. -/
def pageBlocks (stBlksize : Nat) : Nat :=
  if blockSize ≤ stBlksize then min (stBlksize/blockSize) 128 else 1

@[irreducible] def pageSize (stBlksize : Nat) : Nat := pageBlocks stBlksize*blockSize

def cowMapMagic : List UInt8 := [0x51,0x43,0x4f,0x57,0x4d,0x41,0x50,0x31]

/-- The bitmap sidecar `<base>.ovl.map`. -/
structure Sidecar where
  magic : List UInt8
  blockCount : Nat
  imageSize : Nat
  bitmap : List UInt8

/-- The three files of an image. An overlay that does not exist yet is an empty one: opening it for
writing creates it so. -/
structure Files (blk : Nat) where
  base : File
  overlay : SparseFile (pageSize blk)
  map : Option Sidecar

/-- The operations that change the files, one system call each. -/
inductive FileOp where
  | overlayPwrite (bs : List UInt8) (pos : Nat)
  | overlayFtruncate (n : Nat)
  | basePwrite (bs : List UInt8) (pos : Nat)
  | baseFtruncate (n : Nat)
  | baseFsync
  | mapWrite (m : Sidecar)
  | mapUnlink

def Files.apply {blk : Nat} (f : Files blk) : FileOp → Files blk
  | .overlayPwrite bs pos => { f with overlay := f.overlay.pwrite bs pos }
  | .overlayFtruncate n => { f with overlay := f.overlay.ftruncate n }
  | .basePwrite bs pos => { f with base := f.base.pwrite bs pos }
  | .baseFtruncate n => { f with base := f.base.ftruncate n }
  | .baseFsync => f
  | .mapWrite m => { f with map := some m }
  | .mapUnlink => { f with map := none }

/-- `storageimage_cow_c` with the files it stands on. `log` keeps the operations it has made on them,
in order, so that a call can be cut short between any two. -/
structure Image (blk : Nat) where
  files : Files blk
  log : List FileOp
  baseSizeBytes : Nat
  imageSizeBytes : Nat
  blockCount : Nat
  occupancy : List UInt8
  opened : Bool

namespace Image
variable {blk : Nat}

def sys (s : Image blk) (o : FileOp) : Image blk :=
  { s with files := s.files.apply o,log := s.log++[o] }

def bitGet (s : Image blk) (block : Nat) : Bool :=
  if s.blockCount≤block then false else getBit .lsb s.occupancy block

def bitSet (s : Image blk) (block : Nat) : Image blk :=
  { s with occupancy := setBit .lsb s.occupancy block }

def ensureBlocks (s : Image blk) (neededBlockCount : Nat) : Image blk :=
  if neededBlockCount ≤ s.blockCount then s
  else
    let needBytes := (neededBlockCount+7)/8
    { s with
      blockCount := neededBlockCount
      imageSizeBytes :=
        if s.imageSizeBytes<neededBlockCount*blockSize then neededBlockCount*blockSize
        else s.imageSizeBytes
      occupancy :=
        if s.occupancy.length<needBytes then
          s.occupancy++replicate (needBytes-s.occupancy.length) 0
        else s.occupancy }

/-- `pread` into a cleared block buffer. -/
def preadBlock (f : File) (block : Nat) : List UInt8 := f.preadCleared blockSize (block*blockSize)

def cowReadBlock (s : Image blk) (block : Nat) : List UInt8 :=
  preadBlock (if s.bitGet block then s.files.overlay.toFile else s.files.base) block

def loadBitmapSidecar (s : Image blk) : Option (Image blk) :=
  match s.files.map with
  | none => none
  | some m =>
    if m.magic=cowMapMagic ∧ s.baseSizeBytes ≤ m.imageSize ∧ 0 < m.blockCount ∧
        (m.blockCount+7)/8 ≤ m.bitmap.length then
      some { s with
        imageSizeBytes := m.imageSize
        blockCount := m.blockCount
        occupancy := m.bitmap.take ((m.blockCount+7)/8) }
    else none

/-- `for (b = first ; b <= last && b < block_count ; b++) bit_set(b)` -/
def markBlocks (s : Image blk) (first last : Nat) : Image blk :=
  (range' first (min (last+1) s.blockCount-first)).foldl bitSet s

/-- The `SEEK_DATA`/`SEEK_HOLE` walk from `pos`, for `fuel` rounds. -/
def rebuildFrom : Nat → Image blk → Nat → Image blk
  | 0,s,_ => s
  | fuel+1,s,pos =>
    if pos<s.imageSizeBytes then
      match s.files.overlay.seekData pos with
      | none => s
      | some data =>
        let hole :=
          min ((s.files.overlay.seekHole data).getD s.imageSizeBytes) s.imageSizeBytes
        rebuildFrom fuel (s.markBlocks (data/blockSize) ((hole-1)/blockSize)) hole
    else s

/-- Every round moves on by a byte at least, so the image's size is fuel enough. -/
def rebuildBitmapFromOverlay (s : Image blk) : Image blk :=
  let n := (s.blockCount+7)/8
  rebuildFrom s.imageSizeBytes
    { s with occupancy := replicate n 0++s.occupancy.drop n } 0

def writeBitmapSidecar (s : Image blk) : Image blk :=
  s.sys (.mapWrite ⟨cowMapMagic,s.blockCount,s.imageSizeBytes,
    s.occupancy.take ((s.blockCount+7)/8)⟩)

/-- One `pwrite` of a whole block to the overlay and its bit. -/
def storeBlock (s : Image blk) (block : Nat) (bs : List UInt8) : Image blk :=
  (s.sys (.overlayPwrite bs (block*blockSize))).bitSet block

def fillPage (s : Image blk) (block : Nat) : Image blk :=
  let first := block-block%pageBlocks blk
  let end_ := min (first+pageBlocks blk) s.blockCount
  (range' first (end_-first)).foldl
    (fun s b => if s.bitGet b then s else s.storeBlock b (s.cowReadBlock b)) s

def openFiles (f : Files blk) (writable : Bool) : Image blk :=
  let baseSizeBytes := f.base.size
  let overlaySize := f.overlay.size
  let imageSizeBytes := max baseSizeBytes overlaySize
  let blockCount := (imageSizeBytes+blockSize-1)/blockSize
  let s : Image blk :=
    ⟨f,[],baseSizeBytes,imageSizeBytes,blockCount,replicate ((blockCount+7)/8) 0,false⟩
  let s :=
    if writable && decide (overlaySize<baseSizeBytes) then
      s.sys (.overlayFtruncate baseSizeBytes)
    else s
  match s.loadBitmapSidecar with
  | some s => s
  | none => s.rebuildBitmapFromOverlay

/-- One round of the loop in `open` that completes the pages the overlay holds only part of. -/
def completePage (s : Image blk) (page : Nat) : Image blk :=
  let end_ := min (page+pageBlocks blk) s.blockCount
  let written := ((range' page (end_-page)).filter s.bitGet).length
  if written≠0 ∧ written≠end_-page then s.fillPage page else s

def completePages (s : Image blk) : Image blk :=
  ((range ((s.blockCount+pageBlocks blk-1)/pageBlocks blk)).map
    (· * pageBlocks blk)).foldl completePage s

/-- `open` on the files of an existing base. -/
def open_ (f : Files blk) : Image blk :=
  let s := (openFiles f true).completePages
  { s.sys .mapUnlink with opened := true }

def read (s : Image blk) (position len : Nat) : List UInt8 :=
  (pieces blockSize position len).flatMap
    (fun p => ((s.cowReadBlock p.block).drop p.off).take p.n)

/-- One round of the loop in `write`: `src` goes into `block` at `off`. -/
def writeBlock (s : Image blk) (block off : Nat) (src : List UInt8) : Image blk :=
  let s := s.ensureBlocks (block+1)
  let s := if s.bitGet block then s else s.fillPage block
  if off=0 ∧ src.length=blockSize then s.storeBlock block src
  else s.storeBlock block (overwrite (s.cowReadBlock block) off src)

def write (s : Image blk) (buffer : List UInt8) (position : Nat) : Image blk :=
  let s := (pieces blockSize position buffer.length).foldl
    (fun s p => s.writeBlock p.block p.off
      ((buffer.drop (p.pos blockSize-position)).take p.n)) s
  if s.imageSizeBytes<position+buffer.length then
    let imageSizeBytes := position+buffer.length
    let blockCount := (imageSizeBytes+blockSize-1)/blockSize
    let needBytes := (blockCount+7)/8
    { s with
      imageSizeBytes := imageSizeBytes
      blockCount := blockCount
      occupancy :=
        if s.occupancy.length<needBytes then
          s.occupancy++replicate (needBytes-s.occupancy.length) 0
        else s.occupancy }
  else s

/-- `close`: what it leaves behind is the files. -/
def close (s : Image blk) : Image blk := { s.writeBitmapSidecar with opened := false }

def discard (s : Image blk) : Image blk :=
  let imageSizeBytes := s.baseSizeBytes
  let blockCount := (imageSizeBytes+blockSize-1)/blockSize
  let s := { s with
    imageSizeBytes := imageSizeBytes
    blockCount := blockCount
    occupancy := replicate ((blockCount+7)/8) 0 }
  ((s.sys (.overlayFtruncate 0)).sys (.overlayFtruncate s.baseSizeBytes)).sys .mapUnlink

/-- The copying loop of `commit` over the blocks `bs`. `fault b` is the host failing the write of block `b`, with the
bytes that had gone out, which ends it. -/
def commitBlocks (fault : Nat → Option (Fin blockSize)) : List Nat → Image blk → Image blk × Bool
  | [],s => (s,true)
  | b::bs,s =>
    if s.bitGet b then
      let block := preadBlock s.files.overlay.toFile b
      match fault b with
      | some n => (s.sys (.basePwrite (block.take n) (b*blockSize)),false)
      | none => commitBlocks fault bs (s.sys (.basePwrite block (b*blockSize)))
    else commitBlocks fault bs s

/-- `commit`. `refused`: the base is write protected or cannot be opened for writing. -/
def commit (s : Image blk) (refused : Bool) (fault : Nat → Option (Fin blockSize)) : Image blk × Bool :=
  if refused then (s,false)
  else
    let (s,ok) := commitBlocks fault (range s.blockCount) s
    let s := if ok then s.sys (.baseFtruncate s.imageSizeBytes) else s
    let s := s.sys .baseFsync
    if ok then ({ s with baseSizeBytes := s.imageSizeBytes }.discard,true) else (s,false)

end Image

end QUniLator.Cow
