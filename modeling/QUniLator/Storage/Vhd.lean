import QUniLator.Framework.Endian
import QUniLator.Framework.Bitmap
import QUniLator.Framework.Cut
import QUniLator.Framework.File

/-! The Virtual Hard Disk image: a fixed disk's bytes before a footer, or a dynamic disk's header, block allocation
table and blocks, each a sector bitmap and data. Numbers are natural, but 64-bit sums that can wrap wrap. Writes of
the host do not fail. -/

namespace QUniLator.Vhd

open List

def sector : Nat := 512

def typeFixed : Nat := 2
def typeDynamic : Nat := 3
def typeDifferencing : Nat := 4

def newBlockSize : Nat := 2*1024*1024

def vhdEpoch : Nat := 946684800

def batUnused : Nat := 0xFFFFFFFF

def u64 (n : Nat) : Nat := n%2^64

/-- The big-endian field of `n` bytes at `at_`. -/
@[irreducible] def field (bs : List UInt8) (at_ n : Nat) : Nat := beGet ((bs.drop at_).take n)

@[irreducible] def vhdChecksum (p : List UInt8) (checksumAt : Nat) : Nat :=
  2^32-1-((p.take checksumAt++p.drop (checksumAt+4)).map UInt8.toNat).sum%2^32

def readAt (f : File) (len pos : Nat) : Option (List UInt8) :=
  if len=0 ∨ pos+len≤f.size then some (slice f.byte pos len) else none

def footerCookie : List UInt8 := [0x63,0x6F,0x6E,0x65,0x63,0x74,0x69,0x78]

def headerCookie : List UInt8 := [0x63,0x78,0x73,0x70,0x61,0x72,0x73,0x65]

@[irreducible] def validFooter (f : List UInt8) : Bool :=
  f.take 8 == footerCookie && field f 64 4 == vhdChecksum f 64

def roundUp (v unit : Nat) : Nat := (v+unit-1)/unit*unit

/-- The parts of a VHD's file that say where the disk's bytes are. -/
structure Layout where
  footer : List UInt8
  type : Nat
  diskSize : Nat
  footerAt : Nat
  footerAtEnd : Bool
  headerAt : Nat
  tableAt : Nat
  blockSize : Nat
  bitmapBytes : Nat
  bat : List Nat
  deriving DecidableEq

/-- Where the blocks of the file have to end: one lying past the footer is one the file lost. -/
def dataEnd (f : File) (l : Layout) : Nat := if l.footerAtEnd then l.footerAt else f.size

/-- The dynamic part of `parse`, once the footer is there. -/
def parseDynamic (f : File) (l : Layout) : Except String Layout :=
  let headerAt := field l.footer 16 8
  let damaged := .error "the VHD's dynamic disk header is missing or damaged"
  if f.size<u64 (headerAt+1024) then damaged
  else match readAt f 1024 headerAt with
    | none => damaged
    | some header =>
      if header.take 8≠headerCookie ∨ field header 36 4≠vhdChecksum header 36 then damaged
      else
        let tableAt := field header 16 8
        let entries := field header 28 4
        let blockSize := field header 32 4
        if blockSize<sector ∨ blockSize%sector≠0 ∨ 256*1024*1024<blockSize ∨
            entries*blockSize<l.diskSize ∨ f.size<u64 (tableAt+entries*4) then
          .error "the VHD's block table does not fit the disk it describes"
        else
          let sectors := blockSize/sector
          let bitmapBytes := roundUp ((sectors+7)/8) sector
          match readAt f (entries*4) tableAt with
          | none => .error "cannot read the VHD's block table"
          | some table =>
            let bat := (range entries).map (fun b => field table (b*4) 4)
            if bat.any (fun e => e != batUnused &&
                decide (dataEnd f l<e*sector+bitmapBytes+blockSize)) then
              .error "the VHD is shorter than its block table says"
            else .ok { l with headerAt,tableAt,blockSize,bitmapBytes,bat }

/-- The footer's part of `parse`. The closing footer counts, or, when it is lost, the copy of it a
dynamic disk carries at its start. -/
def parseFooter (f : File) : Option Layout :=
  let footerAt := if sector≤f.size then f.size-sector else 0
  let closing := if sector≤f.size then (readAt f sector footerAt).filter validFooter else none
  let leading :=
    if sector≤f.size then
      (readAt f sector 0).filter (fun b => validFooter b && field b 60 4 == typeDynamic)
    else none
  (closing.or leading).map (fun footer =>
    ⟨footer,field footer 60 4,field footer 48 8,footerAt,closing.isSome,0,0,0,0,[]⟩)

def parse (f : File) : Except String Layout :=
  match parseFooter f with
  | none => .error "not a VHD image: it carries no VHD footer"
  | some l =>
    if l.type=typeDifferencing then
      .error ("a differencing VHD holds only the changes to its parent disk; " ++
        "merge it into a fixed or dynamic VHD first")
    else if l.diskSize%sector≠0 then
      .error "the VHD's disk size is not a whole number of sectors"
    else if l.type=typeFixed then
      if l.footerAtEnd=false ∨ l.footerAt<l.diskSize then
        .error "the VHD is shorter than the disk it describes"
      else .ok l
    else if l.type≠typeDynamic then .error ("unknown VHD disk type " ++ toString l.type)
    else parseDynamic f l

def chsGeometry (diskSize : Nat) : List UInt8 :=
  let total := min (diskSize/sector) (65535*16*255)
  let (spt,heads,cth) :=
    if 65535*16*63≤total then (255,16,total/255)
    else
      let cth := total/17
      let heads := max ((cth+1023)/1024) 4
      let (spt,heads,cth) :=
        if heads*1024 ≤ cth ∨ 16<heads then (31,16,total/31) else (17,heads,cth)
      if heads*1024 ≤ cth then (63,16,total/63) else (spt,heads,cth)
  bePut 2 (cth/heads)++[UInt8.ofNat heads,UInt8.ofNat spt]

abbrev Uid : Type := { bs : List UInt8 // bs.length=16 }

/-- A cleared buffer of `n` bytes into which the fields of a table have been put. -/
def putFields (n : Nat) (fields : List (Nat × List UInt8)) : List UInt8 :=
  fields.foldl (fun buf p => overwrite buf p.1 p.2) (replicate n 0)

/-- The footer of a new dynamic disk but for its checksum. `now` is the Unix time. -/
def footerFields (diskSize now : Nat) (uid : Uid) : List (Nat × List UInt8) :=
  [(0,footerCookie),(8,bePut 4 2),(12,bePut 4 0x00010000),(16,bePut 8 sector),
    (24,bePut 4 (if vhdEpoch<now then now-vhdEpoch else 0)),
    (28,[0x71,0x75,0x6E,0x6C]),
    (32,bePut 4 0x00010000),
    (36,bePut 4 0x5769326B),
    (40,bePut 8 diskSize),
    (48,bePut 8 diskSize),
    (56,chsGeometry diskSize),
    (60,bePut 4 typeDynamic),
    (68,uid.val)]

def headerFields (tableAt blocks : Nat) : List (Nat × List UInt8) :=
  [(0,headerCookie),(8,bePut 8 (2^64-1)),(16,bePut 8 tableAt),(24,bePut 4 0x00010000),
    (28,bePut 4 blocks),
    (32,bePut 4 newBlockSize)]

/-- `bs` with its checksum put into the field at `at_`. -/
def summed (bs : List UInt8) (at_ : Nat) : List UInt8 :=
  overwrite bs at_ (bePut 4 (vhdChecksum bs at_))

/-- `create_dynamic`: a new file, with the footer copy, the header and the empty table in one write
and the closing footer in another. -/
def createDynamic (diskSize now : Nat) (uid : Uid) : Except String File :=
  if diskSize=0 ∨ diskSize%sector≠0 then
    .error "a VHD's disk is a whole number of 512-byte sectors"
  else
    let blocks := u64 (diskSize+newBlockSize-1)/newBlockSize
    if 0xFFFFFFF0/4<blocks then .error "the disk is too large for a VHD"
    else
      let tableAt := 3*sector
      let tableBytes := roundUp (blocks*4) sector
      let f := summed (putFields sector (footerFields diskSize now uid)) 64
      let h := summed (putFields 1024 (headerFields tableAt blocks)) 36
      let head := f++h++replicate tableBytes 0xFF
      .ok ((File.empty.pwrite head 0).pwrite f head.length)

/-- The operations that change the file, one each. -/
inductive FileOp where
  | pwrite (bs : List UInt8) (pos : Nat)
  | ftruncate (n : Nat)
  | fdatasync

def applyOp (f : File) : FileOp → File
  | .pwrite bs pos => f.pwrite bs pos
  | .ftruncate n => f.ftruncate n
  | .fdatasync => f

/-- `storageimage_vhd_c`, open. A bitmap not read yet is an empty one. `log` keeps the operations made
on the file, in order. -/
structure Image where
  file : File
  log : List FileOp
  vhd : Layout
  bitmaps : List (List UInt8)
  readonly : Bool

/-- `open`; `writable` says that the host gave the file for writing. -/
def open_ (f : File) (writable : Bool) : Except String Image :=
  match parse f with
  | .error e => .error e
  | .ok l =>
    .ok ⟨f,[],l,replicate l.bat.length [],!writable || !l.footerAtEnd⟩

def fullBitmap (bitmapBytes sectors : Nat) : List UInt8 :=
  let bm := overwrite (replicate bitmapBytes 0) 0 (replicate (sectors/8) 0xFF)
  if sectors%8≠0 then bm.set (sectors/8) (UInt8.ofNat (0xFF00 >>> (sectors%8))) else bm

namespace Image

def sys (s : Image) (o : FileOp) : Image :=
  { s with file := applyOp s.file o,log := s.log++[o] }

/-- The sector a block starts at, or `batUnused`. -/
def batAt (s : Image) (block : Nat) : Nat := s.vhd.bat[block]?.getD batUnused

def bitmap (s : Image) (block : Nat) : List UInt8 :=
  let bm := s.bitmaps[block]?.getD []
  if bm=[] then s.file.preadCleared s.vhd.bitmapBytes (s.batAt block*sector) else bm

/-- The image once `bitmap` has been asked for a block's. -/
def load (s : Image) (block : Nat) : Image :=
  { s with bitmaps := s.bitmaps.set block (s.bitmap block) }

def sectorPresent (s : Image) (block sec : Nat) : Bool := getBit .msb (s.bitmap block) sec

/-- `memset` of what a read got of sector `sec` and the bitmap does not mark. -/
def blankSector (offset len : Nat) (buffer : List UInt8) (sec : Nat) : List UInt8 :=
  let from_ := max (sec*sector) offset
  let to_ := min ((sec+1)*sector) (offset+len)
  overwrite buffer (from_-offset) (replicate (to_-from_) 0)

def readInBlock (s : Image) (block offset len : Nat) : Option (List UInt8) :=
  let dataAt := s.batAt block*sector+s.vhd.bitmapBytes
  (readAt s.file len (dataAt+offset)).map (fun buffer =>
    (range' (offset/sector) ((offset+len+sector-1)/sector-offset/sector)).foldl
      (fun buffer sec =>
        if s.sectorPresent block sec then buffer else blankSector offset len buffer sec) buffer)

/-- One round of the loop in `read`, with the bytes it has so far. -/
def readPiece (r : List UInt8 × Image) (p : Piece) : List UInt8 × Image :=
  if r.2.batAt p.block=batUnused then (r.1++replicate p.n 0,r.2)
  else match r.2.readInBlock p.block p.off p.n with
    | none => (r.1++replicate p.n 0,r.2)
    | some bs => (r.1++bs,r.2.load p.block)

def read (s : Image) (position len : Nat) : List UInt8 × Image :=
  if s.vhd.diskSize≤position then (replicate len 0,s)
  else
    let n := min len (s.vhd.diskSize-position)
    let r :=
      if s.vhd.type=typeFixed then (s.file.preadCleared n position,s)
      else (pieces s.vhd.blockSize position n).foldl readPiece ([],s)
    (r.1++replicate (len-n) 0,r.2)

/-- Write into an allocated block. That it fails when the block cannot be read is only logged. -/
def writeInBlock (s : Image) (block offset : Nat) (buffer : List UInt8) : Image :=
  let dataAt := s.batAt block*sector+s.vhd.bitmapBytes
  let first := offset/sector
  let end_ := (offset+buffer.length+sector-1)/sector
  let s := s.load block
  if (range' first (end_-first)).all (s.sectorPresent block) then
    s.sys (.pwrite buffer (dataAt+offset))
  else match s.readInBlock block (first*sector) ((end_-first)*sector) with
    | none => s
    | some whole =>
      let s := s.sys (.pwrite (overwrite whole (offset-first*sector) buffer)
        (dataAt+first*sector))
      let bm := (range' first (end_-first)).foldl (setBit .msb) (s.bitmap block)
      { s with bitmaps := s.bitmaps.set block bm }.sys (.pwrite bm (s.batAt block*sector))

/-- Allocate a block at the end of the file for a write into it. A file grown past what the table can
address is left alone, which is only logged. -/
def allocateBlock (s : Image) (block offset : Nat) (buffer : List UInt8) : Image :=
  let at_ := roundUp s.vhd.footerAt sector
  if batUnused≤at_/sector then s
  else
    let newFooterAt := at_+s.vhd.bitmapBytes+s.vhd.blockSize
    let s := s.sys (.pwrite s.vhd.footer newFooterAt)
    let s := { s with vhd := { s.vhd with footerAt := newFooterAt } }
    let bm := fullBitmap s.vhd.bitmapBytes (s.vhd.blockSize/sector)
    let s := s.sys (.pwrite bm at_)
    let s := s.sys (.pwrite buffer (at_+s.vhd.bitmapBytes+offset))
    let s := s.sys .fdatasync
    let s := s.sys (.pwrite (bePut 4 (at_/sector)) (s.vhd.tableAt+block*4))
    { s with
      vhd := { s.vhd with bat := s.vhd.bat.set block (at_/sector) }
      bitmaps := s.bitmaps.set block bm }

/-- One round of the loop in `write`, for the bytes `buffer` going to `position`. -/
def writePiece (buffer : List UInt8) (position : Nat) (s : Image) (p : Piece) : Image :=
  let src := (buffer.drop (p.pos s.vhd.blockSize-position)).take p.n
  if s.batAt p.block=batUnused then s.allocateBlock p.block p.off src
  else s.writeInBlock p.block p.off src

def write (s : Image) (buffer : List UInt8) (position : Nat) : Image :=
  let beyond := s.vhd.diskSize<u64 (position+buffer.length)
  if beyond ∧ s.vhd.diskSize≤position then s
  else
    let buffer := if beyond then buffer.take (s.vhd.diskSize-position) else buffer
    if s.vhd.type=typeFixed then s.sys (.pwrite buffer position)
    else (pieces s.vhd.blockSize position buffer.length).foldl (writePiece buffer position) s

/-- How much of a fixed disk `truncate` clears at a time. -/
def zeros : Nat := 256*1024

/-- One round of the loop by which `truncate` clears a fixed disk. -/
def clearPiece (s : Image) (k : Nat) : Image :=
  s.sys (.pwrite (replicate (min zeros (s.vhd.diskSize-k*zeros)) 0) (k*zeros))

def truncate (s : Image) : Image :=
  if s.vhd.type=typeFixed then
    (range ((s.vhd.diskSize+zeros-1)/zeros)).foldl clearPiece s
  else
    let table := replicate (s.vhd.bat.length*4) 0xFF
    let s := if table=[] then s else s.sys (.pwrite table s.vhd.tableAt)
    let s := { s with
      vhd := { s.vhd with bat := replicate s.vhd.bat.length batUnused }
      bitmaps := replicate s.vhd.bat.length [] }
    let end_ := max sector (s.vhd.headerAt+1024)
    let end_ := max end_ (roundUp (s.vhd.tableAt+table.length) sector)
    let s := (s.sys (.pwrite s.vhd.footer end_)).sys (.ftruncate (end_+sector))
    { s with vhd := { s.vhd with footerAt := end_ } }

def size (s : Image) : Nat := s.vhd.diskSize

end Image

end QUniLator.Vhd
