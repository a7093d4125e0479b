import QUniLator.Disks.Bus
import QUniLator.Framework.Loop

namespace QUniLator.Disks

inductive RlFunction
  | writeCheck | writeData | readData | readDataWithoutHeaderCheck
  deriving DecidableEq,Repr

inductive RlState
  | ready | rwInit | rwDisk
  deriving DecidableEq,Repr

def rlSector : Nat := 128

/-- The drive. `lockOn` is its state, `ready` the line to the controller, `protect` that the pack or the
button forbids writes; `segment` counts headers and data fields that pass the heads. -/
structure Rl0102 where
  cylinder : Nat
  head : Nat
  segment : Nat
  lockOn : Bool
  ready : Bool
  protect : Bool
  wge : Bool
  image : Nat → UInt16

namespace Rl0102

variable (d : Rl0102)

/-- `NEXT_SECTOR_SEGMENT_ADVANCE` -/
def advance : Rl0102 := { d with segment := (d.segment+1)%80 }

def headerOnTrack (header : Nat) : Bool :=
  !(header/128%512≠d.cylinder || header/64%2≠d.head || header%64 ≥ 40)

/-- `cmd_read_next_sector_header`, with the first word of the header -/
def readNextSectorHeader : Option (Nat × Rl0102) :=
  if !d.lockOn then none
  else
    let d := if d.segment%2=1 then d.advance else d
    some (d.cylinder*128+d.head*64+d.segment/2,d.advance)

def offset : Nat := ((2*d.cylinder+d.head)*40+d.segment/2)*rlSector

/-- `cmd_read_next_sector_data` -/
def readNextSectorData (buffer : List UInt16) : List UInt16 × Rl0102 :=
  if !d.lockOn then (buffer,d)
  else
    let d := if d.segment%2=0 then d.advance else d
    (slice d.image d.offset rlSector,d.advance)

/-- `cmd_write_next_sector_data` -/
def writeNextSectorData (buffer : List UInt16) : Rl0102 :=
  if !d.lockOn then d
  else if d.protect || !d.ready then { d with wge := true }
  else
    let d := { d with wge := false }
    let d := if d.segment%2=0 then d.advance else d
    { d with image := patch d.image d.offset buffer }.advance

end Rl0102

/-- The controller in a transfer, and what it works on. `mp` is the word count that was written to MP, in
two's complement, `msb` the address bits beyond BA. -/
structure Rl11 where
  state : RlState
  function : RlFunction
  da : Nat
  ba : Nat
  msb : Nat
  bae : Option Nat
  mp : Nat
  mpr : Nat
  opi : Bool
  wcheck : Bool
  hnf : Bool
  nxm : Bool
  drive : Rl0102
  bus : Bus

namespace Rl11

variable (s : Rl11)

/-- `get_qunibus_address` -/
def address : Nat := s.msb*0x10000+s.ba/2*2

/-- `update_qunibus_address` -/
def updateAddress (addr : Nat) : Rl11 :=
  { s with msb := addr/0x10000,ba := addr%0x10000/2*2,bae := s.bae.map fun _ => addr/0x10000%64 }

/-- `get_MP_wordcount` -/
def wordcount : Nat := (0x10000-s.mp)%0x10000

/-- `set_MP_wordcount` -/
def setWordcount (n : Nat) : Rl11 := { s with mp := (0x10000-n)%0x10000 }

def clearErrors : Rl11 := { s with opi := false,wcheck := false,hnf := false,nxm := false }

def commandDone : Rl11 := { s with state := .ready }

def operationIncomplete : Rl11 := { s with opi := true }.commandDone

def sectorDone : Rl11 :=
  let s := { s with da := (s.da+1)%0x10000 }
  let count := if rlSector ≤ s.wordcount then s.wordcount-rlSector else 0
  let s := s.setWordcount count
  if count=0 then s.commandDone else { s with state := .rwDisk }

def transferSector : Rl11 :=
  let dmaWordcount := if rlSector<s.wordcount then rlSector else s.wordcount
  let silo : List UInt16 := List.replicate rlSector 0
  match s.function with
  | .readData | .readDataWithoutHeaderCheck =>
    let (silo,drive) := s.drive.readNextSectorData silo
    let r := s.bus.dato s.address (silo.take dmaWordcount)
    let s := { s with drive := drive,bus := r.bus,nxm := !r.success }.updateAddress (r.endAddr+2)
    if s.nxm then s.operationIncomplete else s.sectorDone
  | .writeCheck =>
    let (silo,drive) := s.drive.readNextSectorData silo
    let r := s.bus.dati s.address (List.replicate rlSector 0) dmaWordcount
    let s := { s with drive := drive,bus := r.bus,nxm := !r.success }.updateAddress (r.endAddr+2)
    if s.nxm then s.operationIncomplete else { s with wcheck := silo≠r.buffer }.sectorDone
  | .writeData =>
    let r := s.bus.dati s.address silo dmaWordcount
    let s := { s with bus := r.bus,nxm := !r.success }.updateAddress (r.endAddr+2)
    if s.nxm then s.operationIncomplete
    else { s with drive := s.drive.writeNextSectorData r.buffer }.sectorDone

def stateReadwrite : Rl11 :=
  if !s.drive.ready then s.operationIncomplete
  else
    match s.state with
    | .ready => s
    | .rwInit =>
      if s.wordcount=0 then s.clearErrors.commandDone else { s.clearErrors with state := .rwDisk }
    | .rwDisk =>
      if s.function=.readDataWithoutHeaderCheck then s.transferSector
      else if !s.drive.headerOnTrack s.da then { s with hnf := true }.operationIncomplete
      else
        match s.drive.readNextSectorHeader with
        | none => if s.mpr≠s.da then s else s.transferSector
        | some (header,drive) =>
          let s := { s with drive := drive,mpr := header }
          if header≠s.da then s else s.transferSector

def busy : Bool := s.state≠.ready

def execute (fuel : Nat) : Option Rl11 := runWhile busy stateReadwrite fuel s

end Rl11

end QUniLator.Disks
