import QUniLator.Disks.Bus
import QUniLator.Framework.Loop

namespace QUniLator.Disks

inductive RkFunction
  | write | read | writeCheck
  deriving DecidableEq,Repr

def rkSector : Nat := 256

/-- The worker in the transfer of a command. `address`, `function`, `format` and `iba` are the command's,
`currentAddress` and `currentCount` local; the rest is the controller's, the pack of the drive and the bus. -/
structure Rk11 where
  function : RkFunction
  format : Bool
  iba : Bool
  sse : Bool
  address : Nat
  currentAddress : Nat
  currentCount : Int
  abort : Bool
  rkwc : Nat
  rkba : Nat
  mex : Nat
  rkdb : UInt16
  cyl : Nat
  surface : Nat
  sector : Nat
  present : Bool
  wce : Bool
  nxs : Bool
  nxc : Bool
  nxd : Bool
  nxm : Bool
  ovr : Bool
  he : Bool
  err : Bool
  pack : Nat → UInt16
  bus : Bus

namespace Rk11

variable (s : Rk11)

/-- `get_image_offset`, in words -/
def imageOffset : Nat := ((s.cyl*2+s.surface)*12+s.sector)*rkSector

def validateSeek : Bool × Rk11 :=
  let nxs := s.sector > 11
  let nxc := s.cyl > 202
  let nxd := !s.present
  if nxs ∨ nxc ∨ nxd then
    (false,{ s with nxs := s.nxs || nxs,nxc := s.nxc || nxc,nxd := s.nxd || nxd,he := true,
                    err := true })
  else (true,s)

def incrementRkda : Rk11 :=
  if s.sector+1 > 11 then
    if s.surface+1 > 1 then { s with sector := 0,surface := 0,cyl := s.cyl+1 }
    else { s with sector := 0,surface := s.surface+1 }
  else { s with sector := s.sector+1 }

/-- `dma_transfer` from the buffer to memory -/
def dmaToMemory (buffer : List UInt16) (count : Nat) : DmaEnd :=
  if s.iba then s.bus.dato s.currentAddress [buffer.getD (count-1) 0]
  else s.bus.dato s.currentAddress (buffer.take count)

/-- `dma_transfer` from memory to the buffer -/
def dmaFromMemory (buffer : List UInt16) (count : Nat) : DmaEnd :=
  if s.iba then
    let r := s.bus.dati s.currentAddress buffer 1
    { r with buffer := List.replicate count (r.buffer.getD 0 0)++r.buffer.drop count }
  else s.bus.dati s.currentAddress buffer count

/-- Word count and bus address move on by `count` words. -/
def advance (count : Nat) : Rk11 :=
  let left := s.currentCount-count
  let s := { s with currentCount := left,rkwc := (-left%0x10000).toNat }
  let addr := s.currentAddress+count*2
  if s.iba then s else { s with currentAddress := addr,rkba := addr%0x10000,mex := addr/0x10000%4 }

def sectorDone (count : Nat) : Rk11 := (s.advance count).incrementRkda

/-- `request.timeout` -/
def timeout : Rk11 := { s with nxm := true,he := true,err := true,abort := true }

def transferSector : Rk11 :=
  let count := if s.function=.read && s.format then 1 else min rkSector s.currentCount.toNat
  let cleared : List UInt16 := List.replicate rkSector 0
  let data := slice s.pack s.imageOffset rkSector
  match s.function with
  | .read =>
    let buffer := if s.format then UInt16.ofNat (s.cyl*32)::cleared.drop 1 else data
    let r := s.dmaToMemory buffer count
    let s := { s with bus := r.bus }
    (if r.success then { s with rkdb := buffer.getD (count-1) 0 } else s.timeout).sectorDone count
  | .write =>
    let r := s.dmaFromMemory cleared count
    let s := { s with bus := r.bus }
    (if r.success then { s with pack := patch s.pack s.imageOffset r.buffer } else s.timeout).sectorDone
      count
  | .writeCheck =>
    let r := s.dmaFromMemory cleared count
    let s := { s with bus := r.bus }
    (if r.success then
      let differs := r.buffer.take count≠data.take count
      let s := { s with wce := s.wce || differs,err := s.err || differs }
      { s with abort := s.wce && s.sse }
    else s.timeout).sectorDone count

/-- One pass of the loop over the sectors, without a command that cancels this one -/
def pass : Rk11 :=
  match s.validateSeek with
  | (false,s) => { s with ovr := s.ovr || s.cyl > 202,abort := true }
  | (true,s) => s.transferSector

def busy : Bool := 0<s.currentCount && !s.abort

/-- `-(int16_t) RKWC` as `int16_t` -/
def startCount : Int := (-Int.bmod s.rkwc 0x10000).bmod 0x10000

def execute (fuel : Nat) : Option Rk11 :=
  runWhile busy pass fuel { s with currentAddress := s.address,currentCount := s.startCount,abort := false }

end Rk11

end QUniLator.Disks
