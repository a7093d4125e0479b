import Mathlib.Logic.Function.Basic

/-!
The memory management unit of the PDP-11/34: page registers, the descriptors derived from them, and
the translation that works on the descriptors.
-/

namespace QUniLator.Cpu34

open Function

abbrev Word := BitVec 16
abbrev Uint := BitVec 32

/-- The address spaces. `first` is the index of a space's first page. -/
inductive Space where
  | kernel | user
  deriving DecidableEq,Repr

def Space.first : Space → BitVec 4
  | kernel => 0
  | user => 8

inductive Access where
  | read | write
  deriving DecidableEq,Repr

abbrev Mode := BitVec 2

def modeKernel : Mode := 0
def modeUser : Mode := 3

def modeSpace (mode : Mode) : Space := if mode=modeKernel then .kernel else .user

def mmr0AbortNonresident : Word := 0o100000
def mmr0AbortLength : Word := 0o040000
def mmr0AbortReadonly : Word := 0o020000
def mmr0Aborts : Word := 0o160000
def mmr0Maint : Word := 0o000400
def mmr0Mode : Word := 0o000140
def mmr0Page : Word := 0o000016
def mmr0Enable : Word := 0o000001
def mmr0Writable : Word := 0o160401

def pdrWritable : Word := 0o077516
def pdrW : Word := 0o000100
def pdrEd : Word := 0o000010
def parWritable : Word := 0o007777

def abortVector : Word := 0o250

def pdrAcf (pdr : Word) : Word := (pdr >>> 1) &&& 3
def pdrPlf (pdr : Word) : Word := (pdr >>> 8) &&& 0o177

/-- `kt11d_page_t`, with `deny` as one bit for each kind of access. -/
structure Page where
  base : Uint
  blkLo : BitVec 8
  blkSpan : BitVec 8
  denyRead : Bool
  denyWrite : Bool
  pdrIdx : BitVec 4
  deriving DecidableEq

def Page.denies (p : Page) : Access → Bool
  | .read => p.denyRead
  | .write => p.denyWrite

def Page.holds (p : Page) (blk : Uint) : Bool :=
  !(p.blkSpan.setWidth 32<blk-p.blkLo.setWidth 32)

structure Kt11d where
  mmr0 : Word
  mmr1 : Word
  mmr2 : Word
  par : BitVec 4 → Word
  pdr : BitVec 4 → Word
  page : BitVec 4 → Page
  enabled : Bool
  space : Space
  prevSpace : Space
  mode : Mode
  prevMode : Mode
  accessSpace : Space
  accessMode : Mode
  accessIllegal : Bool
  frozen : Bool
  maint : Bool
  destRef : Bool
  mmr1Count : Nat

def isOwnRegister (pa : Uint) : Bool :=
  if pa<0o772300 then false
  else pa≤0o772317 || (0o772340≤pa && pa≤0o772357) || (0o777572≤pa && pa≤0o777577) ||
    (0o777600≤pa && pa≤0o777617) || (0o777640≤pa && pa≤0o777657)

def wordAddress (pa : Uint) : Uint := pa &&& ~~~(1 : Uint)

def unrelocated (va : Word) : Uint :=
  if va &&& 0o160000=0o160000 then va.setWidth 32 ||| 0o600000 else va.setWidth 32

def pageIndex (space : Space) (va : Word) : BitVec 4 := space.first+(va >>> 13).setWidth 4

def block (va : Word) : Uint := ((va >>> 6) &&& 0o177).setWidth 32

/-- What `kt11d_rebuild` derives from a pair of page registers. -/
def descriptor (idx : BitVec 4) (par pdr : Word) : Page :=
  let page := idx &&& 7
  let plf := pdrPlf pdr
  let down := pdr &&& pdrEd≠0
  let acf := pdrAcf pdr
  { base := ((par &&& parWritable).setWidth 32 <<< 6)-(page.setWidth 32 <<< 13)
    blkLo := if down then plf.setWidth 8 else 0
    blkSpan := if down then (0o177-plf).setWidth 8 else plf.setWidth 8
    denyRead := acf≠3 && acf≠1
    denyWrite := acf≠3
    pdrIdx := idx }

namespace Kt11d

def setAccess (mmu : Kt11d) (space : Space) (mode : Mode) : Kt11d :=
  { mmu with
    accessSpace := space,accessMode := mode
    accessIllegal := mode≠modeKernel && mode≠modeUser }

def rebuild (mmu : Kt11d) (idx : BitVec 4) : Kt11d :=
  { mmu with
    page := update mmu.page idx (descriptor idx (mmu.par idx) (mmu.pdr idx)) }

/-- All page indices, in the order of the loop in `kt11d_rebuild_all`. -/
def indices : List (BitVec 4) := (List.range 16).map (BitVec.ofNat 4)

def rebuildAll (mmu : Kt11d) : Kt11d :=
  let mmu :=
    { mmu with
      enabled := mmu.mmr0 &&& mmr0Enable≠0
      frozen := mmu.mmr0 &&& mmr0Aborts≠0
      maint := mmu.mmr0 &&& mmr0Maint≠0 }
  indices.foldl rebuild mmu

def zeroed : Kt11d where
  mmr0 := 0
  mmr1 := 0
  mmr2 := 0
  par _ := 0
  pdr _ := 0
  page _ := ⟨0,0,0,false,false,0⟩
  enabled := false
  space := .kernel
  prevSpace := .kernel
  mode := modeKernel
  prevMode := modeKernel
  accessSpace := .kernel
  accessMode := modeKernel
  accessIllegal := false
  frozen := false
  maint := false
  destRef := false
  mmr1Count := 0

/-- `kt11d_reset`, which clears the whole unit first. -/
def reset : Kt11d :=
  ({ zeroed with space := .kernel,prevSpace := .kernel }.setAccess .kernel modeKernel).rebuildAll

/-- `kt11d_init`: bus INIT, which keeps the page registers. -/
def init (mmu : Kt11d) : Kt11d :=
  { mmu with mmr0 := 0,mmr1 := 0,mmr2 := 0,mmr1Count := 0 }.rebuildAll

def setModes (mmu : Kt11d) (psw : Word) : Kt11d :=
  let mode := psw.extractLsb' 14 2
  let prevMode := psw.extractLsb' 12 2
  { mmu with
    mode := mode,prevMode := prevMode,space := modeSpace mode
    prevSpace := modeSpace prevMode }.setAccess (modeSpace mode) mode

def recordReference (mmu : Kt11d) (va : Word) (bits : Word) : Word :=
  (mmu.mmr0 &&& ~~~(mmr0Mode ||| mmr0Page)) ||| bits ||| (mmu.accessMode.setWidth 16 <<< 5) |||
    ((va >>> 13) <<< 1)

def noteReference (mmu : Kt11d) (va : Word) : Kt11d :=
  if mmu.frozen then mmu else { mmu with mmr0 := mmu.recordReference va 0 }

/-- `kt11d_abort`: the causes, from the page's raw descriptor register. -/
def abort (mmu : Kt11d) (va : Word) (space : Space) (access : Access) : Kt11d :=
  let idx := pageIndex space va
  let acf := pdrAcf (mmu.pdr idx)
  let bits :=
    if acf=3 then 0
    else if acf=1 then if access=.write then mmr0AbortReadonly else 0
    else mmr0AbortNonresident
  let bits := if (mmu.page idx).holds (block va) then bits else bits ||| mmr0AbortLength
  if mmu.frozen then mmu
  else { mmu with mmr0 := mmu.recordReference va bits,frozen := true }

def abortMode (mmu : Kt11d) (va : Word) : Kt11d :=
  if mmu.frozen then mmu
  else { mmu with mmr0 := mmu.recordReference va mmr0AbortNonresident,frozen := true }

/-- `kt11d_relocate`: the unit after it and the physical address, none where it aborts. -/
def relocate (mmu : Kt11d) (va : Word) (space : Space) (access : Access) : Kt11d × Option Uint :=
  if !mmu.enabled && !(mmu.maint && mmu.destRef) then (mmu,some (unrelocated va))
  else if mmu.accessIllegal then (mmu.abortMode va,none)
  else
    let mmu := mmu.noteReference va
    let p := mmu.page (pageIndex space va)
    if p.denies access then (mmu.abort va space access,none)
    else if !p.holds (block va) then (mmu.abort va space access,none)
    else
      let pa := (p.base+va.setWidth 32) &&& 0o777777
      if access=.write && !isOwnRegister pa then
        ({ mmu with pdr := update mmu.pdr p.pdrIdx (mmu.pdr p.pdrIdx ||| pdrW) },some pa)
      else (mmu,some pa)

/-- What `lookup` finds. -/
inductive Reg where
  | mmr0 | mmr1 | mmr2
  | pdr (idx : BitVec 4)
  | par (idx : BitVec 4)
  deriving DecidableEq

/-- The register of a block that begins at `first`. -/
def regIndex (space : Space) (pa first : Uint) : BitVec 4 :=
  space.first+((pa-first) >>> 1).setWidth 4

def lookup (pa : Uint) : Option Reg :=
  if !isOwnRegister pa then none
  else if pa=0o777572 then some .mmr0
  else if pa=0o777574 then some .mmr1
  else if pa=0o777576 then some .mmr2
  else if 0o772300≤pa && pa≤0o772316 then some (.pdr (regIndex .kernel pa 0o772300))
  else if 0o772340≤pa && pa≤0o772356 then some (.par (regIndex .kernel pa 0o772340))
  else if 0o777600≤pa && pa≤0o777616 then some (.pdr (regIndex .user pa 0o777600))
  else if 0o777640≤pa && pa≤0o777656 then some (.par (regIndex .user pa 0o777640))
  else none

def readReg (mmu : Kt11d) (pa : Uint) : Option Word :=
  (lookup pa).map fun
    | .mmr0 => mmu.mmr0
    | .mmr1 => mmu.mmr1
    | .mmr2 => mmu.mmr2
    | .pdr idx => mmu.pdr idx
    | .par idx => mmu.par idx

/-- The bits of `w` that `mask` selects, over those of `old`. -/
def masked (old w mask : Word) : Word := (old &&& ~~~mask) ||| (w &&& mask)

/-- A write to the page register pair `idx` ends in this. -/
def pairWritten (mmu : Kt11d) (idx : BitVec 4) : Kt11d :=
  { mmu with pdr := update mmu.pdr idx (mmu.pdr idx &&& ~~~pdrW) }.rebuild idx

/-- `kt11d_write_reg`: none where the address is not the unit's. -/
def writeReg (mmu : Kt11d) (pa : Uint) (w mask : Word) : Option Kt11d :=
  (lookup pa).map fun
    | .mmr0 => { mmu with mmr0 := masked mmu.mmr0 w (mask &&& mmr0Writable) }.rebuildAll
    | .mmr1 => { mmu with mmr1 := masked mmu.mmr1 w (mask &&& 0) }.rebuildAll
    | .mmr2 => { mmu with mmr2 := masked mmu.mmr2 w (mask &&& 0) }.rebuildAll
    | .pdr idx =>
      let new := masked (mmu.pdr idx) w (mask &&& pdrWritable)
      { mmu with pdr := update mmu.pdr idx new }.pairWritten idx
    | .par idx =>
      let new := masked (mmu.par idx) w (mask &&& parWritable)
      { mmu with par := update mmu.par idx new }.pairWritten idx

def instructionStart (mmu : Kt11d) : Kt11d :=
  if mmu.frozen then mmu else { mmu with mmr1 := 0,mmr1Count := 0 }

def instructionFetched (mmu : Kt11d) (pc : Word) : Kt11d :=
  if mmu.frozen then mmu else { mmu with mmr2 := pc }

/-- `kt11d_log_register`: a byte of MMR1 for a register change, none for the PC. -/
def logRegister (mmu : Kt11d) (reg : BitVec 4) (amount : Word) : Kt11d :=
  if mmu.frozen || reg=7 || 2 ≤ mmu.mmr1Count then mmu
  else
    let entry := ((amount &&& 0o37) <<< 3) ||| (reg &&& 7).setWidth 16
    { mmu with
      mmr1 := if mmu.mmr1Count=0 then entry else mmu.mmr1 ||| (entry <<< 8)
      mmr1Count := mmu.mmr1Count+1 }

end Kt11d

end QUniLator.Cpu34
