import QUniLator.Framework.File
import QUniLator.Framework.Endian

/-!
A magnetic tape in a SIMH `.tap` file: records between two copies of a length marker, tape marks,
erase gaps. The record layer moves over the file by its markers alone.
-/

namespace QUniLator

/-- `simh_tape_c`. `pos` is a byte offset, `objp` counts records and marks passed. -/
structure Tape where
  f : File
  isOpen : Bool
  readonly : Bool
  pos : Nat
  objp : Nat
  size : Nat

namespace Tape

def mtrTmk : Nat := 0x00000000
def mtrEom : Nat := 0xffffffff
def mtrGap : Nat := 0xfffffffe
def mtrErf : Nat := 0x80000000
def mtrMaxlen : Nat := 0x00ffffff

inductive Result where
  | record | tapeMark | endOfMedium | beginOfTape | error
  deriving DecidableEq,Repr

/-- What a call gives back: its result, `*rec_len`, and what it put into the buffer. -/
structure Answer where
  result : Result
  recLen : Nat
  data : List UInt8
  deriving DecidableEq

def Answer.of (r : Result) : Answer := ⟨r,0,[]⟩

def padded (len : Nat) : Nat := (len+1)/2*2

/-- `open` on a file that is there. -/
def open_ (t : Tape) (f : File) (readonly : Bool) : Tape :=
  { t with f := f,isOpen := true,readonly := readonly,pos := 0,size := f.size }

def rewind (t : Tape) : Tape := { t with pos := 0,objp := 0 }

def truncateHere (t : Tape) : Tape := { t with f := t.f.ftruncate t.pos,size := t.pos }

def readMarker (t : Tape) (at_ : Nat) : Option Nat :=
  if t.size<at_+4 then none
  else
    let b := t.f.pread 4 at_
    if b.length=4 then some (leGet b) else none

def writeMarker (t : Tape) (at_ marker : Nat) : Tape :=
  { t with f := t.f.pwrite (lePut 4 marker) at_ }

/-- The loop of `read_forward`, for `fuel` rounds: over the erase gaps from `pos` on, to the first other
marker if there is one. -/
def scanForward (t : Tape) : Nat → Nat → Nat × Option Nat
  | 0,pos => (pos,none)
  | fuel+1,pos =>
    if t.size≤pos then (pos,none) else match t.readMarker pos with
      | none => (pos,none)
      | some marker => if marker=mtrGap then scanForward t fuel (pos+4) else (pos,some marker)

def rounds (t : Tape) : Nat := t.size/4+1

/-- `read_forward`; `buf` says whether the caller has a buffer. -/
def readForward (t : Tape) (buf : Bool) (maxLen : Nat) : Tape × Answer :=
  if !t.isOpen then (t,.of .error)
  else
    let (pos,marker) := t.scanForward t.rounds t.pos
    let t := { t with pos := pos }
    match marker with
    | none => (t,.of .endOfMedium)
    | some marker =>
      if marker=mtrTmk then ({ t with pos := pos+4,objp := t.objp+1 },.of .tapeMark)
      else if marker=mtrEom then (t,.of .endOfMedium)
      else
        let len := marker &&& mtrMaxlen
        let dataAt := pos+4
        let want := if buf then min len maxLen else 0
        let data := t.f.pread want dataAt
        if data.length≠want then (t,⟨.error,len,data⟩)
        else
          ({ t with pos := dataAt+padded len+4,objp := t.objp+1 },
            ⟨if marker &&& mtrErf≠0 then .error else .record,len,data⟩)

def spaceForward (t : Tape) : Tape × Answer := t.readForward false 0

/-- The loop of `space_reverse`, for `fuel` rounds: back over the erase gaps, to a result or to the
marker behind `pos`. -/
def scanReverse (t : Tape) : Nat → Nat → Nat × Except Result Nat
  | 0,pos => (pos,.error .error)
  | fuel+1,pos =>
    if pos=0 then (pos,.error .beginOfTape) else if pos<4 then (pos,.error .error)
    else match t.readMarker (pos-4) with
      | none => (pos,.error .error)
      | some marker => if marker=mtrGap then scanReverse t fuel (pos-4) else (pos,.ok marker)

def spaceReverse (t : Tape) : Tape × Answer :=
  if !t.isOpen then (t,.of .error)
  else
    let (pos,marker) := t.scanReverse (t.pos/4+1) t.pos
    let t := { t with pos := pos }
    match marker with
    | .error r => (t,.of r)
    | .ok marker =>
      if marker=mtrTmk then ({ t with pos := pos-4,objp := t.objp-1 },.of .tapeMark)
      else
        let len := marker &&& mtrMaxlen
        let span := 4+padded len+4
        if pos<span then (t,⟨.error,len,[]⟩)
        else
          ({ t with pos := pos-span,objp := t.objp-1 },
            ⟨if marker &&& mtrErf≠0 then .error else .record,len,[]⟩)

/-- `write_record`, on a host that takes the writes. -/
def writeRecord (t : Tape) (buf : List UInt8) : Tape × Answer :=
  let len := buf.length
  if !t.isOpen || t.readonly || len=0 || decide (mtrMaxlen<len) then (t,.of .error)
  else
    let t := t.writeMarker t.pos len
    let t := { t with f := t.f.pwrite buf (t.pos+4) }
    let t := if len%2=1 then { t with f := t.f.pwrite [0] (t.pos+4+len) } else t
    let trailerAt := t.pos+4+padded len
    let t := t.writeMarker trailerAt len
    ({ t with pos := trailerAt+4,objp := t.objp+1 }.truncateHere,.of .record)

def writeTapeMark (t : Tape) : Tape × Answer :=
  if !t.isOpen || t.readonly then (t,.of .error)
  else
    let t := t.writeMarker t.pos mtrTmk
    ({ t with pos := t.pos+4,objp := t.objp+1 }.truncateHere,.of .record)

def eraseHere (t : Tape) : Tape :=
  if t.isOpen && !t.readonly then t.truncateHere else t

inductive Call where
  | readForward (buf : Bool) (maxLen : Nat)
  | spaceForward
  | spaceReverse
  | rewind
  | writeRecord (buf : List UInt8)
  | writeTapeMark
  | eraseHere

def call (t : Tape) : Call → Tape × Answer
  | .readForward buf maxLen => t.readForward buf maxLen
  | .spaceForward => t.spaceForward
  | .spaceReverse => t.spaceReverse
  | .rewind => (t.rewind,.of .record)
  | .writeRecord buf => t.writeRecord buf
  | .writeTapeMark => t.writeTapeMark
  | .eraseHere => (t.eraseHere,.of .record)

end Tape

end QUniLator

/-! What one motion of a tape can do, on any file. -/

namespace QUniLator.Tape

def markerLen (marker : Nat) : Nat := marker &&& mtrMaxlen

/-- The bytes of a record of `len` that a reader asks the file for. -/
def wanted (buf : Bool) (maxLen len : Nat) : Nat := if buf then min len maxLen else 0

def recordResult (marker : Nat) : Result := if marker &&& mtrErf≠0 then .error else .record

/-- What `read_forward` does and answers, with the marker the scan over the gaps came to. -/
inductive Forward (t : Tape) (buf : Bool) (maxLen : Nat) : Tape × Answer → Prop
  | closed (ho : t.isOpen=false) : Forward t buf maxLen (t,.of .error)
  | endOfMedium (ho : t.isOpen=true) (pos : Nat) (marker : Option Nat)
      (hscan : t.scanForward t.rounds t.pos=(pos,marker)) (hm : marker=none ∨ marker=some mtrEom) :
      Forward t buf maxLen ({ t with pos := pos },.of .endOfMedium)
  | mark (ho : t.isOpen=true) (pos : Nat)
      (hscan : t.scanForward t.rounds t.pos=(pos,some mtrTmk)) :
      Forward t buf maxLen ({ t with pos := pos+4,objp := t.objp+1 },.of .tapeMark)
  | short (ho : t.isOpen=true) (pos marker : Nat)
      (hscan : t.scanForward t.rounds t.pos=(pos,some marker))
      (hplain : marker≠mtrTmk ∧ marker≠mtrEom)
      (hdata : (t.f.pread (wanted buf maxLen (markerLen marker)) (pos+4)).length ≠
        wanted buf maxLen (markerLen marker)) :
      Forward t buf maxLen ({ t with pos := pos },
        ⟨.error,markerLen marker,t.f.pread (wanted buf maxLen (markerLen marker)) (pos+4)⟩)
  | record (ho : t.isOpen=true) (pos marker : Nat)
      (hscan : t.scanForward t.rounds t.pos=(pos,some marker))
      (hplain : marker≠mtrTmk ∧ marker≠mtrEom)
      (hdata : (t.f.pread (wanted buf maxLen (markerLen marker)) (pos+4)).length =
        wanted buf maxLen (markerLen marker)) :
      Forward t buf maxLen
        ({ t with pos := pos+4+padded (markerLen marker)+4,objp := t.objp+1 },
          ⟨recordResult marker,markerLen marker,
            t.f.pread (wanted buf maxLen (markerLen marker)) (pos+4)⟩)

theorem readForward_cases (t : Tape) (buf : Bool) (maxLen : Nat) :
    Forward t buf maxLen (t.readForward buf maxLen) := by
  cases ho : t.isOpen with
  | false =>
    rw [readForward,if_pos (by simp [ho])]
    exact .closed ho
  | true =>
    rcases hscan : t.scanForward t.rounds t.pos with ⟨pos,marker⟩
    rw [readForward,if_neg (by simp [ho]),hscan]
    cases marker with
    | none => exact .endOfMedium ho pos none hscan (.inl rfl)
    | some marker =>
      by_cases hmark : marker=mtrTmk
      · subst hmark
        exact .mark ho pos hscan
      · by_cases heom : marker=mtrEom
        · subst heom
          exact .endOfMedium ho pos _ hscan (.inr rfl)
        · simp only [if_neg hmark,if_neg heom]
          change Forward t buf maxLen
            (if (t.f.pread (wanted buf maxLen (markerLen marker)) (pos+4)).length ≠
              wanted buf maxLen (markerLen marker) then _ else _)
          split
          case isTrue hshort => exact .short ho pos marker hscan ⟨hmark,heom⟩ hshort
          case isFalse hwhole =>
            exact .record ho pos marker hscan ⟨hmark,heom⟩ (not_not.mp hwhole)

/-- A motion leaves the medium as it is. -/
structure Same (t u : Tape) : Prop where
  f : u.f=t.f
  isOpen : u.isOpen=t.isOpen
  readonly : u.readonly=t.readonly
  size : u.size=t.size

theorem Forward.same {t : Tape} {buf : Bool} {maxLen : Nat} {r : Tape × Answer}
    (h : Forward t buf maxLen r) : Same t r.1 := by
  cases h <;> exact ⟨rfl,rfl,rfl,rfl⟩

/-- What `space_reverse` does and answers, with what the scan back over the gaps came to. -/
inductive Reverse (t : Tape) : Tape × Answer → Prop
  | closed (ho : t.isOpen=false) : Reverse t (t,.of .error)
  | stopped (ho : t.isOpen=true) (pos : Nat) (r : Result)
      (hscan : t.scanReverse (t.pos/4+1) t.pos=(pos,.error r)) :
      Reverse t ({ t with pos := pos },.of r)
  | mark (ho : t.isOpen=true) (pos : Nat)
      (hscan : t.scanReverse (t.pos/4+1) t.pos=(pos,.ok mtrTmk)) :
      Reverse t ({ t with pos := pos-4,objp := t.objp-1 },.of .tapeMark)
  | tooLong (ho : t.isOpen=true) (pos marker : Nat)
      (hscan : t.scanReverse (t.pos/4+1) t.pos=(pos,.ok marker)) (hm : marker≠mtrTmk)
      (hspan : pos<4+padded (markerLen marker)+4) :
      Reverse t ({ t with pos := pos },⟨.error,markerLen marker,[]⟩)
  | record (ho : t.isOpen=true) (pos marker : Nat)
      (hscan : t.scanReverse (t.pos/4+1) t.pos=(pos,.ok marker)) (hm : marker≠mtrTmk)
      (hspan : 4+padded (markerLen marker)+4≤pos) :
      Reverse t ({ t with pos := pos-(4+padded (markerLen marker)+4),objp := t.objp-1 },
        ⟨recordResult marker,markerLen marker,[]⟩)

theorem spaceReverse_cases (t : Tape) : Reverse t t.spaceReverse := by
  cases ho : t.isOpen with
  | false =>
    rw [spaceReverse,if_pos (by simp [ho])]
    exact .closed ho
  | true =>
    rcases hscan : t.scanReverse (t.pos/4+1) t.pos with ⟨pos,marker⟩
    rw [spaceReverse,if_neg (by simp [ho]),hscan]
    cases marker with
    | error r => exact .stopped ho pos r hscan
    | ok marker =>
      by_cases hmark : marker=mtrTmk
      · subst hmark
        exact .mark ho pos hscan
      · simp only [if_neg hmark]
        split
        case isTrue hspan => exact .tooLong ho pos marker hscan hmark hspan
        case isFalse hspan => exact .record ho pos marker hscan hmark (Nat.le_of_not_lt hspan)

theorem Reverse.same {t : Tape} {r : Tape × Answer} (h : Reverse t r) : Same t r.1 := by
  cases h <;> exact ⟨rfl,rfl,rfl,rfl⟩

end QUniLator.Tape
