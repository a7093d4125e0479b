import Mathlib.Data.BitVec

/-! Classic BPF, with the instructions that filters of addresses are made of. -/

namespace QUniLator.Bpf

abbrev Byte := BitVec 8

abbrev Word := BitVec 32

inductive Size | b | h | w
  deriving DecidableEq,Repr

/-- `ld` takes from the frame at `k`, most significant byte first. The jumps count from the next
instruction. -/
inductive Insn
  | ld (size : Size) (k : Nat)
  | and (k : Word)
  | jeq (k : Word) (jt jf : BitVec 8)
  | ret (k : Word)
  deriving DecidableEq,Repr

def load (frame : List Byte) (k : Nat) : Size → Option Word
  | .b => do
    let b0 ← frame[k]?
    return b0.setWidth 32
  | .h => do
    let b0 ← frame[k]?
    let b1 ← frame[k+1]?
    return (b0++b1).setWidth 32
  | .w => do
    let b0 ← frame[k]?
    let b1 ← frame[k+1]?
    let b2 ← frame[k+2]?
    let b3 ← frame[k+3]?
    return b0++b1++b2++b3

/-- What the program says to the frame, with `a` in the accumulator; nothing where it comes to its
end without a `ret`. A load from behind the frame drops it. -/
def run (frame : List Byte) : List Insn → Word → Option Word
  | [],_ => none
  | .ld size k::rest,_ =>
    match load frame k size with
    | some a => run frame rest a
    | none => some 0
  | .and k::rest,a => run frame rest (a &&& k)
  | .jeq k jt jf::rest,a => run frame (rest.drop (if a=k then jt else jf).toNat) a
  | .ret k::_,_ => some k
termination_by program => program.length
decreasing_by all_goals simp only [List.length_drop,List.length_cons]; omega

section
variable {frame : List Byte} {rest : List Insn} {a k : Word}

theorem run_ret : run frame (.ret k::rest) a=some k := by
  rw [run]

theorem run_and : run frame (.and k::rest) a=run frame rest (a &&& k) := by
  rw [run]

theorem run_ld {size : Size} {at_ : Nat} {v : Word} (h : load frame at_ size=some v) :
    run frame (.ld size at_::rest) a=run frame rest v := by
  rw [run,h]

theorem run_jeq {jt jf : BitVec 8} :
    run frame (.jeq k jt jf::rest) a=run frame (rest.drop (if a=k then jt else jf).toNat) a := by
  rw [run]

end

theorem getElem?_getD {frame : List Byte} {k : Nat} (h : k<frame.length) : frame[k]? = some (frame.getD k 0) := by
  simp [List.getD,h]

theorem load_b {frame : List Byte} {k : Nat} (h : k<frame.length) :
    load frame k .b=some ((frame.getD k 0).setWidth 32) := by
  rw [load,getElem?_getD h]
  rfl

theorem load_h {frame : List Byte} {k : Nat} (h : k+1<frame.length) :
    load frame k .h=some ((frame.getD k 0++frame.getD (k+1) 0).setWidth 32) := by
  rw [load,getElem?_getD h,getElem?_getD (Nat.lt_of_succ_lt h)]
  rfl

theorem load_w {frame : List Byte} {k : Nat} (h : k+3<frame.length) :
    load frame k .w=some (frame.getD k 0++frame.getD (k+1) 0++frame.getD (k+2) 0 ++ frame.getD (k+3) 0) := by
  rw [load,getElem?_getD h,getElem?_getD (by omega : k<frame.length),
    getElem?_getD (by omega : k+1<frame.length),getElem?_getD (by omega : k+2<frame.length)]
  rfl

theorem append_inj {m n : Nat} {x x' : BitVec m} {y y' : BitVec n} : x++y=x'++y' ↔ x=x' ∧ y=y' := by
  constructor
  · intro h
    constructor
    · have hx := congrArg (BitVec.extractLsb' n m) h
      simpa [BitVec.extractLsb'_append_eq_left] using hx
    · have hy := congrArg (BitVec.extractLsb' 0 n) h
      simpa [BitVec.extractLsb'_append_eq_right] using hy
  · rintro ⟨rfl,rfl⟩
    rfl

theorem setWidth_inj {n m : Nat} (h : n ≤ m) {x y : BitVec n} : x.setWidth m=y.setWidth m ↔ x=y := by
  constructor
  · intro hxy
    have hx := congrArg (BitVec.setWidth n) hxy
    rwa [BitVec.setWidth_setWidth_of_le x h,BitVec.setWidth_setWidth_of_le y h,
      BitVec.setWidth_eq,BitVec.setWidth_eq] at hx
  · rintro rfl
    rfl

end QUniLator.Bpf
