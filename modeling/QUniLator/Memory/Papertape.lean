import Mathlib.Data.BitVec
import Mathlib.Tactic.IntervalCases
import QUniLator.Framework.Attempt

/-! The loader of absolute paper tapes. -/

namespace QUniLator.Memory

open List Function
open BitVec (eq_of_toNat_eq getLsbD_eq_getElem toNat_ofNat)

abbrev Byte := BitVec 8

abbrev Word := BitVec 16

def memoryWordCount : Nat := 0x200000

/-- `memoryimage_c` -/
structure Image where
  words : Nat → Word
  valid : Nat → Bool

namespace Image

def putWord (m : Image) (addr : Nat) (w : Word) : Image where
  words := update m.words (addr/2) w
  valid := update m.valid (addr/2) true

/-- `put_byte`, after its assertion. The byte is an int and goes in as it is. -/
def putInt (m : Image) (addr : Nat) (b : Int) : Image :=
  let w := m.words (addr/2)
  let v := BitVec.ofInt 16 b
  m.putWord addr (if addr%2=0 then (w &&& 0xff00) ||| v else (w &&& 0xff) ||| v <<< 8)

/-- `put_byte`. A negative address is a large one to `assert_address`. -/
def putByte (m : Image) (addr b : Int) : Option (Image) := do
  assert (0≤addr ∧ addr/2 < memoryWordCount)
  return m.putInt addr.toNat b

def byteAt (m : Image) (a : Nat) : Byte :=
  if a%2=0 then (m.words (a/2)).setWidth 8 else (m.words (a/2) >>> 8).setWidth 8

/-- `put_byte` of a byte -/
def put (m : Image) (addr : Nat) (b : Byte) : Image := m.putInt addr b.toNat

def putBytes (m : Image) : Nat → List Byte → Image
  | _,[] => m
  | addr,b::bs => putBytes (m.put addr b) (addr+1) bs

end Image

/-- The states 0 to 7 of `load_papertape`, by the byte that is expected next -/
inductive Phase
  | skip
  | start
  | sizeLow
  | sizeHigh
  | addrLow
  | addrHigh
  | data
  | checksum
  deriving DecidableEq,Repr

/-- The variables of `load_papertape`. `label` is what `codelabels` has under "entry". -/
structure Loader where
  image : Image
  label : Option Nat
  phase : Phase
  blockByteIdx : Int
  blockByteSize : Int
  blockDatabyteCount : Int
  sum : Int
  addr : Int

namespace Loader

def count (s : Loader) (b : Int) : Loader :=
  { s with sum := (s.sum+b)%256,blockByteIdx := s.blockByteIdx+1 }

/-- What a byte does, or the end of the file, which is -1; whether the loader goes on. The second byte
of a number is or-ed to the first one, a byte, eight bits up. -/
def step (s : Loader) (b : Int) : Option (Loader × Bool) :=
  match s.phase with
  | .skip =>
    if b=1 then some ({ s with phase := .start,blockByteIdx := 1,sum := 1 },true)
    else some ({ s with sum := 0 },true)
  | .start =>
    if b≠0 then some ({ s with phase := .skip },true)
    else some ({ s.count b with phase := .sizeLow },true)
  | .sizeLow => some ({ s.count b with blockByteSize := b,phase := .sizeHigh },true)
  | .sizeHigh =>
    let size := s.blockByteSize+256*b
    some ({ s.count b with
      blockByteSize := size,blockDatabyteCount := size-6,phase := .addrLow },true)
  | .addrLow => some ({ s.count b with addr := b,phase := .addrHigh },true)
  | .addrHigh =>
    let s := { s.count b with addr := s.addr+256*b,phase := .data }
    -- a mis-sized block is skipped
    if s.blockByteSize<s.blockByteIdx then some ({ s with phase := .skip },true)
    else if s.blockDatabyteCount=0 then
      some ({ s with label := some (s.addr%2^32).toNat,phase := .skip },true)
    else some (s,true)
  | .data => do
    let image ← s.image.putByte s.addr b
    let s := { s.count b with image := image,addr := s.addr+1 }
    return ({ s with phase := if s.blockByteSize ≤ s.blockByteIdx then .checksum else .data },true)
  | .checksum =>
    let sum := (s.sum+b)%256
    if sum≠0 then some ({ s with sum := sum },false)
    else some ({ s with sum := 0,phase := .skip },true)

def run (s : Loader) : List Int → Option (Loader × Bool)
  | [] => some (s,true)
  | b::bs => do
    let (t,more) ← s.step b
    if more then t.run bs else return (t,false)

def start (image : Image) : Loader := ⟨image,none,.skip,0,0,0,0,0⟩

end Loader

/-- The bytes as `fgetc` gives them -/
def ints (bs : List Byte) : List Int := bs.map fun b => (b.toNat : Int)

/-- `load_papertape`. The end of the file comes to the loader as a byte. -/
def loadPapertape (image : Image) (stream : List Byte) : Option (Loader × Bool) :=
  (Loader.start image).run (ints stream++[-1])

def header (size : Nat) (addr : Word) : List Byte :=
  [1,0,BitVec.ofNat 8 size,BitVec.ofNat 8 (size/256),BitVec.ofNat 8 addr.toNat,
    BitVec.ofNat 8 (addr.toNat/256)]

def byteSum (bs : List Byte) : Nat := (bs.map BitVec.toNat).sum

structure Block where
  addr : Word
  bytes : List Byte
  checksum : Byte
  nonempty : bytes≠[]
  fits : bytes.length+6<2^16

def Block.toBytes (b : Block) : List Byte :=
  header (b.bytes.length+6) b.addr++b.bytes++[b.checksum]

def Block.Sound (b : Block) : Prop := byteSum b.toBytes%256=0

/-- What a tape is made of. A filler is no 001, or one without a 000 after it; a block shorter than a header is
skipped; the checksum of a transfer block is left to the fillers. -/
inductive Piece
  | filler (b : Byte) (h : b≠1)
  | falseStart (b : Byte) (h : b≠0)
  | misSized (size : Fin 6) (addr : Word)
  | transfer (addr : Word)
  | data (block : Block) (h : block.Sound)

namespace Piece

def toBytes : Piece → List Byte
  | .filler b _ => [b]
  | .falseStart b _ => [1,b]
  | .misSized size addr => header size addr
  | .transfer addr => header 6 addr
  | .data block _ => block.toBytes

/-- The byte it puts at `a` -/
def byteAt (a : Nat) : Piece → Option Byte
  | .data block _ => if block.addr.toNat≤a then block.bytes[a-block.addr.toNat]? else none
  | _ => none

def entry (label : Option Nat) : Piece → Option Nat
  | .transfer addr => some addr.toNat
  | _ => label

def load (m : Image) : Piece → Image
  | .data block _ => m.putBytes block.addr.toNat block.bytes
  | _ => m

end Piece

def tape (ps : List Piece) : List Byte := ps.flatMap Piece.toBytes

/-- The byte that the tape puts at `a`, the last of them where there are several -/
def written (ps : List Piece) (a : Nat) : Option Byte :=
  ps.foldl (fun o p => (p.byteAt a).or o) none

def entry (ps : List Piece) : Option Nat := ps.foldl Piece.entry none

def Truncated (tail : List Byte) : Prop :=
  ∃ ext≠[],(∃ p : Piece,p.toBytes=tail++ext) ∨ ∃ b : Block,b.toBytes=tail++ext

namespace Image
variable (m : Image)

theorem low_merge (w : Word) (b : Byte) : ((w &&& 0xff00) ||| b.setWidth 16).setWidth 8=b ∧
      (((w &&& 0xff00) ||| b.setWidth 16) >>> 8).setWidth 8=(w >>> 8).setWidth 8 := by
  constructor <;> ext i hi <;> interval_cases i <;> simp [getLsbD_eq_getElem]

theorem high_merge (w : Word) (b : Byte) : ((w &&& 0xff) ||| b.setWidth 16 <<< 8).setWidth 8=w.setWidth 8 ∧
      (((w &&& 0xff) ||| b.setWidth 16 <<< 8) >>> 8).setWidth 8=b := by
  constructor <;> ext i hi <;> interval_cases i <;> simp [getLsbD_eq_getElem]

theorem byteAt_put (a : Nat) (b : Byte) (x : Nat) : (m.put a b).byteAt x=if x=a then b else m.byteAt x := by
  have hv : BitVec.ofInt 16 (b.toNat : Int)=b.setWidth 16 := by
    rw [BitVec.ofInt_natCast]
    exact BitVec.ofNat_toNat ..
  simp only [put,putInt,putWord,byteAt,hv]
  by_cases hw : x/2=a/2
  · rw [hw,update_self]
    by_cases ha : a%2=0
    · rw [if_pos ha]
      by_cases hx : x%2=0
      · rw [if_pos hx,if_pos (by omega),(low_merge _ b).1]
      · rw [if_neg hx,if_neg (by omega),if_neg hx,(low_merge _ b).2]
    · rw [if_neg ha]
      by_cases hx : x%2=0
      · rw [if_pos hx,if_neg (by omega),if_pos hx,(high_merge _ b).1]
      · rw [if_neg hx,if_pos (by omega),(high_merge _ b).2]
  · rw [update_of_ne hw,if_neg (by omega : ¬x=a)]

theorem byteAt_putBytes (a : Nat) (bs : List Byte) (x : Nat) :
    (m.putBytes a bs).byteAt x=((if a≤x then bs[x-a]? else none).getD (m.byteAt x)) := by
  induction bs generalizing a m with
  | nil => simp [putBytes]
  | cons b bs ih =>
    rw [putBytes,ih,byteAt_put]
    by_cases hx : x=a
    · subst hx
      simp
    · rw [if_neg hx]
      by_cases hle : a≤x
      · rw [if_pos (by omega : a+1≤x),if_pos hle,show x-a=x-(a+1)+1 by omega,
          List.getElem?_cons_succ]
      · rw [if_neg (by omega : ¬a+1≤x),if_neg hle]

theorem valid_putBytes (a : Nat) (bs : List Byte) (w : Nat) :
    (m.putBytes a bs).valid w=true ↔ m.valid w ∨ ∃ x,a≤x ∧ x<a+bs.length ∧ x/2=w := by
  induction bs generalizing a m with
  | nil =>
    simp only [putBytes,length_nil,Nat.add_zero]
    constructor
    · exact .inl
    · rintro (h | ⟨x,h1,h2,-⟩)
      · exact h
      · omega
  | cons b bs ih =>
    rw [putBytes,ih,length_cons]
    have hput : (m.put a b).valid w=true ↔ m.valid w=true ∨ a/2=w := by
      simp only [put,putInt,putWord]
      by_cases hw : w=a/2
      · subst hw
        simp
      · rw [update_of_ne hw]
        exact ⟨.inl,fun h => h.resolve_right (fun h => hw h.symm)⟩
    rw [hput,or_assoc]
    apply or_congr_right
    constructor
    · rintro (rfl | ⟨x,h1,h2,rfl⟩)
      · exact ⟨a,Nat.le_refl _,by omega,rfl⟩
      · exact ⟨x,by omega,by omega,rfl⟩
    · rintro ⟨x,h1,h2,rfl⟩
      by_cases hx : x=a
      · exact .inl (by rw [hx])
      · exact .inr ⟨x,by omega,by omega,rfl⟩

theorem word_eq {w v : Word} (hlow : w.setWidth 8=v.setWidth 8)
    (hhigh : (w >>> 8).setWidth 8=(v >>> 8).setWidth 8) : w=v := by
  ext i hi
  by_cases h8 : i<8
  · have h := congrArg (fun b => b.getLsbD i) hlow
    simpa [h8,getLsbD_eq_getElem hi] using h
  · have h := congrArg (fun b => b.getLsbD (i-8)) hhigh
    simpa [show i-8<8 by omega,show 8+(i-8)=i by omega,getLsbD_eq_getElem hi] using h

theorem words_eq {m m' : Image} {w : Nat} (h0 : m.byteAt (2*w)=m'.byteAt (2*w))
    (h1 : m.byteAt (2*w+1)=m'.byteAt (2*w+1)) : m.words w=m'.words w := by
  apply word_eq
  · simpa [byteAt] using h0
  · simpa [byteAt,show (2*w+1)%2=1 by omega,show (2*w+1)/2=w by omega] using h1

end Image

namespace Loader
variable {s t u : Loader}

/-- The loader takes the bytes and goes on as `t`. -/
def Takes (s : Loader) (bs : List Byte) (t : Loader) : Prop :=
  ∀ rest,s.run (ints bs++rest)=t.run rest

theorem Takes.append {bs cs : List Byte} (h : s.Takes bs t) (h' : t.Takes cs u) : s.Takes (bs++cs) u := by
  intro rest
  rw [ints,map_append,append_assoc]
  exact (h _).trans (h' rest)

theorem Takes.one {b : Byte} (h : s.step b.toNat=some (t,true)) : s.Takes [b] t := by
  intro rest
  change s.run ((b.toNat : Int)::rest)=_
  rw [run,h]
  rfl

theorem Takes.cons {b : Byte} {bs : List Byte} (h : s.step b.toNat=some (t,true))
    (h' : t.Takes bs u) : s.Takes (b::bs) u :=
  (Takes.one h).append h'

def headed (s : Loader) (size : Nat) (addr : Word) : Loader :=
  { s with
    phase := .addrHigh
    blockByteIdx := 5
    blockByteSize := size
    blockDatabyteCount := size-6
    sum := (1+(size : Int)+(size : Int)/256+(addr.toNat : Int))%256
    addr := (addr.toNat : Int)%256 }

theorem takes_five (h : s.phase=.skip) {size : Nat} (hs : size<2^16) (addr : Word) :
    s.Takes [1,0,BitVec.ofNat 8 size,BitVec.ofNat 8 (size/256),BitVec.ofNat 8 addr.toNat] (s.headed size addr) := by
  intro rest
  have h256 : size/256%256=size/256 := Nat.mod_eq_of_lt (by omega)
  have hsize : (size : Int)%256+256*((size : Int)/256)=size := by omega
  simp [ints,run,step,h,count,headed,h256,hsize]

theorem takes_header (h : s.phase=.skip) {size : Nat} (hs : size<2^16) (addr : Word) : s.Takes (header size addr) (
      let t := { s.headed size addr with
        phase := .data,blockByteIdx := 6,sum := (byteSum (header size addr) : Int)%256,
        addr := (addr.toNat : Int) }
      if size<6 then { t with phase := .skip }
      else if size=6 then { t with label := some addr.toNat,phase := .skip }
      else t) := by
  have ha := addr.isLt
  have hsplit : header size addr =
      [1,0,BitVec.ofNat 8 size,BitVec.ofNat 8 (size/256),BitVec.ofNat 8 addr.toNat] ++
        [BitVec.ofNat 8 (addr.toNat/256)] := rfl
  have h256 : ((BitVec.ofNat 8 (addr.toNat/256)).toNat : Int)=(addr.toNat : Int)/256 := by
    rw [toNat_ofNat]
    omega
  have haddr : (addr.toNat : Int)%256+256*((addr.toNat : Int)/256)=addr.toNat := by omega
  have hlabel : ((addr.toNat : Int)%4294967296).toNat=addr.toNat := by omega
  have hsum : ((1+(size : Int)+(size : Int)/256+(addr.toNat : Int))%256+(addr.toNat : Int)/256)%256 =
      (byteSum (header size addr) : Int)%256 := by
    simp only [byteSum,header,map_cons,map_nil,sum_cons,sum_nil,toNat_ofNat]
    change _=(((1 : Nat)+(0+_) : Nat) : Int)%256
    omega
  rw [hsplit]
  apply (takes_five h hs addr).append
  rw [← hsplit]
  apply Takes.one
  rw [h256]
  simp only [step,headed,count,hsum,haddr,Int.reducePow,Int.reduceAdd,hlabel]
  by_cases h6 : size<6
  · rw [if_pos (by omega),if_pos h6]
  · by_cases h6' : size=6
    · rw [if_neg (by omega),if_pos (by omega),if_neg h6,if_pos h6']
    · rw [if_neg (by omega),if_neg (by omega),if_neg h6,if_neg h6']

theorem putByte_some {m : Image} {a : Nat} (ha : a<2*memoryWordCount) (b : Byte) :
    m.putByte a b.toNat=some (m.put a b) := by
  have hin : (0 : Int)≤a ∧ (a : Int)/2 < memoryWordCount := by omega
  rw [Image.putByte,assert_bind,decide_eq_true hin,Int.toNat_natCast]
  rfl

theorem takes_data (ds : List Byte) (hne : ds≠[]) (h : s.phase=.data) {a : Nat} (ha : s.addr=a)
    (hin : a+ds.length≤2*memoryWordCount) (hidx : s.blockByteIdx+ds.length=s.blockByteSize) :
    ∃ t,s.Takes ds t ∧ t.phase=.checksum ∧ t.image=s.image.putBytes a ds ∧ t.label=s.label ∧
      t.sum=(s.sum+byteSum ds)%256 := by
  induction ds generalizing s a with
  | nil => exact absurd rfl hne
  | cons b ds ih =>
    rw [length_cons] at hin hidx
    have hput := putByte_some (m := s.image) (by omega : a<2*memoryWordCount) b
    have hstep : s.step b.toNat=some ({ s.count b.toNat with
        image := s.image.put a b,addr := s.addr+1
        phase := if s.blockByteSize ≤ s.blockByteIdx+1 then .checksum else .data },true) := by
      simp only [step,h,ha,hput]
      rfl
    have hsum : byteSum (b::ds)=b.toNat+byteSum ds := rfl
    cases ds with
    | nil =>
      refine ⟨_,Takes.one hstep,if_pos ?_,rfl,rfl,?_⟩
      · simp only [length_nil] at hidx
        omega
      · simp [count,byteSum]
    | cons c ds =>
      rw [length_cons] at hin hidx
      obtain ⟨t,ht,hph,him,hl,hts⟩ := ih (cons_ne_nil _ _)
        (s := { s.count b.toNat with
          image := s.image.put a b,addr := s.addr+1
          phase := if s.blockByteSize ≤ s.blockByteIdx+1 then .checksum else .data })
        (a := a+1) (if_neg (by omega)) (by simp only [ha,Nat.cast_succ])
        (by rw [length_cons]; omega) (by simp only [count,length_cons]; omega)
      refine ⟨t,Takes.cons hstep ht,hph,him,hl,?_⟩
      rw [hts,hsum]
      simp only [count]
      omega

theorem takes_block (h : s.phase=.skip) (b : Block) :
    ∃ t,s.Takes (header (b.bytes.length+6) b.addr++b.bytes) t ∧ t.phase=.checksum ∧
      t.image=s.image.putBytes b.addr.toNat b.bytes ∧ t.label=s.label ∧
      t.sum=(byteSum (header (b.bytes.length+6) b.addr++b.bytes) : Int)%256 := by
  have hfits := b.fits
  have haddr := b.addr.isLt
  have hpos := length_pos_of_ne_nil b.nonempty
  have hhead := takes_header h hfits b.addr
  rw [if_neg (by omega),if_neg (by omega)] at hhead
  obtain ⟨t,ht,hph,him,hl,hs⟩ := takes_data b.bytes b.nonempty
    (s := { s.headed (b.bytes.length+6) b.addr with
      phase := .data,blockByteIdx := 6
      sum := (byteSum (header (b.bytes.length+6) b.addr) : Int)%256
      addr := (b.addr.toNat : Int) }) rfl rfl (by unfold memoryWordCount; omega)
    (by simp only [headed]; omega)
  refine ⟨t,hhead.append ht,hph,him,hl,?_⟩
  rw [hs]
  have hsum : byteSum (header (b.bytes.length+6) b.addr++b.bytes) =
      byteSum (header (b.bytes.length+6) b.addr)+byteSum b.bytes := by
    simp [byteSum]
  rw [hsum]
  simp only
  omega

theorem byteSum_block (b : Block) : byteSum b.toBytes =
    byteSum (header (b.bytes.length+6) b.addr++b.bytes)+b.checksum.toNat := by
  simp [byteSum,Block.toBytes]
  omega

theorem takes_sound (h : s.phase=.skip) (b : Block) (hb : b.Sound) : ∃ t,s.Takes b.toBytes t ∧ t.phase=.skip ∧
      t.image=s.image.putBytes b.addr.toNat b.bytes ∧ t.label=s.label := by
  obtain ⟨t,ht,hph,him,hl,hs⟩ := takes_block h b
  have hzero : (t.sum+b.checksum.toNat)%256=0 := by
    rw [hs]
    unfold Block.Sound at hb
    rw [byteSum_block] at hb
    omega
  have hstep : t.step b.checksum.toNat=some ({ t with sum := 0,phase := .skip },true) := by
    simp [step,hph,hzero]
  exact ⟨_,ht.append (Takes.one hstep),rfl,him,hl⟩

theorem run_unsound (h : s.phase=.skip) (b : Block) (hb : ¬b.Sound) (rest : List Int) :
    ∃ t,s.run (ints b.toBytes++rest)=some (t,false) := by
  obtain ⟨t,ht,hph,him,hl,hs⟩ := takes_block h b
  have hne : ¬(t.sum+b.checksum.toNat)%256=0 := by
    rw [hs]
    unfold Block.Sound at hb
    rw [byteSum_block] at hb
    omega
  have hsplit : ints b.toBytes++rest =
      ints (header (b.bytes.length+6) b.addr++b.bytes)++((b.checksum.toNat : Int)::rest) := by
    simp [ints,Block.toBytes]
  rw [hsplit,ht]
  exact ⟨_,by simp only [run,step,hph,if_pos hne]; rfl⟩

theorem takes_piece (h : s.phase=.skip) (p : Piece) :
    ∃ t,s.Takes p.toBytes t ∧ t.phase=.skip ∧ t.image=p.load s.image ∧ t.label=p.entry s.label := by
  cases p with
  | filler b hb =>
    have hne : ¬(b.toNat : Int)=1 := by
      intro h1
      exact hb (eq_of_toNat_eq (by exact_mod_cast h1))
    have hstep : s.step b.toNat=some ({ s with sum := 0 },true) := by
      simp [step,h,hne]
    exact ⟨_,Takes.one hstep,h,rfl,rfl⟩
  | falseStart b hb =>
    have hne : (b.toNat : Int)≠0 := by
      intro h0
      exact hb (eq_of_toNat_eq (by exact_mod_cast h0))
    have hone : s.step ((1 : Byte).toNat : Int) =
        some ({ s with phase := .start,blockByteIdx := 1,sum := 1 },true) := by
      simp [step,h]
    have hsecond : ({ s with phase := .start,blockByteIdx := 1,sum := 1 } : Loader).step b.toNat =
        some ({ s with phase := .skip,blockByteIdx := 1,sum := 1 },true) :=
      if_pos hne
    exact ⟨_,Takes.cons hone (Takes.one hsecond),rfl,rfl,rfl⟩
  | misSized size addr =>
    have hhead := takes_header h (by omega : size.val<2^16) addr
    rw [if_pos size.isLt] at hhead
    exact ⟨_,hhead,rfl,rfl,rfl⟩
  | transfer addr => exact ⟨_,takes_header h (by decide) addr,rfl,rfl,rfl⟩
  | data block hb => exact takes_sound h block hb

theorem takes_tape (h : s.phase=.skip) (ps : List Piece) :
    ∃ t,s.Takes (tape ps) t ∧ t.phase=.skip ∧ t.image=ps.foldl Piece.load s.image ∧
      t.label=ps.foldl Piece.entry s.label := by
  induction ps generalizing s with
  | nil => exact ⟨s,fun _ => rfl,h,rfl,rfl⟩
  | cons p ps ih =>
    obtain ⟨t,ht,hph,him,hl⟩ := takes_piece h p
    obtain ⟨u,hu,hph',him',hl'⟩ := ih hph
    exact ⟨u,ht.append hu,hph',by rw [him',him]; rfl,by rw [hl',hl]; rfl⟩

theorem run_end (h : s.phase=.skip) : s.run [-1]=some ({ s with sum := 0 },true) := by
  simp [run,step,h]

def Within (s : Loader) : Prop :=
  match s.phase with
  | .skip | .checksum => True
  | .start => s.blockByteIdx=1
  | .sizeLow => s.blockByteIdx=2
  | .sizeHigh => s.blockByteIdx=3 ∧ s.blockByteSize<256
  | .addrLow => s.blockByteIdx=4 ∧ s.blockByteSize<65536 ∧
    s.blockDatabyteCount=s.blockByteSize-6
  | .addrHigh => s.blockByteIdx=5 ∧ s.blockByteSize<65536 ∧
    s.blockDatabyteCount=s.blockByteSize-6 ∧ 0 ≤ s.addr ∧ s.addr<256
  | .data => s.blockByteIdx<s.blockByteSize ∧ s.blockByteSize<65536 ∧ 0 ≤ s.addr ∧
    s.addr<65536+s.blockByteIdx

theorem Within.step_some (h : s.Within) (b : Int) : ∃ t,s.step b=some t := by
  unfold Within at h
  unfold step
  cases hp : s.phase with
  | skip | start | addrHigh | checksum => simp only; split_ifs <;> exact ⟨_,rfl⟩
  | sizeLow | sizeHigh | addrLow => exact ⟨_,rfl⟩
  | data =>
    simp only [hp] at h
    have hin : 0 ≤ s.addr ∧ s.addr/2 < memoryWordCount := by
      unfold memoryWordCount
      omega
    simp only [Image.putByte,assert_bind,decide_eq_true hin,if_true]
    exact ⟨_,rfl⟩

theorem Within.step (h : s.Within) (b : Byte) {more : Bool} (ht : s.step b.toNat=some (t,more)) :
    t.Within ∨ more=false := by
  have hb := b.isLt
  unfold Within at h
  unfold Loader.step at ht
  cases hp : s.phase with
  | skip =>
    simp only [hp] at h ht
    split_ifs at ht
    · obtain ⟨rfl,rfl⟩ := Prod.mk.inj (Option.some.inj ht)
      exact .inl rfl
    · obtain ⟨rfl,rfl⟩ := Prod.mk.inj (Option.some.inj ht)
      exact .inl (by simp [Within])
  | start =>
    simp only [hp] at h ht
    split_ifs at ht <;> obtain ⟨rfl,rfl⟩ := Prod.mk.inj (Option.some.inj ht) <;>
      simp [Within,count,h]
  | sizeLow =>
    simp only [hp] at h ht
    obtain ⟨rfl,rfl⟩ := Prod.mk.inj (Option.some.inj ht)
    refine .inl ⟨?_,?_⟩ <;> simp only [count] <;> omega
  | sizeHigh =>
    simp only [hp] at h ht
    obtain ⟨rfl,rfl⟩ := Prod.mk.inj (Option.some.inj ht)
    refine .inl ⟨?_,?_,rfl⟩ <;> simp only [count] <;> omega
  | addrLow =>
    simp only [hp] at h ht
    obtain ⟨rfl,rfl⟩ := Prod.mk.inj (Option.some.inj ht)
    refine .inl ⟨?_,h.2.1,h.2.2,?_,?_⟩ <;> simp only [count] <;> omega
  | addrHigh =>
    simp only [hp,count] at h ht
    split_ifs at ht with h1 h2 <;> obtain ⟨rfl,rfl⟩ := Prod.mk.inj (Option.some.inj ht)
    · exact .inl trivial
    · exact .inl trivial
    · refine .inl ⟨?_,h.2.1,?_,?_⟩ <;> simp only <;> omega
  | checksum =>
    simp only [hp] at h ht
    split_ifs at ht <;> obtain ⟨rfl,rfl⟩ := Prod.mk.inj (Option.some.inj ht)
    · exact .inr rfl
    · exact .inl trivial
  | data =>
    simp only [hp] at h ht
    obtain ⟨image,-,ht⟩ := Option.bind_eq_some_iff.mp ht
    obtain ⟨rfl,rfl⟩ := Prod.mk.inj (Option.some.inj ht)
    left
    by_cases hend : s.blockByteSize ≤ s.blockByteIdx+1
    · simp [Within,count,hend]
    · simp only [Within,count,hend,if_false]
      omega

theorem Within.run (h : s.Within) (bs : List Byte) : ∃ t,s.run (ints bs++[-1])=some t := by
  induction bs generalizing s with
  | nil =>
    obtain ⟨⟨t,more⟩,ht⟩ := h.step_some (-1)
    change ∃ r,s.run [-1]=some r
    simp only [Loader.run,ht]
    cases more <;> exact ⟨_,rfl⟩
  | cons b bs ih =>
    obtain ⟨⟨t,more⟩,ht⟩ := h.step_some b.toNat
    change ∃ r,s.run ((b.toNat : Int)::(ints bs++[-1]))=some r
    rw [Loader.run,ht]
    cases more with
    | true => exact ih ((h.step b ht).resolve_right (by decide))
    | false => exact ⟨_,rfl⟩

end Loader

theorem byteAt_load (m : Image) (p : Piece) (x : Nat) : (p.load m).byteAt x=(p.byteAt x).getD (m.byteAt x) := by
  cases p with
  | data block hb => exact m.byteAt_putBytes _ _ x
  | filler b hb | falseStart b hb | misSized size addr | transfer addr => rfl

theorem valid_load (m : Image) (p : Piece) (w : Nat) : (p.load m).valid w ↔
    m.valid w=true ∨ (p.byteAt (2*w)).isSome ∨ (p.byteAt (2*w+1)).isSome := by
  have hnone (h : ∀ x,p.byteAt x=none) (hm : p.load m=m) : (p.load m).valid w=true ↔
      m.valid w=true ∨ (p.byteAt (2*w)).isSome ∨ (p.byteAt (2*w+1)).isSome := by
    simp [h,hm]
  cases p with
  | data block hb =>
    have hsome (x : Nat) : ((Piece.data block hb).byteAt x).isSome=true ↔
        block.addr.toNat≤x ∧ x<block.addr.toNat+block.bytes.length := by
      change (if block.addr.toNat≤x then block.bytes[x-block.addr.toNat]? else none).isSome=true ↔ _
      by_cases hle : block.addr.toNat≤x
      · rw [if_pos hle,Option.isSome_iff_ne_none,ne_eq,List.getElem?_eq_none_iff]
        omega
      · simp [hle]
    rw [hsome,hsome]
    refine (m.valid_putBytes _ _ w).trans (or_congr_right ?_)
    constructor
    · rintro ⟨x,h1,h2,rfl⟩
      obtain hx | hx : x=2*(x/2) ∨ x=2*(x/2)+1 := by omega
      · exact .inl ⟨hx ▸ h1,hx ▸ h2⟩
      · exact .inr ⟨hx ▸ h1,hx ▸ h2⟩
    · rintro (⟨h1,h2⟩ | ⟨h1,h2⟩)
      all_goals exact ⟨_,h1,h2,by omega⟩
  | filler b hb | falseStart b hb | misSized size addr => exact hnone (fun _ => rfl) rfl
  | transfer addr => exact hnone (fun _ => rfl) rfl

theorem byteAt_tape (ps : List Piece) (m : Image) (x : Nat) :
    (ps.foldl Piece.load m).byteAt x=(written ps x).getD (m.byteAt x) := by
  have hgen (o : Option Byte) (m' : Image) (h : m'.byteAt x=o.getD (m.byteAt x)) :
      (ps.foldl Piece.load m').byteAt x =
        (ps.foldl (fun o p => (p.byteAt x).or o) o).getD (m.byteAt x) := by
    induction ps generalizing o m' with
    | nil => exact h
    | cons p ps ih =>
      apply ih
      rw [byteAt_load,h]
      change _=((p.byteAt x).or o).getD (m.byteAt x)
      cases p.byteAt x <;> rfl
  exact hgen none m rfl

theorem valid_tape (ps : List Piece) (m : Image) (w : Nat) : (ps.foldl Piece.load m).valid w ↔
      m.valid w=true ∨ (written ps (2*w)).isSome ∨ (written ps (2*w+1)).isSome := by
  have hgen (o o' : Option Byte) (m' : Image)
      (h : m'.valid w=true ↔ m.valid w=true ∨ o.isSome ∨ o'.isSome) :
      (ps.foldl Piece.load m').valid w=true ↔ m.valid w=true ∨
        (ps.foldl (fun o p => (p.byteAt (2*w)).or o) o).isSome ∨
        (ps.foldl (fun o p => (p.byteAt (2*w+1)).or o) o').isSome := by
    induction ps generalizing o o' m' with
    | nil => exact h
    | cons p ps ih =>
      apply ih
      rw [valid_load,h]
      simp only [Option.isSome_or,Bool.or_eq_true]
      tauto
  exact hgen none none m (by simp)

/-- What a stream is: a tape, a tape with a bad block behind, or one that stops within a block -/
inductive Splits : List Byte → Prop
  | whole (ps : List Piece) : Splits (tape ps)
  | bad (ps : List Piece) (b : Block) (rest : List Byte) (h : ¬b.Sound) :
    Splits (tape ps++b.toBytes++rest)
  | cut (ps : List Piece) (tail : List Byte) (h : Truncated tail) : Splits (tape ps++tail)

theorem tape_cons (p : Piece) (ps : List Piece) : tape (p::ps)=p.toBytes++tape ps :=
  flatMap_cons

theorem Splits.cons (p : Piece) {stream : List Byte} (h : Splits stream) : Splits (p.toBytes++stream) := by
  cases h with
  | whole ps => exact .whole (p::ps)
  | bad ps b rest hb =>
    have hs := Splits.bad (p::ps) b rest hb
    rw [tape_cons] at hs
    simpa only [append_assoc] using hs
  | cut ps tail ht =>
    have hs := Splits.cut (p::ps) tail ht
    rw [tape_cons] at hs
    simpa only [append_assoc] using hs

theorem Piece.toBytes_pos (p : Piece) : 0<p.toBytes.length := by
  cases p <;> simp [Piece.toBytes,header,Block.toBytes]

theorem header_of_bytes (x y z w : Byte) : [1,0,x,y,z,w] =
    header (x.toNat+256*y.toNat) (BitVec.ofNat 16 (z.toNat+256*w.toNat)) := by
  have hx := x.isLt
  have hy := y.isLt
  have hz := z.isLt
  have hw := w.isLt
  have hlow (a b : Byte) (n : Nat) (h : n=a.toNat+256*b.toNat) :
      BitVec.ofNat 8 n=a ∧ BitVec.ofNat 8 (n/256)=b := by
    constructor <;> apply eq_of_toNat_eq <;> rw [toNat_ofNat] <;> omega
  have haddr : (BitVec.ofNat 16 (z.toNat+256*w.toNat)).toNat=z.toNat+256*w.toNat := by
    rw [toNat_ofNat]
    omega
  rw [header,haddr,(hlow x y _ rfl).1,(hlow x y _ rfl).2,(hlow z w _ rfl).1,(hlow z w _ rfl).2]

theorem first_long (stream : List Byte) (h : 70000 ≤ stream.length) :
    (∃ (p : Piece) (rest : List Byte),stream=p.toBytes++rest) ∨
      ∃ (b : Block) (rest : List Byte),¬b.Sound ∧ stream=b.toBytes++rest := by
  match stream,h with
  | b::c::rest,h =>
    by_cases hb : b=1
    · subst hb
      by_cases hc : c=0
      · subst hc
        match rest,h with
        | x::y::z::w::rest,h =>
          have hx := x.isLt
          have hy := y.isLt
          have hhead := header_of_bytes x y z w
          have hstream : (1 : Byte)::0::x::y::z::w::rest =
              header (x.toNat+256*y.toNat) (BitVec.ofNat 16 (z.toNat+256*w.toNat))++rest := by
            rw [← hhead]
            rfl
          rw [hstream]
          generalize BitVec.ofNat 16 (z.toNat+256*w.toNat)=addr
          generalize hsize : x.toNat+256*y.toNat=size
          obtain hlt | rfl | hgt : size<6 ∨ size=6 ∨ 6<size := by omega
          · exact .inl ⟨.misSized ⟨size,hlt⟩ addr,rest,rfl⟩
          · exact .inl ⟨.transfer addr,rest,rfl⟩
          · simp only [length_cons] at h
            have hlen : (rest.take (size-6)).length=size-6 := by
              rw [length_take]
              omega
            obtain ⟨sum,more,hmore⟩ : ∃ sum more,rest.drop (size-6)=sum::more :=
              exists_cons_of_ne_nil (by
                intro hnil
                have := congrArg List.length hnil
                rw [length_drop,length_nil] at this
                omega)
            have hne : rest.take (size-6)≠[] := by
              intro hnil
              rw [hnil,length_nil] at hlen
              omega
            let block : Block := ⟨addr,rest.take (size-6),sum,hne,by rw [hlen]; omega⟩
            have hblock : header size addr++rest=block.toBytes++more := by
              simp only [Block.toBytes,block,hlen,Nat.sub_add_cancel hgt.le,append_assoc]
              congr 1
              rw [singleton_append,← hmore,take_append_drop]
            rw [hblock]
            by_cases hs : block.Sound
            · exact .inl ⟨.data block hs,more,rfl⟩
            · exact .inr ⟨block,more,hs,rfl⟩
        | [],h => simp at h
        | [_],h => simp at h
        | [_,_],h => simp at h
        | [_,_,_],h => simp at h
      · exact .inl ⟨.falseStart c hc,rest,rfl⟩
    · exact .inl ⟨.filler b hb,c::rest,rfl⟩
  | [],h => simp at h
  | [_],h => simp at h

/-- Of bytes that begin with a whole, the bytes without what was put behind them begin with it too, or
are cut off in it. -/
theorem begins_or_cut {stream more whole rest : List Byte} (h : stream++more=whole++rest) :
    (∃ rest',stream=whole++rest') ∨ ∃ ext≠[],whole=stream++ext := by
  obtain ⟨a,rfl,ha⟩ | ⟨a,rfl,ha⟩ := append_eq_append_iff.mp h
  · cases a with
    | nil => exact .inl ⟨[],by simp⟩
    | cons x a => exact .inr ⟨x::a,cons_ne_nil _ _,rfl⟩
  · exact .inl ⟨a,rfl⟩

theorem splits (stream : List Byte) : Splits stream := by
  induction hn : stream.length using Nat.strongRecOn generalizing stream with
  | ind n ih =>
    by_cases hnil : stream=[]
    · subst hnil
      exact .whole []
    · obtain ⟨p,rest,hp⟩ | ⟨b,rest,hb,hp⟩ := first_long (stream++List.replicate 70000 0)
          (by rw [length_append,length_replicate]; exact Nat.le_add_left ..)
      · obtain ⟨rest',rfl⟩ | ⟨ext,hne,hext⟩ := begins_or_cut hp
        · have hpos := p.toBytes_pos
          rw [length_append] at hn
          exact (ih rest'.length (by omega) rest' rfl).cons p
        · exact .cut [] stream ⟨ext,hne,.inl ⟨p,hext⟩⟩
      · obtain ⟨rest',rfl⟩ | ⟨ext,hne,hext⟩ := begins_or_cut hp
        · exact .bad [] b rest' hb
        · exact .cut [] stream ⟨ext,hne,.inr ⟨b,hext⟩⟩

end QUniLator.Memory
