import QUniLator.Tape.Simh
import Mathlib.Data.Nat.Bitwise

/-! What a well-formed `.tap` file holds. -/

namespace QUniLator.Tape

/-- What a tape is made of. A record has a length its marker can give. -/
inductive Object where
  | record (data : List UInt8) (bad : Bool) (fits : 0<data.length ∧ data.length ≤ mtrMaxlen)
  | mark

/-- What a file is made of: objects, with the byte that makes a record's length even, and gaps. -/
inductive Item where
  | object (o : Object) (pad : UInt8)
  | gap

def recordMarker (len : Nat) (bad : Bool) : Nat := len+if bad then mtrErf else 0

def Item.bytes : Item → List UInt8
  | object (.record data bad _) pad =>
    lePut 4 (recordMarker data.length bad)++(data++((if data.length%2=1 then [pad] else []) ++
      lePut 4 (recordMarker data.length bad)))
  | object .mark _ => lePut 4 mtrTmk
  | gap => lePut 4 mtrGap

def bytes (xs : List Item) : List UInt8 := xs.flatMap Item.bytes

def eomBytes (eom : Bool) : List UInt8 := if eom then lePut 4 mtrEom else []

def Item.object? : Item → Option Object
  | object o _ => some o
  | gap => none

def objects (xs : List Item) : List Object := xs.filterMap Item.object?

def gaps (k : Nat) : List Item := List.replicate k .gap

/-- An open tape whose file holds the items `xs` before the position and `ys` after it. -/
structure Laid (t : Tape) (xs ys : List Item) (eom : Bool) : Prop where
  f : t.f=.ofBytes (bytes xs++(bytes ys++eomBytes eom))
  isOpen : t.isOpen=true
  pos : t.pos=(bytes xs).length
  size : t.size=t.f.size

@[simp] theorem bytes_nil : bytes []=[] := rfl

@[simp] theorem bytes_cons (x : Item) (xs : List Item) : bytes (x::xs)=x.bytes++bytes xs := rfl

@[simp] theorem bytes_append (xs ys : List Item) : bytes (xs++ys)=bytes xs++bytes ys := by
  simp [bytes]

@[simp] theorem objects_append (xs ys : List Item) : objects (xs++ys)=objects xs++objects ys := by
  simp [objects]

@[simp] theorem objects_gaps (k : Nat) : objects (gaps k)=[] := by
  simp [objects,gaps,Item.object?]

theorem bytes_gaps (k : Nat) : (bytes (gaps k)).length=4*k := by
  induction k with
  | zero => rfl
  | succ k ih =>
    rw [gaps,List.replicate_succ,bytes_cons,List.length_append,Item.bytes,lePut_length]
    rw [gaps] at ih
    omega

theorem record_length (data : List UInt8) (bad : Bool) (h) (pad : UInt8) :
    (Item.object (.record data bad h) pad).bytes.length=4+padded data.length+4 := by
  simp only [Item.bytes,List.length_append,lePut_length,padded]
  split_ifs <;> simp <;> omega

theorem record_trailer (data : List UInt8) (bad : Bool) (h) (pad : UInt8) :
    ∃ front,front.length+4=4+padded data.length+4 ∧ (Item.object (.record data bad h) pad).bytes =
      front++lePut 4 (recordMarker data.length bad) := by
  have hl := record_length data bad h pad
  refine ⟨lePut 4 (recordMarker data.length bad) ++
    (data++if data.length%2=1 then [pad] else []),?_,by simp [Item.bytes]⟩
  rw [← hl]
  simp only [Item.bytes,List.length_append,lePut_length]
  omega

theorem recordMarker_lt (len : Nat) (bad : Bool) (h : len ≤ mtrMaxlen) : recordMarker len bad<2^32 := by
  unfold recordMarker mtrErf
  unfold mtrMaxlen at h
  split_ifs <;> omega

theorem recordMarker_len (len : Nat) (bad : Bool) (h : len ≤ mtrMaxlen) : recordMarker len bad &&& mtrMaxlen=len := by
  rw [show mtrMaxlen=2^24-1 from rfl,Nat.and_two_pow_sub_one_eq_mod]
  unfold recordMarker mtrErf
  unfold mtrMaxlen at h
  split_ifs <;> omega

theorem recordMarker_bad (len : Nat) (bad : Bool) (h : len ≤ mtrMaxlen) :
    recordMarker len bad &&& mtrErf≠0 ↔ bad=true := by
  rw [show mtrErf=2^31 from rfl,Nat.and_two_pow]
  unfold recordMarker mtrErf
  unfold mtrMaxlen at h
  cases bad with
  | true =>
    have hb : (len+0x80000000).testBit 31=true := by
      rw [Nat.testBit_eq_decide_div_mod_eq]
      simp
      omega
    simp [hb]
  | false =>
    have hb : len.testBit 31=false := Nat.testBit_lt_two_pow (by omega)
    simp [hb]

theorem recordMarker_plain (len : Nat) (bad : Bool) (h : 0<len ∧ len ≤ mtrMaxlen) :
    recordMarker len bad≠mtrTmk ∧ recordMarker len bad≠mtrEom ∧ recordMarker len bad≠mtrGap := by
  unfold recordMarker mtrErf mtrTmk mtrEom mtrGap
  unfold mtrMaxlen at h
  split_ifs <;> omega

theorem readMarker_eq {t : Tape} {as cs : List UInt8} {m : Nat}
    (hf : t.f=.ofBytes (as++(lePut 4 m++cs))) (hs : t.size=t.f.size) (hm : m<2^32)
    {at_ : Nat} (ha : at_=as.length) : t.readMarker at_=some m := by
  have hr := File.ofBytes_pread as (lePut 4 m) cs
  rw [lePut_length] at hr
  have hsize : ¬t.size<at_+4 := by
    rw [hs,hf,File.ofBytes_size,ha]
    simp
  rw [readMarker,if_neg hsize,hf,ha]
  simp only [hr,lePut_length,if_true,leGet_lePut]
  rw [Nat.mod_eq_of_lt (by omega)]

end QUniLator.Tape
