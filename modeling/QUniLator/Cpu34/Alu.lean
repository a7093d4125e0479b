import QUniLator.Cpu34.Kd11ea

/-! What the instructions compute: results and condition codes. -/

namespace QUniLator.Cpu34

def sgn (w : Word) : Bool := w.getLsbD 15

def sxt (w : Word) : Word := (w.setWidth 8).signExtend 16

def toUint (w : Word) : Uint := w.setWidth 32

/-- A `uint` where a `word` is wanted. -/
def toWord (b : Uint) : Word := b.setWidth 16

namespace Cc

def clear (cc bits : Cc) : Cc := cc &&& ~~~bits

def setIf (cc : Cc) (c : Bool) (bits : Cc) : Cc := if c then cc ||| bits else cc

def isSet (cc bits : Cc) : Bool := cc &&& bits≠0

def setnz (cc : Cc) (w : Word) : Cc :=
  setIf (setIf (clear cc (ccN ||| ccZ)) (sgn w) ccN) (w=0) ccZ

def setShiftV (cc : Cc) : Cc := setIf cc ((cc >>> 3 ^^^ cc).getLsbD 0) ccV

end Cc

open Cc

abbrev Double := Cc → Word → Word → Uint × Cc

def opMov : Double := fun cc sr _ => (toUint sr,setnz (clear cc ccV) sr)

def opCmp (by_ : Bool) : Double := fun cc sr dr =>
  let cc := clear cc (ccV ||| ccC)
  let b := toUint sr+toUint (~~~dr)+1
  let cc := setIf cc (b &&& 0o200000=0) ccC
  let b := if by_ then toUint (sxt (toWord b)) else b
  let cc := setIf cc (sgn ((sr ^^^ dr) &&& ~~~(dr ^^^ toWord b))) ccV
  (b,setnz cc (toWord b))

def opBit : Double := fun cc sr dr =>
  let b := dr &&& sr
  (toUint b,setnz (clear cc ccV) b)

def opBic : Double := fun cc sr dr =>
  let b := dr &&& ~~~sr
  (toUint b,setnz (clear cc ccV) b)

def opBis : Double := fun cc sr dr =>
  let b := dr ||| sr
  (toUint b,setnz (clear cc ccV) b)

def opAdd : Double := fun cc sr dr =>
  let cc := clear cc (ccV ||| ccC)
  let b := toUint sr+toUint dr
  let cc := setIf cc (b &&& 0o200000≠0) ccC
  let cc := setIf cc (sgn (~~~(sr ^^^ dr) &&& (dr ^^^ toWord b))) ccV
  (b,setnz cc (toWord b))

def opSub : Double := fun cc sr dr =>
  let cc := clear cc (ccV ||| ccC)
  let b := toUint dr+toUint (~~~sr)+1
  let cc := setIf cc (b &&& 0o200000=0) ccC
  let cc := setIf cc (sgn ((sr ^^^ dr) &&& (dr ^^^ toWord b))) ccV
  (b,setnz cc (toWord b))

abbrev Single := Cc → Word → Word × Cc

def bxt (by_ : Bool) (b : Word) : Word := if by_ then sxt b else b

def opClr : Single := fun cc _ => (0,setnz (clear cc (ccV ||| ccC)) 0)

def opCom : Single := fun cc sr =>
  let b := ~~~sr
  (b,setnz (setIf (clear cc ccV) true ccC) b)

def opInc (by_ : Bool) : Single := fun cc sr =>
  let b := bxt by_ (sr+1)
  (b,setnz (setIf (clear cc ccV) (sgn (~~~sr &&& b)) ccV) b)

def opDec (by_ : Bool) : Single := fun cc sr =>
  let b := bxt by_ (sr-1)
  (b,setnz (setIf (clear cc ccV) (sgn (sr &&& ~~~b)) ccV) b)

def opNeg (by_ : Bool) : Single := fun cc sr =>
  let b := bxt by_ (-sr)
  let cc := setIf (clear cc (ccV ||| ccC)) (b≠0) ccC
  (b,setnz (setIf cc (sgn (b &&& sr)) ccV) b)

def opAdc (by_ : Bool) : Single := fun cc sr =>
  let c : Uint := if isSet cc ccC then 1 else 0
  let b := toUint sr+c
  let cc := setIf (clear cc (ccV ||| ccC)) (b &&& 0o200000≠0) ccC
  let b := bxt by_ (toWord b)
  (b,setnz (setIf cc (sgn (~~~sr &&& b)) ccV) b)

def opSbc (by_ : Bool) : Single := fun cc sr =>
  let c := isSet cc ccC
  let b := if c then sr-1 else sr
  let cc := setIf (clear cc (ccV ||| ccC)) (c && sr=0) ccC
  let b := bxt by_ b
  (b,setnz (setIf cc (sgn (sr &&& ~~~b)) ccV) b)

def opTst : Single := fun cc sr => (sr,setnz (clear cc (ccV ||| ccC)) sr)

def opRor (by_ : Bool) : Single := fun cc sr =>
  let mask : Word := if by_ then 0o377 else 0o177777
  let sign : Word := if by_ then 0o200 else 0o100000
  let b := (sr &&& mask) >>> 1
  let b := if isSet cc ccC then b ||| sign else b
  let b := bxt by_ b
  (b,setShiftV (setnz (setIf (clear cc (ccV ||| ccC)) (sr.getLsbD 0) ccC) b))

def opRol (by_ : Bool) : Single := fun cc sr =>
  let mask : Word := if by_ then 0o377 else 0o177777
  let b := (sr <<< 1) &&& mask
  let b := if isSet cc ccC then b ||| 1 else b
  let b := bxt by_ b
  (b,setShiftV (setnz (setIf (clear cc (ccV ||| ccC)) (sgn sr) ccC) b))

def opAsr (by_ : Bool) : Single := fun cc sr =>
  let b := bxt by_ ((sr >>> 1) ||| (sr &&& 0o100000))
  (b,setShiftV (setnz (setIf (clear cc (ccV ||| ccC)) (sr.getLsbD 0) ccC) b))

def opAsl (by_ : Bool) : Single := fun cc sr =>
  let b := bxt by_ (sr <<< 1)
  (b,setShiftV (setnz (setIf (clear cc (ccV ||| ccC)) (sgn sr) ccC) b))

def opSwab : Single := fun cc dr =>
  let b := (dr <<< 8) ||| (dr >>> 8)
  let cc := clear (clear cc (ccV ||| ccC)) (ccN ||| ccZ)
  (b,setIf (setIf cc (b &&& 0o200≠0) ccN) (b &&& 0o377=0) ccZ)

/-- The pair of registers `reg` and `reg|1` as one number, and the pair with the high and the low half
of one. An odd register holds what is stored last. -/
def pair (r : BitVec 4 → Word) (reg : BitVec 4) : Uint := r reg++r (reg ||| 1)

def eisMul (v1 v2 : Word) : Uint × Cc :=
  let prod := v1.signExtend 32*v2.signExtend 32
  let cc := setIf 0 (prod.toInt < -32768 || 32767<prod.toInt) ccC
  (prod,setIf (setIf cc (prod=0) ccZ) (prod.getLsbD 31) ccN)

/-- The quotient and the remainder of DIV, where it stores them, and the condition codes. -/
def eisDiv (prod : Uint) (dr : Word) : Option (Word × Word) × Cc :=
  if dr=0 then (none,ccC ||| ccV)
  else if prod.toInt = -2147483648 && dr.toInt = -1 then (none,ccV ||| ccZ)
  else
    let quot := prod.toInt.tdiv dr.toInt
    let rem := prod.toInt.tmod dr.toInt
    let q := BitVec.ofInt 16 quot
    let tooBig := quot < -32768 || 32767<quot
    (if tooBig then none else some (q,BitVec.ofInt 16 rem),
      setIf (setIf (setIf 0 tooBig ccV) (sgn q) ccN) (q=0) ccZ)

/-- The loop of the left shifts, `sh` rounds. `top` is the number of the sign bit. -/
def shiftLeft (top : Nat) : Nat → Uint → Cc → Uint × Cc
  | 0,b,cc => (b,cc)
  | sh+1,b,cc =>
    let cc := setIf (clear cc ccC) (b.getLsbD top) ccC
    shiftLeft top sh (b <<< 1) (setIf cc ((b ^^^ b <<< 1).getLsbD top) ccV)

/-- The result and the condition codes of ASH; C stays where nothing is shifted. -/
def eisAsh (cc : Cc) (v dr : Word) : Word × Cc :=
  let cc := clear cc (ccN ||| ccZ ||| ccV)
  let sh := (dr &&& 0o77).toNat
  if 32 ≤ sh then
    let sh := 64-sh
    let mask : Word := if sgn v then 0o177777 else 0
    if 17 ≤ sh then (mask,setnz (setIf (clear cc ccC) (mask≠0) ccC) mask)
    else
      let cc := setIf (clear cc ccC) (v.getLsbD (sh-1)) ccC
      let b := v >>> sh ||| mask <<< (16-sh)
      (b,setIf (setnz cc b) (sgn b) ccN)
  else if sh=0 then (v,setnz cc v)
  else if 17 ≤ sh then (0,setIf (clear (setIf cc (v≠0) ccV) ccC) true ccZ)
  else
    let (b,cc) := shiftLeft 15 sh (toUint v) cc
    (toWord b,setnz cc (toWord b))

def eisAshc (cc : Cc) (val : Uint) (dr : Word) : Uint × Cc :=
  let cc := clear cc (ccN ||| ccZ ||| ccV)
  let sh := (dr &&& 0o77).toNat
  let (val,cc) :=
    if 32 ≤ sh then
      let sh := 64-sh
      let msk : Uint := if val.getLsbD 31 then 0xffffffff else 0
      if 32 ≤ sh then (msk,setIf (clear cc ccC) (msk≠0) ccC)
      else (val >>> sh ||| msk <<< (32-sh),setIf (clear cc ccC) (val.getLsbD (sh-1)) ccC)
    else shiftLeft 31 sh val cc
  (val,setIf (setIf cc (val=0) ccZ) (val.getLsbD 31) ccN)

def eisXor (cc : Cc) (v dr : Word) : Word × Cc :=
  let b := dr ^^^ v
  (b,setnz (setIf (clear cc (ccN ||| ccZ ||| ccV)) (sgn b) ccN) b)

end QUniLator.Cpu34
