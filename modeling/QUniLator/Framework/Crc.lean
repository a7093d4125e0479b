import Mathlib.Data.BitVec
import Mathlib.Logic.Function.Iterate

/-! Cyclic redundancy codes: the remainder of a message, taken bit by bit. -/

namespace QUniLator.Crc

open BitVec Function

variable {w : Nat} (poly : BitVec w)

def shift (c : BitVec w) : BitVec w := if c.msb then c <<< 1 ^^^ poly else c <<< 1

def front (w : Nat) (b : Bool) : BitVec w := if b then twoPow w (w-1) else 0

def remainder (c : BitVec w) (bs : List Bool) : BitVec w := bs.foldl (fun c b => shift poly (c ^^^ front w b)) c

/-- The bits in front of zeros -/
def top (w : Nat) : List Bool → BitVec w
  | [] => 0
  | b::bs => front w b ^^^ top w bs >>> 1

variable {poly}

theorem eq_of_shiftLeft {c d : BitVec w} (hm : c.msb=d.msb) (h : c <<< 1=d <<< 1) : c=d := by
  ext i hi
  by_cases hl : i+1<w
  · have hb := congrArg (getLsbD · (i+1)) h
    simpa [hl,getLsbD_eq_getElem hi] using hb
  · obtain rfl : i=w-1 := by omega
    simpa [msb_eq_getLsbD_last,getLsbD_eq_getElem hi] using hm

theorem shift_injective (hp : poly.getLsbD 0) : Injective (shift poly) := by
  intro c d h
  have hw : 0<w := lt_of_getLsbD hp
  have hbit (x : BitVec w) : (shift poly x).getLsbD 0=x.msb := by
    unfold shift
    cases x.msb <;> simp [hp,hw]
  have hm : c.msb=d.msb := by rw [← hbit,← hbit,h]
  apply eq_of_shiftLeft hm
  unfold shift at h
  rw [hm] at h
  split_ifs at h
  · exact (xor_left_inj _).mp h
  · exact h

theorem shift_xor (c : BitVec w) {y : BitVec w} (h : y.msb=false) : shift poly (c ^^^ y)=shift poly c ^^^ y <<< 1 := by
  unfold shift
  rw [msb_xor,h,Bool.xor_false,shiftLeft_xor_distrib]
  split_ifs
  · rw [xor_assoc,xor_assoc,BitVec.xor_comm poly]
  · rfl

theorem top_low (bs : List Bool) (i : Nat) (hi : i+bs.length<w) : (top w bs).getLsbD i=false := by
  induction bs generalizing i with
  | nil => simp [top]
  | cons b bs ih =>
    rw [List.length_cons] at hi
    have hf : (front w b).getLsbD i=false := by
      unfold front
      split_ifs <;> simp
      omega
    rw [top,getLsbD_xor,hf,getLsbD_ushiftRight,ih (1+i) (by omega)]
    rfl

theorem top_back (bs : List Bool) (h : bs.length<w) : (top w bs >>> 1) <<< 1=top w bs := by
  ext i hi
  rw [getElem_shiftLeft]
  cases i with
  | zero => simpa using ((getLsbD_eq_getElem hi).symm.trans (top_low bs 0 (by omega))).symm
  | succ i => simp [Nat.add_comm 1,getLsbD_eq_getElem hi]

theorem msb_shifted (x : BitVec w) : (x >>> 1).msb=false := by
  rw [msb_ushiftRight]
  simp

/-- As many bits as the remainder has are that much of its start. -/
theorem remainder_top (c : BitVec w) (bs : List Bool) (h : bs.length≤w) :
    remainder poly c bs=(shift poly)^[bs.length] (c ^^^ top w bs) := by
  induction bs generalizing c with
  | nil => simp [remainder,top]
  | cons b bs ih =>
    rw [List.length_cons] at h
    have hr : remainder poly c (b::bs)=remainder poly (shift poly (c ^^^ front w b)) bs := rfl
    rw [hr,ih _ (by omega),List.length_cons,iterate_succ_apply,top,← xor_assoc,
      shift_xor _ (msb_shifted _),top_back bs h]

theorem top_injective {x y : List Bool} (hl : x.length=y.length) (h : x.length≤w) (he : top w x=top w y) : x=y := by
  induction x generalizing y with
  | nil => exact (List.eq_nil_of_length_eq_zero hl.symm).symm
  | cons a x ih =>
    cases y with
    | nil => cases hl
    | cons b y =>
      simp only [List.length_cons] at h hl
      have hmsb (c : Bool) (z : List Bool) : (top w (c::z)).msb=c := by
        rw [top,msb_xor,msb_shifted,front]
        cases c <;> simp [msb_eq_getLsbD_last]
        omega
      obtain rfl : a=b := by rw [← hmsb a x,← hmsb b y,he]
      have hs : top w x >>> 1=top w y >>> 1 := (xor_right_inj _).mp he
      rw [ih (Nat.succ.inj hl) (by omega) (by rw [← top_back x h,hs,top_back y (by omega)])]

/-- Two messages that differ within a run of bits no longer than the remainder have different remainders. -/
theorem burst (hp : poly.getLsbD 0) (c : BitVec w) {pre x y suf : List Bool} (hl : x.length=y.length)
    (hx : x.length≤w) (h : remainder poly c (pre++x++suf)=remainder poly c (pre++y++suf)) : x=y := by
  have hs := shift_injective hp
  simp only [remainder,List.foldl_append] at h
  have hsuf (suf : List Bool) : Injective (remainder poly · suf) := by
    induction suf with
    | nil => exact injective_id
    | cons b suf ih => exact ih.comp (hs.comp fun c d hcd => (xor_left_inj _).mp hcd)
  have h := hsuf suf h
  change remainder poly _ x=remainder poly _ y at h
  rw [remainder_top _ x hx,remainder_top _ y (hl ▸ hx),hl] at h
  exact top_injective hl hx ((xor_right_inj _).mp (hs.iterate _ h))

end QUniLator.Crc
