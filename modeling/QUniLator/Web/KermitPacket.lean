import Mathlib.Data.List.Basic

namespace QUniLator.Web.Kermit

open List Bool

def tochar (x : Nat) : Nat := x+32

def unchar (c : Nat) : Int := c-32

def ctl (c : Nat) : Nat := c ^^^ 64

def mark : Nat := 0x01

/-- `KermitPacket` -/
structure Packet where
  seq : Int
  type : Char
  data : List Nat
  deriving DecidableEq,Repr

def kermitCheck (chars : List Nat) : Nat :=
  let s := chars.foldr (·+·) 0
  tochar ((s+((s &&& 192) >>> 6)) &&& 63)

def packetBody (seq : Nat) (type : Char) (data : List Nat) : List Nat :=
  tochar (data.length+3)::tochar (seq &&& 63)::type.toNat::data

def kermitPacket (seq : Nat) (type : Char) (data : List Nat) (eol npad padc : Nat) : List Nat :=
  (replicate npad padc++mark::packetBody seq type data ++
    [kermitCheck (packetBody seq type data),eol]).map (· % 256)

def packetOf (len : Nat) (chars : List Nat) : Option Packet :=
  match (len::chars).dropLast,(len::chars).getLast? with
  | body@(_::seq::type::data),some check =>
    if kermitCheck body=check then some ⟨unchar seq,Char.ofNat type,data⟩ else none
  | _,_ => none

/-- `kermitReceive`, from the line `bs` in one timeout, by at most `fuel` bytes: the next good packet. A mark
in a packet begins the search again behind it. -/
def receiveFrom : Nat → List Nat → Option Packet
  | 0,_ => none
  | _+1,[] => none
  | _+1,[_] => none
  | fuel+1,b::len::bs =>
    if b % 128≠mark then receiveFrom fuel (len::bs)
    else if len % 128=mark ∨ unchar (len % 128)<3 then receiveFrom fuel bs else
      let n := (unchar (len % 128)).toNat
      let body := (bs.map (· % 128)).takeWhile (·≠mark)
      if body.length<n then
        if bs.length=body.length then none else receiveFrom fuel (bs.drop (body.length+1))
      else
        match packetOf (len % 128) (body.take n) with
        | some p => some p
        | none => receiveFrom fuel (bs.drop n)

def kermitReceive (bs : List Nat) : Option Packet := receiveFrom bs.length bs

def kermitEncode (b : Nat) (qbin : Bool) : List Nat :=
  let c := if qbin ∧ b &&& 0x80≠0 then b &&& 0x7f else b
  (if qbin ∧ b &&& 0x80≠0 then [0x26] else []) ++
    if c<32 ∨ c=127 then [0x23,ctl c]
    else if c=0x23 ∨ (qbin ∧ c=0x26) then [0x23,c]
    else [c]

/-- The prefixes the receiver agreed to, 0 for none -/
structure Prefixes where
  qctl : Nat
  qbin : Nat
  rept : Nat
  deriving DecidableEq,Repr

def takeRept (q : Prefixes) (c : Nat) : List Nat → Int × Nat × List Nat
  | n::d::rest => if q.rept≠0 ∧ c=q.rept then (unchar n,d,rest) else (1,c,n::d::rest)
  | rest => (1,c,rest)

def takeBit8 (q : Prefixes) (c : Nat) : List Nat → Nat × Nat × List Nat
  | d::rest => if q.qbin≠0 ∧ c=q.qbin then (0x80,d,rest) else (0,c,d::rest)
  | [] => (0,c,[])

def takeCtl (q : Prefixes) (c : Nat) : List Nat → Nat × List Nat
  | d::rest =>
    if c=q.qctl then (if 0x3f≤d &&& 0x7f ∧ d &&& 0x7f≤0x5f then ctl d else d,rest) else (c,d::rest)
  | [] => (c,[])

/-- `decode`, by at most `fuel` characters -/
def decodeFrom (q : Prefixes) : Nat → List Nat → List Nat
  | 0,_ => []
  | _+1,[] => []
  | fuel+1,c::data =>
    let (count,c,data) := takeRept q c data
    let (bit8,c,data) := takeBit8 q c data
    let (c,data) := takeCtl q c data
    replicate count.toNat (c ||| bit8)++decodeFrom q fuel data

def decode (q : Prefixes) (data : List Nat) : List Nat := decodeFrom q data.length data

/-- `kermitText`, behind the byte `before` -/
def textFrom (before : Option UInt8) : List UInt8 → List UInt8
  | [] => []
  | b::bs =>
    if b=0x0a ∧ before≠some 0x0d then 0x0d::b::textFrom (some b) bs else b::textFrom (some b) bs

def kermitText (data : List UInt8) : List UInt8 := textFrom none data

def textToLf : List UInt8 → List UInt8
  | b::c::bs => if b=0x0d ∧ c=0x0a then textToLf (c::bs) else b::textToLf (c::bs)
  | bs => bs

def lineTerminators : List Nat := [0x0a,0x0d,0x2028,0x2029]

/-- `replace(/^.*[seps]/, '')` -/
def stripPath (seps name : List Nat) : List Nat :=
  let line := name.takeWhile (· ∉ lineTerminators)
  name.drop (line.reverse.dropWhile (· ∉ seps)).length

def fileName : List Nat := [0x46,0x49,0x4c,0x45]

def orFile (name : List Nat) : List Nat := if name=[] then fileName else name

/-- A character that `kermitName` keeps -/
def plain (c : Nat) : Bool :=
  (0x41 ≤ c && c≤0x5a) || (0x61 ≤ c && c≤0x7a) || (0x30 ≤ c && c≤0x39) || c == 0x2e || c == 0x5f || c == 0x2d

def kermitName (name : List Nat) : List Nat :=
  orFile ((stripPath [0x5c,0x2f] name).map fun c => if plain c then c else 0x5f)

def receivedName (q : Prefixes) (data : List Nat) : List Nat :=
  orFile (stripPath [0x5c,0x2f,0x5d,0x3a,0x3e] (decode q data))

/-- A character, or one behind the control prefix -/
inductive Quoted
  | plain (c : Nat)
  | control (c : Nat)
  | quoted (c : Nat)
  deriving DecidableEq,Repr

/-- What stands for a byte, or for so many of it -/
structure Item where
  count : Option Nat
  bit8 : Bool
  char : Quoted
  deriving DecidableEq,Repr

def Prefixes.active (q : Prefixes) (c : Nat) : Bool :=
  c=q.qctl || q.qbin≠0 && c=q.qbin || q.rept≠0 && c=q.rept

/-- A printable character that is no prefix; a control character with bit 6 flipped; a prefix -/
def Quoted.formed (q : Prefixes) : Quoted → Bool
  | .plain c => 0x20 ≤ c && c<0x7f && !q.active c
  | .control c => 0x3f ≤ c && c≤0x5f
  | .quoted c => q.active c

def Quoted.chars (q : Prefixes) : Quoted → List Nat
  | .plain c => [c]
  | .control c | .quoted c => [q.qctl,c]

def Quoted.value : Quoted → Nat
  | .plain c | .quoted c => c
  | .control c => ctl c

namespace Item
variable (q : Prefixes) (x : Item)

def formed : Bool :=
  x.char.formed q && (!x.bit8 || q.qbin≠0) && x.count.all fun n => q.rept≠0 && n≤94

def single : List Nat := (if x.bit8 then [q.qbin] else [])++x.char.chars q

def chars : List Nat :=
  match x.count with
  | some n => q.rept::tochar n::x.single q
  | none => x.single q

def value : List Nat := replicate (x.count.getD 1) (x.char.value ||| if x.bit8 then 0x80 else 0)

end Item

/-- Flipping bit 6 of the character makes a control character. -/
def flips (c : Nat) : Bool := 0x3f ≤ c &&& 0x7f && c &&& 0x7f≤0x5f

namespace Prefixes

/-- What the negotiation sees to by itself -/
structure Settled (q : Prefixes) : Prop where
  qbin : flips q.qbin=false
  rept : q.rept≠0 → q.rept≠q.qctl ∧ q.rept≠q.qbin

/-- The two prefixes that are always there differ, and no prefix behind the control prefix is taken for a control
character. -/
structure Fit (q : Prefixes) : Prop where
  qbin : q.qbin≠0 → q.qbin≠q.qctl
  qctl : flips q.qctl=false
  rept : flips q.rept=false

variable {q : Prefixes}

theorem takeRept_plain {c : Nat} (h : q.rept≠0 → c≠q.rept) (data : List Nat) : takeRept q c data=(1,c,data) := by
  unfold takeRept
  split
  · exact if_neg fun hx => h hx.1 hx.2
  · rfl

theorem takeBit8_plain {c : Nat} (h : q.qbin≠0 → c≠q.qbin) (data : List Nat) : takeBit8 q c data=(0,c,data) := by
  cases data with
  | nil => rfl
  | cons d rest => exact if_neg fun hx => h hx.1 hx.2

theorem takeCtl_plain {c : Nat} (h : c≠q.qctl) (data : List Nat) : takeCtl q c data=(c,data) := by
  cases data with
  | nil => rfl
  | cons d rest => exact if_neg h

theorem takeCtl_quoted (c : Nat) (rest : List Nat) :
    takeCtl q q.qctl (c::rest)=(if flips c then ctl c else c,rest) := by
  simp [takeCtl,flips]

theorem flips_control : ∀ c<0x60,0x3f ≤ c → flips c=true := by decide

theorem active_flips (h : q.Fit) (hs : q.Settled) {c : Nat} (hc : q.active c) : flips c=false := by
  simp only [active,or_eq_true,and_eq_true,decide_eq_true_eq] at hc
  obtain (rfl | ⟨-,rfl⟩) | ⟨-,rfl⟩ := hc
  · exact h.qctl
  · exact hs.qbin
  · exact h.rept

/-- What a character begins with is no other prefix, and it is read to the end. -/
theorem takeCtl_chars (h : q.Fit) (hs : q.Settled) {x : Quoted} (hx : x.formed q) (rest : List Nat) :
    ∃ d ds,x.chars q++rest=d::ds ∧ (q.qbin≠0 → d≠q.qbin) ∧ (q.rept≠0 → d≠q.rept) ∧ takeCtl q d ds=(x.value,rest) := by
  have hbin (hq : q.qbin≠0) : q.qctl≠q.qbin := (h.qbin hq).symm
  have hrept (hq : q.rept≠0) : q.qctl≠q.rept := (hs.rept hq).1.symm
  cases x with
  | plain c =>
    simp only [Quoted.formed,active,and_eq_true,not_eq_true',or_eq_false_iff,
      and_eq_false_iff,decide_eq_true_eq,decide_eq_false_iff_not] at hx
    obtain ⟨-,⟨hctl,hqbin⟩,hqrept⟩ := hx
    exact ⟨c,rest,rfl,fun hq hc => hqbin.elim (fun hn => hn hq) fun hn => hn hc,
      fun hq hc => hqrept.elim (fun hn => hn hq) fun hn => hn hc,takeCtl_plain hctl rest⟩
  | control c =>
    simp only [Quoted.formed,and_eq_true,decide_eq_true_eq] at hx
    refine ⟨q.qctl,c::rest,rfl,hbin,hrept,?_⟩
    rw [takeCtl_quoted,flips_control c (Nat.lt_succ_of_le hx.2) hx.1]
    rfl
  | quoted c =>
    refine ⟨q.qctl,c::rest,rfl,hbin,hrept,?_⟩
    rw [takeCtl_quoted,active_flips h hs hx]
    rfl

theorem takeBit8_single (h : q.Fit) (hs : q.Settled) {x : Item} (hx : x.formed q) (rest : List Nat) :
    ∃ c ds,x.single q++rest=c::ds ∧ (q.rept≠0 → c≠q.rept) ∧ (takeBit8 q c ds).1=(if x.bit8 then 0x80 else 0) ∧
      takeCtl q (takeBit8 q c ds).2.1 (takeBit8 q c ds).2.2=(x.char.value,rest) := by
  simp only [Item.formed,and_eq_true,or_eq_true,not_eq_true',decide_eq_true_eq] at hx
  obtain ⟨⟨hchar,hbit8⟩,-⟩ := hx
  obtain ⟨d,ds,heq,hqbin,hrept,hctl⟩ := takeCtl_chars h hs hchar rest
  unfold Item.single
  cases hb : x.bit8 with
  | false =>
    refine ⟨d,ds,heq,hrept,?_⟩
    rw [takeBit8_plain hqbin]
    exact ⟨rfl,hctl⟩
  | true =>
    have hq : q.qbin≠0 := hbit8.resolve_left (by rw [hb]; decide)
    refine ⟨q.qbin,d::ds,congrArg (q.qbin :: ·) heq,fun hr => (hs.rept hr).2.symm,?_⟩
    have ht : takeBit8 q q.qbin (d::ds)=(0x80,d,ds) := if_pos ⟨hq,rfl⟩
    rw [ht]
    exact ⟨rfl,hctl⟩

theorem decodeFrom_item (h : q.Fit) (hs : q.Settled) {x : Item} (hx : x.formed q) (fuel : Nat)
    (rest : List Nat) : decodeFrom q (fuel+1) (x.chars q++rest)=x.value++decodeFrom q fuel rest := by
  obtain ⟨c,ds,heq,hrept,hbit8,hctl⟩ := takeBit8_single h hs hx rest
  unfold Item.chars Item.value
  cases hn : x.count with
  | none =>
    dsimp only
    rw [heq,decodeFrom,takeRept_plain hrept]
    dsimp only
    rw [hbit8,hctl]
    rfl
  | some n =>
    simp only [Item.formed,hn,Option.all_some,and_eq_true,decide_eq_true_eq] at hx
    have ht : takeRept q q.rept (tochar n::c::ds)=(unchar (tochar n),c,ds) := if_pos ⟨hx.2.1,rfl⟩
    have hcount : (unchar (tochar n)).toNat=n := by
      unfold unchar tochar
      omega
    rw [cons_append,cons_append,heq,decodeFrom,ht]
    dsimp only
    rw [hbit8,hctl,hcount]
    rfl

end Prefixes

theorem Item.chars_length (q : Prefixes) (x : Item) : 1≤(x.chars q).length := by
  unfold chars single
  cases x.count <;> cases x.char <;> simp [Quoted.chars]

theorem decodeFrom_items {q : Prefixes} (h : q.Fit) (hs : q.Settled) {xs : List Item}
    (hx : ∀ x∈xs,x.formed q) {fuel : Nat} (hf : xs.length≤fuel) :
    decodeFrom q fuel (xs.flatMap (·.chars q))=xs.flatMap Item.value := by
  induction xs generalizing fuel with
  | nil => cases fuel <;> rfl
  | cons x xs ih =>
    cases fuel with
    | zero => exact absurd hf (Nat.not_succ_le_zero _)
    | succ fuel =>
      rw [flatMap_cons,flatMap_cons,Prefixes.decodeFrom_item h hs (hx x mem_cons_self),
        ih (fun y hy => hx y (mem_cons_of_mem x hy)) (Nat.le_of_succ_le_succ hf)]

theorem decode_items {q : Prefixes} (h : q.Fit) (hs : q.Settled) {xs : List Item}
    (hx : ∀ x∈xs,x.formed q) : decode q (xs.flatMap (·.chars q))=xs.flatMap Item.value := by
  refine decodeFrom_items h hs hx ?_
  clear hx
  induction xs with
  | nil => exact Nat.le_refl _
  | cons x xs ih =>
    rw [flatMap_cons,length_append,length_cons]
    have := x.chars_length q
    omega

def agreed : Prefixes := ⟨0x23,0x26,0⟩

theorem agreed_fit : agreed.Fit := ⟨fun _ => by decide,by decide,by decide⟩

theorem agreed_settled : agreed.Settled := ⟨by decide,fun h => absurd rfl h⟩

/-- What `kermitEncode` makes of a byte -/
def itemOf (b : Nat) : Item :=
  let c := b &&& 0x7f
  ⟨none,b &&& 0x80≠0,if c<32 ∨ c=127 then .control (ctl c) else if c=0x23 ∨ c=0x26 then .quoted c else .plain c⟩

theorem itemOf_spec : ∀ b<256,(itemOf b).formed agreed ∧
    (itemOf b).chars agreed=kermitEncode b true ∧ (itemOf b).value=[b] := by decide +kernel

theorem kermitEncode_chars : ∀ b<256,(kermitEncode b true).length≤3 ∧ 1≤(kermitEncode b true).length ∧
    ∀ c∈kermitEncode b true,0x20 ≤ c ∧ c<0x7f := by decide +kernel

theorem decode_encode {bs : List Nat} (hb : ∀ b∈bs,b<256) : decode agreed (bs.flatMap (kermitEncode · true))=bs := by
  have hchars : bs.flatMap (kermitEncode · true)=(bs.map itemOf).flatMap (·.chars agreed) := by
    rw [flatMap_map]
    exact flatMap_congr fun b h => (itemOf_spec b (hb b h)).2.1.symm
  have hvalues : (bs.map itemOf).flatMap Item.value=bs := by
    rw [flatMap_map,flatMap_congr fun b h => (itemOf_spec b (hb b h)).2.2]
    exact flatMap_singleton' bs
  rw [hchars,decode_items agreed_fit agreed_settled,hvalues]
  intro x hx
  obtain ⟨b,h,rfl⟩ := mem_map.mp hx
  exact (itemOf_spec b (hb b h)).1

end QUniLator.Web.Kermit
