import QUniLator.Framework.Crc
import QUniLator.Framework.Run
import Mathlib.Data.List.DropRight

namespace QUniLator.Web.Xmodem

def soh : UInt8 := 0x01
def stx : UInt8 := 0x02
def eot : UInt8 := 0x04
def ack : UInt8 := 0x06
def nak : UInt8 := 0x15
def can : UInt8 := 0x18
def sub : UInt8 := 0x1a

/-- `C`, by which the receiver asks for CRCs -/
def askCrc : UInt8 := 0x43

def crcShift (crc : Nat) : Nat :=
  if crc &&& 0x8000≠0 then ((crc <<< 1) ^^^ 0x1021) &&& 0xffff else (crc <<< 1) &&& 0xffff

def crc16 (data : List UInt8) : Nat :=
  data.foldl (fun crc b => crcShift^[8] (crc ^^^ (b.toNat <<< 8))) 0

def checksum (data : List UInt8) : Nat := data.foldl (fun sum b => sum+b.toNat) 0

def padded (chunk : List UInt8) (size : Nat) : List UInt8 := chunk++List.replicate (size-chunk.length) sub

def xmodemBlock (n : Nat) (chunk : List UInt8) (size : Nat) (crc : Bool) : List UInt8 :=
  let body := padded chunk size
  (if size=1024 then stx else soh)::UInt8.ofNat n::(0xff-UInt8.ofNat n)::body ++
    if crc then [UInt8.ofNat (crc16 body >>> 8),UInt8.ofNat (crc16 body)] else [UInt8.ofNat (checksum body)]

def blockGood (crc : Bool) (size : Nat) : List UInt8 → Bool
  | n::notN::rest =>
    (match crc,rest.drop size with
      | true,[hi,lo] => (hi.toNat <<< 8) ||| lo.toNat == crc16 (rest.take size)
      | false,[c] => c.toNat == checksum (rest.take size) &&& 0xff
      | _,_ => false) && n.toNat+notN.toNat == 255
  | _ => false

/-- A byte on the line to the receiver, and the number of the block it is sent for, 0 for none -/
structure Sent where
  byte : UInt8
  block : Nat
  deriving DecidableEq,Repr

inductive SendPhase
  | start | block | eot | done | failed
  deriving DecidableEq,Repr

/-- `sendXmodem`, and the queue of what comes to it -/
structure Sender where
  data : List UInt8
  oneK : Bool
  crc : Bool
  rest : List UInt8
  n : Nat
  tries : Nat
  cans : Nat
  phase : SendPhase
  queue : List UInt8
  deriving Repr

namespace Sender

variable (s : Sender)

def blockSize : Nat := if s.crc && s.oneK && !(s.rest.length≤128 : Bool) then 1024 else 128

def chunk : List UInt8 := s.rest.take s.blockSize

def body : List UInt8 := padded s.chunk s.blockSize

def block : List Sent := (xmodemBlock s.n s.chunk s.blockSize s.crc).map (⟨·,s.n⟩)

end Sender

inductive ReceivePhase
  | starting | between | canned | block (size : Nat) | done | failed
  deriving DecidableEq,Repr

def ReceivePhase.size? : ReceivePhase → Option Nat
  | .block size => some size
  | _ => none

/-- `receiveXmodem`, and the queue of what comes to it. `got` is what follows the first byte of a block. -/
structure Receiver where
  stripPadding : Bool
  crc : Bool
  expected : Nat
  errors : Nat
  chunks : List UInt8
  phase : ReceivePhase
  got : List Sent
  queue : List Sent
  deriving Repr

namespace Receiver

variable (r : Receiver)

def need (size : Nat) : Nat := 2+size+(if r.crc then 2 else 1)

def result : List UInt8 := if r.stripPadding then r.chunks.rdropWhile (·=sub) else r.chunks

end Receiver

/-- The halves and the line between them; `script` has the bodies of the blocks that were sent, each once. -/
structure Link where
  sender : Sender
  receiver : Receiver
  toReceiver : List Sent
  toSender : List UInt8
  script : List (List UInt8)
  deriving Repr

/-- A half reads a byte, has waited its time or is cancelled; the line hands over bytes, loses some or damages
one. -/
inductive Event
  | senderReads | senderTimeout | senderCancel
  | receiverReads | receiverTimeout (late : Bool) | receiverCancel
  | toReceiver (k : Nat) | toSender (k : Nat)
  | loseToReceiver (i k : Nat) | loseToSender (i k : Nat)
  | damageToReceiver (i : Nat) (b : UInt8) | damageToSender (i : Nat) (b : UInt8)
  deriving DecidableEq,Repr

namespace Link

variable (l : Link)

def cancels : List UInt8 := List.replicate 8 can

def senderFails : Link :=
  { l with sender := { l.sender with phase := .failed },toReceiver := l.toReceiver++cancels.map (⟨·,0⟩) }

def sendBlock : Link :=
  { l with sender := { l.sender with queue := [],cans := 0 },toReceiver := l.toReceiver++l.sender.block }

def firstBlock : Link :=
  { l with sender := { l.sender with tries := 1,phase := .block },
           script := l.script++[l.sender.body] }.sendBlock

def retryBlock : Link :=
  if l.sender.tries+1 > 10 then l.senderFails
  else { l with sender := { l.sender with tries := l.sender.tries+1 } }.sendBlock

def sendEot : Link :=
  { l with sender := { l.sender with queue := [],cans := 0 },toReceiver := l.toReceiver++[⟨eot,0⟩] }

def retryEot : Link :=
  if l.sender.tries+1 ≥ 10 then l.senderFails
  else { l with sender := { l.sender with tries := l.sender.tries+1 } }.sendEot

def acknowledged : Link :=
  let s := { l.sender with rest := l.sender.rest.drop l.sender.chunk.length,n := l.sender.n+1 }
  if s.data=[] ∨ s.rest=[] then { l with sender := { s with tries := 0,phase := .eot } }.sendEot
  else { l with sender := s }.firstBlock

def canned : Link :=
  if l.sender.cans+1 ≥ 2 then l.senderFails else { l with sender := { l.sender with cans := l.sender.cans+1 } }

/-- `xmodemAnswer`, and what comes of it -/
def senderTakes (b : UInt8) : Link :=
  match l.sender.phase with
  | .start =>
    if b=nak then { l with sender := { l.sender with crc := false } }.firstBlock
    else if b=askCrc then { l with sender := { l.sender with crc := true } }.firstBlock
    else l
  | .block =>
    if b=ack then l.acknowledged
    else if b=nak ∨ (b=askCrc ∧ l.sender.n=1 ∧ l.sender.crc) then l.retryBlock
    else if b=can then l.canned
    else { l with sender := { l.sender with cans := 0 } }
  | .eot =>
    if b=ack then { l with sender := { l.sender with phase := .done } }
    else if b=nak then l.retryEot
    else if b=can then l.canned
    else { l with sender := { l.sender with cans := 0 } }
  | .done | .failed => l

def senderWaited : Link :=
  match l.sender.phase with
  | .start => l.senderFails
  | .block => l.retryBlock
  | .eot => l.retryEot
  | .done | .failed => l

def answer (b : UInt8) : Link := { l with toSender := l.toSender++[b] }

def receiverFails : Link :=
  { l with receiver := { l.receiver with phase := .failed },toSender := l.toSender++cancels }

def damaged : Link :=
  if l.receiver.errors+1 > 10 then l.receiverFails
  else
    { l with receiver := { l.receiver with errors := l.receiver.errors+1,phase := .between,got := [],
                                           queue := [] } }.answer nak

def good (n : UInt8) (body : List UInt8) : Link :=
  let r := { l.receiver with errors := 0,phase := .between,got := [] }
  if n=UInt8.ofNat r.expected then
    { l with receiver := { r with chunks := r.chunks++body,expected := r.expected+1 } }.answer ack
  else if n≠UInt8.ofNat (r.expected-1) then { l with receiver := r }.receiverFails
  else { l with receiver := r }.answer ack

def meets (b : UInt8) : Link :=
  if b=eot then { l with receiver := { l.receiver with phase := .done } }.answer ack
  else if b=can then { l with receiver := { l.receiver with phase := .canned } }
  else if b=soh then { l with receiver := { l.receiver with phase := .block 128,got := [] } }
  else if b=stx then { l with receiver := { l.receiver with phase := .block 1024,got := [] } }
  else { l with receiver := { l.receiver with phase := .between } }

def gets (size : Nat) (x : Sent) : Link :=
  let got := l.receiver.got++[x]
  if got.length<l.receiver.need size then { l with receiver := { l.receiver with got := got } }
  else if blockGood l.receiver.crc size (got.map Sent.byte) then
    l.good ((got.map Sent.byte).headD 0) (((got.map Sent.byte).drop 2).take size)
  else l.damaged

def receiverTakes (x : Sent) : Link :=
  match l.receiver.phase with
  | .starting => if x.byte=soh ∨ x.byte=stx ∨ x.byte=eot then l.meets x.byte else l
  | .between => l.meets x.byte
  | .canned => if x.byte=can then l.receiverFails else { l with receiver := { l.receiver with phase := .between } }
  | .block size => l.gets size x
  | .done | .failed => l

def receiverWaited (late : Bool) : Link :=
  match l.receiver.phase with
  | .starting =>
    let crc := l.receiver.crc && !late
    { l with receiver := { l.receiver with crc := crc } }.answer (if crc then askCrc else nak)
  | .between =>
    if l.receiver.errors+1 > 10 then l.receiverFails
    else { l with receiver := { l.receiver with errors := l.receiver.errors+1 } }.answer nak
  | .canned => { l with receiver := { l.receiver with phase := .between } }
  | .block _ => l.damaged
  | .done | .failed => l

def senderRuns : Bool := !(l.sender.phase == .done || l.sender.phase == .failed)

def receiverRuns : Bool := !(l.receiver.phase == .done || l.receiver.phase == .failed)

def step (e : Event) : Option Link :=
  match e with
  | .senderReads =>
    match l.sender.queue with
    | b::q => if l.senderRuns then some ({ l with sender := { l.sender with queue := q } }.senderTakes b) else none
    | [] => none
  | .senderTimeout => if l.senderRuns then some l.senderWaited else none
  | .senderCancel => if l.senderRuns then some l.senderFails else none
  | .receiverReads =>
    match l.receiver.queue with
    | x::q =>
      if l.receiverRuns then some ({ l with receiver := { l.receiver with queue := q } }.receiverTakes x) else none
    | [] => none
  | .receiverTimeout late =>
    if l.receiverRuns ∧ (l.receiver.phase=.starting ∨ l.receiver.queue=[]) then some (l.receiverWaited late)
    else none
  | .receiverCancel => if l.receiverRuns then some l.receiverFails else none
  | .toReceiver k =>
    some { l with receiver := { l.receiver with queue := l.receiver.queue++l.toReceiver.take k },
                  toReceiver := l.toReceiver.drop k }
  | .toSender k =>
    some { l with sender := { l.sender with queue := l.sender.queue++l.toSender.take k },
                  toSender := l.toSender.drop k }
  | .loseToReceiver i k => some { l with toReceiver := l.toReceiver.take i++l.toReceiver.drop (i+k) }
  | .loseToSender i k => some { l with toSender := l.toSender.take i++l.toSender.drop (i+k) }
  | .damageToReceiver i b => some { l with toReceiver := l.toReceiver.modify i fun x => { x with byte := b } }
  | .damageToSender i b => some { l with toSender := l.toSender.set i b }

def start (data : List UInt8) (oneK crc stripPadding : Bool) : Link :=
  ⟨⟨data,oneK,false,data,1,0,0,.start,[]⟩,⟨stripPadding,crc,1,0,[],.starting,[],[]⟩,[],
    [if crc then askCrc else nak],[]⟩

/-- With the byte `x` a block is not complete, or not good, or all of it is of a block that was sent. -/
def Whole (size : Nat) (x : Sent) : Prop :=
  let got := l.receiver.got++[x]
  got.length<l.receiver.need size ∨ blockGood l.receiver.crc size (got.map Sent.byte)=false ∨
    ((∀ y∈got,y.block=x.block) ∧ x.block≠0 ∧
      ∃ body∈l.script[x.block-1]?,(got.map Sent.byte).take (2+size) =
        UInt8.ofNat x.block::(0xff-UInt8.ofNat x.block)::body)

def Detected : Event → Prop
  | .receiverReads => ∀ size∈l.receiver.phase.size?,∀ x∈l.receiver.queue.head?,l.Whole size x
  | .damageToSender _ b => b≠ack
  | _ => True

/-- When a block is taken as acknowledged no other ACK is under way, and nothing sent is unread. -/
def Careful : Event → Prop
  | .senderReads => l.sender.phase=.block → l.sender.queue.head? = some ack →
      ack∉l.toSender ∧ l.toReceiver=[] ∧ l.receiver.queue=[]
  | _ => True

/-- Where both have returned, the file has arrived, with fewer SUBs behind it than a block has, or as one
block of them for no byte at all. -/
def Arrived (data : List UInt8) : Prop :=
  l.sender.phase=.done → l.receiver.phase=.done → ∃ k body,l.script.getLast? = some body ∧
    l.receiver.chunks=data++List.replicate k sub ∧
    (data≠[] → k<body.length) ∧ (data=[] → k=128) ∧
    l.receiver.result =
      if l.receiver.stripPadding then (data++List.replicate k sub).rdropWhile (·=sub)
      else data++List.replicate k sub

end Link

open BitVec Crc Function List

def ccitt : BitVec 16 := 0x1021

def byteBits (b : UInt8) : List Bool := (range 8).map b.toBitVec.getMsbD

def bits (bs : List UInt8) : List Bool := bs.flatMap byteBits

theorem crcShift_eq (c : BitVec 16) : crcShift c.toNat=(shift ccitt c).toNat := by
  have hm : c.toNat &&& 0x8000=if c.msb then 0x8000 else 0 := by
    have h : (c &&& twoPow 16 15).toNat=c.toNat &&& 0x8000 := toNat_and ..
    rw [← h,and_twoPow,msb_eq_getLsbD_last]
    split_ifs <;> rfl
  have hmask (n : Nat) : n &&& 0xffff=n%2^16 := Nat.and_two_pow_sub_one_eq_mod n 16
  unfold crcShift shift
  rw [hm]
  cases c.msb with
  | false => simp [hmask]
  | true => simpa [hmask,ccitt] using Nat.xor_mod_two_pow (a := c.toNat <<< 1) (b := 0x1021) (n := 16)

theorem byteBits_top (b : BitVec 8) : top 16 (byteBits ⟨b⟩)=b.setWidth 16 <<< 8 := by
  revert b
  decide +kernel

theorem byteBits_shift (b : BitVec 8) : (shift ccitt)^[8] (b.setWidth 16)=b.setWidth 16 <<< 8 := by
  revert b
  decide +kernel

theorem high_byte (b : UInt8) : (b.toBitVec.setWidth 16 <<< 8).toNat=b.toNat <<< 8 := by
  have hlt := b.toNat_lt
  simp [Nat.shiftLeft_eq]
  omega

theorem remainder_byteBits (c : BitVec 16) (b : UInt8) :
    remainder ccitt c (byteBits b)=(shift ccitt)^[8] (c ^^^ b.toBitVec.setWidth 16 <<< 8) := by
  have hl : (byteBits b).length=8 := by simp [byteBits]
  rw [remainder_top c _ (by omega),byteBits_top,hl]

theorem remainder_bits (c : BitVec 16) (bs cs : List UInt8) :
    remainder ccitt c (bits (bs++cs))=remainder ccitt (remainder ccitt c (bits bs)) (bits cs) := by
  simp [remainder,bits]

theorem crc16_eq (data : List UInt8) : crc16 data=(remainder ccitt 0 (bits data)).toNat := by
  have hi (n : Nat) (c : BitVec 16) : crcShift^[n] c.toNat=((shift ccitt)^[n] c).toNat := by
    induction n generalizing c with
    | zero => rfl
    | succ n ih => rw [iterate_succ_apply,iterate_succ_apply,crcShift_eq,ih]
  induction data using List.reverseRecOn with
  | nil => rfl
  | append_singleton data b ih =>
    have hb : bits [b]=byteBits b := append_nil _
    rw [remainder_bits,hb,remainder_byteBits,← hi,toNat_xor,high_byte,← ih]
    simp [crc16]

/-- A good block's data with their CRC leave no remainder. -/
theorem good_remainder {size : Nat} {n notN : UInt8} {rest : List UInt8} (h : blockGood true size (n::notN::rest)) :
    remainder ccitt 0 (bits rest)=0 := by
  have hrest := take_append_drop size rest
  simp only [blockGood,Bool.and_eq_true] at h
  generalize rest.take size=body at *
  generalize rest.drop size=check at *
  subst hrest
  obtain ⟨h,-⟩ := h
  split at h
  · rename_i hi lo _
    have hlow : (lo.toBitVec.setWidth 16).toNat=lo.toNat := by
      have hlt := lo.toNat_lt
      simp
    have hr : remainder ccitt 0 (bits body)=hi.toBitVec.setWidth 16 <<< 8 ||| lo.toBitVec.setWidth 16 := by
      apply eq_of_toNat_eq
      rw [← crc16_eq,toNat_or,high_byte,hlow]
      exact (beq_iff_eq.mp h).symm
    have hx : remainder ccitt 0 (bits body) ^^^ hi.toBitVec.setWidth 16 <<< 8=lo.toBitVec.setWidth 16 := by
      rw [hr]
      ext i hi
      by_cases h8 : i<8
      · simp [h8]
      · simp [h8,getLsbD_of_ge lo.toBitVec i (by omega)]
    have hb (b : UInt8) : bits [b]=byteBits b := append_nil _
    rw [remainder_bits,← singleton_append,remainder_bits,hb,hb,remainder_byteBits,remainder_byteBits,hx,
      byteBits_shift,BitVec.xor_self]
    decide
  · contradiction
  · cases h

/-- A good block, damaged within sixteen bits in a row of its data and CRC, is not good any more. -/
theorem crc_finds_bursts {size : Nat} {n notN n' notN' : UInt8} {rest rest' : List UInt8} {pre x y suf : List Bool}
    (h : blockGood true size (n::notN::rest)) (hb : bits rest=pre++x++suf) (hb' : bits rest'=pre++y++suf)
    (hl : x.length=y.length) (hx : x.length≤16) (hne : x≠y) : blockGood true size (n'::notN'::rest')=false := by
  rw [← Bool.not_eq_true]
  intro h'
  have heq := (good_remainder h).trans (good_remainder h').symm
  rw [hb,hb'] at heq
  exact hne (burst (by decide) 0 hl hx heq)

theorem crc_finds_swapped_bits : blockGood true 1 [1,0xfe,0x41,0x58,0xe5] ∧
    blockGood true 1 [1,0xfe,0x42,0x58,0xe5]=false := by
  have hgood : blockGood true 1 [1,0xfe,0x41,0x58,0xe5] := by decide
  have hb (x y : Bool) (b : UInt8) (h : byteBits b=[false,true,false,false,false,false,x,y]) :
      bits [b,0x58,0xe5]=[false,true,false,false,false,false]++[x,y]++bits [0x58,0xe5] := by
    simp [bits,h]
  exact ⟨hgood,crc_finds_bursts hgood (hb false true _ (by decide)) (hb true false _ (by decide)) rfl (by decide) (by decide)⟩

end QUniLator.Web.Xmodem
