import QUniLator.Framework.Run
import Mathlib.Data.List.Basic

namespace QUniLator.Display

def lkAllUp : UInt8 := 0xb3

def lkModeAck : UInt8 := 0xba

def lkLetters : List UInt8 :=
  [0xc2,0xd9,0xce,0xcd,0xcc,0xd2,0xd8,0xdd,0xe6,0xe2,0xe7,0xec,0xe3,0xde,0xeb,0xf0,0xc1,0xd1,0xc7,0xd7,0xe1,0xd3,
    0xc6,0xc8,0xdc,0xc3]

def lkDigits : List UInt8 := [0xef,0xc0,0xc5,0xcb,0xd0,0xd6,0xdb,0xe0,0xe5,0xea]

def lkOthers : List (Nat × UInt8) :=
  [(0x20,0xd4),(0xff0d,0xbd),(0xff09,0xbe),(0xff08,0xbc),(0xffff,0x8c),(0x3b,0xf2),(0x3d,0xf5),(0x2c,0xe8),
    (0x2d,0xf9),(0x2e,0xed),(0x2f,0xf3),(0x27,0xfb),(0x5b,0xfa),(0x5d,0xf6),(0x5c,0xf7),(0x60,0xbf),(0xffe1,0xae),
    (0xffe2,0xae),(0xffe3,0xaf),(0xffe4,0xaf),(0xffe5,0xb0),(0xff51,0xa7),(0xff52,0xaa),(0xff53,0xa8),(0xff54,0xa9)]

/-- `lk_code`: the make code of a keysym, 0 where there is none -/
def lkCode (keysym : Nat) : UInt8 :=
  if 0x61≤keysym ∧ keysym≤0x7a then lkLetters.getD (keysym-0x61) 0
  else if 0x41≤keysym ∧ keysym≤0x5a then lkLetters.getD (keysym-0x41) 0
  else if 0x30≤keysym ∧ keysym≤0x39 then lkDigits.getD (keysym-0x30) 0
  else (lkOthers.lookup keysym).getD 0

/-- One channel of the DUART. `queued` is every byte that came for it. -/
structure Port where
  sts : Nat
  etx : Bool
  erx : Bool
  mode0 : Nat
  mode1 : Nat
  modePtr : Bool
  rxfifo : List UInt8
  queued : List UInt8

namespace Port

variable (p : Port)

def start : Port := ⟨0,false,false,0,0,false,[],[]⟩

def mode : Nat := if p.modePtr then p.mode1 else p.mode0

def setMode (d : Nat) : Port :=
  if p.modePtr then { p with mode1 := d,modePtr := false } else { p with mode0 := d,modePtr := true }

def command (d : Nat) : Port :=
  { p with etx := if d.testBit 2 then true else if d.testBit 3 then false else p.etx,
           erx := if d.testBit 0 then true else if d.testBit 1 then false else p.erx,
           modePtr := if d/0x10%8=1 then false else p.modePtr }

def queue (c : UInt8) : Port := { p with rxfifo := p.rxfifo++[c],queued := p.queued++[c] }

def rxBuffer : Nat := (p.rxfifo.headD 0).toNat+0x100*p.sts

def status : Nat := (if p.rxfifo=[] then 0 else 1)+(if p.etx then 0xc else 0)

end Port

/-- Channel A is the keyboard, channel B the pointer. -/
structure Input where
  a : Port
  b : Port
  ists : Nat
  imask : Nat
  keysDown : Nat
  btnLeft : Bool
  btnMiddle : Bool
  btnRight : Bool
  promptMode : Bool

namespace Input

variable (s : Input)

def interruptStatus : Nat :=
  (if s.a.rxfifo=[] then 0 else 2)+(if s.b.rxfifo=[] then 0 else 0x20)+(if s.a.etx then 1 else 0)+
    (if s.b.etx then 0x10 else 0)

def recomputeStatus : Input :=
  { s with a := { s.a with sts := s.a.status },b := { s.b with sts := s.b.status },ists := s.interruptStatus }

def reset : Input := recomputeStatus ⟨.start,.start,0,0,0,false,false,false,false⟩

def queueA (c : UInt8) : Input := recomputeStatus { s with a := s.a.queue c }

def queueB (c : UInt8) : Input := recomputeStatus { s with b := s.b.queue c }

def duartPeek : Nat → Nat
  | 0 => s.a.mode
  | 1 => s.a.sts
  | 3 => s.a.rxBuffer
  | 5 => s.ists
  | 8 => s.b.mode
  | 9 => s.b.sts
  | 11 => s.b.rxBuffer
  | _ => 0

def duartConsume : Nat → Input
  | 0 => { s with a := { s.a with modePtr := !s.a.modePtr } }
  | 3 => recomputeStatus { s with a := { s.a with rxfifo := s.a.rxfifo.tail } }
  | 8 => { s with b := { s.b with modePtr := !s.b.modePtr } }
  | 11 => recomputeStatus { s with b := { s.b with rxfifo := s.b.rxfifo.tail } }
  | _ => s

def keyboardAnswer (c : Nat) : List UInt8 :=
  if c%2=1 then
    if c=0xab then [1,0]
    else if c=0xfd then [1,0,0,0]
    else if c=0xd3 then [lkModeAck]
    else []
  else if c/8%0x10<15 then [lkModeAck] else []

def keyboardCommand (c : Nat) : Input :=
  (keyboardAnswer c).foldl queueA (if c=0xd3 then { s with keysDown := 0 } else s)

def keyEvent (keysym : Nat) (down : Bool) : Input :=
  if lkCode keysym=0 then s
  else if down then queueA { s with keysDown := s.keysDown+1 } (lkCode keysym)
  else
    let s := { s with keysDown := s.keysDown-1 }
    if s.keysDown=0 then s.queueA lkAllUp else s

def clamp (d : Int) : Int := max (-127) (min 127 d)

def reportHeader (dx dy : Int) : Nat :=
  0x80+(if s.btnRight then 1 else 0)+(if s.btnMiddle then 2 else 0)+(if s.btnLeft then 4 else 0)+
    (if 0≤dx then 0x10 else 0)+(if dy<0 then 8 else 0)

def sendPointerReport (dx dy : Int) : Input :=
  ((s.queueB (UInt8.ofNat (s.reportHeader (clamp dx) (clamp dy)))).queueB
    (UInt8.ofNat (clamp dx).natAbs)).queueB (UInt8.ofNat (clamp dy).natAbs)

def pointerEvent (dx dy : Int) (left middle right : Bool) : Input :=
  let s := { s with btnLeft := left,btnMiddle := middle,btnRight := right }
  if s.promptMode then s else s.sendPointerReport dx dy

/-- `d` is the low byte of what is written. -/
def duartWrite (reg d : Nat) : Input :=
  match reg with
  | 0 => { s with a := s.a.setMode d }
  | 2 => recomputeStatus { s with a := s.a.command d }
  | 3 => s.keyboardCommand d
  | 5 => { s with imask := d }
  | 8 => { s with b := s.b.setMode d }
  | 10 => recomputeStatus { s with b := s.b.command d }
  | 11 =>
    if d=0x52 then s.sendPointerReport 0 0
    else if d=0x44 then { s with promptMode := true }
    else s
  | _ => s

end Input

/-- What comes from a window or a browser: `key` numbers the key that a keysym is for, and a button that moves
is 1 to 3. -/
inductive InputEvent
  | key (key keysym : Nat) (down : Bool)
  | pointer (button : Nat) (press : Bool) (dx dy : Int)
  deriving DecidableEq,Repr

/-- The board as far as input goes. `mirror` is what the bus reads; `changed`: a pump of window events has still to
mirror what it queued; `reading`: a read before its callback; `gotA` and `gotB`: what reads with receiver ready
returned. -/
structure Vcb01 where
  input : Input
  mirror : Nat → Nat
  btnL : Bool
  btnM : Bool
  btnR : Bool
  changed : Bool
  reading : Option (Nat × Nat)
  gotA : List UInt8
  gotB : List UInt8

/-- `cycle` is the bus cycle of a read of DUART register `reg`, `callback` what follows where it is active. `window`
is one event of a pump of window events, `windowDone` its end, `web` a pump of web input. -/
inductive Vcb01Step
  | cycle (reg : Nat)
  | callback
  | write (reg value : Nat)
  | window (e : InputEvent)
  | windowDone
  | web (es : List InputEvent)
  deriving DecidableEq,Repr

namespace Vcb01

variable (s : Vcb01)

def mirrorDuart : Vcb01 := { s with mirror := s.input.duartPeek }

def start : Vcb01 := mirrorDuart ⟨.reset,fun _ => 0,false,false,false,false,none,[],[]⟩

def activeOnDati (reg : Nat) : Bool := reg=0 || reg=3 || reg=8 || reg=11

def receiverReady (value : Nat) : Bool := value/0x100%2=1

def returned (value : Nat) : List UInt8 := if receiverReady value then [UInt8.ofNat (value%0x100)] else []

def cycle (reg : Nat) : Vcb01 :=
  if activeOnDati reg then { s with reading := some (reg,s.mirror reg) } else s

def consume (reg value : Nat) : Vcb01 :=
  mirrorDuart { s with
    input := s.input.duartConsume reg
    reading := none
    gotA := if reg=3 then s.gotA++returned value else s.gotA
    gotB := if reg=11 then s.gotB++returned value else s.gotB }

def event : InputEvent → Vcb01
  | .key _ keysym down => { s with input := s.input.keyEvent keysym down }
  | .pointer button press dx dy =>
    let l := if button=1 then press else s.btnL
    let m := if button=2 then press else s.btnM
    let r := if button=3 then press else s.btnR
    { s with btnL := l,btnM := m,btnR := r,input := s.input.pointerEvent dx dy l m r }

/-- The bus stays with a read until its callback is over, and one worker pumps both kinds of events. -/
def step : Vcb01Step → Option Vcb01
  | .cycle reg => if s.reading=none then some (s.cycle reg) else none
  | .callback => s.reading.map fun r => s.consume r.1 r.2
  | .write reg value =>
    if s.reading=none then some (mirrorDuart { s with input := s.input.duartWrite reg (value%0x100) }) else none
  | .window e => some { s.event e with changed := true }
  | .windowDone => some (if s.changed then { s.mirrorDuart with changed := false } else s)
  | .web es => if s.changed then none else some (es.foldl event s).mirrorDuart

end Vcb01

end QUniLator.Display
