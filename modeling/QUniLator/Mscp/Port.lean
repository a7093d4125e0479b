import QUniLator.Mscp.Message

namespace QUniLator.Mscp

/-- `InitializationStep` -/
inductive InitStep
  | uninitialized | step1 | step2 | step3 | step4 | complete
  deriving DecidableEq,Repr

def step1Code : Nat := 0x0800
def step2Code : Nat := 0x1000
def step3Code : Nat := 0x2000
def step4Code : Nat := 0x4000
def step1TwentyTwoBit : Nat := 0x200

def portError : Nat := 0x8000
def portErrorPacketRead : Nat := 1
def portErrorRingRead : Nat := 6
def portErrorRingWrite : Nat := 7

/-- `sizeof(Descriptor)` -/
def descriptorSize : Nat := 4

def maxMessageLength : Nat := 0x1000

/-- The fields of `mscp_port_c` that its threads share. `stepGeneration` counts the transitions, so
the source's 32-bit counter is it modulo 2^32. -/
structure Port where
  initStep : InitStep
  nextStep : Bool
  stepGeneration : Nat
  sa : Nat
  step1Value : Nat
  ringBase : Nat
  commandRingLength : Nat
  responseRingLength : Nat
  commandRingPointer : Nat
  responseRingPointer : Nat
  interruptVector : Nat
  interruptEnable : Bool
  purgeInterruptEnable : Bool
  interrupts : Nat

namespace Port

def start : Port where
  initStep := .uninitialized
  nextStep := false
  stepGeneration := 0
  sa := 0
  step1Value := 0
  ringBase := 0
  commandRingLength := 0
  responseRingLength := 0
  commandRingPointer := 0
  responseRingPointer := 0
  interruptVector := 0
  interruptEnable := false
  purgeInterruptEnable := false
  interrupts := 0

def updateSA (p : Port) (value : Nat) : Port :=
  { p with sa := value }

def stateTransition (p : Port) (nextStep : InitStep) : Port :=
  { p with initStep := nextStep,stepGeneration := p.stepGeneration+1,nextStep := true }

/-- `StepCurrent`: a comparison of 32-bit counters. -/
def stepCurrent (p : Port) (generation : Nat) : Bool :=
  p.stepGeneration%2^32 == generation%2^32

def chainTransition (p : Port) (generation : Nat) (nextStep : InitStep) : Port :=
  if p.stepCurrent generation then p.stateTransition nextStep else p

/-- What `Reset` does after the server's. -/
def reset (p : Port) : Port :=
  { p with
    ringBase := 0
    commandRingLength := 0
    responseRingLength := 0
    commandRingPointer := 0
    responseRingPointer := 0
    interruptVector := 0
    interruptEnable := false
    purgeInterruptEnable := false }

def isRunning (p : Port) : Bool :=
  p.initStep == .complete

def interrupt (p : Port) : Port :=
  if (p.interruptEnable || p.initStep == .complete) && p.interruptVector != 0
  then { p with interrupts := p.interrupts+1 }
  else p

def stepCode (p : Port) (capabilityFlags microcodeId : Nat) (twentyTwoBitDMA : Bool) : InitStep → Nat
  | .step1 => step1Code ||| capabilityFlags ||| (if twentyTwoBitDMA then step1TwentyTwoBit else 0)
  | .step2 => step2Code ||| ((p.step1Value >>> 8) &&& 0xff)
  | .step3 => step3Code ||| (p.step1Value &&& 0xff)
  | .step4 => step4Code ||| microcodeId
  | .uninitialized | .complete => 0

def wrapBit (value : Nat) : Bool :=
  value &&& 0x4000 != 0

def responseLength (value : Nat) : Nat := 1 <<< ((value &&& 0x700) >>> 8)
def commandLength (value : Nat) : Nat := 1 <<< ((value &&& 0x3800) >>> 11)

def writeStep1 (p : Port) (value : Nat) : Port :=
  { p with
    step1Value := value
    interruptVector := (value &&& 0x7f) <<< 2
    interruptEnable := value &&& 0x80 != 0
    responseRingLength := responseLength value
    commandRingLength := commandLength value }

def writeStep2 (p : Port) (value : Nat) : Port :=
  { p with ringBase := value &&& 0xfffe,purgeInterruptEnable := value &&& 0x1 != 0 }

def writeStep3 (p : Port) (value : Nat) : Port :=
  { p with ringBase := p.ringBase ||| (value &&& 0x7fff) <<< 16 }

def commandDescriptorAddress (p : Port) (index : Nat) : Nat :=
  p.ringBase+p.responseRingLength*descriptorSize+index*descriptorSize

def responseDescriptorAddress (p : Port) (index : Nat) : Nat :=
  p.ringBase+index*descriptorSize

end Port

/-- A ring descriptor. `owner` is set while it is the port's. -/
structure Descriptor where
  envelope : Nat
  flag : Bool
  owner : Bool
  deriving DecidableEq,Repr

def Descriptor.back (d : Descriptor) : Descriptor :=
  { d with owner := false,flag := true }

/-- The host memory the port works on: the descriptors by address, the packets by the address their
envelope names, and the two words that show a transition. -/
structure Memory where
  desc : Nat → Descriptor
  mail : Nat → Message
  commandTransition : Bool
  responseTransition : Bool

namespace Memory

def putDescriptor (m : Memory) (address : Nat) (d : Descriptor) : Memory :=
  { m with desc := fun a => if a=address then d else m.desc a }

def putPacket (m : Memory) (envelope : Nat) (packet : Message) : Memory :=
  { m with mail := fun e => if e=envelope then packet else m.mail e }

/-- The communications area in one transfer: response descriptors the port's, command descriptors
cleared. -/
def clearCommArea (m : Memory) (p : Port) : Memory where
  desc a :=
    if p.ringBase≤a ∧ a<p.ringBase+p.responseRingLength*descriptorSize then ⟨0,false,true⟩
    else if p.ringBase≤a ∧ a <
      p.ringBase+(p.responseRingLength+p.commandRingLength)*descriptorSize then ⟨0,false,false⟩
    else m.desc a
  mail := m.mail
  commandTransition := false
  responseTransition := false

section
variable (m : Memory)

@[simp] theorem putDescriptor_same (a : Nat) (d : Descriptor) : (m.putDescriptor a d).desc a=d := by
  simp [putDescriptor]

theorem putDescriptor_other {a b : Nat} (d : Descriptor) (h : b≠a) : (m.putDescriptor a d).desc b=m.desc b := by
  simp [putDescriptor,h]

@[simp] theorem putPacket_same (e : Nat) (p : Message) : (m.putPacket e p).mail e=p := by
  simp [putPacket]

theorem putPacket_other {e f : Nat} (p : Message) (h : f≠e) : (m.putPacket e p).mail f=m.mail f := by
  simp [putPacket,h]

end

end Memory

end QUniLator.Mscp
