import Mathlib.Algebra.Ring.Nat
import Mathlib.Data.List.Basic

namespace QUniLator.Mscp

/-- A packet of a ring: the length word, the word with the credits, and the control message header,
whose second half a command and its end message share. -/
structure Message where
  messageLength : Nat
  credits : Nat
  messageType : Nat
  connectionId : Nat
  referenceNumber : Nat
  unitNumber : Nat
  reserved : Nat
  opcode : Nat
  flags : Nat
  status : Nat
  parameters : List UInt8
  deriving DecidableEq

def headerSize : Nat := 12

def Message.transferred (m : Message) : Message :=
  { m with parameters := m.parameters.take (m.messageLength/2*2-headerSize) }

def maxCredits : Nat := 14
def initCredits : Nat := 1

/-- `MessageTypes::Sequential` -/
def sequential : Nat := 0

/-- `Endcodes::END` -/
def endCode : Nat := 0x80

/-- `STATUS(Status::INVALID_COMMAND, offsetof(Word3) + HEADER_OFFSET, 0)` -/
def invalidCommand : Nat := (0x1 ||| (8+4) <<< 5) <<< 16

/-- What a concrete controller supplies. `dispatch` executes a command on the drives: the packet as it leaves it, the
status, and whether the opcode is known. -/
structure Controller (δ : Type) where
  dispatch : δ → Message → δ × Message × Nat × Bool
  resetDrives : δ → δ
  capabilityFlags : Nat
  microcodeId : Nat
  twentyTwoBitDMA : Bool

def Controller.bare : Controller Unit where
  dispatch drives m := (drives,m,0,true)
  resetDrives drives := drives
  capabilityFlags := 0x0140
  microcodeId := 0x0063
  twentyTwoBitDMA := false

/-- The part of the server that commands change. -/
structure Server (δ : Type) where
  credits : Nat
  drives : δ

/-- The part of `Poll` between taking a packet from the queue and posting it. -/
def execute {δ : Type} (c : Controller δ) (u : Server δ) (m : Message) : Server δ × Message :=
  let (drives,m,cmdStatus,handled) := c.dispatch u.drives m
  let cmdStatus := if handled then cmdStatus else invalidCommand
  let m := { m with
    status := (cmdStatus >>> 16)%2^16
    flags := (cmdStatus >>> 8)%2^8
    opcode := if handled then m.opcode ||| endCode else endCode }
  if m.messageType=sequential then
    let granted := min u.credits maxCredits
    (⟨u.credits-granted,drives⟩,{ m with credits := granted+1 })
  else (⟨u.credits,drives⟩,{ m with credits := 0 })

/-- The commands `ms` executed in order. -/
def executeAll {δ : Type} (c : Controller δ) : Server δ → List Message → Server δ × List Message
  | u,[] => (u,[])
  | u,m::ms =>
    let r := executeAll c (execute c u m).1 ms
    (r.1,(execute c u m).2::r.2)

/-- The responses to the commands `ms`, as the host gets them. -/
def responses {δ : Type} (c : Controller δ) (u : Server δ) (ms : List Message) : List Message :=
  (executeAll c u ms).2.map Message.transferred

section
variable {δ : Type} (c : Controller δ)

theorem executeAll_append (u : Server δ) (as bs : List Message) : executeAll c u (as++bs) =
      ((executeAll c (executeAll c u as).1 bs).1,
        (executeAll c u as).2++(executeAll c (executeAll c u as).1 bs).2) := by
  induction as generalizing u with
  | nil => rfl
  | cons a as ih => simp [executeAll,ih]

theorem responses_concat (u : Server δ) (ms : List Message) (m : Message) : responses c u (ms++[m]) =
      responses c u ms++[(execute c (executeAll c u ms).1 m).2.transferred] := by
  simp [responses,executeAll_append,executeAll]

theorem executeAll_concat (u : Server δ) (ms : List Message) (m : Message) :
    (executeAll c u (ms++[m])).1=(execute c (executeAll c u ms).1 m).1 := by
  simp [executeAll_append,executeAll]

@[simp] theorem responses_length (u : Server δ) (ms : List Message) : (responses c u ms).length=ms.length := by
  induction ms generalizing u with
  | nil => rfl
  | cons m ms ih =>
    have h := ih (execute c u m).1
    simp only [responses,List.length_map] at h ⊢
    simp [executeAll,h]

end

end QUniLator.Mscp
