import QUniLator.Framework.Ring
import QUniLator.Mscp.Steps

namespace QUniLator.Mscp

open List Function Option Port

/-- A command packet a host may send: its text has an even length within bounds. -/
def Message.Valid (m : Message) : Prop :=
  0 < m.messageLength ∧ m.messageLength < maxMessageLength ∧ m.messageLength%2=0

instance (m : Message) : Decidable m.Valid :=
  inferInstanceAs (Decidable (_ ∧ _ ∧ _))

namespace State

variable {δ : Type}

def commandDescriptor (s : State δ) (index : Nat) : Descriptor :=
  s.mem.desc (s.port.commandDescriptorAddress index)

def responseDescriptor (s : State δ) (index : Nat) : Descriptor :=
  s.mem.desc (s.port.responseDescriptorAddress index)

/-- The host knows a buffer to be in use: a response slot it has yet to take names it, or a command
descriptor that is the port's. -/
def InUse (s : State δ) (envelope : Nat) : Prop :=
  (∃ i,s.host.taken.length ≤ i ∧ i<s.host.returned+s.port.responseRingLength ∧
    (s.responseDescriptor (i%s.port.responseRingLength)).envelope=envelope) ∨
  ∃ k,k<s.port.commandRingLength ∧ (s.commandDescriptor k).owner ∧
    (s.commandDescriptor k).envelope=envelope

/-- A host that follows the protocol, and DMA that succeeds: it puts a valid packet into the command descriptor it
owns next, in a buffer without a response; takes a response when it owns the next slot; gives slots back in order;
rings by reading IP; and leaves the initialisation alone. -/
def Protocol (s : State δ) : Action → Prop
  | .ipWrite | .init | .writeDescriptor _ _ => False
  | .ipRead | .saWrite _ | .bus | .wakeWorker | .wakePoller => True
  | .worker ok | .poll ok => ok
  | .writePacket envelope _ => ¬ s.InUse envelope
  | .command envelope _ =>
    (s.mem.desc s.commandAddress).owner=false ∧ (s.mem.mail envelope).Valid ∧
    ∀ i,s.host.taken.length ≤ i → i<s.host.returned+s.port.responseRingLength →
      (s.responseDescriptor (i%s.port.responseRingLength)).envelope≠envelope
  | .collect =>
    (s.mem.desc s.responseAddress).owner=false ∧ s.host.taken.length<s.host.returned+s.port.responseRingLength
  | .giveBack envelope _ => s.host.returned<s.host.taken.length ∧ ¬ s.InUse envelope

/-- A port that has just come into operation, with the host's response slots set up. -/
structure Ready (s : State δ) : Prop where
  initStep : s.port.initStep=.complete
  nextStep : s.port.nextStep=false
  worker : s.worker=.wait
  bus : s.bus=.idle
  pollState : s.pollState=.wait
  poller : s.poller.inPass=false
  commandRingLength : ∃ a,s.port.commandRingLength=2^a
  responseRingLength : ∃ b,s.port.responseRingLength=2^b
  commandRingPointer : s.port.commandRingPointer=0
  responseRingPointer : s.port.responseRingPointer=0
  commands : ∀ k,k<s.port.commandRingLength → (s.commandDescriptor k).owner=false
  responses : ∀ k,k<s.port.responseRingLength → (s.responseDescriptor k).owner=true
  apart : ∀ j k,j<s.port.responseRingLength → k<s.port.responseRingLength →
    (s.responseDescriptor j).envelope=(s.responseDescriptor k).envelope → j=k
  host : s.host=⟨[],0,[],0⟩
  log : s.log=⟨[],[]⟩

end State

namespace PollerPc

def inHand : PollerPc → List Message
  | .ring q | .readDescriptor q | .readLength q _ _ | .readMessage q _ _ _ | .giveBack q _ _ _ =>
    q.messages
  | .advance q _ m | .markCommand q m | .interruptCommand q m => q.messages++[m]
  | .serve q m => m::q.messages
  | .exec q | .postDescriptor q _ | .postLength q _ _ _ | .postMessage q _ _ _
  | .postGiveBack q _ _ _ | .markResponse q | .interruptResponse q | .postAdvance q | .hold q _
  | .holdRunning q _ => q.messages
  | _ => []

def reply : PollerPc → List Message
  | .postDescriptor _ r | .postLength _ r _ _ | .postMessage _ r _ _ | .postGiveBack _ r _ _
  | .hold _ r | .holdRunning _ r => [r.transferred]
  | _ => []

def commandLag : PollerPc → Nat
  | .advance _ _ _ => 1
  | _ => 0

def responseLag : PollerPc → Nat
  | .markResponse _ | .interruptResponse _ | .postAdvance _ => 1
  | _ => 0

def scanning : PollerPc → Bool
  | .top | .ring _ | .readDescriptor _ | .readLength _ _ _ | .readMessage _ _ _ _
  | .giveBack _ _ _ _ | .advance _ _ _ | .markCommand _ _ | .interruptCommand _ _ => true
  | _ => false

end PollerPc

namespace State

variable {δ : Type} {c : Controller δ} {u0 : Server δ} {F : Nat}

/-- Both rings, with `F` commands taken by the port: who owns which slot, and what is in the buffers. -/
structure Rings (F : Nat) (s : State δ) : Prop where
  command : OwnerRing s.port.commandRingLength (fun k => (s.commandDescriptor k).owner) F
    s.host.handed.length
  response : OwnerRing s.port.responseRingLength (fun k => (s.responseDescriptor k).owner)
    s.log.posted.length (s.host.returned+s.port.responseRingLength)
  valid : ∀ m∈s.host.handed,m.Valid
  rung : s.host.rung ≤ s.host.handed.length
  returned : s.host.returned ≤ s.host.taken.length
  taken : s.host.taken <+: s.log.posted
  packet : ∀ i m,F ≤ i → s.host.handed[i]? = some m →
    s.mem.mail (s.commandDescriptor (i%s.port.commandRingLength)).envelope=m
  untaken : ∀ i m,s.host.taken.length ≤ i → s.log.posted[i]? = some m →
    s.mem.mail (s.responseDescriptor (i%s.port.responseRingLength)).envelope=m
  apart : ∀ i j,s.host.taken.length ≤ i → i<s.host.returned+s.port.responseRingLength →
    s.host.taken.length≤j → j<s.host.returned+s.port.responseRingLength →
    (s.responseDescriptor (i%s.port.responseRingLength)).envelope =
      (s.responseDescriptor (j%s.port.responseRingLength)).envelope → i=j
  clear : ∀ i j,F ≤ i → i<s.host.handed.length → s.host.taken.length≤j →
    j<s.host.returned+s.port.responseRingLength →
    (s.commandDescriptor (i%s.port.commandRingLength)).envelope ≠
      (s.responseDescriptor (j%s.port.responseRingLength)).envelope

def Locals (F : Nat) (s : State δ) : PollerPc → Prop
  | .readLength _ address d =>
    F<s.host.handed.length ∧
    address=s.port.commandDescriptorAddress (F%s.port.commandRingLength) ∧ d=s.mem.desc address
  | .readMessage _ address d messageLength =>
    F<s.host.handed.length ∧ address=s.port.commandDescriptorAddress (F%s.port.commandRingLength) ∧
    d=s.mem.desc address ∧ messageLength=(s.mem.mail d.envelope).messageLength
  | .giveBack _ address d m =>
    F<s.host.handed.length ∧ address=s.port.commandDescriptorAddress (F%s.port.commandRingLength) ∧
    d=s.mem.desc address ∧ m=s.mem.mail d.envelope
  | .postLength _ _ address d | .postMessage _ _ address d =>
    s.log.posted.length<s.host.returned+s.port.responseRingLength ∧
    address=s.port.responseDescriptorAddress (s.log.posted.length%s.port.responseRingLength) ∧ d=s.mem.desc address
  | .postGiveBack _ r address d =>
    s.log.posted.length<s.host.returned+s.port.responseRingLength ∧
    address=s.port.responseDescriptorAddress (s.log.posted.length%s.port.responseRingLength) ∧
    d=s.mem.desc address ∧ s.mem.mail d.envelope=r.transferred
  | .errorSA _ _ | .errorReset _ _ => False
  | _ => True

def Heard (F : Nat) (s : State δ) (pc : PollerPc) : Prop :=
  s.host.rung≤F ∨ s.pollState=.initRun ∧ pc≠.blocked ∨ s.pollState=.run ∧ pc.scanning

/-- What the polling thread at `pc` has done, having taken `F` commands. -/
structure Thread (c : Controller δ) (u0 : Server δ) (F : Nat) (s : State δ) (pc : PollerPc) : Prop where
  count : s.log.executed.length+pc.inHand.length=F
  order : s.log.executed++pc.inHand <+: s.host.handed
  server : s.server=(executeAll c u0 s.log.executed).1
  answered : s.log.posted++pc.reply=Mscp.responses c u0 s.log.executed
  commandRingPointer : ∃ k,s.port.commandRingPointer=k%s.port.commandRingLength ∧ k+pc.commandLag=F
  responseRingPointer : ∃ k,s.port.responseRingPointer=k%s.port.responseRingLength ∧
    k+pc.responseLag=s.log.posted.length
  locals : Locals F s pc
  heard : Heard F s pc

/-- The port is in operation, and its worker and the adapter's thread leave it so. -/
structure Operating (s : State δ) : Prop where
  initStep : s.port.initStep=.complete
  nextStep : s.port.nextStep=false
  worker : s.worker=.wait
  bus : s.bus=.idle ∨ s.bus=.doorbell ∨ ∃ value,s.bus=.saTaken value .complete
  pollState : s.pollState≠.initRestart

/-- The invariant of runs by the protocol. -/
structure Exchange (c : Controller δ) (u0 : Server δ) (F : Nat) (s : State δ) : Prop where
  operating : s.Operating
  rings : s.Rings F
  thread : s.Thread c u0 F s.poller

theorem commandAddress_inj {p : Port} {j k : Nat}
    (h : p.commandDescriptorAddress j=p.commandDescriptorAddress k) : j=k := by
  simp only [commandDescriptorAddress,descriptorSize] at h
  omega

theorem responseAddress_inj {p : Port} {j k : Nat}
    (h : p.responseDescriptorAddress j=p.responseDescriptorAddress k) : j=k := by
  simp only [responseDescriptorAddress,descriptorSize] at h
  omega

theorem response_ne_command {p : Port} {j k : Nat} (hj : j<p.responseRingLength) :
    p.responseDescriptorAddress j≠p.commandDescriptorAddress k := by
  simp only [responseDescriptorAddress,commandDescriptorAddress,descriptorSize]
  omega

section
variable (s : State δ) (j k : Nat) (d : Descriptor)

/-- A descriptor of the command ring is written: the ring has it, and the response ring is as it was. -/
theorem put_commandDescriptor : (s.mem.putDescriptor (s.port.commandDescriptorAddress k) d).desc
      (s.port.commandDescriptorAddress j)=if j=k then d else s.commandDescriptor j := by
  by_cases h : j=k
  · simp [h]
  · rw [Memory.putDescriptor_other _ _ (fun he => h (commandAddress_inj he)),if_neg h]
    rfl

theorem put_commandDescriptor_response (hj : j<s.port.responseRingLength) :
    (s.mem.putDescriptor (s.port.commandDescriptorAddress k) d).desc
      (s.port.responseDescriptorAddress j)=s.responseDescriptor j :=
  Memory.putDescriptor_other _ _ (response_ne_command hj)

theorem put_responseDescriptor : (s.mem.putDescriptor (s.port.responseDescriptorAddress k) d).desc
      (s.port.responseDescriptorAddress j)=if j=k then d else s.responseDescriptor j := by
  by_cases h : j=k
  · simp [h]
  · rw [Memory.putDescriptor_other _ _ (fun he => h (responseAddress_inj he)),if_neg h]
    rfl

theorem put_responseDescriptor_command (hk : k<s.port.responseRingLength) :
    (s.mem.putDescriptor (s.port.responseDescriptorAddress k) d).desc
      (s.port.commandDescriptorAddress j)=s.commandDescriptor j :=
  Memory.putDescriptor_other _ _ (response_ne_command hk).symm

end

section
variable {s t : State δ}

theorem Rings.congr (h : s.Rings F) (hb : t.port.ringBase=s.port.ringBase)
    (hc : t.port.commandRingLength=s.port.commandRingLength)
    (hr : t.port.responseRingLength=s.port.responseRingLength) (hm : t.mem.desc=s.mem.desc)
    (hmail : t.mem.mail=s.mem.mail) (hh : t.host=s.host) (hp : t.log.posted=s.log.posted) : t.Rings F := by
  have hcd : t.commandDescriptor=s.commandDescriptor := by
    funext k
    simp only [commandDescriptor,commandDescriptorAddress,hb,hr,hm]
  have hrd : t.responseDescriptor=s.responseDescriptor := by
    funext k
    simp only [responseDescriptor,responseDescriptorAddress,hb,hm]
  constructor
  · rw [hc,hcd,hh]; exact h.command
  · rw [hr,hrd,hh,hp]; exact h.response
  · rw [hh]; exact h.valid
  · rw [hh]; exact h.rung
  · rw [hh]; exact h.returned
  · rw [hh,hp]; exact h.taken
  · rw [hh,hmail,hcd,hc]; exact h.packet
  · rw [hh,hp,hmail,hrd,hr]; exact h.untaken
  · rw [hh,hrd,hr]; exact h.apart
  · rw [hh,hcd,hrd,hc,hr]; exact h.clear

theorem Rings.taken_le (h : s.Rings F) : s.host.taken.length ≤ s.log.posted.length :=
  h.taken.length_le

theorem Rings.fetch (h : s.Rings F) (hlt : F<s.host.handed.length)
    (hp : t.port=s.port) (hh : t.host=s.host) (hl : t.log.posted=s.log.posted)
    (hm : t.mem=s.mem.putDescriptor (s.port.commandDescriptorAddress (F%s.port.commandRingLength))
      (s.commandDescriptor (F%s.port.commandRingLength)).back) : t.Rings (F+1) := by
  have hcd : ∀ k,t.commandDescriptor k=if k=F%s.port.commandRingLength
      then (s.commandDescriptor (F%s.port.commandRingLength)).back else s.commandDescriptor k := by
    intro k
    rw [commandDescriptor,hm,hp,put_commandDescriptor]
  have hce : ∀ k,(t.commandDescriptor k).envelope=(s.commandDescriptor k).envelope := by
    intro k
    rw [hcd]
    split
    · subst k
      rfl
    · rfl
  have hrd : ∀ k,k<s.port.responseRingLength →
      t.responseDescriptor k=s.responseDescriptor k := by
    intro k hk
    rw [responseDescriptor,hm,hp,put_commandDescriptor_response s k _ _ hk]
  have hrm : ∀ i,t.responseDescriptor (i%s.port.responseRingLength) =
      s.responseDescriptor (i%s.port.responseRingLength) :=
    fun i => hrd _ (Nat.mod_lt i h.response.pos)
  have hmail : t.mem.mail=s.mem.mail := by rw [hm]; rfl
  constructor
  · rw [hp,hh]
    refine (h.command.consume hlt).congr fun k _ => ?_
    rw [hcd]
    by_cases hk : k=F%s.port.commandRingLength
    · rw [if_pos hk,hk,update_self]
      rfl
    · rw [if_neg hk,update_of_ne hk]
  · rw [hp,hh,hl]
    exact h.response.congr fun k hk => by rw [hrd k hk]
  · rw [hh]; exact h.valid
  · rw [hh]; exact h.rung
  · rw [hh]; exact h.returned
  · rw [hh,hl]; exact h.taken
  · intro i m hi hm'
    rw [hp,hce,hmail]
    exact h.packet i m (by omega) (hh ▸ hm')
  · rw [hh,hl,hmail,hp]
    intro i m hi hm'
    rw [hrm]
    exact h.untaken i m hi hm'
  · rw [hh,hp]
    intro i j hi hi' hj hj'
    rw [hrm,hrm]
    exact h.apart i j hi hi' hj hj'
  · rw [hh,hp]
    intro i j hi hi' hj hj'
    rw [hrm,hce]
    exact h.clear i j (by omega) hi' hj hj'

variable {envelope : Nat}

theorem Rings.write (h : s.Rings F) {packet : Message} (hp : t.port=s.port)
    (hh : t.host=s.host) (hl : t.log.posted=s.log.posted)
    (hm : t.mem=s.mem.putPacket envelope packet) (hc : ∀ i,F ≤ i → i<s.host.handed.length →
      (s.commandDescriptor (i%s.port.commandRingLength)).envelope≠envelope)
    (hr : ∀ i,s.host.taken.length ≤ i → i<s.log.posted.length →
      (s.responseDescriptor (i%s.port.responseRingLength)).envelope≠envelope) : t.Rings F := by
  have hcd : t.commandDescriptor=s.commandDescriptor := by
    funext k
    rw [commandDescriptor,hp,hm]
    rfl
  have hrd : t.responseDescriptor=s.responseDescriptor := by
    funext k
    rw [responseDescriptor,hp,hm]
    rfl
  constructor
  · rw [hp,hh,hcd]; exact h.command
  · rw [hp,hh,hl,hrd]; exact h.response
  · rw [hh]; exact h.valid
  · rw [hh]; exact h.rung
  · rw [hh]; exact h.returned
  · rw [hh,hl]; exact h.taken
  · rw [hh,hp,hcd,hm]
    intro i m hi hm'
    have hlt := (List.getElem?_eq_some_iff.mp hm').1
    rw [Memory.putPacket_other _ _ (hc i hi hlt)]
    exact h.packet i m hi hm'
  · rw [hh,hp,hl,hrd,hm]
    intro i m hi hm'
    have hlt := (List.getElem?_eq_some_iff.mp hm').1
    rw [Memory.putPacket_other _ _ (hr i hi hlt)]
    exact h.untaken i m hi hm'
  · rw [hh,hp,hrd]; exact h.apart
  · rw [hh,hp,hcd,hrd]; exact h.clear

theorem Rings.post (h : s.Rings F) {r : Message} (hlt : s.log.posted.length<s.host.returned+s.port.responseRingLength)
    (hmail : s.mem.mail (s.responseDescriptor (s.log.posted.length%s.port.responseRingLength)).envelope=r)
    (hp : t.port=s.port) (hh : t.host=s.host) (hl : t.log.posted=s.log.posted++[r]) (hm : t.mem=s.mem.putDescriptor
      (s.port.responseDescriptorAddress (s.log.posted.length%s.port.responseRingLength))
      (s.responseDescriptor (s.log.posted.length%s.port.responseRingLength)).back) : t.Rings F := by
  have hrd : ∀ k,t.responseDescriptor k=if k=s.log.posted.length%s.port.responseRingLength
      then (s.responseDescriptor (s.log.posted.length%s.port.responseRingLength)).back
      else s.responseDescriptor k := by
    intro k
    rw [responseDescriptor,hm,hp,put_responseDescriptor]
  have hre : ∀ k,(t.responseDescriptor k).envelope=(s.responseDescriptor k).envelope := by
    intro k
    rw [hrd]
    split
    · subst k
      rfl
    · rfl
  have hcd : t.commandDescriptor=s.commandDescriptor := by
    funext k
    rw [commandDescriptor,hm,hp,put_responseDescriptor_command s k _ _ (Nat.mod_lt _ h.response.pos)]
  have hmem : t.mem.mail=s.mem.mail := by rw [hm]; rfl
  constructor
  · rw [hp,hh,hcd]; exact h.command
  · rw [hp,hh,hl,length_append,length_singleton]
    refine (h.response.consume hlt).congr fun k _ => ?_
    rw [hrd]
    by_cases hk : k=s.log.posted.length%s.port.responseRingLength
    · rw [if_pos hk,hk,update_self]
      rfl
    · rw [if_neg hk,update_of_ne hk]
  · rw [hh]; exact h.valid
  · rw [hh]; exact h.rung
  · rw [hh]; exact h.returned
  · rw [hh,hl]; exact h.taken.trans (List.prefix_append _ _)
  · rw [hh,hp,hcd,hmem]; exact h.packet
  · rw [hh,hp,hl,hmem]
    intro i m hi hm'
    rw [hre]
    by_cases hlast : i<s.log.posted.length
    · rw [List.getElem?_append_left hlast] at hm'
      exact h.untaken i m hi hm'
    · have hlen := (List.getElem?_eq_some_iff.mp hm').1
      rw [length_append,length_singleton] at hlen
      obtain rfl : i=s.log.posted.length := by omega
      rw [List.getElem?_concat_length] at hm'
      exact hmail.trans (some.inj hm')
  · rw [hh,hp]
    intro i j hi hi' hj hj'
    rw [hre,hre]
    exact h.apart i j hi hi' hj hj'
  · rw [hh,hp,hcd]
    intro i j hi hi' hj hj'
    rw [hre]
    exact h.clear i j hi hi' hj hj'

/-! What the host does. -/

theorem Rings.command_room (h : s.Rings F) (ho : (s.mem.desc s.commandAddress).owner=false) :
    s.host.handed.length<F+s.port.commandRingLength :=
  h.command.next_free.mp ho

theorem Rings.response_there (h : s.Rings F) (ho : (s.mem.desc s.responseAddress).owner=false)
    (hlt : s.host.taken.length<s.host.returned+s.port.responseRingLength) :
    s.host.taken.length<s.log.posted.length := by
  obtain hlt' | heq := Nat.lt_or_eq_of_le h.taken_le
  · exact hlt'
  · have hn := h.response.next_owned.mpr (heq ▸ hlt)
    rw [← heq] at hn
    have ho' : (s.responseDescriptor (s.host.taken.length%s.port.responseRingLength)).owner=false :=
      ho
    rw [ho'] at hn
    cases hn

theorem Rings.hand_keeps (h : s.Rings F) {d : Descriptor}
    (ho : (s.mem.desc s.commandAddress).owner=false) (hp : t.port=s.port)
    (hm : t.mem=s.mem.putDescriptor s.commandAddress d) (i : Nat) (hi : F ≤ i)
    (hi' : i<s.host.handed.length) : t.commandDescriptor (i%s.port.commandRingLength) =
      s.commandDescriptor (i%s.port.commandRingLength) := by
  have hroom := h.command_room ho
  rw [commandDescriptor,hm,hp]
  refine (put_commandDescriptor s _ _ _).trans (if_neg fun he => ?_)
  have := ring_inj (a := F) hi (by omega) h.command.le hroom he
  omega

theorem Rings.hand (h : s.Rings F) {flag : Bool}
    (hg : s.Protocol (.command envelope flag)) (hp : t.port=s.port) (hl : t.log.posted=s.log.posted)
    (hh : t.host={ s.host with handed := s.host.handed++[s.mem.mail envelope] })
    (hm : t.mem=s.mem.putDescriptor s.commandAddress ⟨envelope,flag,true⟩) : t.Rings F := by
  obtain ⟨ho,hvalid,hfree⟩ := hg
  have hroom := h.command_room ho
  have hcd : ∀ k,t.commandDescriptor k =
      if k=s.host.handed.length%s.port.commandRingLength then ⟨envelope,flag,true⟩
      else s.commandDescriptor k := by
    intro k
    rw [commandDescriptor,hm,hp]
    exact put_commandDescriptor s k _ _
  have hold := h.hand_keeps ho hp hm
  have hrd : ∀ i,t.responseDescriptor (i%s.port.responseRingLength) =
      s.responseDescriptor (i%s.port.responseRingLength) := by
    intro i
    rw [responseDescriptor,hm,hp]
    exact put_commandDescriptor_response s _ _ _ (Nat.mod_lt _ h.response.pos)
  have hmail : t.mem.mail=s.mem.mail := by rw [hm]; rfl
  constructor
  · rw [hp,hh,length_append,length_singleton]
    refine (h.command.hand hroom).congr fun k _ => ?_
    rw [hcd]
    by_cases hk : k=s.host.handed.length%s.port.commandRingLength
    · rw [if_pos hk,hk,update_self]
    · rw [if_neg hk,update_of_ne hk]
  · rw [hp,hh,hl]
    refine h.response.congr fun k hk => ?_
    have := hrd k
    rw [Nat.mod_eq_of_lt hk] at this
    rw [this]
  · rw [hh]
    intro m hm'
    obtain hm' | hm' := mem_append.mp hm'
    · exact h.valid m hm'
    · rw [mem_singleton.mp hm']
      exact hvalid
  · rw [hh]
    exact Nat.le_trans h.rung (by simp)
  · rw [hh]; exact h.returned
  · rw [hh,hl]; exact h.taken
  · rw [hh,hp,hmail]
    intro i m hi hm'
    by_cases hlt : i<s.host.handed.length
    · rw [List.getElem?_append_left hlt] at hm'
      rw [hold i hi hlt]
      exact h.packet i m hi hm'
    · have hlen := (List.getElem?_eq_some_iff.mp hm').1
      rw [length_append,length_singleton] at hlen
      obtain rfl : i=s.host.handed.length := by omega
      rw [List.getElem?_concat_length] at hm'
      rw [hcd,if_pos rfl]
      exact some.inj hm'
  · rw [hh,hp,hl,hmail]
    intro i m hi hm'
    rw [hrd]
    exact h.untaken i m hi hm'
  · rw [hh,hp]
    intro i j hi hi' hj hj'
    rw [hrd,hrd]
    exact h.apart i j hi hi' hj hj'
  · rw [hh,hp]
    intro i j hi hi' hj hj'
    rw [hrd]
    by_cases hlt : i<s.host.handed.length
    · rw [hold i hi hlt]
      exact h.clear i j hi hlt hj hj'
    · rw [length_append,length_singleton] at hi'
      obtain rfl : i=s.host.handed.length := by omega
      rw [hcd,if_pos rfl]
      exact (hfree j hj hj').symm

theorem Rings.collect (h : s.Rings F) (hg : s.Protocol .collect) (hp : t.port=s.port)
    (hl : t.log.posted=s.log.posted) (hm : t.mem=s.mem) (hh : t.host={ s.host with
      taken := s.host.taken++[s.mem.mail (s.mem.desc s.responseAddress).envelope] }) : t.Rings F := by
  obtain ⟨ho,hlt⟩ := hg
  have hthere := h.response_there ho hlt
  have hcd : t.commandDescriptor=s.commandDescriptor := by
    funext k
    rw [commandDescriptor,hm,hp]
    rfl
  have hrd : t.responseDescriptor=s.responseDescriptor := by
    funext k
    rw [responseDescriptor,hm,hp]
    rfl
  have hnext : s.mem.mail (s.mem.desc s.responseAddress).envelope=s.log.posted[s.host.taken.length] :=
    h.untaken _ _ (Nat.le_refl _) (List.getElem?_eq_getElem hthere)
  constructor
  · rw [hp,hh,hcd]; exact h.command
  · rw [hp,hh,hl,hrd]; exact h.response
  · rw [hh]; exact h.valid
  · rw [hh]; exact h.rung
  · rw [hh]
    exact Nat.le_trans h.returned (by simp)
  · rw [hh,hl,hnext]
    obtain ⟨rest,he⟩ := h.taken
    have hrest : rest=s.log.posted[s.host.taken.length]::rest.tail := by
      cases rest with
      | nil =>
        rw [append_nil] at he
        rw [he] at hthere
        exact absurd hthere (Nat.lt_irrefl _)
      | cons r rest => simp [← he]
    refine ⟨rest.tail,?_⟩
    rw [append_assoc,singleton_append,← hrest,he]
  · rw [hh,hp,hcd,hm]; exact h.packet
  · rw [hh,hp,hl,hrd,hm]
    intro i m hi hm'
    rw [length_append,length_singleton] at hi
    exact h.untaken i m (by omega) hm'
  · rw [hh,hp,hrd]
    intro i j hi hi' hj hj'
    rw [length_append,length_singleton] at hi hj
    exact h.apart i j (by omega) hi' (by omega) hj'
  · rw [hh,hp,hcd,hrd]
    intro i j hi hi' hj hj'
    rw [length_append,length_singleton] at hj
    exact h.clear i j hi hi' (by omega) hj'

theorem give_keeps {d : Descriptor} (hlt : s.host.returned<s.host.taken.length)
    (hp : t.port=s.port) (hm : t.mem=s.mem.putDescriptor s.returnAddress d) (i : Nat)
    (hi : s.host.taken.length ≤ i) (hi' : i<s.host.returned+s.port.responseRingLength) :
    t.responseDescriptor (i%s.port.responseRingLength) = s.responseDescriptor (i%s.port.responseRingLength) := by
  rw [responseDescriptor,hm,hp]
  refine (put_responseDescriptor s _ _ _).trans (if_neg fun he => ?_)
  have := ring_inj (a := s.host.returned) (by omega) hi' (Nat.le_refl _) (by omega) he
  omega

theorem Rings.give (h : s.Rings F) {flag : Bool} (hg : s.Protocol (.giveBack envelope flag)) (hp : t.port=s.port)
    (hl : t.log.posted=s.log.posted) (hh : t.host={ s.host with returned := s.host.returned+1 })
    (hm : t.mem=s.mem.putDescriptor s.returnAddress ⟨envelope,flag,true⟩) : t.Rings F := by
  obtain ⟨hlt,hfree⟩ := hg
  have hle := h.taken_le
  have hpos := h.response.pos
  have hrd : ∀ k,t.responseDescriptor k =
      if k=s.host.returned%s.port.responseRingLength then ⟨envelope,flag,true⟩
      else s.responseDescriptor k := by
    intro k
    rw [responseDescriptor,hm,hp]
    exact put_responseDescriptor s k _ _
  have hold := give_keeps hlt hp hm
  have hlast : t.responseDescriptor
      ((s.host.returned+s.port.responseRingLength)%s.port.responseRingLength) =
      ⟨envelope,flag,true⟩ := by
    rw [hrd,Nat.add_mod_right,if_pos rfl]
  have hcd : t.commandDescriptor=s.commandDescriptor := by
    funext k
    rw [commandDescriptor,hm,hp]
    exact put_responseDescriptor_command s k _ _ (Nat.mod_lt _ hpos)
  have hmail : t.mem.mail=s.mem.mail := by rw [hm]; rfl
  constructor
  · rw [hp,hh,hcd]; exact h.command
  · rw [hp,hh,hl]
    have hr := h.response.hand (by omega)
    rw [Nat.add_mod_right] at hr
    have heq : s.host.returned+1+s.port.responseRingLength =
        s.host.returned+s.port.responseRingLength+1 := by omega
    simp only [heq]
    refine hr.congr fun k _ => ?_
    rw [hrd]
    by_cases hk : k=s.host.returned%s.port.responseRingLength
    · rw [if_pos hk,hk,update_self]
    · rw [if_neg hk,update_of_ne hk]
  · rw [hh]; exact h.valid
  · rw [hh]; exact h.rung
  · rw [hh]; exact hlt
  · rw [hh,hl]; exact h.taken
  · rw [hh,hp,hcd,hmail]; exact h.packet
  · rw [hh,hp,hl,hmail]
    intro i m hi hm'
    have hlen := (List.getElem?_eq_some_iff.mp hm').1
    have hr := h.response.le
    rw [hold i hi (by omega)]
    exact h.untaken i m hi hm'
  · rw [hh,hp]
    intro i j hi hi' hj hj' he
    simp only at hi hi' hj hj'
    by_cases hi2 : i<s.host.returned+s.port.responseRingLength
    · by_cases hj2 : j<s.host.returned+s.port.responseRingLength
      · rw [hold i hi hi2,hold j hj hj2] at he
        exact h.apart i j hi hi2 hj hj2 he
      · obtain rfl : j=s.host.returned+s.port.responseRingLength := by omega
        rw [hold i hi hi2,hlast] at he
        exact absurd (.inl ⟨i,hi,hi2,he⟩) hfree
    · obtain rfl : i=s.host.returned+s.port.responseRingLength := by omega
      by_cases hj2 : j<s.host.returned+s.port.responseRingLength
      · rw [hold j hj hj2,hlast] at he
        exact absurd (.inl ⟨j,hj,hj2,he.symm⟩) hfree
      · omega
  · rw [hh,hp,hcd]
    intro i j hi hi' hj hj' he
    simp only at hi' hj hj'
    by_cases hj2 : j<s.host.returned+s.port.responseRingLength
    · rw [hold j hj hj2] at he
      exact h.clear i j hi hi' hj hj2 he
    · obtain rfl : j=s.host.returned+s.port.responseRingLength := by omega
      rw [hlast] at he
      exact hfree (.inr ⟨_,Nat.mod_lt i h.command.pos,h.command.owner_of_between hi hi',he⟩)

theorem Rings.free (h : s.Rings F) (hg : ¬ s.InUse envelope) : (∀ i,F ≤ i → i<s.host.handed.length →
      (s.commandDescriptor (i%s.port.commandRingLength)).envelope≠envelope) ∧
    ∀ i,s.host.taken.length ≤ i → i<s.host.returned+s.port.responseRingLength →
      (s.responseDescriptor (i%s.port.responseRingLength)).envelope≠envelope :=
  ⟨fun i hi hi' he => hg (.inr ⟨_,Nat.mod_lt i h.command.pos,h.command.owner_of_between hi hi',he⟩),
    fun i hi hi' he => hg (.inl ⟨i,hi,hi',he⟩)⟩

end

end State

end QUniLator.Mscp
