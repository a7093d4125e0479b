import QUniLator.Mscp.Exchange
import QUniLator.Mscp.Reset

namespace QUniLator.Mscp

open Bool (false_eq_true)

open List

/-- Where the program counter stands in a round of `LingerForNextCommand` or, from 7000 on, in the
execution of a command. A message less is worth 20. -/
def PollerPc.rank : PollerPc → Nat
  | .linger n => if n<600 then 10*(600-n)+9 else 1
  | .pendingBase n => if n<600 then 10*(600-n)+8 else 8
  | .pendingRunning n => if n<600 then 10*(600-n)+7 else 7
  | .pendingRead n => if n<600 then 10*(600-n)+6 else 6
  | .settle n => if n<600 then 10*(600-n)+5 else 5
  | .doze n => if n<600 then 10*(600-n)+4 else 4
  | .exec _ => 7000
  | .serve _ _ => 6999
  | .hold _ _ => 7018
  | .holdRunning _ _ => 7017
  | .postDescriptor _ _ => 7016
  | .postLength _ _ _ _ => 7015
  | .postMessage _ _ _ _ => 7014
  | .postGiveBack _ _ _ _ => 7013
  | .markResponse _ => 7012
  | .interruptResponse _ => 7011
  | .postAdvance _ => 7010
  | _ => 0

def PollerPc.scanRank : PollerPc → Nat
  | .top => 30
  | .advance _ _ _ => 29
  | .markCommand _ _ => 28
  | .interruptCommand _ _ => 27
  | .ring _ => 26
  | .readDescriptor _ => 25
  | .readLength _ _ _ => 24
  | .readMessage _ _ _ _ => 23
  | .giveBack _ _ _ _ => 22
  | _ => 0

namespace State

variable {δ : Type} {c : Controller δ} {u0 : Server δ} {F : Nat} {s t : State δ}

def left (s : State δ) : Nat :=
  s.host.handed.length-(s.log.executed.length+s.poller.inHand.length)

def passes (s : State δ) : Nat :=
  match s.poller,s.pollState with
  | .top,.wait => 0
  | .top,_ => 2
  | .endPass true,_ => 3
  | _,.initRun => 3
  | _,_ => 1

/-- What the polling thread has to do before it rests. With commands in the ring it executes what it
has and then reads; with none it reads, executes and lingers. -/
def work (s : State δ) : Nat :=
  100000*s.left+20*s.poller.inHand.length+
    if s.left=0 then 20000*s.passes+(if s.poller.scanning then 8000+s.poller.scanRank
      else s.poller.rank)
    else if s.poller.scanning then s.poller.scanRank else 40+s.poller.rank

/-- The polling thread has a response for the host, which has no free slot for it. -/
def Stalled (s : State δ) : Prop :=
  s.poller.reply≠[] ∧ s.log.posted.length=s.host.returned+s.port.responseRingLength

theorem work_lt (hi : t.poller.inHand.length=s.poller.inHand.length) (hh : t.host=s.host)
    (he : t.log.executed=s.log.executed) (hpass : s.left=0 → t.passes ≤ s.passes)
    (hsc : t.poller.scanning=s.poller.scanning) (hrank : t.poller.rank<s.poller.rank ∧ t.poller.scanning=false ∨
      t.poller.scanRank<s.poller.scanRank ∧ t.poller.scanning) : t.work<s.work := by
  have hl : t.left=s.left := by rw [left,left,hi,hh,he]
  rw [work,work,hi,hl,← hsc]
  obtain ⟨hr,hf⟩ | ⟨hr,hf⟩ := hrank <;> simp only [hf,false_eq_true,if_true,if_false] <;>
    split
  · have := hpass ‹_›
    omega
  · omega
  · have := hpass ‹_›
    omega
  · omega

theorem passes_le {pc pc' : PollerPc} (hp : s.poller=pc) (hp' : t.poller=pc')
    (hps : t.pollState=s.pollState) (hn : pc≠.top) (hn' : pc'≠.top)
    (he : pc'≠.endPass true) : t.passes ≤ s.passes := by
  have ht : t.passes=if s.pollState=.initRun then 3 else 1 := by
    rw [passes,hp',hps]
    cases pc' with
    | top => exact absurd rfl hn'
    | endPass m =>
      cases m with
      | true => exact absurd rfl he
      | false => cases s.pollState <;> rfl
    | _ => cases s.pollState <;> rfl
  have hs : (if s.pollState=.initRun then 3 else 1) ≤ s.passes := by
    rw [passes,hp]
    cases pc with
    | top => exact absurd rfl hn
    | endPass m => cases m <;> cases s.pollState <;> simp
    | _ => cases s.pollState <;> simp
  rw [ht]
  exact hs

/-- A step that moves the program counter within the reading or within the rest of a pass. -/
theorem work_goto {pc pc' : PollerPc} (hp : s.poller=pc) (ht : t={ s with poller := pc' })
    (hn : pc≠.top) (hn' : pc'≠.top) (he : s.left=0 → pc'≠.endPass true)
    (hi : pc'.inHand=pc.inHand) (hsc : pc'.scanning=pc.scanning)
    (hrank : pc'.rank<pc.rank ∧ pc'.scanning=false ∨
      pc'.scanRank<pc.scanRank ∧ pc'.scanning) : t.work<s.work := by
  subst ht
  refine work_lt ?_ rfl rfl (fun h0 => passes_le hp rfl rfl hn hn' (he h0)) ?_ ?_ <;>
    simp only [hp]
  · rw [hi]
  · exact hsc
  · exact hrank

theorem Exchange.left_eq (hs : s.Exchange c u0 F) : s.left=s.host.handed.length-F := by
  rw [left,hs.thread.count]

theorem work_decreases (hs : s.Exchange c u0 F) (hn : ¬ s.Stalled)
    (h : s.pollStep c true=some t) : t.poller=.blocked ∨ t.work<s.work := by
  have hth := hs.thread
  have hps := hs.operating.pollState
  have hleft := hs.left_eq
  cases hp : s.poller <;> rw [hp] at hth <;>
    simp only [pollStep,hp,Option.some.injEq,Bool.not_true,Bool.false_or,false_eq_true,if_false,hps] at h
  case blocked => cases h
  case errorSA | errorReset => exact hth.locals.elim
  case top =>
    by_cases hw : s.pollState=.wait
    · rw [if_pos hw] at h
      subst h
      exact .inl rfl
    · rw [if_neg hw] at h
      right
      have hrun : (if s.pollState=.initRun then PollingState.run else s.pollState)=.run := by
        cases hps' : s.pollState <;> simp [hps'] at hw hps ⊢
      have hpass : s.passes=2 := by
        rw [passes,hp]
        cases hps' : s.pollState <;> simp [hps'] at hw ⊢
      rw [hrun] at h
      subst h
      simp only [work,left,passes,hp,PollerPc.inHand,PollerPc.scanning,PollerPc.scanRank] at hpass ⊢
      split <;> omega
  all_goals right
  case ring q =>
    exact work_goto hp h.symm (by simp) (by simp) (by simp) rfl rfl
      (.inr ⟨by simp [PollerPc.scanRank],rfl⟩)
  case readDescriptor q =>
    have hnext := hs.command_next (by rw [hp]; rfl)
    have howner := hs.rings.command.next_owned
    simp only [commandDescriptor] at howner
    simp only [getNextCommand,hnext,Bool.not_true,false_eq_true,if_false] at h
    split at h
    · exact work_goto hp h.symm (by simp) (by simp) (by simp) rfl rfl
        (.inr ⟨by simp [PollerPc.scanRank],rfl⟩)
    · -- nothing waits: the reading is over
      rename_i ho
      have hzero : s.left=0 := by
        have := Nat.not_lt.mp fun hlt => ho (howner.mpr hlt)
        omega
      have hpass : t.passes ≤ s.passes := by
        subst h
        exact passes_le hp rfl rfl (by simp) (by simp) (by simp)
      have hzero' : t.left=0 := by
        subst h
        rw [left,hp] at hzero
        exact hzero
      have hi : t.poller=.exec q := by rw [← h]
      rw [work,work,hzero,hzero',hi,hp]
      simp only [if_true,PollerPc.inHand,PollerPc.scanning,PollerPc.rank,PollerPc.scanRank,false_eq_true,if_false]
      omega
  case readLength q address d =>
    obtain ⟨hlt,rfl,rfl⟩ := hth.locals
    obtain ⟨hm,hpos,hmax,heven⟩ := hs.packet hlt
    simp only [commandDescriptor] at hm
    rw [← hm] at hpos hmax
    simp only [beq_iff_eq,Nat.ne_of_gt hpos,Bool.or_eq_true,decide_eq_true_eq,
      Nat.not_le.mpr hmax,false_or,if_false] at h
    exact work_goto hp h.symm (by simp) (by simp) (by simp) rfl rfl
      (.inr ⟨by simp [PollerPc.scanRank],rfl⟩)
  case readMessage q address d messageLength =>
    obtain ⟨hlt,rfl,rfl,rfl⟩ := hth.locals
    obtain ⟨hm,hpos,hmax,heven⟩ := hs.packet hlt
    simp only [commandDescriptor] at hm
    rw [← hm] at heven
    simp only [heven,bne_self_eq_false,false_eq_true,if_false] at h
    exact work_goto hp h.symm (by simp) (by simp) (by simp) rfl rfl
      (.inr ⟨by simp [PollerPc.scanRank],rfl⟩)
  case giveBack q address d m =>
    -- a command less waits, which outweighs all else
    have hlt := hth.locals.1
    have hcount := hth.count
    subst h
    have hpass : passes { s with
        mem := s.mem.putDescriptor address d.back,poller := .advance q d.flag m }≤3 := by
      rw [passes]
      cases s.pollState <;> simp
    simp only [work,left,hp,PollerPc.inHand,length_append,length_singleton,
      PollerPc.scanning,PollerPc.scanRank,if_true] at hpass hcount ⊢
    split <;> split <;> omega
  case advance q flag m =>
    subst h
    cases flag
    all_goals
      refine work_lt ?_ rfl rfl (fun _ => passes_le hp rfl rfl (by simp) (by simp) (by simp)) ?_
        (.inr ⟨?_,rfl⟩) <;>
        simp [hp,PollerPc.inHand,PollerPc.scanning,PollerPc.scanRank]
  case markCommand q m | interruptCommand q m =>
    subst h
    refine work_lt ?_ rfl rfl (fun _ => passes_le hp rfl rfl (by simp) (by simp) (by simp)) ?_
      (.inr ⟨?_,rfl⟩) <;>
      simp [hp,PollerPc.inHand,PollerPc.scanning,PollerPc.scanRank]
  case exec q =>
    obtain ⟨messages,msgCount⟩ := q
    cases messages with
    | nil =>
      by_cases hc : 0 < msgCount
      · simp only [hc,if_true] at h
        exact work_goto hp h.symm (by simp) (by simp) (by simp) rfl rfl
          (.inl ⟨by simp [PollerPc.rank],rfl⟩)
      · simp only [hc,if_false] at h
        exact work_goto hp h.symm (by simp) (by simp) (by simp) rfl rfl
          (.inl ⟨by simp [PollerPc.rank],rfl⟩)
    | cons m ms =>
      exact work_goto hp h.symm (by simp) (by simp) (by simp) rfl rfl
        (.inl ⟨by simp [PollerPc.rank],rfl⟩)
  case serve q m =>
    have hpass : t.passes ≤ s.passes := by
      subst h
      exact passes_le hp rfl rfl (by simp) (by simp) (by simp)
    subst h
    simp only [work,left,hp,PollerPc.inHand,length_append,length_nil,
      length_cons,PollerPc.scanning,PollerPc.rank,false_eq_true,if_false] at hpass ⊢
    split <;> split <;> omega
  case postDescriptor q r =>
    have hnext := hs.response_next (by rw [hp]; rfl)
    have howner := hs.rings.response.next_owned
    simp only [responseDescriptor] at howner
    simp only [postResponse,hnext,Bool.not_true,false_eq_true,if_false] at h
    split at h
    · exact work_goto hp h.symm (by simp) (by simp) (by simp) rfl rfl
        (.inl ⟨by simp [PollerPc.rank],rfl⟩)
    · rename_i ho
      have hge := Nat.not_lt.mp fun hlt => ho (howner.mpr hlt)
      exact absurd ⟨by simp [hp,PollerPc.reply],Nat.le_antisymm hs.rings.response.le hge⟩ hn
  case postLength q r address d =>
    exact work_goto hp h.symm (by simp) (by simp) (by simp) rfl rfl
      (.inl ⟨by simp [PollerPc.rank],rfl⟩)
  case postMessage q r address d | markResponse q | interruptResponse q | postAdvance q =>
    subst h
    refine work_lt ?_ rfl rfl (fun _ => passes_le hp rfl rfl (by simp) (by simp) (by simp)) ?_
      (.inl ⟨?_,rfl⟩) <;>
      simp [hp,PollerPc.inHand,PollerPc.scanning,PollerPc.rank]
  case postGiveBack q r address d =>
    subst h
    cases d.flag
    all_goals
      refine work_lt ?_ rfl rfl (fun _ => passes_le hp rfl rfl (by simp) (by simp) (by simp)) ?_
        (.inl ⟨?_,rfl⟩) <;>
        simp [hp,PollerPc.inHand,PollerPc.scanning,PollerPc.rank]
  case hold q r =>
    exact work_goto hp h.symm (by simp) (by simp) (by simp) rfl rfl
      (.inl ⟨by simp [PollerPc.rank],rfl⟩)
  case holdRunning q r =>
    have hrun : s.port.isRunning := by simp [Port.isRunning,hs.operating.initStep]
    simp only [hrun,if_true] at h
    exact work_goto hp h.symm (by simp) (by simp) (by simp) rfl rfl
      (.inl ⟨by simp [PollerPc.rank],rfl⟩)
  case linger n =>
    split at h
    · rename_i hr
      have hlt : n<600 := hr.1
      exact work_goto hp h.symm (by simp) (by simp) (by simp) rfl rfl
        (.inl ⟨by simp [PollerPc.rank,hlt],rfl⟩)
    · exact work_goto hp h.symm (by simp) (by simp) (by simp) rfl rfl
        (.inl ⟨by simp only [PollerPc.rank]; split <;> omega,rfl⟩)
  case pendingBase n | pendingRunning n =>
    split at h
    all_goals
      exact work_goto hp h.symm (by simp) (by simp) (by simp) rfl rfl
        (.inl ⟨by simp only [PollerPc.rank]; split <;> omega,rfl⟩)
  case pendingRead n =>
    have hnext := hs.command_next (by rw [hp]; rfl)
    have howner := hs.rings.command.next_owned
    simp only [commandDescriptor] at howner
    rw [hnext] at h
    split at h
    · rename_i ho
      have hlt := howner.mp ho
      exact work_goto hp h.symm (by simp) (by simp) (fun h0 => by omega) rfl rfl
        (.inl ⟨by simp only [PollerPc.rank]; split <;> omega,rfl⟩)
    · exact work_goto hp h.symm (by simp) (by simp) (by simp) rfl rfl
        (.inl ⟨by simp only [PollerPc.rank]; split <;> omega,rfl⟩)
  case settle n =>
    split at h
    · exact work_goto hp h.symm (by simp) (by simp) (by simp) rfl rfl
        (.inl ⟨by simp only [PollerPc.rank]; split <;> omega,rfl⟩)
    · exact work_goto hp h.symm (by simp) (by simp) (by simp) rfl rfl
        (.inl ⟨by simp only [PollerPc.rank]; split <;> split <;> omega,rfl⟩)
  case doze n =>
    exact work_goto hp h.symm (by simp) (by simp) (by simp) rfl rfl
      (.inl ⟨by simp only [PollerPc.rank]; split <;> split <;> omega,rfl⟩)
  case endPass m =>
    -- the next pass comes first, if there is one
    subst h
    have hpass : (s.endOfPass m).passes+1 ≤ s.passes := by
      rw [passes,passes,hp]
      cases hps' : s.pollState <;> cases m <;> simp [endOfPass,hps'] at hps ⊢
    have htop : (s.endOfPass m).poller=.top := by
      cases hps' : s.pollState <;> simp [endOfPass,hps']
    have hleft' : (s.endOfPass m).left=s.left := by
      rw [left,left,htop,hp]
      cases hps' : s.pollState <;> simp [endOfPass,hps',broadcast,PollerPc.inHand]
    rw [work,work,hleft',htop,hp]
    simp only [PollerPc.inHand,PollerPc.scanning,PollerPc.scanRank,PollerPc.rank,
      false_eq_true,if_true,if_false,length_nil]
    split <;> omega

theorem comes_to_rest (hs : s.Exchange c u0 F) : ∃ n t,Runs c Protocol s (replicate n (.poll true)) t ∧
      (t.poller=.blocked ∨ t.Stalled) := by
  induction hw : s.work using Nat.strong_induction_on generalizing s F with
  | _ w ih =>
    by_cases hd : s.poller=.blocked ∨ s.Stalled
    · exact ⟨0,s,.nil s,hd⟩
    · obtain ⟨hb,hst⟩ := not_or.mp hd
      obtain ⟨t,ht⟩ : ∃ t,s.pollStep c true=some t := by
        cases hp : s.poller <;> simp only [pollStep,hp] <;>
          first | exact ⟨_,rfl⟩ | exact absurd hp hb
      obtain ⟨F',hs'⟩ := pollStep_exchange hs ht
      obtain hbl | hlt := work_decreases hs hst ht
      · exact ⟨1,t,.cons ⟨rfl,ht⟩ (.nil t),.inl hbl⟩
      · obtain ⟨n,v,hr,hv⟩ := ih t.work (hw ▸ hlt) hs' rfl
        exact ⟨n+1,v,.cons ⟨rfl,ht⟩ hr,hv⟩

/-- **MSCP commands are executed exactly once, in order.** In every run by the protocol what is executed is what the
host handed over, in order, each command has one response, which stays until the host takes it, and the polling thread
by itself comes to rest with all answered, or holds a response for which there is no free slot. -/
theorem commands_exactly_once {s0 : State δ} {as : List Action} (h0 : s0.Ready)
    (h : Runs c Protocol s0 as s) : s.log.executed <+: s.host.handed ∧
    s.log.posted <+: responses c s0.server s.log.executed ∧
    s.log.executed.length ≤ s.log.posted.length+1 ∧ s.host.taken <+: s.log.posted ∧
    (∀ address,s.writesDescriptor=some address → (s.mem.desc address).owner) ∧
    (∀ i m,s.host.taken.length ≤ i → s.log.posted[i]? = some m →
      (s.responseDescriptor (i%s.port.responseRingLength)).owner=false ∧
      s.mem.mail (s.responseDescriptor (i%s.port.responseRingLength)).envelope=m) ∧
    (s.poller=.blocked → s.host.rung ≤ s.log.executed.length ∧ s.log.posted=responses c s0.server s.log.executed) ∧
    ∃ n t,Runs c Protocol s (replicate n (.poll true)) t ∧ (t.poller=.blocked ∨ t.Stalled) := by
  obtain ⟨F,hs⟩ := run_exchange h0 h
  have hth := hs.thread
  refine ⟨(List.prefix_append _ _).trans hth.order,⟨_,hth.answered⟩,?_,hs.rings.taken,
    fun _ => hs.writes,?_,?_,comes_to_rest hs⟩
  · have hlen := congrArg List.length hth.answered
    have hreply : s.poller.reply.length≤1 := by
      cases s.poller <;> simp [PollerPc.reply]
    rw [length_append,responses_length] at hlen
    omega
  · intro i m hi hm
    have hlt := (List.getElem?_eq_some_iff.mp hm).1
    refine ⟨?_,hs.rings.untaken i m hi hm⟩
    -- one turn ahead the slot is one the host has yet to give back
    have hret := hs.rings.returned
    have hle := hs.rings.response.le
    have ho := hs.rings.response.owned (i+s.port.responseRingLength) (by omega) (by omega)
    rw [Nat.add_mod_right] at ho
    exact Bool.eq_false_iff.mpr fun h => absurd (ho.mp h) (by omega)
  · intro hb
    rw [hb] at hth
    have hcount := hth.count
    have hanswered := hth.answered
    simp only [PollerPc.inHand,PollerPc.reply,length_nil,append_nil] at hcount hanswered
    have hheard := hth.heard
    simp only [Heard,ne_eq,not_true_eq_false,and_false,PollerPc.scanning,false_eq_true,or_false] at hheard
    exact ⟨by omega,hanswered⟩

instance (s : State δ) (envelope : Nat) : Decidable (s.InUse envelope) :=
  decidable_of_iff
    ((∃ i,i<s.host.returned+s.port.responseRingLength ∧ s.host.taken.length ≤ i ∧
      (s.responseDescriptor (i%s.port.responseRingLength)).envelope=envelope) ∨
    ∃ k,k<s.port.commandRingLength ∧ (s.commandDescriptor k).owner ∧
      (s.commandDescriptor k).envelope=envelope)
    (by simp only [InUse,and_left_comm])

instance (s : State δ) (a : Action) : Decidable (s.Protocol a) :=
  match a with
  | .ipWrite | .init | .writeDescriptor _ _ => isFalse id
  | .ipRead | .saWrite _ | .bus | .wakeWorker | .wakePoller => isTrue trivial
  | .worker ok | .poll ok => inferInstanceAs (Decidable (ok=true))
  | .writePacket envelope _ => inferInstanceAs (Decidable (¬ s.InUse envelope))
  | .command envelope _ =>
    decidable_of_iff ((s.mem.desc s.commandAddress).owner=false ∧ (s.mem.mail envelope).Valid ∧
      ∀ i,i<s.host.returned+s.port.responseRingLength → s.host.taken.length ≤ i →
        (s.responseDescriptor (i%s.port.responseRingLength)).envelope≠envelope)
      ⟨fun h => ⟨h.1,h.2.1,fun i hi hi' => h.2.2 i hi' hi⟩,
        fun h => ⟨h.1,h.2.1,fun i hi hi' => h.2.2 i hi' hi⟩⟩
  | .collect => inferInstanceAs (Decidable (_ ∧ _))
  | .giveBack envelope _ =>
    inferInstanceAs (Decidable (s.host.returned<s.host.taken.length ∧ ¬ s.InUse envelope))

def sampleCommand : Message :=
  ⟨32,0,0,0,7,0,0,2,0,0,[]⟩

def firstExchange : List Action :=
  [.writePacket 256 sampleCommand,.command 256 false,.ipRead,.bus] ++
  replicate 30 (.poll true)++[.collect]

/-- The handshake, and the first exchange after it. -/
theorem commands_exactly_once_first : ∃ s0 s, Runs .bare (fun _ _ => True) (start () .blank) handshake s0 ∧
    Runs .bare Protocol s0 firstExchange s ∧
    s.host.taken.length=1 ∧ s.log.executed <+: s.host.handed ∧ s.host.taken <+: s.log.posted := by
  obtain ⟨s0,hs0,hp⟩ := run_of_foldlM (fun _ _ => True) (step .bare)
    (fun s => decide ((s.port.initStep=.complete ∧ s.port.nextStep=false ∧ s.worker=.wait ∧
        s.bus=.idle ∧ s.pollState=.wait ∧ s.poller.inPass=false) ∧
      (s.port.commandRingLength=1 ∧ s.port.responseRingLength=1 ∧
        s.port.commandRingPointer=0 ∧ s.port.responseRingPointer=0 ∧
        (s.commandDescriptor 0).owner=false ∧ (s.responseDescriptor 0).owner=true) ∧
      (s.host.handed=[] ∧ s.host.rung=0 ∧ s.host.taken=[] ∧ s.host.returned=0) ∧
      s.log.executed=[] ∧ s.log.posted=[]) &&
      (firstExchange.foldlM (fun s a => if Protocol s a then step .bare s a else none) s).any
        (fun s => s.host.taken.length == 1))
    handshake (start () .blank) (by decide +kernel)
  rw [Bool.and_eq_true,decide_eq_true_eq] at hp
  obtain ⟨⟨⟨h1,h2,h3,h4,h5,h6⟩,⟨hc,hr,hcp,hrp,hco,hro⟩,⟨hh,hru,ht,hre⟩,he,hpo⟩,hrun⟩ := hp
  obtain ⟨s,hs,ht1⟩ := run_of_foldlM Protocol (step .bare) _ _ s0 hrun
  have h0 : s0.Ready := by
    refine ⟨h1,h2,h3,h4,h5,h6,⟨0,hc⟩,⟨0,hr⟩,hcp,hrp,fun k hk => ?_,fun k hk => ?_,
      fun j k hj hk _ => by omega,?_,?_⟩
    · obtain rfl : k=0 := by omega
      exact hco
    · obtain rfl : k=0 := by omega
      exact hro
    · cases hhost : s0.host
      simp_all
    · cases hlog : s0.log
      simp_all
  obtain ⟨hex,-,-,htk,-⟩ := commands_exactly_once h0 hs
  exact ⟨s0,s,hs0,hs,by simpa using ht1,hex,htk⟩

end State

end QUniLator.Mscp
