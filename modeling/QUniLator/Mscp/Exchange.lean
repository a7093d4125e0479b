import QUniLator.Mscp.Rings

namespace QUniLator.Mscp.State

open List PollerPc

variable {δ : Type} {c : Controller δ} {u0 : Server δ} {F : Nat} {s t : State δ}

/-- The locals of the polling thread outlive what leaves the two descriptors at hand and their buffers. -/
theorem Locals.keep {pc : PollerPc} (h : Locals F s pc) (hp : t.port=s.port)
    (hl : t.log.posted=s.log.posted) (hhand : s.host.handed.length≤t.host.handed.length)
    (hret : s.host.returned≤t.host.returned) (hc : F<s.host.handed.length →
      t.commandDescriptor (F%s.port.commandRingLength) = s.commandDescriptor (F%s.port.commandRingLength) ∧
      t.mem.mail (s.commandDescriptor (F%s.port.commandRingLength)).envelope =
        s.mem.mail (s.commandDescriptor (F%s.port.commandRingLength)).envelope)
    (hr : s.log.posted.length<s.host.returned+s.port.responseRingLength →
      t.responseDescriptor (s.log.posted.length%s.port.responseRingLength) =
        s.responseDescriptor (s.log.posted.length%s.port.responseRingLength) ∧ t.mem.mail (s.responseDescriptor
          (s.log.posted.length%s.port.responseRingLength)).envelope = s.mem.mail (s.responseDescriptor
          (s.log.posted.length%s.port.responseRingLength)).envelope) : Locals F t pc := by
  simp only [commandDescriptor,responseDescriptor,hp] at hc hr
  cases pc <;> simp only [Locals,hp,hl] at h ⊢
  case readLength =>
    obtain ⟨hlt,rfl,rfl⟩ := h
    exact ⟨by omega,rfl,(hc hlt).1.symm⟩
  case readMessage =>
    obtain ⟨hlt,rfl,rfl,rfl⟩ := h
    exact ⟨by omega,rfl,(hc hlt).1.symm,by rw [(hc hlt).2]⟩
  case giveBack =>
    obtain ⟨hlt,rfl,rfl,rfl⟩ := h
    exact ⟨by omega,rfl,(hc hlt).1.symm,(hc hlt).2.symm⟩
  case postLength | postMessage =>
    obtain ⟨hlt,rfl,rfl⟩ := h
    exact ⟨by omega,rfl,(hr hlt).1.symm⟩
  case postGiveBack =>
    obtain ⟨hlt,rfl,rfl,hm⟩ := h
    exact ⟨by omega,rfl,(hr hlt).1.symm,(hr hlt).2.trans hm⟩

theorem Thread.guest {pc : PollerPc} (h : s.Thread c u0 F pc) (hp : t.port=s.port)
    (hl : t.log=s.log) (hserver : t.server=s.server) (hps : t.pollState=s.pollState)
    (hhand : s.host.handed <+: t.host.handed) (hrung : t.host.rung=s.host.rung)
    (hloc : Locals F t pc) : t.Thread c u0 F pc := by
  constructor
  · rw [hl]; exact h.count
  · rw [hl]; exact h.order.trans hhand
  · rw [hserver,hl]; exact h.server
  · rw [hl]; exact h.answered
  · rw [hp]; exact h.commandRingPointer
  · rw [hp,hl]; exact h.responseRingPointer
  · exact hloc
  · rw [Heard,hrung,hps]; exact h.heard

variable {q : Queue} {pc pc' : PollerPc} {address : Nat}

theorem Thread.move (h : s.Thread c u0 F pc) (hi : pc'.inHand=pc.inHand)
    (hr : pc'.reply=pc.reply) (hcl : pc'.commandLag=pc.commandLag)
    (hrl : pc'.responseLag=pc.responseLag) (hlog : t.log=s.log) (hhost : t.host=s.host) (hserver : t.server=s.server)
    (hcp : t.port.commandRingPointer=s.port.commandRingPointer)
    (hrp : t.port.responseRingPointer=s.port.responseRingPointer)
    (hc : t.port.commandRingLength=s.port.commandRingLength)
    (hrlen : t.port.responseRingLength=s.port.responseRingLength)
    (hloc : Locals F t pc') (hheard : Heard F t pc') : t.Thread c u0 F pc' := by
  constructor
  · rw [hlog,hi]; exact h.count
  · rw [hlog,hi,hhost]; exact h.order
  · rw [hserver,hlog]; exact h.server
  · rw [hlog,hr]; exact h.answered
  · rw [hcp,hc,hcl]; exact h.commandRingPointer
  · rw [hrp,hrlen,hrl,hlog]; exact h.responseRingPointer
  · exact hloc
  · exact hheard

theorem handed_grows (m : Message) : s.host.handed <+: s.host.handed++[m] :=
  List.prefix_append _ _

theorem host_exchange {a : Action} (hs : s.Exchange c u0 F) (hg : s.Protocol a)
    (ha : (∃ e f,a=.command e f) ∨ a=.collect ∨ (∃ e f,a=.giveBack e f) ∨ ∃ e p,a=.writePacket e p)
    (h : step c s a=some t) : t.Exchange c u0 F := by
  obtain ⟨hop,hr,hth⟩ := hs
  have hpos := hr.response.pos
  obtain ⟨e,f,rfl⟩ | rfl | ⟨e,f,rfl⟩ | ⟨e,p,rfl⟩ := ha
  · cases h
    refine ⟨⟨hop.initStep,hop.nextStep,hop.worker,hop.bus,hop.pollState⟩,
      hr.hand hg rfl rfl rfl rfl,hth.guest rfl rfl rfl rfl (handed_grows _) rfl ?_⟩
    refine hth.locals.keep rfl rfl (handed_grows _).length_le (Nat.le_refl _) ?_ ?_
    · intro hlt
      refine ⟨hr.hand_keeps (d := ⟨e,f,true⟩) hg.1 ?_ ?_ F (Nat.le_refl _) hlt,rfl⟩ <;> rfl
    · exact fun _ => ⟨put_commandDescriptor_response s _ _ _ (Nat.mod_lt _ hpos),rfl⟩
  · cases h
    exact ⟨⟨hop.initStep,hop.nextStep,hop.worker,hop.bus,hop.pollState⟩,
      hr.collect hg rfl rfl rfl rfl,hth.guest rfl rfl rfl rfl (List.prefix_refl _) rfl
        (hth.locals.keep rfl rfl (Nat.le_refl _) (Nat.le_refl _) (fun _ => ⟨rfl,rfl⟩)
          fun _ => ⟨rfl,rfl⟩)⟩
  · cases h
    refine ⟨⟨hop.initStep,hop.nextStep,hop.worker,hop.bus,hop.pollState⟩,
      hr.give hg rfl rfl rfl rfl,hth.guest rfl rfl rfl rfl (List.prefix_refl _) rfl ?_⟩
    refine hth.locals.keep rfl rfl (Nat.le_refl _) (Nat.le_succ _) ?_ ?_
    · exact fun _ => ⟨put_responseDescriptor_command s _ _ _ (Nat.mod_lt _ hpos),rfl⟩
    · intro hlt
      refine ⟨give_keeps (d := ⟨e,f,true⟩) hg.1 ?_ ?_ _ hr.taken_le hlt,rfl⟩ <;> rfl
  · cases h
    obtain ⟨hfc,hfr⟩ := hr.free hg
    have hw : Rings F { s with mem := s.mem.putPacket e p } := by
      refine hr.write rfl rfl rfl rfl hfc fun i hi hi' => hfr i hi ?_
      exact Nat.lt_of_lt_of_le hi' hr.response.le
    refine ⟨⟨hop.initStep,hop.nextStep,hop.worker,hop.bus,hop.pollState⟩,hw,
      hth.guest rfl rfl rfl rfl (List.prefix_refl _) rfl ?_⟩
    refine hth.locals.keep rfl rfl (Nat.le_refl _) (Nat.le_refl _) ?_ ?_
    · exact fun hlt => ⟨rfl,Memory.putPacket_other _ _ (hfc F (Nat.le_refl _) hlt)⟩
    · exact fun hlt => ⟨rfl,Memory.putPacket_other _ _ (hfr _ hr.taken_le hlt)⟩

theorem Operating.keep (h : s.Operating) (hp : s.port.Same t.port) (hps : t.pollState=s.pollState)
    (hb : t.bus=s.bus) (hw : t.worker=s.worker) : t.Operating :=
  ⟨hp.initStep.trans h.initStep,hp.nextStep.trans h.nextStep,hw.trans h.worker,
    by rw [hb]; exact h.bus,by rw [hps]; exact h.pollState⟩

theorem Exchange.moved (hs : s.Exchange c u0 F) (hp : s.port.Same t.port)
    (hps : t.pollState=s.pollState) (hb : t.bus=s.bus) (hw : t.worker=s.worker)
    (hm : t.mem.desc=s.mem.desc) (hmail : t.mem.mail=s.mem.mail) (hh : t.host=s.host)
    (hl : t.log.posted=s.log.posted) (hth : t.Thread c u0 F t.poller) : t.Exchange c u0 F :=
  ⟨hs.operating.keep hp hps hb hw,
    hs.rings.congr hp.ringBase hp.commandRingLength hp.responseRingLength hm hmail hh hl,hth⟩

theorem Exchange.goto (hs : s.Exchange c u0 F) (hpc : s.poller=pc)
    (ht : t={ s with poller := pc' }) (hi : pc'.inHand=pc.inHand) (hr : pc'.reply=pc.reply)
    (hcl : pc'.commandLag=pc.commandLag) (hrl : pc'.responseLag=pc.responseLag)
    (hloc : Locals F s pc') (hheard : Heard F s pc → Heard F s pc') : t.Exchange c u0 F := by
  have hth := hs.thread
  rw [hpc] at hth
  subst ht
  have hloc' : Locals F { s with poller := pc' } pc' := by
    cases pc' <;> exact hloc
  exact hs.moved (.refl _) rfl rfl rfl rfl rfl rfl rfl
    (hth.move hi hr hcl hrl rfl rfl rfl rfl rfl rfl rfl hloc' (hheard hth.heard))

theorem Heard.keep (hb : pc'≠.blocked) (hsc : pc.scanning → pc'.scanning) (h : Heard F s pc) : Heard F s pc' :=
  h.imp_right fun h => h.imp (fun h => ⟨h.1,hb⟩) fun h => ⟨h.1,hsc h.2⟩

theorem Exchange.command_next (hs : s.Exchange c u0 F) (hlag : s.poller.commandLag=0) :
    s.port.commandRingPointer=F%s.port.commandRingLength := by
  obtain ⟨k,hk,hF⟩ := hs.thread.commandRingPointer
  rw [hlag,Nat.add_zero] at hF
  rw [hk,hF]

theorem Exchange.response_next (hs : s.Exchange c u0 F) (hlag : s.poller.responseLag=0) :
    s.port.responseRingPointer=s.log.posted.length%s.port.responseRingLength := by
  obtain ⟨k,hk,hP⟩ := hs.thread.responseRingPointer
  rw [hlag,Nat.add_zero] at hP
  rw [hk,hP]

theorem getNextCommand_exchange (hs : s.Exchange c u0 F)
    (hp : s.poller=.readDescriptor q) : (s.getNextCommand true q).Exchange c u0 F := by
  have hnext := hs.command_next (by rw [hp]; rfl)
  have howner := hs.rings.command.next_owned
  simp only [getNextCommand,hnext,Bool.not_true,Bool.false_eq_true,if_false]
  by_cases ho : (s.commandDescriptor (F%s.port.commandRingLength)).owner
  · have hlt := howner.mp ho
    simp only [commandDescriptor] at ho
    rw [if_pos ho]
    exact hs.goto hp rfl rfl rfl rfl rfl ⟨hlt,rfl,rfl⟩ (Heard.keep (by simp) fun _ => rfl)
  · have hge : s.host.handed.length≤F := Nat.not_lt.mp fun hlt => ho (howner.mpr hlt)
    simp only [commandDescriptor] at ho
    rw [if_neg ho]
    -- the ring is empty: all that was rung for has been taken
    exact hs.goto hp rfl rfl rfl rfl rfl trivial fun _ => .inl (Nat.le_trans hs.rings.rung hge)

theorem postResponse_exchange {r : Message} (hs : s.Exchange c u0 F)
    (hp : s.poller=.postDescriptor q r) : (s.postResponse true q r).Exchange c u0 F := by
  have hnext := hs.response_next (by rw [hp]; rfl)
  have howner := hs.rings.response.next_owned
  simp only [postResponse,hnext,Bool.not_true,Bool.false_eq_true,if_false]
  by_cases ho : (s.responseDescriptor (s.log.posted.length%s.port.responseRingLength)).owner
  · have hlt := howner.mp ho
    simp only [responseDescriptor] at ho
    rw [if_pos ho]
    exact hs.goto hp rfl rfl rfl rfl rfl ⟨hlt,rfl,rfl⟩ (Heard.keep (by simp) (by simp [scanning]))
  · simp only [responseDescriptor] at ho
    rw [if_neg ho]
    exact hs.goto hp rfl rfl rfl rfl rfl trivial (Heard.keep (by simp) (by simp [scanning]))

theorem Exchange.packet (hs : s.Exchange c u0 F) (hlt : F<s.host.handed.length) :
    s.mem.mail (s.commandDescriptor (F%s.port.commandRingLength)).envelope =
      s.host.handed[F] ∧ s.host.handed[F].Valid :=
  ⟨hs.rings.packet F _ (Nat.le_refl _) (List.getElem?_eq_getElem hlt),
    hs.rings.valid _ (getElem_mem hlt)⟩

theorem fetch_exchange {d : Descriptor} {m : Message}
    (hs : s.Exchange c u0 F) (hp : s.poller=.giveBack q address d m) : Exchange c u0 (F+1) { s with
      mem := s.mem.putDescriptor address d.back,poller := .advance q d.flag m } := by
  have hth := hs.thread
  rw [hp] at hth
  obtain ⟨hlt,rfl,rfl,rfl⟩ := hth.locals
  have hm := (hs.packet hlt).1
  simp only [commandDescriptor] at hm
  have hcount := hth.count
  refine ⟨hs.operating.keep (.refl _) rfl rfl rfl,hs.rings.fetch hlt rfl rfl rfl rfl,?_⟩
  constructor
  · simp only [inHand,length_append,length_singleton] at hcount ⊢
    omega
  · simp only [inHand,← List.append_assoc]
    obtain ⟨rest,he⟩ := hth.order
    simp only [inHand] at he hcount
    rw [← length_append] at hcount
    refine ⟨rest.tail,?_⟩
    have hrest : rest=s.host.handed[F]::rest.tail := by
      cases rest with
      | nil =>
        rw [append_nil] at he
        rw [← he,hcount] at hlt
        exact absurd hlt (Nat.lt_irrefl _)
      | cons x rest => simp [← he,← hcount]
    rw [hm,List.append_assoc,singleton_append,← hrest,he]
  · exact hth.server
  · exact hth.answered
  · obtain ⟨k,hk,hF⟩ := hth.commandRingPointer
    exact ⟨k,hk,by simp only [commandLag] at hF ⊢; omega⟩
  · exact hth.responseRingPointer
  · trivial
  · obtain hle | hh := hth.heard
    · exact .inl (Nat.le_succ_of_le hle)
    · exact .inr (hh.imp (fun h => ⟨h.1,by simp⟩) fun h => ⟨h.1,rfl⟩)

theorem advance_exchange {flag : Bool} {m : Message} (hs : s.Exchange c u0 F) (hp : s.poller=.advance q flag m) :
    Exchange c u0 F { s with
      port := { s.port with
        commandRingPointer := (s.port.commandRingPointer+1)%s.port.commandRingLength }
      poller := if flag then .markCommand q m else .ring ⟨q.messages++[m],q.msgCount+1⟩ } := by
  have hth := hs.thread
  rw [hp] at hth
  obtain ⟨k,hk,hF⟩ := hth.commandRingPointer
  refine hs.moved ⟨rfl,rfl,rfl,rfl,rfl,rfl,rfl⟩ rfl rfl rfl rfl rfl rfl rfl ?_
  have hpc : ∃ pc,pc=(if flag then PollerPc.markCommand q m
      else .ring ⟨q.messages++[m],q.msgCount+1⟩) := ⟨_,rfl⟩
  obtain ⟨pc,hpc⟩ := hpc
  simp only [← hpc]
  have hfields : pc.inHand=q.messages++[m] ∧ pc.reply=[] ∧ pc.commandLag=0 ∧
      pc.responseLag=0 ∧ pc.scanning := by
    subst hpc
    cases flag <;> exact ⟨rfl,rfl,rfl,rfl,rfl⟩
  obtain ⟨hi,hr,hcl,hrl,hsc⟩ := hfields
  constructor
  · rw [hi]; exact hth.count
  · rw [hi]; exact hth.order
  · exact hth.server
  · rw [hr]; exact hth.answered
  · refine ⟨k+1,?_,by rw [hcl]; exact hF⟩
    simp only [hk,ring_next]
  · rw [hrl]; exact hth.responseRingPointer
  · subst hpc
    cases flag <;> trivial
  · exact hth.heard.keep (fun hb => by rw [hb] at hsc; cases hsc) fun _ => hsc

theorem serve_exchange {m : Message} (hs : s.Exchange c u0 F) (hp : s.poller=.serve q m) : Exchange c u0 F { s with
      server := (execute c s.server m).1
      log := { s.log with executed := s.log.executed++[m] }
      poller := .postDescriptor q (execute c s.server m).2 } := by
  have hth := hs.thread
  rw [hp] at hth
  have hcount := hth.count
  have hanswered := hth.answered
  simp only [reply,append_nil] at hanswered
  refine hs.moved (.refl _) rfl rfl rfl rfl rfl rfl rfl ?_
  constructor
  · simp only [inHand,length_append,length_cons,length_nil] at hcount ⊢
    omega
  · simpa [inHand] using hth.order
  · simp only [executeAll_concat,← hth.server]
  · simp only [reply,responses_concat,← hth.server,hanswered]
  · exact hth.commandRingPointer
  · exact hth.responseRingPointer
  · trivial
  · exact hth.heard.keep (by simp) (by simp [scanning])

theorem write_exchange {r : Message} {d : Descriptor}
    (hs : s.Exchange c u0 F) (hp : s.poller=.postMessage q r address d) : Exchange c u0 F { s with
      mem := s.mem.putPacket d.envelope r.transferred,poller := .postGiveBack q r address d } := by
  have hth := hs.thread
  rw [hp] at hth
  obtain ⟨hlt,rfl,rfl⟩ := hth.locals
  have hle := hs.rings.taken_le
  have hrings : Rings F { s with
      mem := s.mem.putPacket (s.mem.desc (s.port.responseDescriptorAddress
        (s.log.posted.length%s.port.responseRingLength))).envelope r.transferred } := by
    refine hs.rings.write rfl rfl rfl rfl (fun i hi hi' => ?_) fun i hi hi' he => ?_
    · exact hs.rings.clear i _ hi hi' hle hlt
    · have := hs.rings.apart i _ hi (by omega) hle hlt he
      omega
  refine ⟨hs.operating.keep (.refl _) rfl rfl rfl,
    hrings.congr rfl rfl rfl rfl rfl rfl rfl,?_⟩
  exact hth.move rfl rfl rfl rfl rfl rfl rfl rfl rfl rfl rfl ⟨hlt,rfl,rfl,by simp⟩
    (hth.heard.keep (by simp) (by simp [scanning]))

theorem post_exchange {r : Message} {d : Descriptor}
    (hs : s.Exchange c u0 F) (hp : s.poller=.postGiveBack q r address d) : Exchange c u0 F { s with
      mem := s.mem.putDescriptor address d.back
      log := { s.log with posted := s.log.posted++[r.transferred] }
      poller := if d.flag then .markResponse q else .postAdvance q } := by
  have hth := hs.thread
  rw [hp] at hth
  obtain ⟨hlt,rfl,rfl,hm⟩ := hth.locals
  obtain ⟨k,hk,hP⟩ := hth.responseRingPointer
  refine ⟨hs.operating.keep (.refl _) rfl rfl rfl,
    hs.rings.post (r := r.transferred) hlt hm rfl rfl rfl rfl,?_⟩
  have hpc : ∃ pc,pc=(if (s.mem.desc (s.port.responseDescriptorAddress
      (s.log.posted.length%s.port.responseRingLength))).flag then PollerPc.markResponse q
      else .postAdvance q) := ⟨_,rfl⟩
  obtain ⟨pc,hpc⟩ := hpc
  simp only [← hpc]
  have hfields : pc.inHand=q.messages ∧ pc.reply=[] ∧ pc.commandLag=0 ∧
      pc.responseLag=1 ∧ pc≠.blocked := by
    subst hpc
    split <;> exact ⟨rfl,rfl,rfl,rfl,by simp⟩
  obtain ⟨hi,hr,hcl,hrl,hbl⟩ := hfields
  constructor
  · rw [hi]; exact hth.count
  · rw [hi]; exact hth.order
  · exact hth.server
  · rw [hr,append_nil]; exact hth.answered
  · rw [hcl]; exact hth.commandRingPointer
  · refine ⟨k,hk,?_⟩
    simp only [responseLag] at hP
    rw [hrl,length_append,length_singleton]
    omega
  · subst hpc
    split <;> trivial
  · exact hth.heard.keep hbl (by simp [scanning])

theorem postAdvance_exchange (hs : s.Exchange c u0 F) (hp : s.poller=.postAdvance q) : Exchange c u0 F { s with
      port := { s.port with
        responseRingPointer := (s.port.responseRingPointer+1)%s.port.responseRingLength }
      poller := .exec q } := by
  have hth := hs.thread
  rw [hp] at hth
  obtain ⟨k,hk,hP⟩ := hth.responseRingPointer
  refine hs.moved ⟨rfl,rfl,rfl,rfl,rfl,rfl,rfl⟩ rfl rfl rfl rfl rfl rfl rfl ?_
  refine ⟨hth.count,hth.order,hth.server,hth.answered,hth.commandRingPointer,⟨k+1,?_,hP⟩,trivial,
    hth.heard.keep (by simp) (by simp [scanning])⟩
  simp only [hk,ring_next]

theorem interrupt_exchange (hs : s.Exchange c u0 F) (hpc : s.poller=pc)
    (hi : pc'.inHand=pc.inHand) (hr : pc'.reply=pc.reply)
    (hcl : pc'.commandLag=pc.commandLag) (hrl : pc'.responseLag=pc.responseLag)
    (hloc : Locals F { s with port := s.port.interrupt,poller := pc' } pc')
    (hb : pc'≠.blocked) (hsc : pc.scanning → pc'.scanning) :
    Exchange c u0 F { s with port := s.port.interrupt,poller := pc' } := by
  have hth := hs.thread
  rw [hpc] at hth
  have hsame := s.port.interrupt_same
  exact hs.moved hsame rfl rfl rfl rfl rfl rfl rfl
    (hth.move hi hr hcl hrl rfl rfl rfl (by simp) (by simp) hsame.commandRingLength
      hsame.responseRingLength hloc (hth.heard.keep hb hsc))

theorem endOfPass_exchange {m : Bool} (hs : s.Exchange c u0 F) (hp : s.poller=.endPass m) :
    (s.endOfPass m).Exchange c u0 F := by
  obtain ⟨hop,hr,hth⟩ := hs
  rw [hp] at hth
  have hheard := hth.heard
  have finish : ∀ ps,ps≠.initRestart → (s.host.rung≤F ∨ ps=.run) →
      Exchange c u0 F { s with pollState := ps,poller := .top } := by
    intro ps hps hh
    refine ⟨⟨hop.initStep,hop.nextStep,hop.worker,hop.bus,hps⟩,
      hr.congr rfl rfl rfl rfl rfl rfl rfl,?_⟩
    exact hth.move rfl rfl rfl rfl rfl rfl rfl rfl rfl rfl rfl trivial
      (hh.imp_right fun h => .inr ⟨h,rfl⟩)
  cases hps : s.pollState with
  | initRestart => exact absurd hps hop.pollState
  | initRun =>
    simp only [endOfPass,hps]
    exact finish .run (by simp) (.inr rfl)
  | wait | run =>
    have hle : s.host.rung≤F := by
      simpa [Heard,hps,scanning] using hheard
    simp only [endOfPass,hps]
    refine finish _ ?_ (.inl hle)
    cases m <;> simp

theorem pollStep_exchange (hs : s.Exchange c u0 F) (h : s.pollStep c true=some t) : ∃ F',t.Exchange c u0 F' := by
  have hth := hs.thread
  have hps := hs.operating.pollState
  cases hp : s.poller <;> rw [hp] at hth <;>
    simp only [pollStep,hp,Option.some.injEq,Bool.not_true,Bool.false_or,Bool.false_eq_true,if_false,hps,if_true] at h
  case blocked => cases h
  case errorSA | errorReset => exact hth.locals.elim
  case top =>
    by_cases hw : s.pollState=.wait
    · rw [if_pos hw] at h
      refine ⟨F,hs.goto hp h.symm rfl rfl rfl rfl trivial fun hh => .inl ?_⟩
      simpa [Heard,hw] using hh
    · simp only [hw,if_false] at h
      subst h
      have hrun : (if s.pollState=.initRun then PollingState.run else s.pollState)=.run := by
        cases hps' : s.pollState <;> simp [hps'] at hw hps ⊢
      refine ⟨F,⟨hs.operating.initStep,hs.operating.nextStep,hs.operating.worker,
        hs.operating.bus,by simp [hrun]⟩,hs.rings.congr rfl rfl rfl rfl rfl rfl rfl,?_⟩
      exact hth.move rfl rfl rfl rfl rfl rfl rfl rfl rfl rfl rfl trivial (.inr (.inr ⟨hrun,rfl⟩))
  case ring q =>
    exact ⟨F,hs.goto hp h.symm rfl rfl rfl rfl trivial (Heard.keep (by simp) fun _ => rfl)⟩
  case readDescriptor q =>
    subst h
    exact ⟨F,getNextCommand_exchange hs hp⟩
  case readLength q address d =>
    obtain ⟨hlt,rfl,rfl⟩ := hth.locals
    obtain ⟨hm,hpos,hmax,heven⟩ := hs.packet hlt
    simp only [commandDescriptor] at hm
    rw [← hm] at hpos hmax
    simp only [beq_iff_eq,Nat.ne_of_gt hpos,Bool.or_eq_true,decide_eq_true_eq,
      Nat.not_le.mpr hmax,false_or,if_false] at h
    exact ⟨F,hs.goto hp h.symm rfl rfl rfl rfl ⟨hlt,rfl,rfl,rfl⟩ (Heard.keep (by simp) fun _ => rfl)⟩
  case readMessage q address d messageLength =>
    obtain ⟨hlt,rfl,rfl,rfl⟩ := hth.locals
    obtain ⟨hm,hpos,hmax,heven⟩ := hs.packet hlt
    simp only [commandDescriptor] at hm
    rw [← hm] at heven
    simp only [heven,bne_self_eq_false,Bool.false_eq_true,if_false] at h
    exact ⟨F,hs.goto hp h.symm rfl rfl rfl rfl ⟨hlt,rfl,rfl,rfl⟩ (Heard.keep (by simp) fun _ => rfl)⟩
  case giveBack q address d m =>
    subst h
    exact ⟨F+1,fetch_exchange hs hp⟩
  case advance q flag m =>
    subst h
    exact ⟨F,advance_exchange hs hp⟩
  case markCommand q m =>
    subst h
    refine ⟨F,hs.moved (.refl _) rfl rfl rfl rfl rfl rfl rfl ?_⟩
    exact hth.move rfl rfl rfl rfl rfl rfl rfl rfl rfl rfl rfl trivial (hth.heard.keep (by simp) fun _ => rfl)
  case interruptCommand q m =>
    subst h
    exact ⟨F,interrupt_exchange hs hp rfl rfl rfl rfl trivial (by simp) fun _ => rfl⟩
  case exec q =>
    obtain ⟨messages,msgCount⟩ := q
    cases messages with
    | nil =>
      by_cases hc : 0 < msgCount
      · simp only [hc,if_true] at h
        exact ⟨F,hs.goto hp h.symm rfl rfl rfl rfl trivial (Heard.keep (by simp) (by simp [scanning]))⟩
      · simp only [hc,if_false] at h
        exact ⟨F,hs.goto hp h.symm rfl rfl rfl rfl trivial (Heard.keep (by simp) (by simp [scanning]))⟩
    | cons m ms =>
      exact ⟨F,hs.goto hp h.symm rfl rfl rfl rfl trivial (Heard.keep (by simp) (by simp [scanning]))⟩
  case serve q m =>
    subst h
    exact ⟨F,serve_exchange hs hp⟩
  case postDescriptor q r =>
    subst h
    exact ⟨F,postResponse_exchange hs hp⟩
  case postLength q r address d =>
    exact ⟨F,hs.goto hp h.symm rfl rfl rfl rfl hth.locals (Heard.keep (by simp) (by simp [scanning]))⟩
  case postMessage q r address d =>
    subst h
    exact ⟨F,write_exchange hs hp⟩
  case postGiveBack q r address d =>
    subst h
    exact ⟨F,post_exchange hs hp⟩
  case markResponse q =>
    subst h
    refine ⟨F,hs.moved (.refl _) rfl rfl rfl rfl rfl rfl rfl ?_⟩
    exact hth.move rfl rfl rfl rfl rfl rfl rfl rfl rfl rfl rfl trivial
      (hth.heard.keep (by simp) (by simp [scanning]))
  case interruptResponse q =>
    subst h
    exact ⟨F,interrupt_exchange hs hp rfl rfl rfl rfl trivial (by simp) (by simp [scanning])⟩
  case postAdvance q =>
    subst h
    exact ⟨F,postAdvance_exchange hs hp⟩
  case hold q r =>
    exact ⟨F,hs.goto hp h.symm rfl rfl rfl rfl trivial (Heard.keep (by simp) (by simp [scanning]))⟩
  case holdRunning q r =>
    have hrun : s.port.isRunning := by simp [Port.isRunning,hs.operating.initStep]
    simp only [hrun,if_true] at h
    exact ⟨F,hs.goto hp h.symm rfl rfl rfl rfl trivial (Heard.keep (by simp) (by simp [scanning]))⟩
  case linger n =>
    split at h
    all_goals exact ⟨F,hs.goto hp h.symm rfl rfl rfl rfl trivial (Heard.keep (by simp) (by simp [scanning]))⟩
  case pendingBase n | pendingRunning n | pendingRead n | settle n =>
    split at h
    all_goals exact ⟨F,hs.goto hp h.symm rfl rfl rfl rfl trivial (Heard.keep (by simp) (by simp [scanning]))⟩
  case doze n =>
    exact ⟨F,hs.goto hp h.symm rfl rfl rfl rfl trivial (Heard.keep (by simp) (by simp [scanning]))⟩
  case endPass m =>
    subst h
    exact ⟨F,endOfPass_exchange hs hp⟩

theorem busStep_exchange (hs : s.Exchange c u0 F) (h : s.busStep=some t) : t.Exchange c u0 F := by
  obtain ⟨hop,hr,hth⟩ := hs
  obtain hb | hb | ⟨v,hb⟩ := hop.bus <;> simp only [busStep,hb,Option.some.injEq] at h
  · cases h
  · subst h
    have hw : s.initPolling.worker=.wait := by simp [initPolling,broadcast,hop.worker]
    have hgrow : Rings F { s with host := { s.host with rung := s.host.handed.length } } :=
      ⟨hr.command,hr.response,hr.valid,Nat.le_refl _,hr.returned,hr.taken,hr.packet,hr.untaken,
        hr.apart,hr.clear⟩
    refine ⟨⟨hop.initStep,hop.nextStep,hw,.inl rfl,by simp [initPolling,broadcast]⟩,
      hgrow.congr rfl rfl rfl rfl rfl rfl rfl,?_⟩
    simp only [initPolling,broadcast]
    by_cases hbl : s.poller=.blocked
    · rw [hbl] at hth
      simp only [hbl,if_true]
      exact ⟨hth.count,hth.order,hth.server,hth.answered,hth.commandRingPointer,
        hth.responseRingPointer,trivial,.inr (.inl ⟨rfl,by simp⟩)⟩
    · simp only [hbl,if_false]
      refine ⟨hth.count,hth.order,hth.server,hth.answered,hth.commandRingPointer,
        hth.responseRingPointer,?_,.inr (.inl ⟨rfl,hbl⟩)⟩
      cases hp : s.poller <;> rw [hp] at hth <;> exact hth.locals
  · subst h
    simp only [writeSA]
    refine ⟨⟨hop.initStep,hop.nextStep,hop.worker,.inl rfl,hop.pollState⟩,
      hr.congr rfl rfl rfl rfl rfl rfl rfl,?_⟩
    exact ⟨hth.count,hth.order,hth.server,hth.answered,hth.commandRingPointer,
      hth.responseRingPointer,by cases hp : s.poller <;> rw [hp] at hth <;> exact hth.locals,
      hth.heard⟩

theorem Exchange.access (hs : s.Exchange c u0 F) {bus : BusPc}
    (hb : bus=.idle ∨ bus=.doorbell ∨ ∃ value,bus=.saTaken value .complete) :
    Exchange c u0 F { s with bus := bus } := by
  obtain ⟨hop,hr,hth⟩ := hs
  refine ⟨⟨hop.initStep,hop.nextStep,hop.worker,hb,hop.pollState⟩,
    hr.congr rfl rfl rfl rfl rfl rfl rfl,?_⟩
  exact ⟨hth.count,hth.order,hth.server,hth.answered,hth.commandRingPointer,
    hth.responseRingPointer,by cases hp : s.poller <;> rw [hp] at hth <;> exact hth.locals,
    hth.heard⟩

theorem step_exchange {a : Action} (hs : s.Exchange c u0 F) (hg : s.Protocol a)
    (h : step c s a=some t) : ∃ F',t.Exchange c u0 F' := by
  cases a with
  | ipWrite | init | writeDescriptor => exact hg.elim
  | poll ok =>
    obtain rfl : ok=true := hg
    exact pollStep_exchange hs h
  | worker ok =>
    simp [State.step,workerStep,hs.operating.worker,hs.operating.nextStep] at h
  | bus => exact ⟨F,busStep_exchange hs h⟩
  | ipRead =>
    obtain ⟨-,rfl⟩ := access_eq_some h
    refine ⟨F,hs.access ?_⟩
    cases s.port.isRunning <;> simp
  | saWrite value =>
    obtain ⟨-,rfl⟩ := access_eq_some h
    exact ⟨F,hs.access (.inr (.inr ⟨value,by rw [hs.operating.initStep]⟩))⟩
  | wakeWorker => simp [State.step,hs.operating.worker] at h
  | wakePoller =>
    simp only [State.step] at h
    split at h
    · rename_i hp
      exact ⟨F,hs.goto hp (Option.some.inj h).symm rfl rfl rfl rfl trivial
        (Heard.keep (by simp) (by simp [scanning]))⟩
    · cases h
  | writePacket e p => exact ⟨F,host_exchange hs hg (.inr (.inr (.inr ⟨e,p,rfl⟩))) h⟩
  | command e f => exact ⟨F,host_exchange hs hg (.inl ⟨e,f,rfl⟩) h⟩
  | collect => exact ⟨F,host_exchange hs hg (.inr (.inl rfl)) h⟩
  | giveBack e f => exact ⟨F,host_exchange hs hg (.inr (.inr (.inl ⟨e,f,rfl⟩))) h⟩

theorem Ready.exchange (h : s.Ready) : s.Exchange c s.server 0 := by
  obtain ⟨a,ha⟩ := h.commandRingLength
  obtain ⟨b,hb⟩ := h.responseRingLength
  have hcpos : 0<s.port.commandRingLength := ha ▸ Nat.two_pow_pos a
  have hrpos : 0<s.port.responseRingLength := hb ▸ Nat.two_pow_pos b
  have hparked : s.poller=.top ∨ s.poller=.blocked := by
    have hp := h.poller
    cases hpc : s.poller <;> simp [hpc,inPass] at hp ⊢
  refine ⟨⟨h.initStep,h.nextStep,h.worker,.inl h.bus,by simp [h.pollState]⟩,?_,?_⟩
  · constructor <;> simp only [h.host,h.log,length_nil,Nat.zero_add]
    · refine ⟨hcpos,Nat.le_refl _,Nat.zero_le _,fun i _ hi => ?_⟩
      rw [h.commands _ (Nat.mod_lt i hcpos)]
      simp
    · refine ⟨hrpos,Nat.zero_le _,by omega,fun i _ hi => ?_⟩
      rw [h.responses _ (Nat.mod_lt i hrpos)]
      simpa using hi
    · simp
    · simp
    · simp
    · simp
    · simp
    · simp
    · intro i j _ hi _ hj he
      rw [Nat.mod_eq_of_lt hi,Nat.mod_eq_of_lt hj] at he
      exact h.apart i j hi hj he
    · intro i j _ hi
      exact absurd hi (Nat.not_lt_zero i)
  · obtain hp | hp := hparked <;> rw [hp] <;> constructor <;>
      simp [inHand,reply,commandLag,responseLag,h.host,h.log,
        h.commandRingPointer,h.responseRingPointer,executeAll,Mscp.responses,Locals,Heard]

theorem run_exchange {s0 : State δ} {as : List Action} (h0 : s0.Ready)
    (h : Runs c Protocol s0 as s) : ∃ F,s.Exchange c s0.server F := by
  refine h.invariant (P := fun s => ∃ F,s.Exchange c s0.server F) ?_ ⟨0,h0.exchange⟩
  rintro u a v ⟨F,hu⟩ ⟨hg,hv⟩
  exact step_exchange hu hg hv

def writesDescriptor (s : State δ) : Option Nat :=
  match s.poller with
  | .giveBack _ address _ _ | .postGiveBack _ _ address _ => some address
  | _ => none

theorem Exchange.writes (hs : s.Exchange c u0 F)
    (hw : s.writesDescriptor=some address) : (s.mem.desc address).owner := by
  have hth := hs.thread
  rw [writesDescriptor] at hw
  split at hw <;> cases hw <;> rename_i hp <;> rw [hp] at hth
  · obtain ⟨hlt,rfl,-,-⟩ := hth.locals
    exact hs.rings.command.next_owned.mpr hlt
  · obtain ⟨hlt,rfl,-,-⟩ := hth.locals
    exact hs.rings.response.next_owned.mpr hlt

end QUniLator.Mscp.State
