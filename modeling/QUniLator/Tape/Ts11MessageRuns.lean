import QUniLator.Tape.Ts11Messages

namespace QUniLator.Tape.Ts.Ts11

open Bool (and_eq_true not_eq_true')

/-- With NBA clear an extent that holds a message is named; a command that waits holds SSR down. -/
structure Inv (s : Ts11) : Prop where
  right : s.Right
  named : s.nba=false → s.named=some (s.msgbufAddr,s.msgbufLen) ∧ 14 ≤ s.msgbufLen
  busy : s.pendingCommand=true → s.ssr=false

/-- What a step keeps and does -/
structure Turn (s t : Ts11) (owned : Prop) (standing : Nat) : Prop where
  inv : t.Inv
  writes : Writes s t owned
  reports : Reports s t standing

/-- A step that puts out no attention -/
structure Ends (s t : Ts11) (owned : Prop) (standing : Nat) : Prop where
  inv : t.Inv
  writes : Writes s t owned
  message : t.sent=s.sent ∨ ∃ m,t.sent=m::s.sent ∧ m.type≠.attention
  stands : standing≤t.unreported ∨ t.eai=false

theorem Ends.turn {s t : Ts11} {owned : Prop} {n : Nat} (h : Ends s t owned n) : Turn s t owned n :=
  ⟨h.inv,h.writes,.inr ⟨h.message,h.stands⟩⟩

theorem Ends.silent {s t : Ts11} {owned : Prop} {n : Nat} (h : t.Inv) (hs : t.sent=s.sent)
    (hn : n≤t.unreported ∨ t.eai=false) : Ends s t owned n :=
  ⟨h,.inl hs,.inl hs,hn⟩

variable {owned owned' : Prop}

theorem Writes.from {s s' t : Ts11} (h : Writes s' t owned') (hs : s'.sent=s.sent)
    (ho : owned' → owned) : Writes s t owned := by
  obtain h1 | ⟨m,h1,h2,h3⟩ := h
  · exact .inl (h1.trans hs)
  · exact .inr ⟨m,by rw [h1,hs],ho h2,h3⟩

theorem Ends.from {s s' t : Ts11} {n n' : Nat} (h : Ends s' t owned' n')
    (hs : s'.sent=s.sent) (ho : owned' → owned) (hn : n≤n' ∨ t.eai=false) : Ends s t owned n := by
  refine ⟨h.inv,h.writes.from hs ho,hs ▸ h.message,?_⟩
  obtain hn | hn := hn
  · exact h.stands.imp_left (Nat.le_trans hn)
  · exact .inr hn

theorem Turn.from {s s' t : Ts11} {n : Nat} (h : Turn s' t owned' n)
    (hs : s'.sent=s.sent) (ho : owned' → owned) : Turn s t owned n := by
  refine ⟨h.inv,h.writes.from hs ho,?_⟩
  rw [Reports,← hs]
  exact h.reports

section
variable {s : Ts11}

variable {e : Event} {tc : Tc} {suppress : Bool}

theorem endMessage_type (h : tc≠.attention) (refused : Bool) : (endMessage tc refused).1≠.attention := by
  cases tc with
  | attention => exact absurd rfl h
  | _ => exact fun hx => by cases hx

theorem Inv.sendMessage (h : s.Inv) (hn : s.nba=false) (type : MessageType) (classCode : Nat) (ack : Bool) :
    ∃ m,(s.sendMessage type classCode ack).sent=m::s.sent ∧ m.type=type ∧
      ∃ addr extent,s.named=some (addr,extent) ∧ m.addr=addr ∧ (m.bytes=14 ∨ m.bytes=16) ∧ m.bytes≤extent := by
  obtain ⟨hname,hlen⟩ := h.named hn
  refine ⟨_,rfl,rfl,s.msgbufAddr,s.msgbufLen,hname,rfl,?_⟩
  dsimp only
  split
  · rename_i hx
    rw [and_eq_true,decide_eq_true_eq] at hx
    exact ⟨.inr rfl,hx.2⟩
  · exact ⟨.inl rfl,hlen⟩

theorem deposit_idle {refused suppress : Bool}
    (h : (s.msgbufOwned && !s.nba && !suppress)=false) : s.deposit tc refused suppress=s := by
  unfold deposit
  rw [h]
  exact if_neg (by decide)

theorem deposit_sends {refused suppress : Bool} (h : (s.msgbufOwned && !s.nba && !suppress)) :
    s.deposit tc refused suppress=s.sendMessage (endMessage tc refused).1 (endMessage tc refused).2 true := by
  unfold deposit
  rw [if_pos h]

theorem giveBack_gives (h : (s.msgbufOwned && !suppress)) :
    s.giveBack suppress={ s with msgbufOwned := false } := by
  unfold giveBack
  rw [if_pos h]

theorem Inv.handBack (h : s.Inv) (htc : tc≠.attention) (refused : Bool)
    (hs : suppress → s.nba) (hp : s.pendingCommand=false) :
    Ends s { (s.deposit tc refused suppress).giveBack suppress with ssr := true } (s.msgbufOwned)
      s.unreported := by
  have hpend : ¬s.pendingCommand=true := fun hx => by rw [hx] at hp; cases hp
  have hack := h.right.owned
  cases hsend : s.msgbufOwned && !s.nba && !suppress with
  | true =>
    rw [deposit_sends hsend]
    rw [and_eq_true,and_eq_true,not_eq_true',not_eq_true'] at hsend
    obtain ⟨⟨ho,hn⟩,rfl⟩ := hsend
    obtain ⟨m,hm,hmtype,hplace⟩ := h.sendMessage hn (endMessage tc refused).1 (endMessage tc refused).2 true
    rw [ho] at hack
    rw [giveBack_gives (s := s.sendMessage _ _ true) (show (s.msgbufOwned && !false)=true by rw [ho]; rfl)]
    refine ⟨⟨⟨hack,h.right.pending,h.right.enabled,?_⟩,h.named,fun hx => absurd hx hpend⟩,?_,?_,?_⟩
    · exact fun _ _ hx => by cases hx
    · exact .inr ⟨m,hm,ho,hn,rfl,hplace⟩
    · exact .inr ⟨m,hm,fun hx => endMessage_type htc refused (hmtype.symm.trans hx)⟩
    · exact .inl (Nat.le_refl _)
  | false =>
    rw [deposit_idle hsend,giveBack]
    split
    · refine .silent ⟨⟨?_,h.right.pending,h.right.enabled,?_⟩,h.named,fun hx => absurd hx hpend⟩ rfl
        (.inl (Nat.le_refl _))
      · exact Nat.le_trans (Nat.le_add_right _ _) hack
      · exact fun _ _ hx => by cases hx
    · rename_i hgive
      refine .silent ⟨⟨hack,h.right.pending,h.right.enabled,?_⟩,h.named,fun hx => absurd hx hpend⟩ rfl
        (.inl (Nat.le_refl _))
      -- owned, and not given back: the message is suppressed, and NBA is set
      intro _ _ ho hn
      cases suppress with
      | true => exact absurd (hn.symm.trans (hs rfl)) (by decide)
      | false =>
        have ho' : (s.msgbufOwned && !false)=true := by rw [show s.msgbufOwned=true from ho]; rfl
        exact absurd ho' hgive

theorem Inv.terminate (h : s.Inv) (htc : tc≠.attention) (refused : Bool)
    (hs : suppress → s.nba) (hp : s.pendingCommand=false) :
    Ends s (s.terminate tc refused suppress) (s.msgbufOwned) s.unreported := by
  unfold Ts11.terminate
  split
  · exact .silent h rfl (.inl (Nat.le_refl _))
  · have ht : ({ s with tc := tc } : Ts11).Inv :=
      ⟨⟨h.right.owned,h.right.pending,h.right.enabled,h.right.ready⟩,h.named,h.busy⟩
    exact (ht.handBack htc refused hs hp).from rfl id (.inl (Nat.le_refl _))

theorem Inv.report (h : s.Inv) (tc : Tc) (htc : tc≠.attention) (refused : Bool) (hp : s.pendingCommand=false) :
    Ends s (s.terminate tc refused false) (s.msgbufOwned) s.unreported :=
  h.terminate htc refused (fun hx => by cases hx) hp

theorem Inv.sendAttention (h : s.Inv) (ha : s.attnPending) (ho : s.msgbufOwned)
    (hn : s.nba=false) (hp : s.pendingCommand=false) :
    Turn s s.sendAttention (s.msgbufOwned) s.unreported ∧ s.sendAttention.unreported=0 ∧
      s.sendAttention.msgbufOwned=false := by
  have hack := h.right.owned
  rw [ho] at hack
  obtain ⟨m,hm,hmtype,hplace⟩ := h.sendMessage hn .attention s.attnClass false
  refine ⟨⟨⟨⟨hack,?_,?_,?_⟩,h.named,?_⟩,?_,?_⟩,rfl,rfl⟩
  · exact ⟨fun hx => (by cases hx),fun hx => absurd hx (Nat.lt_irrefl 0)⟩
  · exact fun hx => by cases hx
  · exact fun _ hx => by cases hx
  · exact fun hx => by rw [show s.pendingCommand=true from hx] at hp; cases hp
  · exact .inr ⟨m,hm,ho,hn,rfl,hplace⟩
  · exact .inl ⟨h.right.pending.1 ha,rfl,m,hm,hmtype⟩

theorem Inv.checkTransportStatus (h : s.Inv) :
    Ends s s.checkTransportStatus False (s.unreported+if s.eai then 1 else 0) := by
  unfold Ts11.checkTransportStatus raiseAttention
  dsimp only
  cases he : s.eai with
  | false =>
    rw [if_pos (show (!false)=true from rfl)]
    exact .silent ⟨⟨h.right.owned,h.right.pending,fun hx => he.symm.trans (h.right.enabled hx),h.right.ready⟩,
      h.named,h.busy⟩ rfl (.inl (Nat.le_refl _))
  | true =>
    rw [if_neg (by decide)]
    split
    · rename_i hx
      refine .silent ⟨⟨h.right.owned,⟨fun _ => Nat.succ_pos _,fun _ => rfl⟩,fun _ => rfl,?_⟩,h.named,h.busy⟩ rfl
        (.inl (Nat.le_refl _))
      intro _ _ (ho : s.msgbufOwned=true) (hn : s.nba=false) (hr : s.ssr=true)
      rw [ho,hn,hr] at hx
      cases hx
    · exact .silent ⟨⟨h.right.owned,⟨fun _ => Nat.succ_pos _,fun _ => rfl⟩,fun _ => rfl,fun _ _ _ _ _ => rfl⟩,
        h.named,h.busy⟩ rfl (.inl (Nat.le_refl _))

theorem Inv.notice (h : s.Inv) (noticed : Bool) :
    Ends s (s.notice noticed) False (s.unreported+if s.eai then noticed.toNat else 0) := by
  cases noticed with
  | false => exact .silent h rfl (.inl (by split <;> exact Nat.le_refl _))
  | true => exact h.checkTransportStatus

theorem checkTransportStatus_frame (s : Ts11) :
    s.checkTransportStatus.msgbufOwned=s.msgbufOwned ∧ s.checkTransportStatus.nba=s.nba ∧
      s.checkTransportStatus.ssr=s.ssr ∧ s.checkTransportStatus.pendingCommand=s.pendingCommand ∧
      s.checkTransportStatus.sent=s.sent ∧ s.checkTransportStatus.unreported=s.unreported+if s.eai then 1 else 0 := by
  unfold Ts11.checkTransportStatus raiseAttention
  dsimp only
  cases he : s.eai with
  | false => exact ⟨rfl,rfl,rfl,rfl,rfl,rfl⟩
  | true =>
    rw [if_neg (by decide)]
    split <;> exact ⟨rfl,rfl,rfl,rfl,rfl,rfl⟩

theorem notice_frame (s : Ts11) (noticed : Bool) :
    (s.notice noticed).msgbufOwned=s.msgbufOwned ∧ (s.notice noticed).nba=s.nba ∧
      (s.notice noticed).ssr=s.ssr ∧ (s.notice noticed).pendingCommand=s.pendingCommand ∧
      (s.notice noticed).sent=s.sent ∧
      (s.notice noticed).unreported=s.unreported+if s.eai then noticed.toNat else 0 := by
  cases noticed with
  | false => exact ⟨rfl,rfl,rfl,rfl,rfl,by show s.unreported=_; split <;> rfl⟩
  | true => exact s.checkTransportStatus_frame

theorem Inv.releaseBuffer (h : s.Inv) (hp : s.pendingCommand=false) :
    Ends s ({ s with tc := .normal,ssr := true } : Ts11).releaseBuffer (s.msgbufOwned) s.unreported := by
  have hpend : ¬s.pendingCommand=true := fun hx => by rw [hx] at hp; cases hp
  unfold Ts11.releaseBuffer
  split
  · rename_i hx
    have ha : s.attnPending=true := by
      rw [and_eq_true,and_eq_true] at hx
      exact hx.1.1
    unfold raiseAttention
    dsimp only
    rw [if_neg (by rw [h.right.enabled ha]; decide)]
    split
    · rename_i hnot
      rw [and_eq_true,and_eq_true] at hx
      obtain ⟨⟨_,(ho : s.msgbufOwned=true)⟩,(hn : (!s.nba)=true)⟩ := hx
      rw [not_eq_true'] at hn
      rw [ho,hn] at hnot
      cases hnot
    · exact .silent ⟨⟨h.right.owned,⟨fun _ => h.right.pending.1 ha,fun _ => rfl⟩,fun _ => h.right.enabled ha,
        fun _ _ _ _ _ => rfl⟩,h.named,fun hx => absurd hx hpend⟩ rfl (.inl (Nat.le_refl _))
  · rename_i hx
    refine .silent ⟨⟨h.right.owned,h.right.pending,h.right.enabled,?_⟩,h.named,fun hx => absurd hx hpend⟩ rfl
      (.inl (Nat.le_refl _))
    intro _ (ha : s.attnPending=true) (ho : s.msgbufOwned=true) (hn : s.nba=false)
    exact absurd (show (s.attnPending && s.msgbufOwned && !s.nba)=true by rw [ha,ho,hn]; rfl) hx

theorem Inv.setNba (h : s.Inv) : ({ s with nba := true } : Ts11).Inv :=
  ⟨⟨h.right.owned,h.right.pending,h.right.enabled,fun _ _ _ hx => by cases hx⟩,fun hx => (by cases hx),h.busy⟩

theorem setModes_cases (s : Ts11) (count w : Nat) : s.setModes count w=s ∨ ∃ ess enb eai eri,
      s.setModes count w={ s with
        ess := ess,enb := enb,eai := eai,eri := eri,attnPending := s.attnPending && eai
        unreported := if eai then s.unreported else 0 } := by
  unfold setModes
  split
  · exact .inl rfl
  · refine .inr ⟨decide (w/0x80%2=1),decide (w/0x40%2=1),decide (w/0x20%2=1),decide (w/0x10%2=1),?_⟩
    simp only [decide_eq_true_eq]

theorem setUnit_eq (s : Ts11) (count w : Nat) : ∃ unit,s.setUnit count w={ s with unitSelect := unit } := by
  unfold setUnit
  split
  · exact ⟨_,rfl⟩
  · exact ⟨s.unitSelect,rfl⟩

theorem terminate_eai (s : Ts11) (tc : Tc) (refused suppress : Bool) :
    (s.terminate tc refused suppress).eai=s.eai := by
  unfold Ts11.terminate deposit giveBack
  dsimp only
  repeat' split
  all_goals rfl

/-- The characteristics are read and name a buffer. -/
structure Named (s : Ts11) : Prop where
  owned : s.sent.length+s.msgbufOwned.toNat ≤ s.acks
  pending : s.attnPending=true ↔ 0<s.unreported
  enabled : s.attnPending=true → s.eai=true
  named : s.named=some (s.msgbufAddr,s.msgbufLen) ∧ 14 ≤ s.msgbufLen
  ssr : s.ssr=false
  free : s.pendingCommand=false

theorem Named.accept (h : s.Named) :
    Ends s (s.clearNba.terminate .normal false false) (s.msgbufOwned) s.unreported := by
  have hi : s.clearNba.Inv := by
    refine ⟨⟨h.owned,h.pending,h.enabled,?_⟩,fun _ => h.named,fun _ => h.ssr⟩
    intro _ _ _ _ (hssr : s.ssr=true)
    exact absurd (hssr.symm.trans h.ssr) (by decide)
  exact (hi.report _ (fun hx => by cases hx) false h.free).from rfl id (.inl (Nat.le_refl _))

theorem Named.setUnit (h : s.Named) (count w : Nat) : (s.setUnit count w).Named := by
  obtain ⟨unit,hunit⟩ := setUnit_eq s count w
  rw [hunit]
  exact ⟨h.owned,h.pending,h.enabled,h.named,h.ssr,h.free⟩

theorem Named.setModes (h : s.Named) (count w : Nat) : (s.setModes count w).Named := by
  obtain hm | ⟨ess,enb,eai,eri,hm⟩ := setModes_cases s count w
  · rw [hm]
    exact h
  · rw [hm]
    refine ⟨h.owned,?_,?_,h.named,h.ssr,h.free⟩
    · cases eai with
      | true => exact (Bool.and_true s.attnPending).symm ▸ h.pending
      | false => exact ⟨fun hx => absurd ((Bool.and_false s.attnPending).symm.trans hx) (by decide),
          fun hx => absurd hx (Nat.lt_irrefl 0)⟩
    · intro (hx : (s.attnPending && eai)=true)
      rw [and_eq_true] at hx
      exact hx.2

theorem Ends.modes {t : Ts11} {count w : Nat}
    (h : Ends (s.setModes count w) t ((s.setModes count w).msgbufOwned) (s.setModes count w).unreported)
    (he : t.eai=(s.setModes count w).eai) : Ends s t (s.msgbufOwned) s.unreported := by
  obtain hm | ⟨ess,enb,eai,eri,hm⟩ := setModes_cases s count w
  · rw [hm] at h
    exact h
  · rw [hm] at h he
    cases eai with
    | true => exact h.from rfl id (.inl (Nat.le_refl _))
    | false => exact h.from rfl id (.inr he)

theorem Named.accepted (h : s.Named) (count w3 w4 : Nat) :
    Ends s (((s.setModes count w3).setUnit count w4).clearNba.terminate .normal false false)
      (s.msgbufOwned) s.unreported := by
  obtain ⟨unit,hunit⟩ := setUnit_eq (s.setModes count w3) count w4
  have hu := (h.setModes count w3).setUnit count w4
  rw [hunit] at hu ⊢
  exact Ends.modes (hu.accept.from rfl id (.inl (Nat.le_refl _))) (terminate_eai ..)

theorem Inv.commandWriteCharacteristics (h : s.Inv) (hssr : s.ssr=false) (hp : s.pendingCommand=false)
    (p : Packet) (chars : Option (Nat × Nat × Nat × Nat × Nat)) :
    Ends s (s.commandWriteCharacteristics p chars) (s.msgbufOwned) s.unreported := by
  -- a command that is refused sets NBA
  have hrefuse (tc : Tc) (suppress : Bool) (htc : tc≠.attention) :
      Ends s (({ s with nba := true } : Ts11).terminate tc false suppress) (s.msgbufOwned=true) s.unreported :=
    (h.setNba.terminate htc false (fun _ => rfl) hp).from rfl id (.inl (Nat.le_refl _))
  unfold Ts11.commandWriteCharacteristics
  split
  · exact hrefuse _ _ (fun hx => by cases hx)
  · split
    · exact hrefuse _ _ (fun hx => by cases hx)
    · split
      · exact hrefuse _ _ (fun hx => by cases hx)
      · split
        · exact hrefuse _ _ (fun hx => by cases hx)
        · rename_i msgbuf _
          split
          · exact hrefuse _ _ (fun hx => by cases hx)
          · rename_i w2 w3 w4 _ _ hlen
            have hv : ({ s with msgbufAddr := msgbuf,msgbufLen := w2,named := some (msgbuf,w2) } : Ts11).Named :=
              ⟨h.right.owned,h.right.pending,h.right.enabled,⟨rfl,Nat.le_of_not_lt hlen⟩,hssr,hp⟩
            exact (hv.accepted p.count w3 w4).from rfl id (.inl (Nat.le_refl _))

theorem Inv.commandControl (h : s.Inv) (hp : s.pendingCommand=false) (mode : Nat) (noticed : Bool) :
    Ends s (s.commandControl mode noticed) (s.msgbufOwned) s.unreported := by
  unfold Ts11.commandControl
  split
  · exact h.releaseBuffer hp
  · obtain ⟨howned,_,_,hpend,hsent,hn⟩ := s.notice_frame noticed
    have ht := (h.notice noticed).inv.report .normal (fun hx => by cases hx) false (hpend.trans hp)
    exact ht.from hsent (fun ho => howned.symm.trans ho) (.inl (hn ▸ Nat.le_add_right _ _))
  · exact h.report _ (fun hx => by cases hx) false hp
  · split <;> exact h.report _ (fun hx => by cases hx) false hp
  · exact h.report _ (fun hx => by cases hx) false hp

theorem Inv.moves (h : s.Inv) : Ends s { s with moving := true } (s.msgbufOwned) s.unreported :=
  .silent ⟨⟨h.right.owned,h.right.pending,h.right.enabled,h.right.ready⟩,h.named,h.busy⟩ rfl
    (.inl (Nat.le_refl _))

theorem Inv.transferData (h : s.Inv) (hp : s.pendingCommand=false) (p : Packet) :
    Ends s (s.transferData p) (s.msgbufOwned) s.unreported := by
  unfold Ts11.transferData
  split
  · exact h.report _ (fun hx => by cases hx) false hp
  · exact h.moves

theorem Inv.perform (h : s.Inv) (hssr : s.ssr=false) (hp : s.pendingCommand=false) (p : Packet)
    (f : Found) : Ends s (s.perform p f) (s.msgbufOwned) s.unreported := by
  have hend (tc : Tc) (htc : tc≠.attention) :
      Ends s (s.terminate tc false false) (s.msgbufOwned=true) s.unreported :=
    h.report tc htc false hp
  unfold Ts11.perform
  cases p.code with
  | getStatus | writeSubsystemMem | other => exact hend _ (fun hx => by cases hx)
  | driveInit =>
    have hi : ({ s with unitSelect := 0 } : Ts11).Inv :=
      ⟨⟨h.right.owned,h.right.pending,h.right.enabled,h.right.ready⟩,h.named,h.busy⟩
    exact (hi.report _ (fun hx => by cases hx) false hp).from rfl id (.inl (Nat.le_refl _))
  | read | write => exact h.transferData hp p
  | position | format => exact h.moves
  | writeCharacteristics => exact h.commandWriteCharacteristics hssr hp p f.chars
  | control => exact h.commandControl hp p.mode f.noticed

theorem Inv.decode (h : s.Inv) (hssr : s.ssr=false) (hp : s.pendingCommand=false) (p : Packet)
    (f : Found) : Ends s (s.decode p f) (s.msgbufOwned) s.unreported := by
  have hreject (refused : Bool) :
      Ends s (s.terminate .functionReject refused false) (s.msgbufOwned=true) s.unreported :=
    h.report _ (fun hx => by cases hx) refused hp
  unfold Ts11.decode
  split
  · exact hreject _
  · split
    · exact hreject _
    · split
      · exact hreject _
      · split
        · exact hreject _
        · exact h.perform hssr hp p f

theorem Inv.takeBuffer (h : s.Inv) (hssr : s.ssr=false) (ack : Bool) : (s.takeBuffer ack).Inv := by
  unfold Ts11.takeBuffer
  split
  · refine ⟨⟨?_,h.right.pending,h.right.enabled,?_⟩,h.named,h.busy⟩
    · exact Nat.succ_le_succ (Nat.le_trans (Nat.le_add_right _ _) h.right.owned)
    · exact fun _ _ _ _ hx => absurd (hx.symm.trans hssr) (by decide)
  · exact h

theorem Inv.executePacket (h : s.Inv) (hssr : s.ssr=false) (hp : s.pendingCommand=false) (p : Packet)
    (f : Found) : Turn s (s.executePacket p f) (s.msgbufOwned) s.unreported ∧
      (0<s.unreported → s.msgbufOwned → s.nba=false → p.namesTheBuffer=false →
        (s.executePacket p f).unreported=0 ∧ (s.executePacket p f).msgbufOwned=false) := by
  unfold Ts11.executePacket
  split
  · rename_i hx
    simp only [and_eq_true,not_eq_true'] at hx
    obtain ⟨⟨⟨⟨ha,_⟩,ho⟩,hn⟩,_⟩ := hx
    obtain ⟨ht,hzero,hgiven⟩ := h.sendAttention ha ho hn hp
    exact ⟨ht,fun _ _ _ _ => ⟨hzero,hgiven⟩⟩
  · rename_i hx
    have hi : ({ s with interruptEnable := p.enables,volumeCheck := s.volumeCheck && !p.cvc } : Ts11).Inv :=
      ⟨⟨h.right.owned,h.right.pending,h.right.enabled,h.right.ready⟩,h.named,h.busy⟩
    have he : Ends s _ (s.msgbufOwned=true) s.unreported :=
      (hi.decode hssr hp p f).from rfl id (.inl (Nat.le_refl _))
    refine ⟨he.turn,?_⟩
    intro hstands ho hn hnames
    have ha := h.right.pending.2 hstands
    rw [ha,h.right.enabled ha,ho,hn,hnames] at hx
    exact absurd rfl hx

theorem takeBuffer_frame (s : Ts11) (ack : Bool) :
    (s.takeBuffer ack).ssr=s.ssr ∧ (s.takeBuffer ack).pendingCommand=s.pendingCommand ∧
      (s.takeBuffer ack).sent=s.sent ∧ (s.takeBuffer ack).nba=s.nba ∧ (s.takeBuffer ack).unreported=s.unreported ∧
      (s.takeBuffer ack).msgbufOwned=(s.msgbufOwned || ack) := by
  cases ack with
  | true => exact ⟨rfl,rfl,rfl,rfl,rfl,(Bool.or_true _).symm⟩
  | false => exact ⟨rfl,rfl,rfl,rfl,rfl,(Bool.or_false _).symm⟩

/-- What stands with the worker, whether or not an attention is to go out -/
structure Base (s : Ts11) : Prop where
  owned : s.sent.length+s.msgbufOwned.toNat ≤ s.acks
  pending : s.attnPending=true ↔ 0<s.unreported
  enabled : s.attnPending=true → s.eai=true
  named : s.nba=false → s.named=some (s.msgbufAddr,s.msgbufLen) ∧ 14 ≤ s.msgbufLen

theorem Base.inv (h : s.Base) (hp : s.pendingCommand=false)
    (hr : s.attnPending → s.msgbufOwned → s.nba=false → s.ssr → s.pendingAttention) : s.Inv :=
  ⟨⟨h.owned,h.pending,h.enabled,fun _ => hr⟩,h.named,fun hx => absurd (hx.symm.trans hp) (by decide)⟩

theorem Base.notice (h : s.Base) (noticed : Bool) : (s.notice noticed).Base := by
  cases noticed with
  | false => exact h
  | true =>
    show s.checkTransportStatus.Base
    unfold Ts11.checkTransportStatus raiseAttention
    dsimp only
    cases he : s.eai with
    | false =>
      rw [if_pos (show (!false)=true from rfl)]
      exact ⟨h.owned,h.pending,fun hx => he.symm.trans (h.enabled hx),h.named⟩
    | true =>
      rw [if_neg (by decide)]
      split <;> exact ⟨h.owned,⟨fun _ => Nat.succ_pos _,fun _ => rfl⟩,fun _ => rfl,h.named⟩

/-- The worker has what it takes on before it. -/
structure Taken (s u : Ts11) (standing : Nat) : Prop where
  base : u.Base
  free : u.pendingCommand=false
  owned : u.msgbufOwned=s.msgbufOwned
  nba : u.nba=s.nba
  ssr : u.ssr=s.ssr
  sent : u.sent=s.sent
  stands : u.unreported=standing

theorem Inv.takePending (h : s.Inv) (noticed : Bool) :
    Taken s (s.takePending noticed) (s.unreported+if s.eai then noticed.toNat else 0) := by
  have hb : ({ s with pendingCommand := false,pendingAttention := false } : Ts11).Base :=
    ⟨h.right.owned,h.right.pending,h.right.enabled,h.named⟩
  have hn := hb.notice noticed
  obtain ⟨howned,hnba,hssr,hpend,hsent,hstands⟩ :=
    notice_frame { s with pendingCommand := false,pendingAttention := false } noticed
  exact ⟨⟨hn.owned,hn.pending,hn.enabled,hn.named⟩,hpend,howned,hnba,hssr,hsent,hstands⟩

theorem Taken.attend {u : Ts11} {n : Nat} (h : Taken s u n) : Turn s u.attend (s.msgbufOwned) n ∧
      (0<n → s.nba=false → s.msgbufOwned → u.attend.unreported=0 ∧ u.attend.msgbufOwned=false) := by
  have hown (ho : u.msgbufOwned=true) : s.msgbufOwned=true := h.owned.symm.trans ho
  obtain rfl := h.stands
  unfold Ts11.attend
  split
  · rename_i hx
    simp only [and_eq_true,not_eq_true'] at hx
    obtain ⟨⟨ha,ho⟩,hn⟩ := hx
    have hi : ({ u with ssr := false } : Ts11).Inv :=
      ⟨⟨h.base.owned,h.base.pending,h.base.enabled,fun _ _ _ _ hx => by cases hx⟩,h.base.named,fun _ => rfl⟩
    obtain ⟨ht,hzero,hgiven⟩ := hi.sendAttention ha ho hn h.free
    exact ⟨ht.from h.sent hown,fun _ _ _ => ⟨hzero,hgiven⟩⟩
  · rename_i hx
    have hi : u.Inv := h.base.inv h.free fun ha ho hn _ =>
      absurd (show (u.attnPending && u.msgbufOwned && !u.nba)=true by rw [ha,ho,hn]; rfl) hx
    refine ⟨(Ends.silent hi h.sent (.inl (Nat.le_refl _))).turn,?_⟩
    intro hstands hn ho
    rw [h.base.pending.2 hstands,h.owned.trans ho,h.nba.trans hn] at hx
    exact absurd rfl hx

theorem Taken.command {u : Ts11} {n : Nat} (h : Taken s u n) (hssr : s.ssr=false) (f : Found) :
    Turn s (u.executeCommand f) (s.msgbufOwned ∨ ∃ p,f.packet=some p ∧ p.ack) n ∧
      ∀ p,f.packet=some p → 0<n → s.nba=false → p.namesTheBuffer=false → (s.msgbufOwned ∨ p.ack) →
        (u.executeCommand f).unreported=0 ∧ (u.executeCommand f).msgbufOwned=false := by
  have hu := h.ssr.trans hssr
  have hi : u.Inv := h.base.inv h.free fun _ _ _ hx => absurd (hx.symm.trans hu) (by decide)
  obtain rfl := h.stands
  unfold Ts11.executeCommand
  cases hf : f.packet with
  | none =>
    have he := hi.report .recoverableNoMotion (fun hx => by cases hx) false h.free
    exact ⟨(he.from h.sent (fun ho => .inl (h.owned.symm.trans ho)) (.inl (Nat.le_refl _))).turn,
      fun p hp => by cases hp⟩
  | some p =>
    obtain ⟨hbssr,hbpend,hbsent,hbnba,hbstands,hbowned⟩ := u.takeBuffer_frame p.ack
    obtain ⟨ht,hanswer⟩ :=
      (hi.takeBuffer hu p.ack).executePacket (hbssr.trans hu) (hbpend.trans h.free) p f
    rw [hbstands,hbowned,h.owned,Bool.or_eq_true] at ht hanswer
    refine ⟨ht.from (hbsent.trans h.sent) ?_,?_⟩
    · rintro (ho | hack)
      · exact .inl ho
      · exact .inr ⟨p,rfl,hack⟩
    · intro q hq hstands hn hnames how
      obtain rfl := Option.some.inj hq
      exact hanswer hstands how (hbnba.trans (h.nba.trans hn)) hnames

theorem resetSubsystem_inv (h : s.sent.length+s.msgbufOwned.toNat ≤ s.acks) (owned : Prop) (n : Nat) :
    Ends s s.resetSubsystem owned n := by
  refine .silent ⟨⟨?_,?_,fun hx => (by cases hx),fun _ hx => by cases hx⟩,fun hx => (by cases hx),
    fun hx => by cases hx⟩ rfl (.inr rfl)
  · exact Nat.le_trans (Nat.le_add_right _ _) h
  · exact ⟨fun hx => (by cases hx),fun hx => absurd hx (Nat.lt_irrefl 0)⟩

/-- Nothing starts the tape or takes a new generation. -/
structure Still (s t : Ts11) : Prop where
  moving : t.moving=s.moving
  reset : t.resetGeneration=s.resetGeneration
  command : t.commandGeneration=s.commandGeneration

section
variable {u : Ts11}

theorem Still.terminate (h : Still s u) (tc : Tc) (refused suppress : Bool) :
    Still s (u.terminate tc refused suppress) := by
  unfold Ts11.terminate deposit giveBack
  dsimp only
  repeat' split
  all_goals exact ⟨h.moving,h.reset,h.command⟩

theorem Still.raiseAttention (h : Still s u) (classCode : Nat) : Still s (u.raiseAttention classCode) := by
  unfold Ts11.raiseAttention
  dsimp only
  repeat' split
  all_goals exact ⟨h.moving,h.reset,h.command⟩

theorem Still.notice (h : Still s u) (noticed : Bool) : Still s (u.notice noticed) := by
  cases noticed with
  | false => exact h
  | true =>
    refine Still.raiseAttention ?_ 0
    exact ⟨h.moving,h.reset,h.command⟩

theorem Still.takeBuffer (h : Still s u) (ack : Bool) : Still s (u.takeBuffer ack) := by
  cases ack with
  | false => exact h
  | true => exact ⟨h.moving,h.reset,h.command⟩

theorem Still.attend (h : Still s u) : Still s u.attend := by
  unfold Ts11.attend
  split
  · exact ⟨h.moving,h.reset,h.command⟩
  · exact h

theorem Still.commandWriteCharacteristics (h : Still s u) (p : Packet)
    (chars : Option (Nat × Nat × Nat × Nat × Nat)) : Still s (u.commandWriteCharacteristics p chars) := by
  have hrefuse (tc : Tc) (suppress : Bool) :
      Still s (({ u with nba := true } : Ts11).terminate tc false suppress) := by
    refine Still.terminate ?_ tc false suppress
    exact ⟨h.moving,h.reset,h.command⟩
  have haccept {v : Ts11} (hv : Still s v) (count w3 w4 : Nat) :
      Still s (((v.setModes count w3).setUnit count w4).clearNba.terminate .normal false false) := by
    obtain ⟨unit,hunit⟩ := setUnit_eq (v.setModes count w3) count w4
    rw [hunit]
    obtain hm | ⟨ess,enb,eai,eri,hm⟩ := setModes_cases v count w3
    all_goals
      rw [hm]
      refine Still.terminate ?_ .normal false false
      exact ⟨hv.moving,hv.reset,hv.command⟩
  unfold Ts11.commandWriteCharacteristics
  repeat' split
  all_goals first
    | exact hrefuse _ _
    | refine haccept ?_ p.count _ _
      exact ⟨h.moving,h.reset,h.command⟩

theorem Still.commandControl (h : Still s u) (mode : Nat) (noticed : Bool) :
    Still s (u.commandControl mode noticed) := by
  unfold Ts11.commandControl Ts11.releaseBuffer
  split
  · split
    · refine Still.raiseAttention ?_ _
      exact ⟨h.moving,h.reset,h.command⟩
    · exact ⟨h.moving,h.reset,h.command⟩
  · exact (h.notice noticed).terminate _ _ _
  · exact h.terminate _ _ _
  · split <;> exact h.terminate _ _ _
  · exact h.terminate _ _ _

end

theorem executeCommand_still (s : Ts11) (f : Found) : Still s (s.executeCommand f) ∨
      ((s.executeCommand f).ssr=s.ssr ∧ (s.executeCommand f).pendingCommand=s.pendingCommand ∧
        (s.executeCommand f).resetGeneration=s.resetGeneration ∧
        (s.executeCommand f).commandGeneration=s.commandGeneration) := by
  have hs : Still s s := ⟨rfl,rfl,rfl⟩
  unfold Ts11.executeCommand
  split
  · exact .inl (hs.terminate _ _ _)
  · rename_i p _
    obtain ⟨hssr,hpend,-⟩ := s.takeBuffer_frame p.ack
    have hb := hs.takeBuffer p.ack
    generalize s.takeBuffer p.ack=u at hssr hpend hb
    unfold Ts11.executePacket
    split
    · exact .inl ⟨hb.moving,hb.reset,hb.command⟩
    · have hv : Still s { u with interruptEnable := p.enables,volumeCheck := u.volumeCheck && !p.cvc } :=
        ⟨hb.moving,hb.reset,hb.command⟩
      unfold Ts11.decode
      split
      · exact .inl (hv.terminate _ _ _)
      · split
        · exact .inl (hv.terminate _ _ _)
        · split
          · exact .inl (hv.terminate _ _ _)
          · split
            · exact .inl (hv.terminate _ _ _)
            · unfold Ts11.perform
              split
              · exact .inl (hv.terminate _ _ _)
              · refine .inl (Still.terminate ?_ .normal false false)
                exact ⟨hv.moving,hv.reset,hv.command⟩
              all_goals try unfold Ts11.transferData
              all_goals try split
              all_goals first
                | exact .inl (hv.terminate _ _ _)
                | exact .inl (hv.commandWriteCharacteristics p f.chars)
                | exact .inl (hv.commandControl p.mode f.noticed)
                | exact .inr ⟨hssr,hpend,hb.reset,hb.command⟩

/-- While the tape moves for the subsystem as it is, no command comes. -/
structure Whole (s : Ts11) : Prop where
  inv : s.Inv
  generation : s.commandGeneration ≤ s.resetGeneration
  running : s.moving=true → s.resetGeneration=s.commandGeneration → s.ssr=false ∧ s.pendingCommand=false

/-- A step keeps the invariant, and does what is claimed. -/
structure Does (s t : Ts11) (e : Event) : Prop where
  whole : t.Whole
  writes : Writes s t (s.Owns e)
  reports : Reports s t (s.standing e)
  answers : s.Answers t e

theorem Turn.does {t : Ts11} (h : Turn s t (s.Owns e) (s.standing e)) (hg : t.commandGeneration≤t.resetGeneration)
    (hr : t.moving → t.resetGeneration=t.commandGeneration → t.ssr=false ∧ t.pendingCommand=false)
    (ha : s.Answers t e) : Does s t e :=
  ⟨⟨h.inv,hg,hr⟩,h.writes,h.reports,ha⟩

theorem standing_quiet (he : e.conditions=0) : s.standing e=s.unreported := by
  unfold standing
  rw [he]
  split <;> rfl

theorem answers_quiet (t : Ts11) (ha : ∀ noticed,e≠.attend noticed)
    (hc : ∀ noticed f,e≠.command noticed f) : s.Answers t e :=
  fun _ _ => ⟨fun noticed hx => absurd hx (ha noticed),fun noticed f _ hx => absurd hx (hc noticed f)⟩

theorem Inv.quiet {t : Ts11} (hi : t.Inv) (hs : t.sent=s.sent) (hn : t.unreported=s.unreported)
    (he : e.conditions=0) (ha : ∀ noticed,e≠.attend noticed) (hc : ∀ noticed f,e≠.command noticed f)
    (hg : t.commandGeneration≤t.resetGeneration)
    (hr : t.moving → t.resetGeneration=t.commandGeneration → t.ssr=false ∧ t.pendingCommand=false) : Does s t e :=
  (Ends.silent hi hs (.inl (Nat.le_of_eq ((standing_quiet he).trans hn.symm)))).turn.does hg hr
    (answers_quiet t ha hc)

theorem Whole.write (h : s.Whole) (pointer : Nat) :
    Does s (if s.ssr then { s with rmr := false,commandPointer := pointer,ssr := false,pendingCommand := true }
      else { s with rmr := true }) (.write pointer) := by
  have hi := h.inv
  split
  · rename_i hssr
    refine Inv.quiet ?_ rfl rfl rfl (fun _ hx => by cases hx) (fun _ _ hx => by cases hx) h.generation ?_
    · exact ⟨⟨hi.right.owned,hi.right.pending,hi.right.enabled,fun _ _ _ _ hx => by cases hx⟩,hi.named,fun _ => rfl⟩
    -- a tape that moves holds SSR down
    · intro hm hg
      exact absurd (hssr.symm.trans (h.running hm hg).1) (by decide)
  · refine Inv.quiet ?_ rfl rfl rfl (fun _ hx => by cases hx) (fun _ _ hx => by cases hx) h.generation h.running
    exact ⟨⟨hi.right.owned,hi.right.pending,hi.right.enabled,hi.right.ready⟩,hi.named,hi.busy⟩

theorem Whole.reset (h : s.Whole) (asserted : Bool) (ha : ∀ noticed,e≠.attend noticed)
    (hc : ∀ noticed f,e≠.command noticed f) :
    Does s ({ s with initAsserted := asserted } : Ts11).resetSubsystem e := by
  have he : Ends s ({ s with initAsserted := asserted } : Ts11).resetSubsystem (s.Owns e) (s.standing e) :=
    (resetSubsystem_inv (s := { s with initAsserted := asserted }) h.inv.right.owned (s.Owns e) 0).from rfl id
      (.inr rfl)
  refine he.turn.does (Nat.le_succ_of_le h.generation) ?_ (answers_quiet _ ha hc)
  exact fun _ hg => absurd hg (Nat.ne_of_gt (Nat.lt_succ_of_le h.generation))

theorem Whole.init (h : s.Whole) (asserted : Bool) :
    Does s (if asserted then { s with initAsserted := true } else { s with initAsserted := false }.resetSubsystem)
      (.init asserted) := by
  cases asserted with
  | true =>
    have hr := h.inv.right
    refine Inv.quiet ?_ rfl rfl rfl (fun _ hx => by cases hx) (fun _ _ hx => by cases hx) h.generation h.running
    exact ⟨⟨hr.owned,hr.pending,hr.enabled,fun hx => by cases hx⟩,h.inv.named,h.inv.busy⟩
  | false => exact h.reset false (fun _ hx => by cases hx) (fun _ _ hx => by cases hx)

theorem Whole.transportStatus (h : s.Whole) : Does s s.checkTransportStatus .transportStatus := by
  have hstill : Still s s.checkTransportStatus := Still.notice ⟨rfl,rfl,rfl⟩ true
  obtain ⟨-,-,hssr,hpend,-⟩ := s.checkTransportStatus_frame
  refine (h.inv.checkTransportStatus.from rfl False.elim (.inl (Nat.le_refl _))).turn.does ?_ ?_
    (answers_quiet _ (fun _ hx => by cases hx) (fun _ _ hx => by cases hx))
  · rw [hstill.reset,hstill.command]
    exact h.generation
  · rw [hstill.moving,hstill.reset,hstill.command,hssr,hpend]
    exact h.running

theorem takePending_still (s : Ts11) (noticed : Bool) : (s.takePending noticed).moving=s.moving ∧
      (s.takePending noticed).commandGeneration=(s.takePending noticed).resetGeneration := by
  have hstill : Still s (({ s with pendingCommand := false,pendingAttention := false } : Ts11).notice noticed) := by
    refine Still.notice ?_ noticed
    exact ⟨rfl,rfl,rfl⟩
  exact ⟨hstill.moving,hstill.reset.symm⟩

theorem Whole.attend (h : s.Whole) (hm : s.moving=false) (noticed : Bool) :
    Does s (s.takePending noticed).attend (.attend noticed) := by
  obtain ⟨ht,hanswer⟩ := (h.inv.takePending noticed).attend
  have hstill : Still (s.takePending noticed) (s.takePending noticed).attend := Still.attend ⟨rfl,rfl,rfl⟩
  obtain ⟨hmove,hgen⟩ := s.takePending_still noticed
  refine (ht.from rfl .inl).does ?_ ?_ ?_
  · exact Nat.le_of_eq (hstill.command.trans (hgen.trans hstill.reset.symm))
  · intro hmoves
    rw [hstill.moving,hmove,hm] at hmoves
    cases hmoves
  · exact fun hstands hn => ⟨fun _ _ ho => hanswer hstands hn ho,fun _ _ _ hx => by cases hx⟩

theorem Whole.command (h : s.Whole) (hm : s.moving=false) (hp : s.pendingCommand) (noticed : Bool)
    (f : Found) : Does s ((s.takePending noticed).executeCommand f) (.command noticed f) := by
  have hssr := h.inv.busy hp
  have htaken := h.inv.takePending noticed
  obtain ⟨ht,hanswer⟩ := htaken.command hssr f
  obtain ⟨hmove,hgen⟩ := s.takePending_still noticed
  have hstill := (s.takePending noticed).executeCommand_still f
  refine (ht.from rfl ?_).does ?_ ?_ ?_
  · rintro (ho | ⟨p,hf,hack⟩)
    · exact .inl ho
    · exact .inr ⟨noticed,f,p,rfl,hf,hack⟩
  · obtain hstill | ⟨_,_,hr,hc⟩ := hstill
    · exact Nat.le_of_eq (hstill.command.trans (hgen.trans hstill.reset.symm))
    · exact Nat.le_of_eq (hc.trans (hgen.trans hr.symm))
  · intro hmoves _
    obtain hstill | ⟨hs,hp,_,_⟩ := hstill
    · rw [hstill.moving,hmove,hm] at hmoves
      cases hmoves
    · exact ⟨hs.trans (htaken.ssr.trans hssr),hp.trans htaken.free⟩
  · refine fun hstands hn => ⟨fun _ hx => (by cases hx),?_⟩
    intro noticed' f' p hx hf hnames how
    cases hx
    exact hanswer p hf hstands hn hnames how

theorem Whole.dropped (h : s.Whole) (hi : s.initAsserted) (hm : s.moving=false) :
    Does s { s with pendingCommand := false,pendingAttention := false } .dropped := by
  refine Inv.quiet ?_ rfl rfl rfl (fun _ hx => by cases hx) (fun _ _ hx => by cases hx) h.generation ?_
  · refine ⟨⟨h.inv.right.owned,h.inv.right.pending,h.inv.right.enabled,?_⟩,h.inv.named,fun hx => by cases hx⟩
    exact fun hx => absurd (hi.symm.trans hx) (by decide)
  · exact fun hx => absurd (hm.symm.trans hx) (by decide)

theorem Whole.motionEnds (h : s.Whole) (hm : s.moving) (htc : tc≠.attention) (refused : Bool) :
    Does s (({ s with moving := false } : Ts11).terminate tc refused false) (.motionEnds tc refused) := by
  have hi : Inv { s with moving := false } :=
    ⟨⟨h.inv.right.owned,h.inv.right.pending,h.inv.right.enabled,h.inv.right.ready⟩,h.inv.named,h.inv.busy⟩
  have hstill : Still { s with moving := false } (({ s with moving := false } : Ts11).terminate tc refused false) :=
    Still.terminate ⟨rfl,rfl,rfl⟩ tc refused false
  have hr {t : Ts11} (ht : t.moving=false) :
      t.moving=true → t.resetGeneration=t.commandGeneration → t.ssr=false ∧ t.pendingCommand=false :=
    fun hx => absurd (ht.symm.trans hx) (by decide)
  by_cases hgen : s.resetGeneration=s.commandGeneration
  · have he := hi.report tc htc refused (h.running hm hgen).2
    have he' : Ends s _ (s.Owns (.motionEnds tc refused)) (s.standing (.motionEnds tc refused)) :=
      he.from rfl .inl (.inl (Nat.le_of_eq (standing_quiet rfl)))
    refine he'.turn.does ?_ (hr hstill.moving)
      (answers_quiet _ (fun _ hx => by cases hx) (fun _ _ hx => by cases hx))
    exact hstill.command.symm ▸ hstill.reset.symm ▸ h.generation
  -- a command that a reset halted says nothing more
  · have hsame : ({ s with moving := false } : Ts11).terminate tc refused false={ s with moving := false } := by
      unfold Ts11.terminate
      exact if_pos hgen
    rw [hsame]
    exact Inv.quiet hi rfl rfl rfl (fun _ hx => by cases hx) (fun _ _ hx => by cases hx) h.generation (hr rfl)

theorem Whole.step (h : s.Whole) {t : Ts11} (hs : s.step e=some t) : Does s t e := by
  cases e with
  | write pointer =>
    have hw := h.write pointer
    simp only [Ts11.step] at hs
    split at hs
    · rename_i hssr
      cases hs
      rwa [if_pos hssr] at hw
    · rename_i hssr
      cases hs
      rwa [if_neg hssr] at hw
  | reset =>
    cases hs
    exact h.reset s.initAsserted (fun _ hx => by cases hx) (fun _ _ hx => by cases hx)
  | init asserted =>
    cases hs
    exact h.init asserted
  | transportStatus =>
    cases hs
    exact h.transportStatus
  | attend noticed =>
    simp only [Ts11.step] at hs
    split at hs
    · cases hs
    · rename_i hx
      cases hs
      exact h.attend (by simpa using (not_or.1 (not_or.1 hx).2).1) noticed
  | command noticed f =>
    simp only [Ts11.step] at hs
    split at hs
    · cases hs
    · rename_i hx
      cases hs
      obtain ⟨hm,hp⟩ := not_or.1 (not_or.1 hx).2
      exact h.command (by simpa using hm) (by simpa using hp) noticed f
  | dropped =>
    simp only [Ts11.step] at hs
    split at hs
    · rename_i hx
      cases hs
      exact h.dropped hx.1 (by simpa using hx.2)
    · cases hs
  | motionEnds tc refused =>
    simp only [Ts11.step] at hs
    split at hs
    · rename_i hx
      cases hs
      exact h.motionEnds hx.1 hx.2 refused
    · cases hs

end

theorem start_whole (extended : Bool) : (start extended).Whole :=
  ⟨⟨⟨Nat.le_refl 0,⟨fun hx => (by cases hx),fun hx => absurd hx (Nat.lt_irrefl 0)⟩,fun hx => (by cases hx),
    fun _ hx => by cases hx⟩,fun hx => (by cases hx),fun hx => by cases hx⟩,Nat.le_refl 0,fun hx => by cases hx⟩

/-- In every run a message is written only into a buffer that is owned, by an ACK of its own, while NBA is clear
and at the place that write characteristics named; and a condition is reported by the next message that the
controller may write for itself, for a command that does not name the buffer. -/
theorem messages_right (extended : Bool) {es : List Event} {s : Ts11}
    (h : Run (fun s e t => Ts11.step s e=some t) (start extended) es s) :
    s.Right ∧ ∀ e t,s.step e=some t → Writes s t (s.Owns e) ∧ Reports s t (s.standing e) ∧ s.Answers t e := by
  have hw : s.Whole := h.invariant (P := Whole) (fun _ _ _ hp hs => (hp.step hs).whole) (start_whole extended)
  exact ⟨hw.inv.right,fun e t hs => ⟨(hw.step hs).writes,(hw.step hs).reports,(hw.step hs).answers⟩⟩

def namesBuffer : Event :=
  .command false ⟨some ⟨0x8004,0o1000,0,8⟩,some (0o2000,0,16,0x20,0),true,false⟩

/-- A drive that goes off-line while the CPU holds the buffer is reported to the next get status. -/
theorem messages_right_offline : ∃ s, Run (fun s e t => Ts11.step s e=some t) (start true)
      [.write 0o1000,namesBuffer,.transportStatus,.write 0o1000,
        .command false ⟨some ⟨0x800F,0,0,0⟩,none,false,false⟩] s ∧
    s.sent.map (·.type)=[.attention,.endMessage] ∧ s.Right := by
  have hr : Run (fun s e t => Ts11.step s e=some t) (start true)
      [.write 0o1000,namesBuffer,.transportStatus,.write 0o1000,
        .command false ⟨some ⟨0x800F,0,0,0⟩,none,false,false⟩] _ := run_of_foldlM_eq rfl
  exact ⟨_,hr,by decide +kernel,(messages_right true hr).1⟩

/-- Write characteristics run ahead of an attention: the buffer that they own goes back with their own message. -/
theorem attention_held_back : ∃ s t e,
    Run (fun s e t => Ts11.step s e=some t) (start true) [.write 0o1000,namesBuffer,.transportStatus,.write 0o1000] s ∧
      s.step e=some t ∧ s.Owns e ∧ 0<s.unreported ∧ s.nba=false ∧ s.eai ∧
      (∃ m,t.sent=m::s.sent ∧ m.type=.endMessage) ∧ t.msgbufOwned=false ∧ t.unreported=s.unreported ∧ t.eai=true := by
  have hr : Run (fun s e t => Ts11.step s e=some t) (start true)
      [.write 0o1000,namesBuffer,.transportStatus,.write 0o1000] _ := run_of_foldlM_eq rfl
  refine ⟨_,_,namesBuffer,hr,rfl,.inr ⟨_,_,_,rfl,rfl,by decide⟩,by decide,rfl,rfl,⟨_,rfl,rfl⟩,rfl,rfl,rfl⟩

end QUniLator.Tape.Ts.Ts11
