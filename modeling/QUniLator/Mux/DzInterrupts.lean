import QUniLator.Mux.DzSeat

namespace QUniLator.Mux

namespace IntrRequest

/-- What updates can make of a request -/
structure Follows (old new : IntrRequest) : Prop where
  le : old.raised≤new.raised
  rose : new.signalLevel → old.signalLevel=false → old.raised<new.raised

theorem Follows.refl (r : IntrRequest) : Follows r r :=
  ⟨Nat.le_refl _,fun h h' => by simp [h'] at h⟩

theorem Follows.trans {r s t : IntrRequest} (h : Follows r s) (h' : Follows s t) : Follows r t := by
  refine ⟨Nat.le_trans h.le h'.le,fun ht hr => ?_⟩
  cases hs : s.signalLevel with
  | true => exact Nat.lt_of_lt_of_le (h.rose hs hr) h'.le
  | false => exact Nat.lt_of_le_of_lt h.le (h'.rose ht hs)

theorem follows_update (level : Bool) (r : IntrRequest) : Follows r (r.update level) := by
  unfold update
  by_cases h : r.signalLevel=level
  · rw [if_pos h]
    exact .refl r
  · rw [if_neg h]
    cases level with
    | true => exact ⟨Nat.le_succ _,fun _ _ => Nat.lt_succ_self _⟩
    | false => exact ⟨Nat.le_refl _,by rintro ⟨⟩⟩

@[simp] theorem update_signalLevel' (level : Bool) (r : IntrRequest) : (r.update level).signalLevel=level := by
  unfold update
  by_cases h : r.signalLevel=level
  · rw [if_pos h]
    exact h
  · rw [if_neg h]

theorem update_raised (level : Bool) (r : IntrRequest) :
    (r.update level).raised=r.raised+(!r.signalLevel && level).toNat := by
  unfold update
  cases hl : level <;> cases hs : r.signalLevel <;> simp

theorem update_self {level : Bool} {r : IntrRequest} (h : r.signalLevel=level) : r.update level=r := if_pos h

end IntrRequest

theorem Post.after_stands {p : Post} {old new : IntrRequest} (h : IntrRequest.Follows old new)
    (hp : p≠.none ↔ old.signalLevel) : p.after false old new≠.none ↔ new.signalLevel=true := by
  obtain ⟨hle,hrose⟩ := h
  unfold Post.after IntrRequest.falls
  cases hn : new.signalLevel <;> cases ho : old.signalLevel
  · simp only [ho] at hp ⊢
    by_cases hr : old.raised<new.raised
    · simp; omega
    · simp; intro _; simpa using hp
  · simp
  · simp [hrose hn ho]
  · simp only [ho] at hp
    by_cases hr : old.raised<new.raised
    · simp [hr]
    · simp [hr,show new.raised-old.raised=0 by omega]
      simpa using hp

theorem Post.after_same {p : Post} {old new : IntrRequest} {init : Bool}
    (hr : new.raised=old.raised) (hl : new.signalLevel=old.signalLevel) : p.after init old new=p := by
  simp [Post.after,IntrRequest.falls,hr,hl]

namespace Dzv11

variable {b : DzBoard}

/-- What `update_csr_and_INTR` has made of CSR and the levels stands for the flags. -/
structure Agrees (b : DzBoard) (s : Dzv11) : Prop where
  csr : s.csr=s.csrValue b
  rcv : s.rcvintr.signalLevel=s.rcvCond
  xmt : s.xmtintr.signalLevel=s.xmtCond

/-- TRDY stands for a line that is enabled, while the scanner is on and no character waits. -/
def Scanned (b : DzBoard) (s : Dzv11) : Prop :=
  s.csrTrdy → s.csrMse ∧ s.tdrPending=false ∧ s.txEnabled s.csrTline ∧ s.csrTline<b.lineCount

theorem agrees_update (s : Dzv11) : Agrees b (s.updateCsrAndIntr b) :=
  ⟨rfl,IntrRequest.update_signalLevel' _ _,IntrRequest.update_signalLevel' _ _⟩

variable {s : Dzv11}

theorem Agrees.update_eq (h : Agrees b s) : s.updateCsrAndIntr b=s := by
  have hr : s.rcvintr.update (s.csrRie && !s.silo.isEmpty)=s.rcvintr :=
    IntrRequest.update_self h.rcv
  have hx : s.xmtintr.update (s.csrTie && s.csrTrdy && !(s.csrRie && !s.silo.isEmpty))=s.xmtintr :=
    IntrRequest.update_self h.xmt
  simp only [updateCsrAndIntr]
  rw [hr,hx,← h.csr]

/-! The scanner, as a drop and a presentation -/

def dropped (b : DzBoard) (s : Dzv11) : Dzv11 :=
  if s.settle.csrTrdy=s.csrTrdy then s else s.settle.updateCsrAndIntr b

def shown (b : DzBoard) (s : Dzv11) : Dzv11 := if s.csrMse then s.presentTrdy b else s

theorem settle_same (h : s.settle.csrTrdy=s.csrTrdy) : s.settle=s := by
  have h' : (s.csrTrdy && s.csrMse && (s.tdrPending || s.txEnabled s.csrTline))=s.csrTrdy := h
  unfold settle
  rw [h']

theorem scan_eq (s : Dzv11) : s.scanTxTrdy b=(s.dropped b).shown b := by
  have hmse : (s.dropped b).csrMse=s.csrMse := by unfold dropped; split_ifs <;> rfl
  unfold scanTxTrdy shown
  rw [hmse]
  cases hm : s.csrMse with
  | false =>
    cases ht : s.csrTrdy <;> simp [dropped,settle,hm,ht]
  | true =>
    suffices s.dropTrdy b=s.dropped b by simp [this]
    unfold dropTrdy dropped settle
    cases ht : s.csrTrdy <;> cases hp : s.tdrPending <;> cases he : s.txEnabled s.csrTline <;>
      simp [hm]

/-- What an operation on the flags that ends with the scanner and an update makes of the requests. The
condition `hx` says that TRDY is not dropped and presented anew between two updates. -/
structure Tracked (b : DzBoard) (e t : Dzv11) : Prop where
  agrees : Agrees b t
  rcvCond : t.rcvCond=e.rcvCond
  rcv : t.rcvintr.raised=e.rcvintr.raised+(!e.rcvintr.signalLevel && e.rcvCond).toNat
  xmt : t.xmtintr.raised=e.xmtintr.raised+(!e.xmtintr.signalLevel && e.settle.xmtCond).toNat+
    (!e.settle.xmtCond && t.xmtCond).toNat
  followsRcv : IntrRequest.Follows e.rcvintr t.rcvintr
  followsXmt : IntrRequest.Follows e.xmtintr t.xmtintr

theorem dropped_cases (e : Dzv11) : e.dropped b=e ∧ e.settle=e ∨
    e.dropped b=e.settle.updateCsrAndIntr b ∧ e.settle.csrTrdy=false := by
  unfold dropped
  split_ifs with h
  · exact .inl ⟨rfl,settle_same h⟩
  · refine .inr ⟨rfl,?_⟩
    cases ht : e.csrTrdy with
    | false => simp [settle,ht]
    | true => simpa [ht] using h

/-- TRDY for line `i` -/
def atLine (i : Nat) (d : Dzv11) : Dzv11 := { d with csrTline := i,csrTrdy := true }

theorem shown_cases (d : Dzv11) : d.shown b=d ∨ d.csrTrdy=false ∧ ∃ i,d.selectNextTxLine b=some i ∧
      d.shown b=(d.atLine i).updateCsrAndIntr b := by
  unfold shown presentTrdy atLine
  split_ifs with hm hp
  · cases hs : d.selectNextTxLine b with
    | none => exact .inl rfl
    | some i => exact .inr ⟨by simpa using (by simpa using hp : d.csrTrdy=false ∧ _).1,i,rfl,rfl⟩
  · exact .inl rfl
  · exact .inl rfl

theorem update_rcvCond (s : Dzv11) : (s.updateCsrAndIntr b).rcvCond=s.rcvCond := rfl

theorem update_xmtCond (s : Dzv11) : (s.updateCsrAndIntr b).xmtCond=s.xmtCond := rfl

theorem xmtCond_of_not_trdy (h : s.csrTrdy=false) : s.xmtCond=false := by
  simp [xmtCond,h]

theorem raised_rcv (s : Dzv11) : (s.updateCsrAndIntr b).rcvintr.raised =
    s.rcvintr.raised+(!s.rcvintr.signalLevel && s.rcvCond).toNat :=
  IntrRequest.update_raised _ _

theorem raised_xmt (s : Dzv11) : (s.updateCsrAndIntr b).xmtintr.raised =
    s.xmtintr.raised+(!s.xmtintr.signalLevel && s.xmtCond).toNat :=
  IntrRequest.update_raised _ _

theorem tracked_update {e f : Dzv11} (hr : f.rcvintr=e.rcvintr) (hx : f.xmtintr=e.xmtintr) (hc : f.rcvCond=e.rcvCond)
    (h : (!e.xmtintr.signalLevel && f.xmtCond).toNat =
      (!e.xmtintr.signalLevel && e.settle.xmtCond).toNat+(!e.settle.xmtCond && f.xmtCond).toNat) :
    Tracked b e (f.updateCsrAndIntr b) where
  agrees := agrees_update f
  rcvCond := hc
  rcv := by rw [← hc,← hr]; exact IntrRequest.update_raised _ _
  xmt := by
    rw [Nat.add_assoc,update_xmtCond,← h,← hx]
    exact IntrRequest.update_raised _ _
  followsRcv := hr ▸ IntrRequest.follows_update _ _
  followsXmt := hx ▸ IntrRequest.follows_update _ _

theorem Tracked.update {e d f : Dzv11} (h : Tracked b e d) (hd : d.xmtCond=false)
    (hs : e.settle.xmtCond=false) (hr : f.rcvintr=d.rcvintr) (hx : f.xmtintr=d.xmtintr)
    (hc : f.rcvCond=d.rcvCond) : Tracked b e (f.updateCsrAndIntr b) where
  agrees := agrees_update f
  rcvCond := hc.trans h.rcvCond
  rcv := by
    rw [← h.rcv,← hr]
    exact (congrArg IntrRequest.raised
      (IntrRequest.update_self (by rw [hr,h.agrees.rcv]; exact hc.symm)))
  xmt := by
    have hu := IntrRequest.update_raised f.xmtCond f.xmtintr
    rw [hx,h.xmt,h.agrees.xmt,hd,hs] at hu
    have hf : (f.updateCsrAndIntr b).xmtintr=d.xmtintr.update f.xmtCond :=
      congrArg (IntrRequest.update f.xmtCond) hx
    rw [hs,update_xmtCond,hf,hu]
    simp
  followsRcv := h.followsRcv.trans (hr ▸ IntrRequest.follows_update _ _)
  followsXmt := h.followsXmt.trans (hx ▸ IntrRequest.follows_update _ _)

theorem tracked_scan (e : Dzv11) (hx : e.xmtintr.signalLevel → e.settle=e → e.csrTrdy=false →
      (e.scanTxTrdy b).xmtCond=false) : Tracked b e ((e.scanTxTrdy b).updateCsrAndIntr b) := by
  rw [scan_eq] at hx ⊢
  obtain ⟨hd,hs⟩ | ⟨hd,hs⟩ := e.dropped_cases (b := b)
  · rw [hd] at hx ⊢
    obtain hsh | ⟨ht,i,-,hsh⟩ := e.shown_cases (b := b)
    · rw [hsh]
      exact tracked_update rfl rfl rfl (by rw [hs]; cases e.xmtCond <;> simp)
    · rw [hsh] at hx ⊢
      rw [(agrees_update _).update_eq]
      refine tracked_update rfl rfl rfl ?_
      rw [hs,xmtCond_of_not_trdy ht]
      cases hl : e.xmtintr.signalLevel with
      | true =>
        have hc : (e.atLine i).xmtCond=false := hx hl hs ht
        simp [hc]
      | false => simp
  · rw [hd]
    have hf := xmtCond_of_not_trdy hs
    have h : Tracked b e (e.settle.updateCsrAndIntr b) :=
      tracked_update rfl rfl rfl (by rw [hf]; simp)
    obtain hsh | ⟨ht,i,-,hsh⟩ := (e.settle.updateCsrAndIntr b).shown_cases (b := b)
    · rw [hsh,(agrees_update _).update_eq]
      exact h
    · rw [hsh,(agrees_update _).update_eq]
      exact h.update hf hf rfl rfl rfl

/-! What the scanner leaves alone -/

/-- `t` is `s` but for TRDY, its line, CSR and the requests. -/
structure ReadyOnly (s t : Dzv11) : Prop where
  tie : t.csrTie=s.csrTie
  rie : t.csrRie=s.csrRie
  mse : t.csrMse=s.csrMse
  maint : t.csrMaint=s.csrMaint
  silo : t.silo=s.silo
  txEnabled : t.txEnabled=s.txEnabled
  tdrPending : t.tdrPending=s.tdrPending
  tdrChar : t.tdrChar=s.tdrChar
  tdrLine : t.tdrLine=s.tdrLine

theorem readyOnly_scan (s : Dzv11) : ReadyOnly s (s.scanTxTrdy b) := by
  rw [scan_eq]
  obtain ⟨hd,-⟩ | ⟨hd,-⟩ := s.dropped_cases (b := b)
  all_goals
    rw [hd]
    obtain hsh | ⟨-,i,-,hsh⟩ := shown_cases (b := b) _
    all_goals
      rw [hsh]
      exact ⟨rfl,rfl,rfl,rfl,rfl,rfl,rfl,rfl,rfl⟩

theorem agrees_scan (h : Agrees b s) : Agrees b (s.scanTxTrdy b) := by
  rw [scan_eq]
  obtain ⟨hd,-⟩ | ⟨hd,-⟩ := s.dropped_cases (b := b)
  all_goals
    rw [hd]
    obtain hsh | ⟨-,i,-,hsh⟩ := shown_cases (b := b) _
    all_goals
      rw [hsh]
      first | exact h | exact agrees_update _

theorem scan_waiting (hp : s.tdrPending) (ht : s.csrTrdy=false) : (s.scanTxTrdy b).csrTrdy=false := by
  unfold scanTxTrdy dropTrdy presentTrdy
  cases s.csrMse <;> simp [ht,hp]

/-- The requests follow the conditions through an operation. -/
structure Told (b : DzBoard) (s : Dzv11) (o : DzOp) : Prop where
  agrees : Agrees b (s.op b o)
  rcv : (s.op b o).rcvintr.raised=s.rcvintr.raised+s.rises rcvCond b o
  xmt : (s.op b o).xmtintr.raised=s.xmtintr.raised+s.rises xmtCond b o
  followsRcv : IntrRequest.Follows s.rcvintr (s.op b o).rcvintr
  followsXmt : IntrRequest.Follows s.xmtintr (s.op b o).xmtintr

theorem Tracked.told {s e : Dzv11} {o : DzOp} (ha : Agrees b s) (h : Tracked b e (s.op b o))
    (hr : e.rcvintr=s.rcvintr) (hx : e.xmtintr=s.xmtintr) (hs : s.settled b o=e.settle) : Told b s o where
  agrees := h.agrees
  rcv := by
    have hc : e.settle.rcvCond=e.rcvCond := rfl
    rw [rises,hs,hc,h.rcv,h.rcvCond,hr,ha.rcv]
    cases e.rcvCond <;> simp
  xmt := by rw [rises,hs,h.xmt,hx,ha.xmt,Nat.add_assoc]
  followsRcv := hr ▸ h.followsRcv
  followsXmt := hx ▸ h.followsXmt

theorem told_update {s f : Dzv11} {o : DzOp} (ha : Agrees b s)
    (ho : s.op b o=f.updateCsrAndIntr b) (hs : s.settled b o=s.op b o)
    (hr : f.rcvintr=s.rcvintr) (hx : f.xmtintr=s.xmtintr) : Told b s o where
  agrees := ho ▸ agrees_update f
  rcv := by
    rw [rises,hs,ho,raised_rcv,update_rcvCond,hr,ha.rcv]
    cases f.rcvCond <;> simp
  xmt := by
    rw [rises,hs,ho,raised_xmt,update_xmtCond,hx,ha.xmt]
    cases f.xmtCond <;> simp
  followsRcv := by rw [ho,← hr]; exact IntrRequest.follows_update _ _
  followsXmt := by rw [ho,← hx]; exact IntrRequest.follows_update _ _

theorem trdy_of_xmtCond (h : s.xmtCond) : s.csrTrdy=true := by
  cases ht : s.csrTrdy with
  | true => rfl
  | false => simp [xmtCond,ht] at h

theorem evalCsr_frame (v : Word) (s : Dzv11) :
    (s.evalCsrDato v).rcvintr=s.rcvintr ∧ (s.evalCsrDato v).xmtintr=s.xmtintr ∧
    (v &&& 0o20=0 → (s.evalCsrDato v).csrTrdy=s.csrTrdy) ∧ (v &&& 0o20≠0 → (s.evalCsrDato v).csrTie=false) := by
  unfold evalCsrDato
  by_cases hc : v &&& 0o20=0
  · rw [if_neg (by simpa using hc)]
    refine ⟨?_,?_,fun _ => ?_,fun h => absurd hc h⟩ <;> dsimp only <;> split <;> rfl
  · rw [if_pos hc]
    exact ⟨rfl,rfl,fun h => absurd h hc,fun _ => rfl⟩

theorem told_csr (ha : Agrees b s) (v : Word) : Told b s (.write .csr v) := by
  obtain ⟨hr,hx,ht,htie⟩ := s.evalCsr_frame v
  refine (tracked_scan (s.evalCsrDato v) ?_).told ha hr hx rfl
  intro hl _ hf
  rw [hx,ha.xmt] at hl
  by_cases hc : v &&& 0o20=0
  · simp [ht hc,trdy_of_xmtCond hl] at hf
  · simp [xmtCond,(readyOnly_scan _).tie,htie hc]

theorem evalLpr_frame (v : Word) (s : Dzv11) : s.evalLprDato b v={ s with
      rxEnabled := (s.evalLprDato b v).rxEnabled
      parityEnable := (s.evalLprDato b v).parityEnable
      oddParity := (s.evalLprDato b v).oddParity } := by
  unfold evalLprDato
  dsimp only
  split <;> rfl

theorem Scanned.settle_eq (h : Scanned b s) : s.settle=s := by
  refine settle_same ?_
  unfold settle
  cases ht : s.csrTrdy with
  | false => simp
  | true =>
    obtain ⟨hm,-,he,-⟩ := h ht
    simp [hm,he]

theorem told_same {o : DzOp} (ha : Agrees b (s.op b o)) (hs : Agrees b s)
    (he : (s.op b o).settle=s.op b o) (ho : s.settled b o=(s.op b o).settle)
    (hr : (s.op b o).rcvintr=s.rcvintr) (hx : (s.op b o).xmtintr=s.xmtintr) : Told b s o := by
  have h : Tracked b (s.op b o) ((s.op b o).updateCsrAndIntr b) :=
    tracked_update rfl rfl rfl (by rw [he]; cases (s.op b o).xmtCond <;> simp)
  rw [ha.update_eq] at h
  exact h.told hs hr hx ho

theorem told_lpr (ha : Agrees b s) (hs : Scanned b s) (v : Word) : Told b s (.write .rbufLpr v) := by
  have hf := s.evalLpr_frame (b := b) v
  refine told_same (b := b) ?_ ha ?_ rfl ?_ ?_
  · show Agrees b (s.evalLprDato b v)
    rw [hf]
    exact ⟨ha.csr,ha.rcv,ha.xmt⟩
  · refine Scanned.settle_eq (b := b) ?_
    show Scanned b (s.evalLprDato b v)
    rw [hf]
    exact hs
  · show (s.evalLprDato b v).rcvintr=s.rcvintr
    rw [hf]
  · show (s.evalLprDato b v).xmtintr=s.xmtintr
    rw [hf]

theorem told_tcr (ha : Agrees b s) (v : Word) : Told b s (.write .tcr v) := by
  have he : Agrees b (s.evalTcrDato v) := ⟨ha.csr,ha.rcv,ha.xmt⟩
  have h := tracked_scan (b := b) (s.evalTcrDato v) (by
    intro hl _ hf
    have ht := trdy_of_xmtCond (ha.xmt ▸ hl : s.xmtCond=true)
    rw [show s.csrTrdy=false from hf] at ht
    cases ht)
  rw [(agrees_scan he).update_eq] at h
  exact h.told (s := s) (o := .write .tcr v) ha rfl rfl rfl

/-- A maintenance wrap that takes the character for which TRDY stands, and presents TRDY again, without
that the receiver's condition comes between. -/
def wrapsReady (b : DzBoard) (v : Word) (s : Dzv11) : Bool :=
  s.csrMaint && s.rising b v=0 && s.xmtCond && !(s.csrRie && s.rxEnabled (s.csrTline%b.lineCount))

theorem siloPush_frame (line : Nat) (ch : Byte) (err : Word) (s : Dzv11) :
    (s.siloPush b line ch err).rcvintr=s.rcvintr ∧ (s.siloPush b line ch err).xmtintr=s.xmtintr ∧
    (s.siloPush b line ch err).csrTrdy=s.csrTrdy ∧ (s.siloPush b line ch err).csrRie=s.csrRie ∧
    (s.siloPush b line ch err).csrTie=s.csrTie ∧ (s.siloPush b line ch err).csrMse=s.csrMse ∧
    (s.siloPush b line ch err).csrTline=s.csrTline ∧ (s.siloPush b line ch err).txEnabled=s.txEnabled ∧
    (s.siloPush b line ch err).tdrPending=s.tdrPending ∧ (s.siloPush b line ch err).silo≠[] := by
  unfold siloPush countAlarm setRbufDati
  dsimp only
  split_ifs <;> simp

theorem breaks_frame (lines : List Nat) (err : Nat → Word) (s : Dzv11) :
    (lines.foldl (fun t i => t.siloPush b i 0 (err i)) s).rcvintr=s.rcvintr ∧
    (lines.foldl (fun t i => t.siloPush b i 0 (err i)) s).xmtintr=s.xmtintr ∧
    (lines.foldl (fun t i => t.siloPush b i 0 (err i)) s).csrTrdy=s.csrTrdy ∧
    (lines.foldl (fun t i => t.siloPush b i 0 (err i)) s).csrMse=s.csrMse ∧
    (lines.foldl (fun t i => t.siloPush b i 0 (err i)) s).csrTline=s.csrTline ∧
    (lines.foldl (fun t i => t.siloPush b i 0 (err i)) s).txEnabled=s.txEnabled ∧
    (lines.foldl (fun t i => t.siloPush b i 0 (err i)) s).tdrPending=s.tdrPending := by
  induction lines generalizing s with
  | nil => exact ⟨rfl,rfl,rfl,rfl,rfl,rfl,rfl⟩
  | cons i is ih =>
    obtain ⟨hr,hx,ht,hm,hl,he,hp⟩ := ih (s.siloPush b i 0 (err i))
    obtain ⟨hr',hx',ht',-,-,hm',hl',he',hp',-⟩ := s.siloPush_frame (b := b) i 0 (err i)
    exact ⟨hr.trans hr',hx.trans hx',ht.trans ht',hm.trans hm',hl.trans hl',he.trans he',hp.trans hp'⟩

def broken (b : DzBoard) (v : Word) (s : Dzv11) : Dzv11 := { s with txBreak := newBreak b v }

/-- The three things that a TDR write does: breaks of the receivers, a wrap, a character for the worker -/
theorem evalTdr_break {v : Word} (hm : s.csrMaint) (hr : s.rising b v≠0) :
    s.evalTdrDato b v=(breaking b (s.rising b v) (s.broken b v)).foldl
      (fun t i => t.siloPush b i 0 (breakError (s.broken b v) i)) (s.broken b v) := by
  unfold evalTdrDato
  dsimp only
  rw [if_pos hm,if_pos hr]
  rfl

theorem evalTdr_wrap {v : Word} (hm : s.csrMaint) (hr : s.rising b v=0) :
    (s.evalTdrDato b v).rcvintr=s.rcvintr ∧ (s.evalTdrDato b v).xmtintr=s.xmtintr ∧
    (s.evalTdrDato b v).csrTrdy=false ∧ (s.evalTdrDato b v).csrRie=s.csrRie ∧
    (s.evalTdrDato b v).csrMse=s.csrMse ∧ (s.evalTdrDato b v).csrTline=s.csrTline ∧
    (s.evalTdrDato b v).txEnabled=s.txEnabled ∧ (s.evalTdrDato b v).tdrPending=s.tdrPending ∧
    (s.rxEnabled (s.csrTline%b.lineCount) → (s.evalTdrDato b v).silo≠[]) := by
  unfold evalTdrDato
  dsimp only
  rw [if_pos hm,if_neg (by simpa using hr)]
  by_cases hrx : s.rxEnabled (s.csrTline%b.lineCount)=true
  · rw [if_pos hrx]
    obtain ⟨hi,hx,-,hrie,-,hmse,hl,he,hp,hs⟩ :=
      siloPush_frame (b := b) (s.csrTline%b.lineCount) (v.setWidth 8) 0 (s.broken b v)
    exact ⟨hi,hx,rfl,hrie,hmse,hl,he,hp,fun _ => hs⟩
  · rw [if_neg hrx]
    exact ⟨rfl,rfl,rfl,rfl,rfl,rfl,rfl,rfl,fun h => absurd h hrx⟩

theorem evalTdr_load {v : Word} (hm : s.csrMaint=false) : s.evalTdrDato b v={ s with
      txBreak := newBreak b v,tdrChar := v.setWidth 8,tdrLine := s.csrTline%b.lineCount
      tdrPending := true,csrTrdy := false } := by
  unfold evalTdrDato
  dsimp only
  rw [if_neg (by simp [hm])]

theorem xmtCond_of_rcvCond (h : s.rcvCond) : s.xmtCond=false := by
  simp [xmtCond,h]

theorem told_tdr (ha : Agrees b s) {v : Word} (hw : s.wrapsReady b v=false) : Told b s (.write .msrTdr v) := by
  cases hm : s.csrMaint with
  | false =>
    have he := s.evalTdr_load (b := b) (v := v) hm
    refine (tracked_scan (s.evalTdrDato b v) ?_).told ha (by rw [he]) (by rw [he]) rfl
    intro _ _ hf
    exact xmtCond_of_not_trdy (scan_waiting (by rw [he]) hf)
  | true =>
    by_cases hr : s.rising b v=0
    · obtain ⟨hi,hx,-,hrie,-,-,-,-,hsilo⟩ := s.evalTdr_wrap (b := b) hm hr
      refine (tracked_scan (s.evalTdrDato b v) ?_).told ha hi hx rfl
      intro hl _ _
      rw [hx,ha.xmt] at hl
      -- the character has come to the receiver, whose interrupt goes first
      have hb : s.csrRie=true ∧ s.rxEnabled (s.csrTline%b.lineCount)=true := by
        simpa [wrapsReady,hm,hr,hl] using hw
      refine xmtCond_of_rcvCond ?_
      rw [rcvCond,(readyOnly_scan _).rie,(readyOnly_scan _).silo,hrie,hb.1]
      simpa using hsilo hb.2
    · have he := s.evalTdr_break (b := b) hm hr
      have hf := breaks_frame (b := b) (breaking b (s.rising b v) (s.broken b v))
        (breakError (s.broken b v)) (s.broken b v)
      rw [← he] at hf
      refine (tracked_scan (s.evalTdrDato b v) ?_).told ha hf.1 hf.2.1 rfl
      intro hl _ ht
      rw [hf.2.1] at hl
      have hts := trdy_of_xmtCond (ha.xmt ▸ hl : s.xmtCond=true)
      rw [hf.2.2.1] at ht
      rw [show s.csrTrdy=false from ht] at hts
      cases hts

theorem told_read (ha : Agrees b s) : Told b s (.read .rbufLpr) :=
  told_update ha rfl rfl rfl rfl

theorem told_receive (ha : Agrees b s) (line : Nat) (ch : Byte) : Told b s (.receive line ch) :=
  told_update ha rfl rfl (s.siloPush_frame line ch 0).1 (s.siloPush_frame line ch 0).2.1

theorem told_transmit (ha : Agrees b s) (hs : Scanned b s) : Told b s .transmit := by
  have hsc := agrees_scan ha
  have h := tracked_scan (b := b) s (by
    intro hl _ hf
    have ht := trdy_of_xmtCond (ha.xmt ▸ hl : s.xmtCond=true)
    rw [hf] at ht
    cases ht)
  rw [hsc.update_eq] at h
  suffices ht : (s.op b .transmit).csr=(s.scanTxTrdy b).csr ∧
      (s.op b .transmit).rcvintr=(s.scanTxTrdy b).rcvintr ∧
      (s.op b .transmit).xmtintr=(s.scanTxTrdy b).xmtintr ∧
      (s.op b .transmit).rcvCond=(s.scanTxTrdy b).rcvCond ∧
      (s.op b .transmit).xmtCond=(s.scanTxTrdy b).xmtCond ∧ Agrees b (s.op b .transmit) by
    obtain ⟨-,hr,hx,hrc,hxc,hag⟩ := ht
    refine Tracked.told (e := s) ha ⟨hag,hrc.trans h.rcvCond,?_,?_,?_,?_⟩ rfl rfl rfl
    · rw [hr]
      exact h.rcv
    · rw [hx,hxc]
      exact h.xmt
    · rw [hr]
      exact h.followsRcv
    · rw [hx]
      exact h.followsXmt
  show (s.transmit b).csr=_ ∧ (s.transmit b).rcvintr=_ ∧ (s.transmit b).xmtintr=_ ∧
    (s.transmit b).rcvCond=_ ∧ (s.transmit b).xmtCond=_ ∧ Agrees b (s.transmit b)
  unfold transmit
  dsimp only
  cases hp : (s.scanTxTrdy b).tdrPending with
  | false => exact ⟨rfl,rfl,rfl,rfl,rfl,hsc⟩
  | true =>
    -- TRDY is down while the character waits, so that its drop here changes nothing
    rw [(readyOnly_scan s).tdrPending] at hp
    have ht : s.csrTrdy=false := by
      by_contra hn
      simpa [hp] using (hs (by simpa using hn)).2.1
    have hd : ∀ t : Dzv11,t.csrTrdy=false →
        ({ t with tdrPending := false,csrTrdy := false } : Dzv11) =
          { t with tdrPending := false } := by
      rintro t h
      cases t
      cases h
      rfl
    have hag : Agrees b ({ s.scanTxTrdy b with tdrPending := false } : Dzv11) :=
      ⟨hsc.csr,hsc.rcv,hsc.xmt⟩
    rw [if_pos rfl,hd _ (scan_waiting hp ht),hag.update_eq]
    exact ⟨rfl,rfl,rfl,rfl,rfl,hag⟩

end Dzv11

end QUniLator.Mux
