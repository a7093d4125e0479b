import QUniLator.Framework.WordBytes
import QUniLator.Mux.DhvReceiver
import QUniLator.Mux.Transmit

namespace QUniLator.Mux

open List Option Function

open WordBytes

def dmaReadWords (m : Nat → Byte) (addr words : Nat) : List Word :=
  (List.range words).map fun i => wordAt m (addr+2*i)

namespace XmtDma

variable (x : XmtDma)

/-- `dma_buf` as bytes after the DMA -/
def buffer (m : Nat → Byte) : List Byte :=
  (dmaReadWords m (x.addr-x.addr%2) (min ((x.count+1)/2) 4096)).flatMap fun w => [low w,high w]

def loopback : Bool := x.maint=2 || x.maint=3

def wire (ok : Bool) (m : Nat → Byte) : List Byte :=
  if ok && !x.loopback && x.isOpen then (x.buffer m).take x.size else []

def returned (ok : Bool) (m : Nat → Byte) : List Byte :=
  if x.wraps ok then (x.buffer m).take x.size else []

def reaches : Bool := if x.loopback then x.wraps true else x.isOpen

def asked (ok : Bool) (m : Nat → Byte) : List Byte :=
  if ok && x.reaches then slice m x.addr x.count else []

def plain : Prop := x.addr%2=0 ∧ x.count ≤ 8192

instance : Decidable x.plain := inferInstanceAs (Decidable (_ ∧ _))

variable {x}

theorem handed_eq (ok : Bool) (m : Nat → Byte) : x.wire ok m++x.returned ok m=
    if ok && x.reaches then slice m (x.addr-x.addr%2) x.size else [] := by
  have hbytes : (x.buffer m).take x.size=slice m (x.addr-x.addr%2) x.size := by
    rw [buffer,dmaReadWords,bytes_wordsAt,slice,← map_take,take_range]
    have hle : x.size ≤ 2*min ((x.count+1)/2) 4096 := by
      unfold size
      omega
    rw [Nat.min_eq_left hle]
    rfl
  unfold wire returned
  rw [hbytes]
  cases ok <;> cases hl : x.loopback <;> simp [reaches,hl,wraps] <;> simp_all [loopback,wraps]

/-- A transfer hands on what the host asked for, whatever the memory, just when its address is even and its count
fits one burst. -/
theorem exact_iff (hpos : 0<x.count) (hr : x.reaches) :
    (∀ m,x.wire true m++x.returned true m=x.asked true m) ↔ x.plain := by
  simp only [handed_eq,asked,hr,Bool.and_self,if_true]
  constructor
  · intro h
    have hsize : x.size=x.count := by simpa using congrArg List.length (h fun _ => 0)
    have heven : x.addr-x.addr%2=x.addr := by
      by_contra hne
      have h1 := congrArg (·[0]?) (h fun i => if i=x.addr then 1 else 0)
      simp only [slice_getElem? _ _ _ 0 hpos,slice_getElem? _ _ _ 0 (hsize ▸ hpos)] at h1
      simp [hne] at h1
    unfold size at hsize
    constructor <;> omega
  · intro h m
    have hsize : x.size=x.count := by
      have := h.2
      unfold size
      omega
    rw [hsize,h.1,Nat.sub_zero]

theorem plain.exact (h : x.plain) (hpos : 0<x.count) (ok : Bool) (m : Nat → Byte) :
    x.wire ok m++x.returned ok m=x.asked ok m := by
  by_cases hr : ok=true ∧ x.reaches=true
  · rw [hr.1]
    exact (exact_iff hpos hr.2).mpr h m
  · rw [handed_eq,asked,if_neg (by simpa using hr),if_neg (by simpa using hr)]

end XmtDma

/-- What happens to the card. A transfer that `worker_xmt` runs finds its memory at its end. -/
inductive DmaEvent
  | write (r : DhvReg) (v : Word)
  | read (r : DhvReg)
  | reset (isOpen : Nat → Bool)
  | tick
  | receive (line : Nat) (ch : Byte)
  | take
  | finish (ok : Bool) (m : Nat → Byte)

def DmaEvent.takes : DmaEvent → Bool
  | .take => true
  | _ => false

namespace Dhv11

def dmaStep (s : Dhv11) : DmaEvent → Option Dhv11
  | .write r v => s.onWrite r v
  | .read r => some (s.onRead r)
  | .reset isOpen => some (s.reset isOpen)
  | .tick => some s.tick
  | .receive line ch => some (s.receive line ch)
  | .take => if s.xmt.isNone then s.xmtStart else none
  | .finish ok m => s.xmt.bind fun x => s.xmtEnd ok (x.buffer m)

def asks (s : Dhv11) : DmaEvent → Bool
  | .write r v => r=.tbuffad2 && v &&& 0o200≠0 && v &&& 0o100000≠0 && (s.chan s.csrChannel).tbuffct≠0
  | _ => false

/-- Address and count of the transfer that a write starts -/
def request (s : Dhv11) : DmaEvent → Nat × Nat
  | .write _ v =>
    ((v &&& 0o77).toNat*2^16+(s.chan s.csrChannel).tbuffad1.toNat,(s.chan s.csrChannel).tbuffct.toNat)
  | _ => (0,0)

/-- The channels go back to their defaults: a reset, a master reset, or the end of its self-test. -/
def discards (s : Dhv11) : DmaEvent → Bool
  | .write r v => s.resets r v
  | .read r => isCsr r && s.polledDone
  | .tick => s.csrMasterReset && s.selftestPending && s.pollActiveTicks=0 && s.selftestTicks ≤ 1
  | .reset _ => true
  | _ => false

/-- The transfers of a line that the card holds: the one that runs, and the one that waits -/
def running (s : Dhv11) (line : Nat) : List (Nat × Nat) :=
  (s.xmt.toList.filter fun x => x.line=line).map fun x => (x.addr,x.count)

def waiting (s : Dhv11) (line : Nat) : List (Nat × Nat) :=
  if (s.chan line).dmaPending && 0<(s.chan line).dmaCount then [((s.chan line).dmaAddr,(s.chan line).dmaCount)]
  else []

def held (s : Dhv11) (line : Nat) : List (Nat × Nat) := s.running line++s.waiting line

end Dhv11

/-- The card with what the host is owed: the transfers of each line neither reported nor discarded by a reset; and
what its lines were handed, beside what they should have been. -/
structure Transmitter where
  card : Dhv11
  owed : Nat → List (Nat × Nat)
  handed : Nat → List Byte
  due : Nat → List Byte

namespace Transmitter

def start : Transmitter := ⟨Dhv11.initial,fun _ => [],fun _ => [],fun _ => []⟩

variable (t : Transmitter)

def owedAfter (e : DmaEvent) : Nat → List (Nat × Nat) :=
  if t.card.discards e then fun _ => []
  else if t.card.asks e then
    update t.owed t.card.csrChannel (t.owed t.card.csrChannel++[t.card.request e])
  else
    match e,t.card.xmt with
    | .finish _ _,some x => update t.owed x.line (t.owed x.line).tail
    | _,_ => t.owed

/-- A transfer at its end: what the line is handed, and what the first transfer that is owed on it asks for -/
def handedAfter : DmaEvent → Nat → List Byte
  | .finish ok m => t.card.xmt.elim t.handed fun x =>
    update t.handed x.line (t.handed x.line++(x.wire ok m++x.returned ok m))
  | _ => t.handed

def dueAfter : DmaEvent → Nat → List Byte
  | .finish ok m => t.card.xmt.elim t.due fun x =>
    update t.due x.line (t.due x.line++((t.owed x.line).head?.elim [] fun r =>
      ({ x with addr := r.1,count := r.2 } : XmtDma).asked ok m))
  | _ => t.due

def step (e : DmaEvent) : Option Transmitter :=
  (t.card.dmaStep e).map fun card => ⟨card,t.owedAfter e,t.handedAfter e,t.dueAfter e⟩

/-- A transfer is started with an even address and within a burst, on a line that has none; and none runs while a
reset of the card comes or a master reset lasts. -/
def Careful (e : DmaEvent) : Prop :=
  (t.card.asks e=true → t.card.held t.card.csrChannel=[] ∧
    (t.card.request e).1%2=0 ∧ (t.card.request e).2 ≤ 8192) ∧
  (t.card.discards e=true → t.card.xmt=none) ∧
  (e.takes=true → t.card.csrMasterReset=false)

instance : DecidablePred t.Careful := fun e => inferInstanceAs (Decidable (_ ∧ _))

/-- No started transfer is lost, and none that a reset discarded is reported at its end; and the lines got what was
asked for. -/
structure Right : Prop where
  owed : ∀ line,t.owed line=t.card.held line
  due : t.handed=t.due

end Transmitter

namespace Dhv11

variable {s t u : Dhv11}

/-- What decides whether a channel has a transfer waiting, and which -/
def slot (s : Dhv11) (line : Nat) : Bool × Nat × Nat :=
  ((s.chan line).dmaPending,(s.chan line).dmaCount,(s.chan line).dmaAddr)

/-- The transmitter holds what it held, and a master reset lasts as it did. -/
structure Keeps (s t : Dhv11) : Prop where
  xmt : t.xmt=s.xmt
  slot : ∀ line,t.slot line=s.slot line
  reset : t.csrMasterReset=s.csrMasterReset

theorem Keeps.trans (h : Keeps s t) (h' : Keeps t u) : Keeps s u :=
  ⟨h'.xmt.trans h.xmt,fun line => (h'.slot line).trans (h.slot line),h'.reset.trans h.reset⟩

theorem keeps_rfl (hx : t.xmt=s.xmt) (hc : t.chan=s.chan) (hm : t.csrMasterReset=s.csrMasterReset) : Keeps s t :=
  ⟨hx,fun line => by rw [slot,slot,hc],hm⟩

theorem waiting_slot (s : Dhv11) (line : Nat) : s.waiting line=
    if (s.slot line).1 && 0<(s.slot line).2.1 then [((s.slot line).2.2,(s.slot line).2.1)] else [] := rfl

theorem waiting_congr {line : Nat} (h : t.slot line=s.slot line) : t.waiting line=s.waiting line := by
  rw [waiting_slot,waiting_slot,h]

theorem Keeps.held (h : Keeps s t) (line : Nat) : t.held line=s.held line := by
  unfold Dhv11.held running
  rw [h.xmt,waiting_congr (h.slot line)]

theorem keeps_channel {c : Nat} {f : Channel → Channel} (hp : (f (s.chan c)).dmaPending=(s.chan c).dmaPending)
    (hc : (f (s.chan c)).dmaCount=(s.chan c).dmaCount) (ha : (f (s.chan c)).dmaAddr=(s.chan c).dmaAddr) :
    Keeps s (s.setChannel c f) := by
  refine ⟨rfl,fun line => ?_,rfl⟩
  unfold slot setChannel
  by_cases hl : line=c
  · rw [hl]
    simp only [update_self]
    rw [hp,hc,ha]
  · simp only [update_of_ne hl]

theorem keeps_note (r : DhvReg) (w : Option Word) (s : Dhv11) : Keeps s (s.noteAccess r w) :=
  keeps_rfl (alike_note r w s).xmt (noteAccess_chan r w s) (noteAccess_masterReset r w s)

theorem keeps_push (w : Word) (s : Dhv11) : Keeps s (s.rxFifoPush w) := by
  unfold rxFifoPush
  split_ifs <;> exact keeps_rfl rfl rfl rfl

theorem keeps_pushes (f : Byte → Word) (bytes : List Byte) (s : Dhv11) :
    Keeps s (bytes.foldl (fun s b => s.rxFifoPush (f b)) s) := by
  induction bytes generalizing s with
  | nil => exact keeps_rfl rfl rfl rfl
  | cons b bytes ih => exact (keeps_push (f b) s).trans (ih _)

theorem keeps_writeTxchar (c : Nat) (v : Word) (s : Dhv11) : Keeps s (s.writeTxchar c v) := by
  unfold writeTxchar
  dsimp only
  split_ifs
  · exact keeps_rfl rfl rfl rfl
  · exact (keeps_push _ s).trans (keeps_rfl rfl rfl rfl)
  · exact keeps_rfl rfl rfl rfl

theorem keeps_writeLpr (c : Nat) (v : Word) (s : Dhv11) : Keeps s (s.writeLpr c v) := by
  unfold writeLpr
  split_ifs
  · have hp : Keeps s (s.rxFifoPush (rbufWord rbufDiag c 0o305)).updateCsrAndIntr :=
      (keeps_push _ s).trans (keeps_rfl rfl rfl rfl)
    exact hp.trans (keeps_channel rfl rfl rfl)
  · exact keeps_channel rfl rfl rfl

theorem keeps_onRead {r : DhvReg} (hd : (isCsr r && s.polledDone)=false) : Keeps s (s.onRead r) := by
  have hn := keeps_note r none s
  cases r with
  | csr =>
    refine hn.trans ?_
    have hp : (s.noteAccess .csr none).polledDone=false := (noteAccess_read .csr s).1.trans hd
    have hclear : ∀ u : Dhv11,Keeps u u.clearTxAct := by
      intro u
      unfold clearTxAct
      split_ifs <;> exact keeps_rfl rfl rfl rfl
    refine Keeps.trans ?_ (hclear _)
    unfold pollSelftest
    dsimp only
    split_ifs with hm hq
    · simp [polledDone,hm,hq] at hp
    · exact keeps_rfl rfl rfl rfl
    · exact keeps_rfl rfl rfl rfl
  | rbuf => exact hn.trans (keeps_rfl rfl rfl rfl)
  | lpr | lnctrl | tbuffad1 | tbuffad2 | tbuffct => exact hn

theorem keeps_tick (hd : s.discards .tick=false) : Keeps s s.tick := by
  unfold tick
  dsimp only
  split_ifs with hp hk hs
  · exact keeps_rfl rfl rfl rfl
  · have hm : s.csrMasterReset=false := by
      by_contra hm
      rw [Bool.not_eq_false] at hm
      have h1 : s.selftestTicks ≤ 1 := by omega
      have h0 : s.pollActiveTicks=0 := by omega
      simp_all [discards]
    unfold completeSelftest
    rw [if_neg (by simp [hm])]
    exact keeps_rfl rfl rfl rfl
  · exact keeps_rfl rfl rfl rfl
  · exact keeps_rfl rfl rfl rfl

theorem keeps_onWrite {r : DhvReg} {v : Word} (h : s.onWrite r v=some t) (hd : s.resets r v=false)
    (ha : s.asks (.write r v)=false) : Keeps s t := by
  have hn := keeps_note r (some v) s
  have hm := noteAccess_masterReset r (some v) s
  have hc := noteAccess_chan r (some v) s
  unfold onWrite at h
  dsimp only at h
  generalize s.noteAccess r (some v)=u at *
  split_ifs at h with hr h8
  · cases h
    subst hr
    refine hn.trans ?_
    unfold writeCsr
    dsimp only
    rw [if_neg (by simpa [resets,isCsr,hm] using hd)]
    exact keeps_rfl rfl rfl rfl
  · refine hn.trans ?_
    cases r with
    | csr => exact absurd rfl hr
    | rbuf =>
      cases h
      exact keeps_writeTxchar _ v u
    | lpr =>
      cases h
      exact keeps_writeLpr _ v u
    | lnctrl | tbuffad1 | tbuffct =>
      cases h
      exact keeps_channel rfl rfl rfl
    | tbuffad2 =>
      cases h
      have hno : ¬(v &&& 0o200≠0 ∧ v &&& 0o100000≠0 ∧ (u.chan s.csrChannel).tbuffct≠0) := by
        rw [hc]
        simpa [asks,and_assoc] using ha
      unfold writeTbuffad2
      refine keeps_channel ?_ ?_ ?_ <;> (dsimp only; rw [if_neg hno])

/-- The transfer that a write starts is the one that waits on its line, in the place of another. -/
theorem onWrite_asks {r : DhvReg} {v : Word} (h : s.onWrite r v=some t) (ha : s.asks (.write r v)) :
    t.xmt=s.xmt ∧ t.csrMasterReset=s.csrMasterReset ∧
    t.waiting s.csrChannel=[s.request (.write r v)] ∧ ∀ line,line≠s.csrChannel → t.slot line=s.slot line := by
  simp only [asks,Bool.and_eq_true,decide_eq_true_eq] at ha
  obtain ⟨⟨⟨rfl,h7⟩,hena⟩,hct⟩ := ha
  have hx := (alike_note .tbuffad2 (some v) s).xmt
  have hm := noteAccess_masterReset .tbuffad2 (some v) s
  have hc := noteAccess_chan .tbuffad2 (some v) s
  unfold onWrite at h
  dsimp only at h
  generalize s.noteAccess .tbuffad2 (some v)=u at *
  rw [if_neg nofun] at h
  split_ifs at h with h8
  cases h
  refine ⟨hx,hm,?_,fun line hl => ?_⟩
  · have hpos : 0<(s.chan s.csrChannel).tbuffct.toNat := by
      rw [Nat.pos_iff_ne_zero]
      exact fun h0 => hct (BitVec.eq_of_toNat_eq h0)
    have hstart : v &&& 0o200≠0 ∧ v &&& 0o100000≠0 ∧ (s.chan s.csrChannel).tbuffct≠0 := ⟨h7,hena,hct⟩
    have hslot : (u.writeTbuffad2 s.csrChannel v).slot s.csrChannel=
        (true,(s.request (.write .tbuffad2 v)).2,(s.request (.write .tbuffad2 v)).1) := by
      unfold slot writeTbuffad2 setChannel
      simp only [update_self,hc]
      rw [if_pos hstart]
      rfl
    rw [waiting_slot,hslot]
    exact if_pos (by simpa [request] using hpos)
  · unfold slot writeTbuffad2 setChannel
    simp only [update_of_ne hl,hc]

theorem dmaStep_discards {e : DmaEvent} (h : s.dmaStep e=some t) (hd : s.discards e) :
    t.xmt=s.xmt ∧ ∀ line,(t.slot line).1=false := by
  cases e with
  | write r v =>
    have hx := (onWrite_resets h hd).2.2.2.1
    refine ⟨hx,fun line => ?_⟩
    simp only [discards,resets,Bool.and_eq_true] at hd
    have hm := noteAccess_masterReset r (some v) s
    cases isCsr_eq hd.1.1
    cases h
    unfold slot writeCsr
    dsimp only
    have hfire : v &&& 0o40≠0 ∧ !(s.noteAccess .csr (some v)).csrMasterReset :=
      ⟨by simpa using hd.1.2,by rw [hm]; exact hd.2⟩
    rw [if_pos hfire]
    rfl
  | read r =>
    cases h
    simp only [discards,Bool.and_eq_true] at hd
    cases isCsr_eq hd.1
    have hp := (noteAccess_read .csr s).1.trans hd.2
    have hx := (alike_note .csr none s).xmt
    unfold onRead
    dsimp only
    generalize s.noteAccess .csr none=u at *
    simp only [polledDone,Bool.and_eq_true,decide_eq_true_eq] at hp
    have hdone : (u.readCsr).xmt=u.xmt ∧ ∀ line,(u.readCsr.slot line).1=false := by
      unfold readCsr pollSelftest completeSelftest clearTxAct
      dsimp only
      rw [if_pos hp.1,if_pos hp.2,if_pos hp.1]
      split_ifs <;> exact ⟨rfl,fun line => rfl⟩
    exact ⟨hdone.1.trans hx,hdone.2⟩
  | reset isOpen =>
    cases h
    exact ⟨rfl,fun line => rfl⟩
  | tick =>
    cases h
    simp only [discards,Bool.and_eq_true,decide_eq_true_eq] at hd
    obtain ⟨⟨⟨hm,hs⟩,hp⟩,hk⟩ := hd
    unfold tick completeSelftest
    dsimp only
    rw [if_neg (by simp [hs]),if_neg (by omega),if_pos (by omega),if_pos hm]
    exact ⟨rfl,fun line => rfl⟩
  | receive line ch | take | finish ok m => simp [discards] at hd

theorem xmtStart_held (h : s.xmtStart=some t) (hx : s.xmt=none) (line : Nat) : t.held line=s.held line := by
  simp only [xmtStart,bind_eq_bind,bind_eq_some_iff,Option.pure_def,Option.some.injEq] at h
  obtain ⟨c,hc,rfl⟩ := h
  have hp := List.find?_some hc
  by_cases hl : line=c
  · subst hl
    simp [held,running,waiting,setChannel,hx,hp]
  · simp [held,running,waiting,setChannel,hx,hl,Ne.symm hl]

theorem xmtEnd_held {x : XmtDma} {ok : Bool} {bytes : List Byte} (hx : s.xmt=some x) (h : s.xmtEnd ok bytes=some t) :
    t.xmt=none ∧ t.csrMasterReset=s.csrMasterReset ∧ ∀ line,t.held line=if line=x.line then [] else s.held line := by
  simp only [xmtEnd,hx,bind_eq_bind,bind_some,Option.pure_def,Option.some.injEq] at h
  have hk : Keeps s (if x.wraps ok then (bytes.take x.size).foldl (fun s b => s.rxFifoPush (rbufWord 0 x.line b)) s
      else s) := by
    split_ifs
    · exact keeps_pushes _ _ s
    · exact keeps_rfl rfl rfl rfl
  generalize (if x.wraps ok then (bytes.take x.size).foldl (fun s b => s.rxFifoPush (rbufWord 0 x.line b)) s
      else s)=u at *
  subst h
  refine ⟨rfl,hk.reset,fun line => ?_⟩
  split_ifs with hl
  · subst hl
    simp [held,running,waiting,setChannel,txReport,updateCsrAndIntr]
  · rw [← hk.held line]
    simp [held,running,waiting,setChannel,txReport,updateCsrAndIntr,hk.xmt,hx,hl,Ne.symm hl]

end Dhv11

namespace Transmitter

variable {t t' : Transmitter}

/-- No line has more than one transfer, and what is held can be sent. -/
structure Inv (t : Transmitter) : Prop extends t.Right where
  one : ∀ line,(t.card.held line).length ≤ 1
  plain : ∀ line,∀ r∈t.card.held line,r.1%2=0 ∧ 0<r.2 ∧ r.2 ≤ 8192
  quiet : ∀ x,t.card.xmt=some x → t.card.csrMasterReset=false

theorem Inv.keeps (h : t.Inv) (ho : t'.owed=t.owed) (hh : t'.handed=t.handed) (hd : t'.due=t.due)
    (hx : ∀ line,t'.card.held line=t.card.held line)
    (hq : ∀ x,t'.card.xmt=some x → t'.card.csrMasterReset=false) : t'.Inv where
  owed line := by rw [ho,hx,h.owed]
  due := by rw [hh,hd,h.due]
  one line := by rw [hx]; exact h.one line
  plain line r hr := by rw [hx] at hr; exact h.plain line r hr
  quiet := hq

theorem Inv.discards {e : DmaEvent} (h : t.Inv) (hc : t.Careful e) (hd : t.card.discards e)
    (hs : t.step e=some t') : t'.Inv := by
  obtain ⟨card,hcard,rfl⟩ := map_eq_some_iff.mp hs
  obtain ⟨hx,hw⟩ := Dhv11.dmaStep_discards hcard hd
  have hnone := hx.trans (hc.2.1 hd)
  have hheld : ∀ line,card.held line=[] := by
    intro line
    rw [Dhv11.held,Dhv11.waiting_slot,hw,Dhv11.running,hnone]
    rfl
  refine ⟨⟨fun line => ?_,?_⟩,fun line => ?_,fun line r hr => ?_,fun x h => ?_⟩
  · dsimp only [owedAfter]
    rw [if_pos hd,hheld]
  · cases e with
    | finish ok m => simp [Dhv11.discards] at hd
    | write | read | reset | tick | receive | take => exact h.due
  · simp [hheld]
  · simp [hheld] at hr
  · simp [hnone] at h

theorem Inv.asks {e : DmaEvent} (h : t.Inv) (hc : t.Careful e) (hd : t.card.discards e=false)
    (ha : t.card.asks e) (hs : t.step e=some t') : t'.Inv := by
  obtain ⟨card,hcard,rfl⟩ := map_eq_some_iff.mp hs
  obtain ⟨hfree,hplain⟩ := hc.1 ha
  cases e with
  | write r v =>
    obtain ⟨hx,hm,hw,hslot⟩ := Dhv11.onWrite_asks hcard ha
    have hrun : t.card.running t.card.csrChannel=[] := (append_eq_nil_iff.mp hfree).1
    have hheld : ∀ line,card.held line=if line=t.card.csrChannel then [t.card.request (.write r v)]
        else t.card.held line := by
      intro line
      have hr : card.running line=t.card.running line := by
        rw [Dhv11.running,Dhv11.running,hx]
      rw [Dhv11.held,hr]
      split_ifs with hl
      · rw [hl,hrun,hw]
        rfl
      · rw [Dhv11.waiting_congr (hslot line hl)]
        rfl
    refine ⟨⟨fun line => ?_,h.due⟩,fun line => ?_,fun line r' hr => ?_,fun x hx' => ?_⟩
    · dsimp only [owedAfter]
      rw [if_neg (by simp [hd]),if_pos ha,hheld]
      split_ifs with hl
      · rw [hl,update_self,h.owed,hfree]
        rfl
      · rw [update_of_ne hl,h.owed]
    · dsimp only
      rw [hheld]
      split_ifs
      · exact Nat.le_refl 1
      · exact h.one line
    · dsimp only at hr
      rw [hheld] at hr
      split_ifs at hr with hl
      · rw [mem_singleton.mp hr]
        have hpos : (t.card.chan t.card.csrChannel).tbuffct≠0 := by
          simp only [Dhv11.asks,Bool.and_eq_true,decide_eq_true_eq] at ha
          exact ha.2
        refine ⟨hplain.1,?_,hplain.2⟩
        rw [Dhv11.request,Nat.pos_iff_ne_zero]
        exact fun h0 => hpos (BitVec.eq_of_toNat_eq h0)
      · exact h.plain line r' hr
    · exact hm.trans (h.quiet x (hx.symm.trans hx'))
  | read | reset | tick | receive | take | finish => simp [Dhv11.asks] at ha

theorem Inv.finish {ok : Bool} {m : Nat → Byte} (h : t.Inv) (hs : t.step (.finish ok m)=some t') : t'.Inv := by
  obtain ⟨card,hcard,rfl⟩ := map_eq_some_iff.mp hs
  obtain ⟨x,hx,hend⟩ := bind_eq_some_iff.mp hcard
  obtain ⟨hnone,hm,hheld⟩ := Dhv11.xmtEnd_held hx hend
  have hone := h.one x.line
  have hhead : t.card.held x.line=[(x.addr,x.count)] := by
    have hrun : t.card.running x.line=[(x.addr,x.count)] := by simp [Dhv11.running,hx]
    unfold Dhv11.held at hone ⊢
    rw [hrun] at hone ⊢
    rw [length_append,length_singleton] at hone
    rw [length_eq_zero_iff.mp (by omega : (t.card.waiting x.line).length=0),append_nil]
  obtain ⟨heven,hpos,hfit⟩ := h.plain x.line (x.addr,x.count) (by rw [hhead]; exact mem_singleton_self _)
  refine ⟨⟨fun line => ?_,?_⟩,fun line => ?_,fun line r hr => ?_,fun y hy => ?_⟩
  · dsimp only [owedAfter]
    rw [if_neg (by simp [Dhv11.discards]),if_neg (by simp [Dhv11.asks]),hx,hheld]
    dsimp only
    split_ifs with hl
    · rw [hl,update_self,h.owed,hhead]
      rfl
    · rw [update_of_ne hl,h.owed]
  · dsimp only [handedAfter,dueAfter]
    rw [hx,elim_some,elim_some,h.due,h.owed x.line,hhead,XmtDma.plain.exact ⟨heven,hfit⟩ hpos]
    rfl
  · dsimp only
    rw [hheld]
    split_ifs
    · exact Nat.zero_le 1
    · exact h.one line
  · dsimp only at hr
    rw [hheld] at hr
    split_ifs at hr
    · exact absurd hr not_mem_nil
    · exact h.plain line r hr
  · exact absurd (hnone.symm.trans hy) nofun

theorem Inv.step {e : DmaEvent} (h : t.Inv) (hc : t.Careful e) (hs : t.step e=some t') : t'.Inv := by
  by_cases hd : t.card.discards e=true
  · exact h.discards hc hd hs
  rw [Bool.not_eq_true] at hd
  by_cases ha : t.card.asks e=true
  · exact h.asks hc hd ha hs
  rw [Bool.not_eq_true] at ha
  have hkept : ∀ card,t.card.dmaStep e=some card → Dhv11.Keeps t.card card →
      (∀ ok m,e≠.finish ok m) → t'.Inv := by
    intro card hcard hk hno
    have ht' : t'=⟨card,t.owedAfter e,t.handedAfter e,t.dueAfter e⟩ :=
      some.inj (hs.symm.trans (by rw [Transmitter.step,hcard]; rfl))
    subst ht'
    refine h.keeps ?_ ?_ ?_ hk.held fun x hx => hk.reset.trans (h.quiet x (hk.xmt ▸ hx))
    · dsimp only [owedAfter]
      rw [if_neg (by simp [hd]),if_neg (by simp [ha])]
      cases e <;> first | rfl | exact absurd rfl (hno _ _)
    · cases e <;> first | rfl | exact absurd rfl (hno _ _)
    · cases e <;> first | rfl | exact absurd rfl (hno _ _)
  obtain ⟨card,hcard,ht'⟩ := map_eq_some_iff.mp hs
  cases e with
  | write r v => exact hkept card hcard (Dhv11.keeps_onWrite hcard hd ha) nofun
  | read r =>
    cases hcard
    exact hkept _ rfl (Dhv11.keeps_onRead hd) nofun
  | reset isOpen => simp [Dhv11.discards] at hd
  | tick =>
    cases hcard
    exact hkept _ rfl (Dhv11.keeps_tick hd) nofun
  | receive line ch =>
    cases hcard
    exact hkept _ rfl ((Dhv11.keeps_push _ _).trans (Dhv11.keeps_rfl rfl rfl rfl)) nofun
  | take =>
    have hstart : t.card.xmt=none ∧ t.card.xmtStart=some card := by
      simp only [Dhv11.dmaStep] at hcard
      split_ifs at hcard with hx
      exact ⟨isNone_iff_eq_none.mp hx,hcard⟩
    have hm : card.csrMasterReset=t.card.csrMasterReset := by
      have hst := hstart.2
      simp only [Dhv11.xmtStart,bind_eq_bind,bind_eq_some_iff,Option.pure_def,Option.some.injEq] at hst
      obtain ⟨c,-,rfl⟩ := hst
      rfl
    subst ht'
    refine h.keeps ?_ rfl rfl (Dhv11.xmtStart_held hstart.2 hstart.1) fun _ _ => hm.trans (hc.2.2 rfl)
    dsimp only [owedAfter]
    rw [if_neg (by simp [hd]),if_neg (by simp [ha])]
  | finish ok m => exact h.finish hs

theorem Inv.start : start.Inv where
  owed _ := rfl
  due := rfl
  one _ := Nat.zero_le 1
  plain _ r hr := absurd hr not_mem_nil
  quiet := nofun

end Transmitter

/-- A transfer with a destination hands on the bytes asked for, whatever the memory, just when its address is even and
its count at most 8192. In a run of such transfers, with none upon another of its line and no reset upon one, none is
lost and the lines got them in order. -/
theorem dma_transmits {es : List DmaEvent} {t : Transmitter}
    (h : Run (Guarded Transmitter.Careful Transmitter.step) .start es t) :
    t.Right ∧ ∀ x : XmtDma,0<x.count → x.reaches →
      ((∀ m,x.wire true m++x.returned true m=x.asked true m) ↔ x.plain) :=
  ⟨(h.invariant (P := Transmitter.Inv) (fun _ _ _ hi hs => hi.step hs.1 hs.2) .start).toRight,
    fun _ hpos hr => XmtDma.exact_iff hpos hr⟩

/-- Two bytes from address 2, on the first line in local loopback -/
theorem dma_transmits_two : ∃ t : Transmitter, t.owed 0=[] ∧ t.handed 0=[2,3] ∧ t.Right := by
  obtain ⟨t,hs,hp⟩ := run_of_foldlM Transmitter.Careful Transmitter.step
    (fun t => t.owed 0=[] ∧ t.handed 0=[2,3])
    [.write .lnctrl 0o200,.write .tbuffad1 2,.write .tbuffct 2,.write .tbuffad2 0o100200,.take,
      .finish true fun a => BitVec.ofNat 8 a] .start (by decide)
  obtain ⟨ho,hh⟩ := of_decide_eq_true hp
  exact ⟨t,ho,hh,(dma_transmits hs).1⟩

/-- From an odd address the byte before it is sent first, and the last is not. A transfer started while another of its
line runs is lost; and one that a master reset discarded is reported at its end. -/
theorem transfers_go_wrong : (∃ (x : XmtDma) (m : Nat → Byte),x.reaches ∧ x.count=2 ∧
      x.wire true m++x.returned true m=[0,1] ∧ x.asked true m=[1,2]) ∧
    (∃ t,Run (Guarded (fun _ _ => True) Transmitter.step) .start
      [.write .tbuffct 2,.write .tbuffad2 0o100200,.take,.write .tbuffct 4,.write .tbuffad2 0o100200,
        .finish true fun _ => 0] t ∧ t.owed 0=[(0,4)] ∧ t.card.held 0=[]) ∧
    ∃ t,Run (Guarded (fun _ _ => True) Transmitter.step) .start
      [.write .tbuffct 2,.write .tbuffad2 0o100200,.take,.write .csr 0o40,.finish true fun _ => 0] t ∧
      t.owed 0=[] ∧ t.card.csrTxAct=true := by
  refine ⟨⟨⟨0,1,2,true,0,false⟩,fun a => BitVec.ofNat 8 a,by decide,rfl,by decide,by decide⟩,?_,?_⟩
  · obtain ⟨t,hs,hp⟩ := run_of_foldlM (fun _ _ => True) Transmitter.step
      (fun t => t.owed 0=[(0,4)] ∧ t.card.held 0=[])
      [.write .tbuffct 2,.write .tbuffad2 0o100200,.take,.write .tbuffct 4,.write .tbuffad2 0o100200,
        .finish true fun _ => 0] .start (by decide)
    exact ⟨t,hs,of_decide_eq_true hp⟩
  · obtain ⟨t,hs,hp⟩ := run_of_foldlM (fun _ _ => True) Transmitter.step
      (fun t => t.owed 0=[] ∧ t.card.csrTxAct=true)
      [.write .tbuffct 2,.write .tbuffad2 0o100200,.take,.write .csr 0o40,.finish true fun _ => 0] .start (by decide)
    exact ⟨t,hs,of_decide_eq_true hp⟩

end QUniLator.Mux
