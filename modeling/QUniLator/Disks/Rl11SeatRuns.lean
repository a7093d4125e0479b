import QUniLator.Disks.Rl11Seat

namespace QUniLator.Disks

open Docket List RlCommand

namespace RlSeat

/-- What holds of the docket when `n` commands were accepted. With `raising` the interrupt of the last one is
still to come. -/
structure Books (l : Docket Bool RlEffect) (n : Nat) (raising : Prop) : Prop where
  orderly : l.Orderly
  below : l.Below (n+1)
  begun : Once .began l
  once : Once .interrupt l
  unique : ∀ i a b,.accepted i a∈l → .accepted i b∈l → a=b
  interrupts : ∀ i ie,.accepted i ie∈l → .finished i∈l → ¬(raising ∧ i=n) →
    (.did i .interrupt∈l ↔ ie=true)
  after : ∀ i,.did i .interrupt∈l → .finished i∈l
  last : ∀ i ie,l.Open i ie → i=n

variable {l : Docket Bool RlEffect} {n : Nat} {p : Prop}
variable {e : RlEffect}

theorem Once.cons (h : Once e l) {x : Entry Bool RlEffect} (hx : ∀ i,x=.did i e → .did i e∉l) : Once e (x::l) :=
  pairwise_cons.mpr ⟨fun _ hy i hi he => hx i hi (he ▸ hy),h⟩

theorem open_of_did {i j : Nat} {ie : Bool} (h : Open (.did j e::l) i ie) : l.Open i ie :=
  ⟨(mem_cons.mp h.1).resolve_left (by simp),fun hx => h.2 (over_did.mpr hx)⟩

theorem open_of_finished {i j : Nat} {ie : Bool} (h : Open (.finished j::l) i ie) : l.Open i ie :=
  ⟨(mem_cons.mp h.1).resolve_left (by simp),fun hx => h.2 (over_finished.mpr (.inr hx))⟩

theorem open_of_cancelled {i j : Nat} {ie : Bool} (h : Open (.cancelled j::l) i ie) : l.Open i ie :=
  ⟨(mem_cons.mp h.1).resolve_left (by simp),fun hx => h.2 (over_cancelled.mpr (.inr hx))⟩

theorem Books.note {ie : Bool} (h : Books l n p) (ho : l.Open n ie) (he : e≠.interrupt)
    (hf : e=.began → .did n .began∉l) : Books (.did n e::l) n p := by
  refine ⟨h.orderly.did ho.not_cancelled e,h.below.cons (Nat.le_refl _) (Nat.lt_succ_self n),?_,?_,?_,?_,
    ?_,fun i ie' hi => h.last i ie' (open_of_did hi)⟩
  · refine h.begun.cons fun i hi => ?_
    cases hi
    exact hf rfl
  · refine h.once.cons fun i hi => ?_
    cases hi
    exact absurd rfl he
  · intro i a b ha hb
    exact h.unique i a b ((mem_cons.mp ha).resolve_left (by simp))
      ((mem_cons.mp hb).resolve_left (by simp))
  · intro i ie' ha hfin hnp
    have hi := h.interrupts i ie' ((mem_cons.mp ha).resolve_left (by simp))
      ((mem_cons.mp hfin).resolve_left (by simp)) hnp
    rw [mem_cons,← hi]
    refine or_iff_right fun hx => he ?_
    cases hx
    rfl
  · intro i hi
    refine mem_cons_of_mem _ (h.after i ((mem_cons.mp hi).resolve_left fun hx => he ?_))
    cases hx
    rfl

/-- The last command is finished, and the interrupt is to come if it was accepted with IE. -/
theorem Books.finish {ie : Bool} (h : Books l n p) (ho : l.Open n ie)
    (hs : .did n .interrupt∉l) {q : Prop} (hq : ie → q) : Books (.finished n::l) n q := by
  refine ⟨h.orderly.finished ho.not_finished,h.below.cons (Nat.le_refl _) (Nat.lt_succ_self n),
    h.begun.cons fun i hi => (by cases hi),h.once.cons fun i hi => (by cases hi),?_,?_,?_,
    fun i ie' hi => h.last i ie' (open_of_finished hi)⟩
  · intro i a b ha hb
    exact h.unique i a b ((mem_cons.mp ha).resolve_left (by simp))
      ((mem_cons.mp hb).resolve_left (by simp))
  · intro i ie' ha hfin hnq
    have ha' : .accepted i ie'∈l := (mem_cons.mp ha).resolve_left (by simp)
    have hmem : (Entry.did i RlEffect.interrupt∈Entry.finished n::l) ↔ Entry.did i RlEffect.interrupt∈l := by
      simp
    rw [hmem]
    by_cases hin : i=n
    · subst hin
      have hie := h.unique i ie ie' ho.1 ha'
      refine ⟨fun hx => absurd hx hs,fun hx => absurd ⟨hq (hie.trans hx),rfl⟩ hnq⟩
    · refine h.interrupts i ie' ha' ((mem_cons.mp hfin).resolve_left fun hx => hin ?_)
        fun hx => hin hx.2
      cases hx
      rfl
  · intro i hi
    exact mem_cons_of_mem _ (h.after i ((mem_cons.mp hi).resolve_left (by simp)))

theorem Books.interrupt (h : Books l n p) (ha : .accepted n true∈l) (hf : .finished n∈l)
    (hc : .cancelled n∉l) (hs : .did n .interrupt∉l) {q : Prop} : Books (.did n .interrupt::l) n q := by
  refine ⟨h.orderly.did hc _,h.below.cons (Nat.le_refl _) (Nat.lt_succ_self n),
    h.begun.cons fun i hi => (by cases hi),?_,?_,?_,?_,fun i ie' hi => h.last i ie' (open_of_did hi)⟩
  · refine h.once.cons fun i hi => ?_
    cases hi
    exact hs
  · intro i a b ha hb
    exact h.unique i a b ((mem_cons.mp ha).resolve_left (by simp))
      ((mem_cons.mp hb).resolve_left (by simp))
  · intro i ie' ha' hfin _
    have ha'' : .accepted i ie'∈l := (mem_cons.mp ha').resolve_left (by simp)
    by_cases hin : i=n
    · subst hin
      have hie := h.unique i true ie' ha ha''
      exact ⟨fun _ => hie.symm,fun _ => mem_cons_self⟩
    · have hi := h.interrupts i ie' ha'' ((mem_cons.mp hfin).resolve_left (by simp))
        fun hx => hin hx.2
      rw [mem_cons,← hi]
      refine or_iff_right fun hx => hin ?_
      cases hx
      rfl
  · intro i hi
    rcases mem_cons.mp hi with hx | hx
    · cases hx
      exact mem_cons_of_mem _ hf
    · exact mem_cons_of_mem _ (h.after i hx)

theorem Books.cancel (h : Books l n p) : Books (.cancelled n::l) n p := by
  refine ⟨h.orderly.cancelled n,h.below.cons (Nat.le_refl _) (Nat.lt_succ_self n),
    h.begun.cons fun i hi => (by cases hi),h.once.cons fun i hi => (by cases hi),?_,?_,?_,
    fun i ie' hi => h.last i ie' (open_of_cancelled hi)⟩
  · intro i a b ha hb
    exact h.unique i a b ((mem_cons.mp ha).resolve_left (by simp))
      ((mem_cons.mp hb).resolve_left (by simp))
  · intro i ie' ha hfin hnp
    have hi := h.interrupts i ie' ((mem_cons.mp ha).resolve_left (by simp))
      ((mem_cons.mp hfin).resolve_left (by simp)) hnp
    rw [← hi]
    simp
  · intro i hi
    exact mem_cons_of_mem _ (h.after i ((mem_cons.mp hi).resolve_left (by simp)))

theorem Books.accept {b : Bool} (h : Books l n p) (hno : ∀ i,¬l.Open n i) {q : Prop} (hp : p → False) :
    Books (.accepted (n+1) b::l) (n+1) q := by
  have hnew {x : Entry Bool RlEffect} (hx : x∈l) : x.id≠n+1 := Nat.ne_of_lt (h.below x hx)
  refine ⟨h.orderly.accepted _ b,h.below.cons (Nat.le_succ _) (Nat.lt_succ_self (n+1)),
    h.begun.cons fun i hi => (by cases hi),h.once.cons fun i hi => (by cases hi),?_,?_,?_,?_⟩
  · intro i a a' ha hb
    rcases mem_cons.mp ha with hx | hx
    · cases hx
      rcases mem_cons.mp hb with hy | hy
      · cases hy
        rfl
      · exact absurd rfl (hnew hy)
    · rcases mem_cons.mp hb with hy | hy
      · cases hy
        exact absurd rfl (hnew hx)
      · exact h.unique i a a' hx hy
  · intro i ie' ha hfin _
    have hf : .finished i∈l := (mem_cons.mp hfin).resolve_left (by simp)
    have hin : i≠n+1 := hnew hf
    have ha' : .accepted i ie'∈l := by
      refine (mem_cons.mp ha).resolve_left fun hx => hin ?_
      cases hx
      rfl
    have hi := h.interrupts i ie' ha' hf fun hx => hp hx.1
    rw [← hi]
    simp
  · intro i hi
    exact mem_cons_of_mem _ (h.after i ((mem_cons.mp hi).resolve_left (by simp)))
  · intro i ie' ho
    rcases mem_cons.mp ho.1 with hx | hx
    · cases hx
      rfl
    · have hold : l.Open i ie' := ⟨hx,fun hy => ho.2 (over_accepted.mpr hy)⟩
      have hi := h.last i ie' hold
      subst hi
      exact absurd hold (hno ie')

theorem Books.congr {q : Prop} (h : Books l n p) (hpq : p ↔ q) : Books l n q :=
  ⟨h.orderly,h.below,h.begun,h.once,h.unique,fun i ie ha hf hnq =>
    h.interrupts i ie ha hf fun hx => hnq ⟨hpq.mp hx.1,hx.2⟩,h.after,h.last⟩

variable {s t : RlSeat} {ie : Bool}

/-- The last command is open, the event thread is idle, and there was no interrupt. -/
structure UnderWay (s : RlSeat) (ie : Bool) : Prop where
  isOpen : s.docket.Open s.current ie
  enabled : s.interruptEnable=ie
  busy : s.state≠.ready
  silent : .did s.current .interrupt∉s.docket
  host : s.host=.idle

/-- It is not begun, and something is to be done for it. -/
structure Fresh (s : RlSeat) : Prop where
  state : s.state=.busy
  begun : .did s.current .began∉s.docket
  todo : s.reason=true ∨ s.function≠.noop ∧ s.function≠.getStatus

def Moves (s : RlSeat) (next : RlActivity) (count : Nat) : Prop :=
  (next=.rwInit ∨ next=.rwDisk) ∧ s.function.isTransfer=true ∧ (next=.rwDisk → 0<count)

def Place (s : RlSeat) : Prop :=
  match s.pc with
  | .enter next => next=.seekInit ∨ s.Moves next s.wordcount
  | .loop => s.state=.seekInit ∨ s.Moves s.state s.wordcount
  | .rwWait | .rw => s.Moves s.state s.cmdWordcount ∧ (0<s.cmdWordcount → 0<s.wordcount)
  | .opiWait epoch => epoch=s.epoch
  | .raising => s.interruptEnable=true
  | .readying => s.interruptEnable=false
  | .seek | .opi | .opiSet | .done => True
  | .start | .waiting | .woken | .reason | .power | .driveWait | .dispatch | .intr => False

def Harmless (s : RlSeat) : Prop :=
  match s.pc with
  | .waiting | .woken | .reason | .power | .driveWait | .dispatch | .loop =>
    s.state=.ready ∨ s.state=.busy
  | .opiWait epoch => epoch<s.epoch ∨ s.host=.resetRegisters ∧ epoch=s.epoch ∧ s.state≠.ready
  | .start | .enter _ | .seek | .rwWait | .rw | .opi | .opiSet | .done | .raising | .readying | .intr =>
    False

def Resetting (s : RlSeat) : Prop :=
  s.host=.resetRegisters ∨ s.host=.resetEpoch ∨ s.host=.resetErrors

inductive Phase (s : RlSeat) : Prop
  | rest (pc : s.pc=.start ∨ s.pc=.waiting ∨ s.pc=.loop) (signalled : s.signalled=false)
      (state : s.state=.ready) (reason : s.reason=false) (settled : ∀ i,¬s.docket.Open s.current i)
  | waits (ie : Bool) (pc : s.pc=.waiting) (way : s.UnderWay ie) (fresh : s.Fresh)
      (signal : s.signalled=true ∨ s.initAsserted=true)
  | taking (ie : Bool) (pc : s.pc.taking=true) (signalled : s.signalled=false) (way : s.UnderWay ie)
      (fresh : s.Fresh) (reason : s.pc≠.woken → s.pc≠.reason → s.reason=false)
  | executing (ie : Bool) (signalled : s.signalled=false) (reason : s.reason=false)
      (way : s.UnderWay ie) (place : s.Place)
  | raising (pc : s.pc=.intr) (signalled : s.signalled=false) (reason : s.reason=false)
      (state : s.state=.ready) (enabled : s.interruptEnable=true)
      (accepted : .accepted s.current true∈s.docket) (finished : .finished s.current∈s.docket)
      (kept : .cancelled s.current∉s.docket) (silent : .did s.current .interrupt∉s.docket)
      (host : ¬s.Resetting)
  | overtaken (cancelled : .cancelled s.current∈s.docket) (function : s.function=.noop)
      (enabled : s.interruptEnable=false) (reason : s.reason=false) (place : s.Harmless)
      (signal : s.signalled=true → s.pc=.waiting) (state : s.state=.ready ∨ s.Resetting)

structure Inv (s : RlSeat) : Prop where
  books : Books s.docket s.current (s.pc=.intr)
  asserts : s.failed=false
  quiet : s.sinceReset=true → s.state=.ready ∧ s.noErrors=true
  cleared : s.host=.resetErrors → s.noErrors=true
  phase : s.Phase

theorem Inv.onward (h : s.Inv) (way : s.UnderWay ie) (hb : Books t.docket t.current False)
    (hf : t.failed=false) (hr : t.sinceReset=s.sinceReset) (hh : t.host=s.host)
    (hpc : t.pc≠.intr) (hp : t.Phase) : t.Inv := by
  refine ⟨hb.congr ⟨False.elim,hpc⟩,hf,fun hx => ?_,fun hx => ?_,hp⟩
  · rw [hr] at hx
    exact absurd (h.quiet hx).1 way.busy
  · rw [hh,way.host] at hx
    cases hx

theorem Inv.quietBooks (h : s.Inv) (hpc : s.pc≠.intr) : Books s.docket s.current False :=
  h.books.congr (iff_false_intro hpc)

theorem UnderWay.note (way : s.UnderWay ie) (he : e≠.interrupt) : (s.note e).UnderWay ie := by
  refine ⟨way.isOpen.did e,way.enabled,way.busy,
    fun hx => way.silent ((mem_cons.mp hx).resolve_left fun hy => he ?_),way.host⟩
  cases hy
  rfl

theorem UnderWay.keep (way : s.UnderWay ie) (hd : t.docket=s.docket) (hn : t.current=s.current)
    (hi : t.interruptEnable=s.interruptEnable) (hs : t.state≠.ready) (hh : t.host=s.host) : t.UnderWay ie := by
  refine ⟨?_,hi.trans way.enabled,hs,?_,hh.trans way.host⟩
  · rw [hd,hn]
    exact way.isOpen
  · rw [hd,hn]
    exact way.silent

theorem Inv.sectorMoved (h : s.Inv) (hpc : s.pc≠.intr) (signalled : s.signalled=false)
    (reason : s.reason=false) (way : s.UnderWay ie) (htr : s.function.isTransfer)
    (differs : Bool) : (s.sectorMoved differs).Inv := by
  have hbt := (h.quietBooks hpc).note way.isOpen (e := .transfer) (by simp) (fun hx => by cases hx)
  have wayt := way.note (e := .transfer) (by simp)
  have hbte := hbt.note wayt.isOpen (e := .error) (by simp) (fun hx => by cases hx)
  have wayte := wayt.note (e := .error) (by simp)
  have hgo (u v : RlSeat) (hbu : Books u.docket u.current False) (wayu : u.UnderWay ie)
      (hd : v.docket=u.docket) (hn : v.current=u.current) (hi : v.interruptEnable=u.interruptEnable)
      (hs : v.state=u.state) (hh : v.host=u.host) (hus : s.host=u.host) (hf : v.failed=s.failed)
      (hr : v.sinceReset=s.sinceReset) (hsg : v.signalled=s.signalled) (hre : v.reason=s.reason)
      (hp : v.pc=afterSector s.cmdWordcount) (hfn : v.function=s.function)
      (hw : v.wordcount=s.cmdWordcount-128) : v.Inv := by
    have hplace : v.Place ∧ v.pc≠.intr := by
      unfold Place
      unfold afterSector at hp
      split_ifs at hp with hle
      · rw [hp]
        exact ⟨trivial,by simp⟩
      · rw [hp]
        refine ⟨.inr ⟨.inr rfl,by rw [hfn]; exact htr,fun _ => ?_⟩,by simp⟩
        rw [hw]
        omega
    refine h.onward way (by rw [hd,hn]; exact hbu) (hf.trans h.asserts) hr (hh.trans hus.symm) hplace.2
      (.executing ie (hsg.trans signalled) (hre.trans reason) (wayu.keep hd hn hi ?_ hh) hplace.1)
    rw [hs]
    exact wayu.busy
  unfold RlSeat.sectorMoved
  dsimp only
  split_ifs
  · exact hgo _ _ hbte wayte rfl rfl rfl rfl rfl rfl rfl rfl rfl rfl rfl rfl rfl
  all_goals exact hgo _ _ hbt wayt rfl rfl rfl rfl rfl rfl rfl rfl rfl rfl rfl rfl rfl

theorem Inv.readwrite (h : s.Inv) (hpc : s.pc=.rw) (signalled : s.signalled=false)
    (reason : s.reason=false) (way : s.UnderWay ie) (place : s.Place) (found : RlSector) :
    (s.readwrite found).Inv := by
  obtain ⟨⟨hst,htr,hcount⟩,hmp⟩ : s.Moves s.state s.cmdWordcount ∧ (0<s.cmdWordcount → 0<s.wordcount) := by
    unfold Place at place
    rw [hpc] at place
    exact place
  have hb := h.quietBooks (by rw [hpc]; simp)
  have hbt := hb.note way.isOpen (e := .transfer) (by simp) (fun hx => by cases hx)
  have wayt := way.note (e := .transfer) (by simp)
  unfold RlSeat.readwrite
  split
  · split_ifs with hc
    · exact h.onward way hb h.asserts rfl rfl (by simp) (.executing ie signalled reason
        (way.keep rfl rfl rfl way.busy rfl) trivial)
    · exact h.onward way hb h.asserts rfl rfl (by simp) (.executing ie signalled reason
        (way.keep rfl rfl rfl way.busy rfl) (.inr ⟨.inr rfl,htr,fun _ => hmp (Nat.pos_of_ne_zero hc)⟩))
  · rename_i hst'
    have hpos := hcount hst'
    rw [if_neg (Nat.ne_of_gt hpos)]
    cases found with
    | elsewhere =>
      exact h.onward way hb h.asserts rfl rfl (by simp) (.executing ie signalled reason
        (way.keep rfl rfl rfl way.busy rfl) (.inr ⟨.inr hst',htr,fun _ => hmp hpos⟩))
    | offTrack =>
      exact h.onward way (hb.note way.isOpen (e := .error) (by simp) (fun hx => by cases hx)) h.asserts rfl rfl
        (by simp) (.executing ie signalled reason
          ((way.note (e := .error) (by simp)).keep rfl rfl rfl way.busy rfl) trivial)
    | timeout =>
      exact h.onward way (hbt.note wayt.isOpen (e := .error) (by simp) (fun hx => by cases hx)) h.asserts rfl
        rfl (by simp) (.executing ie signalled reason
          ((wayt.note (e := .error) (by simp)).keep rfl rfl rfl way.busy rfl) trivial)
    | moved differs => exact h.sectorMoved (by rw [hpc]; simp) signalled reason way htr differs
  all_goals
    rename_i hx
    rw [hx] at hst
    rcases hst with hst | hst <;> cases hst

theorem Inv.execute (h : s.Inv) (signalled : s.signalled=false) (reason : s.reason=false)
    (way : s.UnderWay ie) (place : s.Place) (a : RlAnswer) : (s.workerStep a).Inv := by
  unfold Place at place
  unfold workerStep
  cases hpc : s.pc with
  | start | waiting | woken | reason | power | driveWait | dispatch | intr =>
    rw [hpc] at place
    exact place.elim
  | enter next =>
    rw [hpc] at place
    have hb := h.quietBooks (by rw [hpc]; simp)
    have hne : next≠.ready := by
      rcases place with hx | ⟨hx | hx,-⟩
      all_goals
        rw [hx]
        simp
    exact h.onward way hb h.asserts rfl rfl (by simp) (.executing ie signalled reason
      (way.keep rfl rfl rfl hne rfl) place)
  | loop =>
    rw [hpc] at place
    have hb := h.quietBooks (by rw [hpc]; simp)
    dsimp only at place ⊢
    rcases place with hst | ⟨hst,htr,hcount⟩
    · split
      all_goals
        rename_i hx
        try rw [hst] at hx; cases hx
      exact h.onward way hb h.asserts rfl rfl (by simp) (.executing ie signalled reason
        (way.keep rfl rfl rfl way.busy rfl) trivial)
    · have hgo (t : RlSeat) (ht : t={ s with failed := s.failed || !s.function.isTransfer,
                                               cmdWordcount := s.wordcount,pc := .rwWait }) : t.Inv := by
        subst ht
        refine h.onward way hb ?_ rfl rfl (by simp) (.executing ie signalled reason
          (way.keep rfl rfl rfl way.busy rfl) ⟨⟨hst,htr,hcount⟩,fun hx => hx⟩)
        show (s.failed || !s.function.isTransfer)=false
        rw [h.asserts,htr]
        rfl
      split
      · rename_i hx
        exact absurd hx way.busy
      · rename_i hx
        rw [hx] at hst
        rcases hst with hst | hst <;> cases hst
      · rename_i hx
        rw [hx] at hst
        rcases hst with hst | hst <;> cases hst
      all_goals exact hgo _ rfl
  | seek =>
    have hb := h.quietBooks (by rw [hpc]; simp)
    dsimp only
    split_ifs
    all_goals
      exact h.onward way hb h.asserts rfl rfl (by simp) (.executing ie signalled reason
        (way.keep rfl rfl rfl way.busy rfl) trivial)
  | rwWait =>
    rw [hpc] at place
    have hb := h.quietBooks (by rw [hpc]; simp)
    dsimp only
    split_ifs
    · exact h.onward way hb h.asserts rfl rfl (by simp) (.executing ie signalled reason
        (way.keep rfl rfl rfl way.busy rfl) place)
    · exact h.onward way hb h.asserts rfl rfl (by simp) (.executing ie signalled reason
        (way.keep rfl rfl rfl way.busy rfl) trivial)
  | rw =>
    refine h.readwrite hpc signalled reason way ?_ a.sector
    unfold Place
    exact place
  | opi =>
    have hb := h.quietBooks (by rw [hpc]; simp)
    exact h.onward way hb h.asserts rfl rfl (by simp) (.executing ie signalled reason
      (way.keep rfl rfl rfl way.busy rfl) rfl)
  | opiWait epoch =>
    rw [hpc] at place
    have hb := h.quietBooks (by rw [hpc]; simp)
    dsimp only at place ⊢
    rw [if_pos place]
    exact h.onward way hb h.asserts rfl rfl (by simp) (.executing ie signalled reason
      (way.keep rfl rfl rfl way.busy rfl) trivial)
  | opiSet =>
    have hb := (h.quietBooks (by rw [hpc]; simp)).note way.isOpen (e := .error) (by simp)
      (fun hx => by cases hx)
    exact h.onward way hb h.asserts rfl rfl (by simp) (.executing ie signalled reason
      ((way.note (e := .error) (by simp)).keep rfl rfl rfl way.busy rfl) trivial)
  | done =>
    have hb := h.quietBooks (by rw [hpc]; simp)
    dsimp only
    split_ifs with hc
    · exact h.onward way hb h.asserts rfl rfl (by simp) (.executing ie signalled reason
        (way.keep rfl rfl rfl way.busy rfl) hc.1)
    · refine h.onward way hb h.asserts rfl rfl (by simp) (.executing ie signalled reason
        (way.keep rfl rfl rfl way.busy rfl) ?_)
      show s.interruptEnable=false
      by_contra hx
      exact hc ⟨by simpa using hx,way.busy⟩
  | raising =>
    rw [hpc] at place
    have hie : ie=true := way.enabled.symm.trans place
    subst hie
    have hno : .cancelled s.current∉s.docket := way.isOpen.not_cancelled
    refine ⟨(h.books.finish way.isOpen way.silent fun _ => rfl),h.asserts,fun hx => ?_,fun hx => ?_,
      .raising rfl signalled reason rfl place (mem_cons_of_mem _ way.isOpen.1) mem_cons_self
        (fun hx => hno ((mem_cons.mp hx).resolve_left (by simp)))
        (fun hx => way.silent ((mem_cons.mp hx).resolve_left (by simp))) ?_⟩
    · exact absurd (h.quiet hx).1 way.busy
    · cases way.host.symm.trans hx
    · intro hx
      have hh : s.host=.idle := way.host
      rcases hx with hx | hx | hx <;> cases hh.symm.trans hx
  | readying =>
    rw [hpc] at place
    have hie : ie=false := way.enabled.symm.trans place
    subst hie
    dsimp only
    rw [if_neg way.busy]
    refine ⟨(h.books.finish way.isOpen way.silent fun hx => by cases hx),h.asserts,fun hx => ?_,fun hx => ?_,
      .rest (.inr (.inr rfl)) signalled rfl reason fun i ho => ?_⟩
    · exact absurd (h.quiet hx).1 way.busy
    · cases way.host.symm.trans hx
    · exact ho.2 (over_finished.mpr (.inl rfl))

theorem Inv.take (h : s.Inv) (hp : s.pc.taking) (signalled : s.signalled=false)
    (way : s.UnderWay ie) (fresh : s.Fresh) (reason : s.pc≠.woken → s.pc≠.reason → s.reason=false)
    (a : RlAnswer) : (s.workerStep a).Inv := by
  have hpi : s.pc≠.intr := by
    intro hx
    rw [hx] at hp
    cases hp
  have hb := h.quietBooks hpi
  have hbegin := hb.note way.isOpen (e := .began) (by simp) (fun _ => fresh.begun)
  have wayb := way.note (e := .began) (by simp)
  -- it begins with the command
  have hgo (t : RlSeat) (hd : t.docket=(s.note .began).docket) (hn : t.current=s.current)
      (hf : t.failed=s.failed) (hr : t.sinceReset=s.sinceReset) (hh : t.host=s.host)
      (hi : t.interruptEnable=s.interruptEnable) (hs : t.state=s.state)
      (hsg : t.signalled=s.signalled) (hre : t.reason=false) (hpl : t.Place) (hti : t.pc≠.intr) :
      t.Inv := by
    refine h.onward way (by rw [hd,hn]; exact hbegin) (hf.trans h.asserts) hr hh hti
      (.executing ie (hsg.trans signalled) hre (wayb.keep hd hn hi ?_ hh) hpl)
    rw [hs]
    exact way.busy
  unfold workerStep
  cases hpc : s.pc with
  | start | waiting | enter | loop | seek | rwWait | rw | opi | opiWait | opiSet | done | raising | readying
  | intr =>
    rw [hpc] at hp
    cases hp
  | woken =>
    dsimp only
    split_ifs with hi
    · exact h.onward way hb h.asserts rfl rfl (by simp) (.waits ie rfl
        (way.keep rfl rfl rfl way.busy rfl) ⟨fresh.state,fresh.begun,fresh.todo⟩ (.inr hi))
    · exact h.onward way hb h.asserts rfl rfl (by simp) (.taking ie rfl signalled
        (way.keep rfl rfl rfl way.busy rfl) ⟨fresh.state,fresh.begun,fresh.todo⟩
        fun _ hx => absurd rfl hx)
  | reason =>
    dsimp only
    split_ifs with hr
    · exact hgo _ rfl rfl rfl rfl rfl rfl rfl rfl rfl trivial (by simp)
    · exact h.onward way hb h.asserts rfl rfl (by simp) (.taking ie rfl signalled
        (way.keep rfl rfl rfl way.busy rfl) ⟨fresh.state,fresh.begun,fresh.todo⟩
        fun _ _ => by simpa using hr)
  | power =>
    have hr := reason (by rw [hpc]; simp) (by rw [hpc]; simp)
    dsimp only
    split_ifs
    · exact hgo _ rfl rfl rfl rfl rfl rfl rfl rfl hr trivial (by simp)
    · exact h.onward way hb h.asserts rfl rfl (by simp) (.taking ie rfl signalled
        (way.keep rfl rfl rfl way.busy rfl) ⟨fresh.state,fresh.begun,fresh.todo⟩ fun _ _ => hr)
  | driveWait =>
    have hr := reason (by rw [hpc]; simp) (by rw [hpc]; simp)
    exact h.onward way hb h.asserts rfl rfl (by simp) (.taking ie rfl signalled
      (way.keep rfl rfl rfl way.busy rfl) ⟨fresh.state,fresh.begun,fresh.todo⟩ fun _ _ => hr)
  | dispatch =>
    have hr := reason (by rw [hpc]; simp) (by rw [hpc]; simp)
    have htodo := fresh.todo.resolve_left (by rw [hr]; simp)
    have hrw (htr : s.function.isTransfer=true) :
        Inv { s.note .began with pc := .enter .rwInit } :=
      hgo _ rfl rfl rfl rfl rfl rfl rfl rfl hr (.inr ⟨.inl rfl,htr,fun hx => by cases hx⟩) (by simp)
    dsimp only
    cases hf : s.function with
    | noop => exact absurd hf htodo.1
    | getStatus => exact absurd hf htodo.2
    | writeCheck | writeData | readData | readWithoutHeaderCheck => exact hrw (by rw [hf]; rfl)
    | seek => exact hgo _ rfl rfl rfl rfl rfl rfl rfl rfl hr (.inl rfl) (by simp)
    | readHeader => exact hgo _ rfl rfl rfl rfl rfl rfl rfl rfl hr trivial (by simp)

theorem Inv.stay (h : s.Inv) (hpc : s.pc≠.intr) (hd : t.docket=s.docket) (hn : t.current=s.current)
    (hf : t.failed=s.failed) (hr : t.sinceReset=s.sinceReset) (hs : t.state=s.state)
    (hh : t.host=s.host) (he : s.noErrors → t.noErrors) (hpc' : t.pc≠.intr) (hp : t.Phase) : t.Inv := by
  refine ⟨?_,hf.trans h.asserts,fun hx => ?_,fun hx => ?_,hp⟩
  · rw [hd,hn]
    exact h.books.congr ⟨fun hx => absurd hx hpc,fun hx => absurd hx hpc'⟩
  · rw [hr] at hx
    rw [hs]
    exact ⟨(h.quiet hx).1,he (h.quiet hx).2⟩
  · rw [hh] at hx
    exact he (h.cleared hx)

theorem Inv.ignore (h : s.Inv) (cancelled : .cancelled s.current∈s.docket) (function : s.function=.noop)
    (enabled : s.interruptEnable=false) (reason : s.reason=false) (place : s.Harmless)
    (signal : s.signalled → s.pc=.waiting) (state : s.state=.ready ∨ s.Resetting)
    {a : RlAnswer} (hc : s.Careful (.worker a)) : (s.workerStep a).Inv := by
  obtain ⟨hpower,hwait⟩ := hc cancelled
  unfold Harmless at place
  unfold workerStep
  cases hpc : s.pc with
  | start | enter | seek | rwWait | rw | opi | opiSet | done | raising | readying | intr =>
    rw [hpc] at place
    exact place.elim
  | waiting =>
    rw [hpc] at place
    dsimp only
    split_ifs
    · exact h.stay (by rw [hpc]; simp) rfl rfl rfl rfl rfl rfl id (by simp)
        (.overtaken cancelled function enabled reason place (fun hx => by cases hx) state)
    · exact h
  | woken =>
    have hsg : s.signalled=true → False := fun hx => by cases hpc.symm.trans (signal hx)
    rw [hpc] at place
    dsimp only
    split_ifs
    · exact h.stay (by rw [hpc]; simp) rfl rfl rfl rfl rfl rfl id (by simp)
        (.overtaken cancelled function enabled reason place (fun hx => (hsg hx).elim) state)
    · exact h.stay (by rw [hpc]; simp) rfl rfl rfl rfl rfl rfl (fun _ => rfl) (by simp)
        (.overtaken cancelled function enabled reason place (fun hx => (hsg hx).elim) state)
  | reason =>
    have hsg : s.signalled=true → False := fun hx => by cases hpc.symm.trans (signal hx)
    rw [hpc] at place
    dsimp only
    rw [if_neg (by rw [reason]; simp)]
    exact h.stay (by rw [hpc]; simp) rfl rfl rfl rfl rfl rfl id (by simp)
      (.overtaken cancelled function enabled reason place (fun hx => (hsg hx).elim) state)
  | power =>
    have hsg : s.signalled=true → False := fun hx => by cases hpc.symm.trans (signal hx)
    rw [hpc] at place
    dsimp only
    rw [if_neg (by rw [hpower hpc]; simp)]
    exact h.stay (by rw [hpc]; simp) rfl rfl rfl rfl rfl rfl id (by simp)
      (.overtaken cancelled function enabled reason place (fun hx => (hsg hx).elim) state)
  | driveWait =>
    have hsg : s.signalled=true → False := fun hx => by cases hpc.symm.trans (signal hx)
    rw [hpc] at place
    exact h.stay (by rw [hpc]; simp) rfl rfl rfl rfl rfl rfl id (by simp)
      (.overtaken cancelled function enabled reason place (fun hx => (hsg hx).elim) state)
  | dispatch =>
    have hsg : s.signalled=true → False := fun hx => by cases hpc.symm.trans (signal hx)
    rw [hpc] at place
    dsimp only
    rw [function]
    exact h.stay (by rw [hpc]; simp) rfl rfl rfl rfl rfl rfl id (by simp)
      (.overtaken cancelled rfl enabled reason place (fun hx => (hsg hx).elim) state)
  | loop =>
    have hsg : s.signalled=true → False := fun hx => by cases hpc.symm.trans (signal hx)
    rw [hpc] at place
    dsimp only at place ⊢
    split
    · exact h.stay (by rw [hpc]; simp) rfl rfl rfl rfl rfl rfl id (by simp)
        (.overtaken cancelled function enabled reason place (fun hx => (hsg hx).elim) state)
    · exact h
    all_goals
      rename_i hx
      rw [hx] at place
      rcases place with place | place <;> cases place
  | opiWait epoch =>
    have hsg : s.signalled=true → False := fun hx => by cases hpc.symm.trans (signal hx)
    rw [hpc] at place
    have hst := hwait (by rw [hpc]; rfl)
    have hne : epoch≠s.epoch := by
      rcases place with hx | hx
      · exact Nat.ne_of_lt hx
      · exact absurd hst hx.2.2
    dsimp only
    rw [if_neg hne]
    exact h.stay (by rw [hpc]; simp) rfl rfl rfl rfl rfl rfl id (by simp)
      (.overtaken cancelled function enabled reason (.inl hst) (fun hx => (hsg hx).elim) state)

theorem Inv.intr (h : s.Inv) (hpc : s.pc=.intr) (signalled : s.signalled=false)
    (reason : s.reason=false) (state : s.state=.ready) (enabled : s.interruptEnable)
    (accepted : .accepted s.current true∈s.docket) (finished : .finished s.current∈s.docket)
    (kept : .cancelled s.current∉s.docket) (silent : .did s.current .interrupt∉s.docket)
    (a : RlAnswer) : (s.workerStep a).Inv := by
  unfold workerStep
  rw [hpc]
  refine ⟨h.books.interrupt accepted finished kept silent,?_,h.quiet,h.cleared,
    .rest (.inr (.inr rfl)) signalled state reason fun i ho => ho.2 (.inr (mem_cons_of_mem _ finished))⟩
  show (s.failed || !s.interruptEnable || s.state≠.ready)=false
  rw [h.asserts,enabled,state]
  rfl

theorem Inv.worker {a : RlAnswer} (h : s.Inv) (hc : s.Careful (.worker a)) : (s.workerStep a).Inv := by
  cases h.phase with
  | rest pc signalled state reason settled =>
    unfold workerStep
    rcases pc with hpc | hpc | hpc
    · rw [hpc]
      exact h.stay (by rw [hpc]; simp) rfl rfl rfl rfl rfl rfl id (by simp)
        (.rest (.inr (.inl rfl)) signalled state reason settled)
    · rw [hpc]
      dsimp only
      rw [if_neg (by rw [signalled]; simp)]
      exact h
    · rw [hpc]
      dsimp only
      split
      · exact h.stay (by rw [hpc]; simp) rfl rfl rfl rfl rfl rfl id (by simp)
          (.rest (.inr (.inl rfl)) signalled state reason settled)
      all_goals
        rename_i hx
        cases state.symm.trans hx
  | waits ie pc way fresh signal =>
    unfold workerStep
    rw [pc]
    dsimp only
    split_ifs with hs
    · exact h.onward way (h.quietBooks (by rw [pc]; simp)) h.asserts rfl rfl (by simp) (.taking ie rfl rfl
        (way.keep rfl rfl rfl way.busy rfl) ⟨fresh.state,fresh.begun,fresh.todo⟩
        fun hx _ => absurd rfl hx)
    · exact h
  | taking ie pc signalled way fresh reason => exact h.take pc signalled way fresh reason a
  | executing ie signalled reason way place => exact h.execute signalled reason way place a
  | raising pc signalled reason state enabled accepted finished kept silent =>
    exact h.intr pc signalled reason state enabled accepted finished kept silent a
  | overtaken cancelled function enabled reason place signal state =>
    exact h.ignore cancelled function enabled reason place signal state hc

theorem Inv.block (h : s.Inv) (hh : s.host=.idle) (hs : s.state=.ready) (value : Nat) :
    Inv { s with host := .blocked value } := by
  refine ⟨h.books,h.asserts,h.quiet,fun hx => (by cases hx),?_⟩
  cases h.phase with
  | rest pc signalled state reason settled => exact .rest pc signalled state reason settled
  | waits ie pc way | taking ie pc signalled way => exact absurd hs way.busy
  | executing ie signalled reason way => exact absurd hs way.busy
  | raising pc signalled reason state enabled accepted finished kept silent host =>
    refine .raising pc signalled reason state enabled accepted finished kept silent ?_
    intro hx
    rcases hx with hx | hx | hx <;> cases hx
  | overtaken cancelled function enabled reason place signal state =>
    refine .overtaken cancelled function enabled reason ?_ signal (.inl hs)
    unfold Harmless at *
    cases hpc : s.pc with
    | opiWait epoch =>
      rw [hpc] at place
      refine .inl (place.resolve_right fun hx => ?_)
      cases hh.symm.trans hx.1
    | start | waiting | woken | reason | power | driveWait | dispatch | enter | loop | seek | rwWait | rw
    | opi | opiSet | done | raising | readying | intr =>
      rw [hpc] at place
      exact place

theorem Inv.free {value : Nat} (h : s.Inv) (hh : s.host=.blocked value) (hm : s.mutexFree) :
    s.state=.ready ∧ s.reason=false ∧ s.pc≠.intr ∧ (∀ i,¬s.docket.Open s.current i) ∧
      (s.pc=.start ∧ s.signalled=false ∨ s.pc=.waiting) := by
  have hpc : s.pc=.start ∨ s.pc=.waiting := by simpa [mutexFree] using hm
  cases h.phase with
  | rest pc signalled state reason settled =>
    refine ⟨state,reason,?_,settled,hpc.imp_left fun hx => ⟨hx,signalled⟩⟩
    rcases hpc with hx | hx
    all_goals
      rw [hx]
      simp
  | waits ie pc way | taking ie pc signalled way => cases way.host.symm.trans hh
  | executing ie signalled reason way => cases way.host.symm.trans hh
  | raising pc =>
    rcases hpc with hx | hx
    all_goals cases pc.symm.trans hx
  | overtaken cancelled function enabled reason place signal state =>
    have hst : s.state=.ready := by
      rcases state with hx | hx | hx | hx
      · exact hx
      all_goals cases hh.symm.trans hx
    have hw : s.pc=.waiting := by
      rcases hpc with hx | hx
      · unfold Harmless at place
        rw [hx] at place
        exact place.elim
      · exact hx
    exact ⟨hst,reason,by rw [hw]; simp,fun i ho => ho.2 (.inl cancelled),.inr hw⟩

theorem isDelayed_todo {value : Nat} {seeks answers : Bool} (h : isDelayed value seeks answers) :
    ofBits (value/2%8)=.getStatus ∨ ofBits (value/2%8)≠.noop ∧ ofBits (value/2%8)≠.getStatus := by
  unfold isDelayed at h
  cases hf : ofBits (value/2%8) with
  | getStatus => exact .inl rfl
  | noop =>
    rw [hf] at h
    cases h
  | writeCheck | seek | readHeader | writeData | readData | readWithoutHeaderCheck =>
    exact .inr ⟨by simp,by simp⟩

theorem Inv.atOnce (h : s.Inv) (hpc : s.pc=.start ∨ s.pc=.waiting) (hno : ∀ i,¬s.docket.Open s.current i)
    (signalled : s.signalled=false) {u : RlSeat} (hd : u.docket=.accepted (s.current+1) u.interruptEnable ::
      s.docket) (hn : u.current=s.current+1) (hf : u.failed=false) (hq : u.sinceReset=false)
    (hh : u.host=.idle) (hup : u.pc=s.pc) (hus : u.signalled=s.signalled) (hur : u.reason=false) :
    u.doneAtOnce.Inv := by
  have hpi : s.pc≠.intr := by
    rcases hpc with hx | hx
    all_goals
      rw [hx]
      simp
  have hrest (t : RlSeat) (htp : t.pc=u.pc) (hts : t.signalled=u.signalled) (htr : t.reason=u.reason)
      (htst : t.state=.ready) (ho : .finished t.current∈t.docket) : t.Phase := by
    refine .rest ?_ (hts.trans (hus.trans signalled)) htst (htr.trans hur) fun i hi => hi.2 (.inr ho)
    rw [htp,hup]
    exact hpc.imp_right .inl
  have hacc := (h.quietBooks hpi).accept (b := u.interruptEnable) hno (q := False) id
  rw [← hd,← hn] at hacc
  have hopen : u.docket.Open u.current u.interruptEnable := by
    rw [hd,hn]
    exact ⟨mem_cons_self,fun hx => h.books.below.not_over (over_accepted.mp hx)⟩
  have hnew (e : RlEffect) : .did u.current e∉u.docket := by
    rw [hd,hn]
    intro hx
    exact Nat.lt_irrefl _ (h.books.below _ ((mem_cons.mp hx).resolve_left (by simp)))
  have hbegun := hacc.note hopen (e := .began) (by simp) (fun _ => hnew _)
  have hsilent : .did u.current .interrupt∉Entry.did u.current RlEffect.began::u.docket :=
    fun hx => hnew _ ((mem_cons.mp hx).resolve_left (by simp))
  have hopen' := hopen.did (j := u.current) .began
  unfold doneAtOnce
  dsimp only
  split_ifs with hie
  · have hfin := hbegun.finish hopen' hsilent (q := True) fun _ => trivial
    have hacc' : .accepted u.current true∈u.docket := by
      rw [← hie]
      exact hopen.1
    have hint := hfin.interrupt (q := False) (mem_cons_of_mem _ (mem_cons_of_mem _ hacc'))
      mem_cons_self
      (fun hx => hopen'.not_cancelled ((mem_cons.mp hx).resolve_left (by simp)))
      (fun hx => hsilent ((mem_cons.mp hx).resolve_left (by simp)))
    refine ⟨hint.congr ⟨False.elim,fun hx => hpi (hup.symm.trans hx)⟩,hf,fun hx => ?_,fun hx => ?_,
      hrest _ rfl rfl rfl rfl (mem_cons_of_mem _ mem_cons_self)⟩
    · cases hq.symm.trans hx
    · cases hh.symm.trans hx
  · have hfin := hbegun.finish hopen' hsilent (q := False) fun hx => absurd hx hie
    refine ⟨hfin.congr ⟨False.elim,fun hx => hpi (hup.symm.trans hx)⟩,hf,fun hx => ?_,fun hx => ?_,
      hrest _ rfl rfl rfl rfl mem_cons_self⟩
    · cases hq.symm.trans hx
    · cases hh.symm.trans hx

theorem Inv.writeCs {value : Nat} {seeks answers : Bool} (h : s.Inv) (hh : s.host=.blocked value)
    (hm : s.mutexFree) (hc : s.Careful (.acquire seeks answers)) : (s.writeCs value seeks answers).Inv := by
  obtain ⟨hst,hre,hpi,hno,hpc⟩ := h.free hh hm
  obtain ⟨hstart,hstale⟩ := hc
  rw [hh] at hstart hstale
  dsimp only [RlHost.value] at hstart hstale
  have hfail : (s.failed || decide (s.state≠.ready))=false := by
    rw [h.asserts,hst]
    rfl
  have hpc' : s.pc=.start ∨ s.pc=.waiting := hpc.imp_left And.left
  unfold RlSeat.writeCs
  dsimp only
  rw [hre,Bool.not_false,Bool.and_true]
  split_ifs with hgo hdel
  · -- the worker is signalled
    have hw : s.pc=.waiting := by
      rcases hpc with hx | hx
      · exact absurd hdel (by rw [hstart hx.1 hgo]; simp)
      · exact hx
    have hacc := (h.quietBooks hpi).accept (b := decide (value/0x40%2=1)) hno (q := False) id
    have hnew (e : RlEffect) : .did (s.current+1) e ∉
        Entry.accepted (s.current+1) (decide (value/0x40%2=1))::s.docket := fun hx =>
      Nat.lt_irrefl _ (h.books.below _ ((mem_cons.mp hx).resolve_left (by simp)))
    refine ⟨hacc.congr ⟨False.elim,fun hx => hpi hx⟩,hfail,fun hx => (by cases hx),fun hx => (by cases hx),
      .waits (decide (value/0x40%2=1)) hw ⟨⟨mem_cons_self,fun hx =>
        h.books.below.not_over (over_accepted.mp hx)⟩,rfl,by simp [delay],hnew _,rfl⟩
        ⟨rfl,hnew _,?_⟩ (.inl ?_)⟩
    · rcases isDelayed_todo hdel with hx | hx
      · refine .inl ?_
        show (false || decide (ofBits (value/2%8)=.getStatus))=true
        rw [hx]
        rfl
      · exact .inr hx
    · show (s.signalled || decide (s.pc=.waiting))=true
      rw [hw]
      exact Bool.or_true _
  · have hsg : s.signalled=false := by
      by_contra hx
      exact hdel (hstale (by simpa using hx)).2
    exact h.atOnce hpc' hno hsg rfl rfl hfail rfl rfl rfl rfl rfl
  · have hsg : s.signalled=false := by
      by_contra hx
      exact hgo (hstale (by simpa using hx)).1
    refine ⟨(h.quietBooks hpi).congr ⟨False.elim,fun hx => hpi hx⟩,hfail,h.quiet,fun hx => (by cases hx),
      .rest (hpc'.imp_right .inl) hsg hst rfl hno⟩

theorem Inv.writeMp {words : Nat} (h : s.Inv) (hc : 0<words ∨ ¬s.Transferring) :
    Inv { s with wordcount := words } := by
  refine ⟨h.books,h.asserts,h.quiet,h.cleared,?_⟩
  cases h.phase with
  | rest pc signalled state reason settled => exact .rest pc signalled state reason settled
  | waits ie pc way fresh signal =>
    exact .waits ie pc (way.keep rfl rfl rfl way.busy rfl) ⟨fresh.state,fresh.begun,fresh.todo⟩ signal
  | taking ie pc signalled way fresh reason =>
    exact .taking ie pc signalled (way.keep rfl rfl rfl way.busy rfl) ⟨fresh.state,fresh.begun,fresh.todo⟩
      reason
  | executing ie signalled reason way place =>
    refine .executing ie signalled reason (way.keep rfl rfl rfl way.busy rfl) ?_
    have hpos (ht : s.Transferring) : 0<words := hc.resolve_right (not_not.mpr ht)
    unfold Place at *
    dsimp only
    cases hpc : s.pc with
    | enter next =>
      rw [hpc] at place
      refine place.imp_right fun hm => ⟨hm.1,hm.2.1,fun hx => hpos (.inr (.inl ?_))⟩
      rw [hpc,hx]
    | loop =>
      rw [hpc] at place
      exact place.imp_right fun hm => ⟨hm.1,hm.2.1,fun hx => hpos (.inl hx)⟩
    | rwWait =>
      rw [hpc] at place
      refine ⟨place.1,fun _ => hpos ?_⟩
      rcases place.1.1 with hx | hx
      · exact .inr (.inr ⟨hx,.inl hpc⟩)
      · exact .inl hx
    | rw =>
      rw [hpc] at place
      refine ⟨place.1,fun _ => hpos ?_⟩
      rcases place.1.1 with hx | hx
      · exact .inr (.inr ⟨hx,.inr hpc⟩)
      · exact .inl hx
    | start | waiting | woken | reason | power | driveWait | dispatch | seek | opi | opiWait | opiSet | done
    | raising | readying | intr =>
      rw [hpc] at place
      exact place
  | raising pc signalled reason state enabled accepted finished kept silent host =>
    exact .raising pc signalled reason state enabled accepted finished kept silent host
  | overtaken cancelled function enabled reason place signal state =>
    exact .overtaken cancelled function enabled reason place signal state

theorem Inv.init (h : s.Inv) : Inv { s with initAsserted := true } := by
  refine ⟨h.books,h.asserts,h.quiet,h.cleared,?_⟩
  cases h.phase with
  | rest pc signalled state reason settled => exact .rest pc signalled state reason settled
  | waits ie pc way fresh signal =>
    exact .waits ie pc (way.keep rfl rfl rfl way.busy rfl) ⟨fresh.state,fresh.begun,fresh.todo⟩ (.inr rfl)
  | taking ie pc signalled way fresh reason =>
    exact .taking ie pc signalled (way.keep rfl rfl rfl way.busy rfl) ⟨fresh.state,fresh.begun,fresh.todo⟩
      reason
  | executing ie signalled reason way place =>
    exact .executing ie signalled reason (way.keep rfl rfl rfl way.busy rfl) place
  | raising pc signalled reason state enabled accepted finished kept silent host =>
    exact .raising pc signalled reason state enabled accepted finished kept silent host
  | overtaken cancelled function enabled reason place signal state =>
    exact .overtaken cancelled function enabled reason place signal state

theorem resetBegin_docket (s : RlSeat) (init : Bool) : (s.resetBegin init).docket=s.docket ∨
      .finished s.current∉s.docket ∧ (s.resetBegin init).docket=.cancelled s.current::s.docket := by
  unfold resetBegin
  by_cases hf : .finished s.current∈s.docket
  · exact .inl (if_pos hf)
  · exact .inr ⟨hf,if_neg hf⟩

theorem Inv.resetBegin {init : Bool} (h : s.Inv) (hh : s.host=.idle) (hr : s.AtRest) : (s.resetBegin init).Inv := by
  have hpi : s.pc≠.intr := by
    intro hx
    unfold AtRest at hr
    rw [hx] at hr
    exact hr
  have hdocket := s.resetBegin_docket init
  have hmem {e : Entry Bool RlEffect} (he : e∈s.docket) : e∈(s.resetBegin init).docket := by
    rcases hdocket with hd | ⟨-,hd⟩
    · rw [hd]
      exact he
    · rw [hd]
      exact mem_cons_of_mem _ he
  have hopen {i : Bool} (ho : (s.resetBegin init).docket.Open s.current i) : s.docket.Open s.current i := by
    rcases hdocket with hd | ⟨-,hd⟩
    · rw [hd] at ho
      exact ho
    · rw [hd] at ho
      exact open_of_cancelled ho
  -- what was under way is overtaken
  have hover (ie : Bool) (ho : s.docket.Open s.current ie) (hpl : (s.resetBegin init).Harmless)
      (hsg : s.signalled=true → s.pc=.waiting) : (s.resetBegin init).Phase := by
    refine .overtaken ?_ rfl rfl rfl hpl hsg (.inr (.inl rfl))
    rcases hdocket with hd | ⟨-,hd⟩
    · exfalso
      have hf : .finished s.current∉s.docket := ho.not_finished
      have hd' : (s.resetBegin init).docket=.cancelled s.current::s.docket := if_neg hf
      rw [hd] at hd'
      exact absurd (congrArg List.length hd') (by simp)
    · rw [hd]
      exact mem_cons_self
  refine ⟨?_,h.asserts,h.quiet,fun hx => (by cases hx),?_⟩
  · rcases hdocket with hd | ⟨-,hd⟩
    · rw [hd]
      exact h.books
    · rw [hd]
      exact h.books.cancel
  cases h.phase with
  | rest pc signalled state reason settled =>
    exact .rest pc signalled state rfl fun i ho => settled i (hopen ho)
  | waits ie pc way fresh signal =>
    refine hover ie way.isOpen ?_ fun _ => pc
    show Harmless _
    unfold Harmless
    rw [show (s.resetBegin init).pc=s.pc from rfl,pc]
    exact .inr fresh.state
  | taking ie pc signalled way fresh reason =>
    refine hover ie way.isOpen ?_ fun hx => by cases signalled.symm.trans hx
    unfold Harmless
    cases hpc : s.pc with
    | woken | reason | power | driveWait | dispatch =>
      rw [show (s.resetBegin init).pc=s.pc from rfl,hpc]
      exact .inr fresh.state
    | start | waiting | enter | loop | seek | rwWait | rw | opi | opiWait | opiSet | done | raising | readying
    | intr =>
      rw [hpc] at pc
      cases pc
  | executing ie signalled reason way place =>
    refine hover ie way.isOpen ?_ fun hx => by cases signalled.symm.trans hx
    unfold AtRest at hr
    unfold Place at place
    unfold Harmless
    cases hpc : s.pc with
    | opiWait epoch =>
      rw [hpc] at place
      rw [show (s.resetBegin init).pc=s.pc from rfl,hpc]
      exact .inr ⟨rfl,place,way.busy⟩
    | loop =>
      rw [hpc] at hr
      exact absurd hr way.busy
    | start | waiting | woken | reason | power | driveWait | dispatch | intr =>
      rw [hpc] at place
      exact place.elim
    | enter | seek | rwWait | rw | opi | opiSet | done | raising | readying =>
      rw [hpc] at hr
      exact hr.elim
  | raising pc => exact absurd pc hpi
  | overtaken cancelled function enabled reason place signal state =>
    refine .overtaken (hmem cancelled) rfl rfl rfl ?_ signal (.inr (.inl rfl))
    unfold Harmless at *
    cases hpc : s.pc with
    | opiWait epoch =>
      rw [hpc] at place
      rw [show (s.resetBegin init).pc=s.pc from rfl,hpc]
      refine .inl (place.resolve_right fun hx => ?_)
      cases hh.symm.trans hx.1
    | start | waiting | woken | reason | power | driveWait | dispatch | enter | loop | seek | rwWait | rw
    | opi | opiSet | done | raising | readying | intr =>
      rw [hpc] at place
      rw [show (s.resetBegin init).pc=s.pc from rfl,hpc]
      exact place

theorem Phase.resetOn (h : s.Phase) (hh : s.Resetting) (hd : t.docket=s.docket)
    (hn : t.current=s.current) (hpc : t.pc=s.pc) (hsg : t.signalled=s.signalled)
    (hre : t.reason=s.reason) (hf : t.function=s.function) (hi : t.interruptEnable=s.interruptEnable)
    (hst : t.state=s.state ∨ t.state=.ready) (hend : t.state=.ready ∨ t.Resetting)
    (hep : ∀ epoch,epoch<s.epoch ∨ s.host=.resetRegisters ∧ epoch=s.epoch ∧ s.state≠.ready →
      epoch<t.epoch) : t.Phase := by
  have hno (ie : Bool) (way : s.UnderWay ie) : t.Phase := by
    rcases hh with hx | hx | hx <;> cases way.host.symm.trans hx
  cases h with
  | rest pc signalled state reason settled =>
    refine .rest (by rw [hpc]; exact pc) (hsg.trans signalled) (hst.elim (fun hx => hx.trans state) id)
      (hre.trans reason) ?_
    rw [hd,hn]
    exact settled
  | waits ie pc way | taking ie pc signalled way => exact hno ie way
  | executing ie signalled reason way => exact hno ie way
  | raising pc signalled reason state enabled accepted finished kept silent host => exact absurd hh host
  | overtaken cancelled function enabled reason place signal state =>
    refine .overtaken (by rw [hd,hn]; exact cancelled) (hf.trans function) (hi.trans enabled)
      (hre.trans reason) ?_ (by rw [hsg,hpc]; exact signal) hend
    unfold Harmless at *
    rw [hpc]
    cases hp : s.pc with
    | opiWait epoch =>
      rw [hp] at place
      exact .inl (hep epoch place)
    | waiting | woken | reason | power | driveWait | dispatch | loop =>
      rw [hp] at place
      rcases hst with hx | hx
      · dsimp only at place ⊢
        rw [hx]
        exact place
      · exact .inl hx
    | start | enter | seek | rwWait | rw | opi | opiSet | done | raising | readying | intr =>
      rw [hp] at place
      exact place

theorem Inv.resetStep (h : s.Inv) (hs : s.step .resetStep=some t) : t.Inv := by
  unfold RlSeat.step at hs
  dsimp only at hs
  cases hh : s.host with
  | idle | blocked value =>
    rw [hh] at hs
    cases hs
  | resetRegisters =>
    rw [hh] at hs
    cases hs
    refine ⟨h.books,h.asserts,h.quiet,fun hx => (by cases hx),h.phase.resetOn (.inl hh) rfl rfl rfl rfl rfl rfl
      rfl (.inl rfl) (.inr (.inr (.inl rfl))) fun epoch hx => ?_⟩
    show epoch<s.epoch+1
    rcases hx with hx | ⟨-,hx,-⟩
    · exact Nat.lt_succ_of_lt hx
    · rw [hx]
      exact Nat.lt_succ_self _
  | resetEpoch =>
    rw [hh] at hs
    cases hs
    refine ⟨h.books,h.asserts,fun hx => ⟨(h.quiet hx).1,rfl⟩,fun _ => rfl,h.phase.resetOn (.inr (.inl hh)) rfl
      rfl rfl rfl rfl rfl rfl (.inl rfl) (.inr (.inr (.inr rfl))) fun epoch hx => ?_⟩
    refine hx.resolve_right fun hy => ?_
    cases hh.symm.trans hy.1
  | resetErrors =>
    rw [hh] at hs
    cases hs
    refine ⟨h.books,h.asserts,fun _ => ⟨rfl,h.cleared hh⟩,fun hx => (by cases hx),
      h.phase.resetOn (.inr (.inr hh)) rfl rfl rfl rfl rfl rfl rfl (.inr rfl) (.inl rfl) fun epoch hx => ?_⟩
    refine hx.resolve_right fun hy => ?_
    cases hh.symm.trans hy.1

theorem Inv.step {e : RlEvent} (h : s.Inv) (hc : s.Careful e) (hs : s.step e=some t) : t.Inv := by
  cases e with
  | worker a =>
    cases hs
    exact h.worker hc
  | spurious => exact hc.elim
  | writeCs value =>
    unfold RlSeat.step at hs
    dsimp only at hs
    split_ifs at hs with hh hst
    · cases hs
      exact h.block hh hst value
    · cases hs
      exact h
  | acquire seeks answers =>
    unfold RlSeat.step at hs
    dsimp only at hs
    cases hh : s.host with
    | blocked value =>
      rw [hh] at hs
      dsimp only at hs
      split_ifs at hs with hm
      cases hs
      exact h.writeCs hh hm hc
    | idle | resetRegisters | resetEpoch | resetErrors =>
      rw [hh] at hs
      cases hs
  | writeMp words =>
    unfold RlSeat.step at hs
    dsimp only at hs
    split_ifs at hs
    cases hs
    exact h.writeMp hc
  | init =>
    unfold RlSeat.step at hs
    dsimp only at hs
    split_ifs at hs
    cases hs
    exact h.init
  | reset init =>
    unfold RlSeat.step at hs
    dsimp only at hs
    split_ifs at hs with hh
    cases hs
    exact h.resetBegin hh hc
  | resetStep => exact h.resetStep hs

theorem Inv.start : start.Inv :=
  ⟨⟨.nil,fun _ hx => absurd hx not_mem_nil,.nil,.nil,fun _ _ _ hx => absurd hx not_mem_nil,
      fun _ _ hx => absurd hx not_mem_nil,fun _ hx => absurd hx not_mem_nil,
      fun _ _ hx => absurd hx.1 not_mem_nil⟩,rfl,fun _ => ⟨rfl,rfl⟩,fun _ => rfl,
    .rest (.inl rfl) rfl rfl rfl fun _ hx => absurd hx.1 not_mem_nil⟩

theorem Inv.safe (h : s.Inv) : s.Safe :=
  ⟨h.books.orderly,h.books.begun,h.books.once,h.books.interrupts,h.books.after,h.quiet,h.asserts⟩

/-- How many steps the worker has before it until the command in hand is finished, at most, but for looks that
find another sector -/
def toEnd (s : RlSeat) : Nat :=
  match s.pc with
  | .start => 4*s.wordcount+20
  | .waiting => 4*s.wordcount+19
  | .woken => 4*s.wordcount+18
  | .reason => 4*s.wordcount+17
  | .power => 4*s.wordcount+16
  | .driveWait => 4*s.wordcount+15
  | .dispatch => 4*s.wordcount+14
  | .enter .rwDisk => 4*s.wordcount+9
  | .enter _ => 4*s.wordcount+13
  | .loop => if s.state=.rwDisk then 4*s.wordcount+8 else 4*s.wordcount+12
  | .rwWait => if s.state=.rwDisk then 4*max s.cmdWordcount s.wordcount+7
    else 4*max s.cmdWordcount s.wordcount+11
  | .rw => if s.state=.rwDisk then 4*max s.cmdWordcount s.wordcount+6
    else 4*max s.cmdWordcount s.wordcount+10
  | .seek => 6
  | .opi => 5
  | .opiWait _ => 4
  | .opiSet => 3
  | .done => 2
  | .raising | .readying | .intr => 1

def RlAnswer.misses (a : RlAnswer) : Nat := if a.sector=.elsewhere then 3 else 0

theorem workerStep_docket (s : RlSeat) (a : RlAnswer) : (s.workerStep a).current=s.current ∧
    (s.workerStep a).initAsserted=s.initAsserted ∧ ∃ es,(s.workerStep a).docket=es++s.docket ∧
      ∀ i,.cancelled i∉es := by
  have hnone {t : RlSeat} (h1 : t.current=s.current) (h2 : t.initAsserted=s.initAsserted)
      (h3 : t.docket=s.docket) : t.current=s.current ∧ t.initAsserted=s.initAsserted ∧
        ∃ es,t.docket=es++s.docket ∧ ∀ i,.cancelled i∉es := ⟨h1,h2,[],h3,fun i hx => by cases hx⟩
  have hone {t : RlSeat} {x : Entry Bool RlEffect} (h1 : t.current=s.current)
      (h2 : t.initAsserted=s.initAsserted) (h3 : t.docket=x::s.docket)
      (hx : ∀ i,x≠.cancelled i) : t.current=s.current ∧
        t.initAsserted=s.initAsserted ∧ ∃ es,t.docket=es++s.docket ∧ ∀ i,.cancelled i∉es :=
    ⟨h1,h2,[x],h3,fun i hm => hx i (mem_singleton.mp hm).symm⟩
  unfold workerStep
  cases hpc : s.pc with
  | start | driveWait | enter | opi | opiWait | done | seek | rwWait => exact hnone rfl rfl rfl
  | waiting | woken =>
    dsimp only
    split_ifs <;> exact hnone rfl rfl rfl
  | reason | power =>
    dsimp only
    split_ifs
    · exact hone rfl rfl rfl fun i hx => by cases hx
    · exact hnone rfl rfl rfl
  | dispatch =>
    dsimp only
    split
    all_goals first | exact hnone rfl rfl rfl | exact hone rfl rfl rfl fun i hx => by cases hx
  | loop =>
    dsimp only
    split <;> exact hnone rfl rfl rfl
  | rw =>
    have htwo {t : RlSeat} {x y : Entry Bool RlEffect} (h1 : t.current=s.current)
        (h2 : t.initAsserted=s.initAsserted) (h3 : t.docket=x::y::s.docket)
        (hx : ∀ i,x≠.cancelled i) (hy : ∀ i,y≠.cancelled i) : t.current=s.current ∧
          t.initAsserted=s.initAsserted ∧ ∃ es,t.docket=es++s.docket ∧ ∀ i,.cancelled i∉es := by
      refine ⟨h1,h2,[x,y],h3,fun i hm => ?_⟩
      rcases mem_cons.mp hm with hm | hm
      · exact hx i hm.symm
      · exact hy i (mem_singleton.mp hm).symm
    dsimp only
    unfold RlSeat.readwrite
    split
    · exact hnone rfl rfl rfl
    · split_ifs
      · exact hnone rfl rfl rfl
      · cases a.sector with
        | elsewhere => exact hnone rfl rfl rfl
        | offTrack => exact hone rfl rfl rfl fun i hx => by cases hx
        | timeout => exact htwo rfl rfl rfl (fun i hx => by cases hx) fun i hx => by cases hx
        | moved differs =>
          dsimp only
          unfold RlSeat.sectorMoved
          dsimp only
          split_ifs
          · exact htwo rfl rfl rfl (fun i hx => by cases hx) fun i hx => by cases hx
          all_goals exact hone rfl rfl rfl fun i hx => by cases hx
    all_goals exact hnone rfl rfl rfl
  | opiSet | raising | intr => exact hone rfl rfl rfl fun i hx => by cases hx
  | readying =>
    by_cases hs : s.state=.ready
    · exact hnone rfl rfl (if_pos hs)
    · exact hone rfl rfl (if_neg hs) fun i hx => by cases hx

theorem sectorMoved_toEnd (s : RlSeat) (differs : Bool) (hc : 0<s.cmdWordcount) :
    (s.sectorMoved differs).toEnd<4*s.cmdWordcount+6 := by
  have hgo (t : RlSeat) (hp : t.pc=afterSector s.cmdWordcount) (hw : t.wordcount=s.cmdWordcount-128) :
      t.toEnd<4*s.cmdWordcount+6 := by
    unfold toEnd
    unfold afterSector at hp
    split_ifs at hp
    · rw [hp]
      dsimp only
      omega
    · rw [hp,hw]
      dsimp only
      omega
  unfold sectorMoved
  dsimp only
  split_ifs
  all_goals exact hgo _ rfl rfl

theorem Inv.nearer (h : s.Inv) (ho : s.docket.Open s.current ie) (hi : s.initAsserted=false)
    (a : RlAnswer) : (s.workerStep a).toEnd<s.toEnd+RlAnswer.misses a ∨
      .finished s.current∈(s.workerStep a).docket := by
  have hle {m : Nat} (hm : m<s.toEnd) : m<s.toEnd+RlAnswer.misses a :=
    Nat.lt_of_lt_of_le hm (Nat.le_add_right _ _)
  cases h.phase with
  | rest pc signalled state reason settled => exact absurd ho (settled ie)
  | overtaken cancelled => exact absurd (.inl cancelled) ho.2
  | raising pc signalled reason state enabled accepted finished => exact absurd (.inr finished) ho.2
  | waits ie' pc way fresh signal =>
    have hs : s.signalled=true := signal.resolve_right (by rw [hi]; simp)
    refine .inl (hle ?_)
    unfold workerStep
    unfold toEnd
    rw [pc]
    dsimp only
    rw [if_pos hs]
    dsimp only
    omega
  | taking ie' pc signalled way fresh reason =>
    refine .inl (hle ?_)
    unfold workerStep
    unfold toEnd
    cases hpc : s.pc with
    | woken =>
      dsimp only
      rw [if_neg (by rw [hi]; simp)]
      dsimp only [clearErrors]
      omega
    | reason =>
      dsimp only
      by_cases hr : s.reason=true
      · rw [if_pos hr]
        dsimp only
        omega
      · rw [if_neg hr]
        dsimp only
        omega
    | power =>
      dsimp only
      by_cases hp : a.poweredOff=true
      · rw [if_pos hp]
        dsimp only
        omega
      · rw [if_neg hp]
        dsimp only
        omega
    | driveWait =>
      dsimp only
      omega
    | dispatch =>
      have htodo := fresh.todo.resolve_left (by rw [reason (by rw [hpc]; simp) (by rw [hpc]; simp)]; simp)
      dsimp only
      cases hf : s.function with
      | noop => exact absurd hf htodo.1
      | getStatus => exact absurd hf htodo.2
      | writeCheck | writeData | readData | readWithoutHeaderCheck | seek | readHeader =>
        dsimp only [RlSeat.note]
        omega
    | start | waiting | enter | loop | seek | rwWait | rw | opi | opiWait | opiSet | done | raising | readying
    | intr =>
      rw [hpc] at pc
      cases pc
  | executing ie' signalled reason way place =>
    unfold Place at place
    cases hpc : s.pc with
    | enter next | loop =>
      rw [hpc] at place
      refine .inl (hle ?_)
      unfold workerStep toEnd
      rw [hpc]
      dsimp only at place ⊢
      rcases place with hx | ⟨hx | hx,-⟩
      all_goals
        rw [hx]
        simp
    | seek | done =>
      refine .inl (hle ?_)
      unfold workerStep toEnd
      rw [hpc]
      dsimp only
      split_ifs <;> simp
    | rwWait =>
      refine .inl (hle ?_)
      unfold workerStep toEnd
      rw [hpc]
      dsimp only
      by_cases hr : a.ready=true
      · rw [if_pos hr]
        dsimp only
        split_ifs <;> omega
      · rw [if_neg hr]
        dsimp only
        split_ifs <;> omega
    | rw =>
      rw [hpc] at place
      obtain ⟨⟨hst,-,hcount⟩,hmp⟩ := place
      have hw : s.workerStep a=s.readwrite a.sector := by
        unfold workerStep
        rw [hpc]
      rw [hw]
      refine .inl ?_
      rcases hst with hst | hst
      · have hs : s.toEnd=4*max s.cmdWordcount s.wordcount+10 := by
          unfold toEnd
          rw [hpc]
          exact if_neg (by rw [hst]; simp)
        refine hle ?_
        rw [hs]
        unfold RlSeat.readwrite toEnd
        rw [hst]
        dsimp only
        by_cases hc : s.cmdWordcount=0
        · rw [if_pos hc]
          dsimp only
          omega
        · rw [if_neg hc]
          dsimp only [clearErrors]
          omega
      · have hpos := hcount hst
        have hs : s.toEnd=4*max s.cmdWordcount s.wordcount+6 := by
          unfold toEnd
          rw [hpc]
          exact if_pos hst
        rw [hs]
        unfold RlSeat.readwrite
        split
        · rename_i hx
          cases hst.symm.trans hx
        · rw [if_neg (Nat.ne_of_gt hpos)]
          cases hsec : a.sector with
          | elsewhere =>
            have hm : RlAnswer.misses a=3 := if_pos hsec
            have ht : toEnd { s with pc := .loop }=4*s.wordcount+8 := if_pos hst
            show toEnd { s with pc := .loop } < _
            rw [hm,ht]
            omega
          | offTrack | timeout =>
            show 5 < _
            omega
          | moved differs =>
            have ht := s.sectorMoved_toEnd differs hpos
            show (s.sectorMoved differs).toEnd < _
            omega
        all_goals
          rename_i hx
          cases hst.symm.trans hx
    | opi | opiSet =>
      refine .inl (hle ?_)
      unfold workerStep toEnd
      rw [hpc]
      dsimp only
      omega
    | opiWait epoch =>
      rw [hpc] at place
      refine .inl (hle ?_)
      unfold workerStep toEnd
      rw [hpc]
      dsimp only at place ⊢
      rw [if_pos place]
      dsimp only
      omega
    | raising =>
      refine .inr ?_
      unfold workerStep
      rw [hpc]
      exact mem_cons_self
    | readying =>
      refine .inr ?_
      unfold workerStep
      rw [hpc]
      dsimp only
      rw [if_neg way.busy]
      exact mem_cons_self
    | start | waiting | woken | reason | power | driveWait | dispatch | intr =>
      rw [hpc] at place
      exact place.elim

def work (s : RlSeat) (answers : List RlAnswer) : RlSeat := answers.foldl workerStep s

def missed : List RlAnswer → Nat
  | [] => 0
  | a::answers => RlAnswer.misses a+missed answers

theorem work_docket (s : RlSeat) (answers : List RlAnswer) : ∃ es,(s.work answers).docket=es++s.docket := by
  induction answers generalizing s with
  | nil => exact ⟨[],rfl⟩
  | cons a answers ih =>
    obtain ⟨-,-,es,hes,-⟩ := s.workerStep_docket a
    obtain ⟨fs,hfs⟩ := ih (s.workerStep a)
    refine ⟨fs++es,?_⟩
    show ((s.workerStep a).work answers).docket=_
    rw [hfs,hes,List.append_assoc]

theorem Inv.workInv {answers : List RlAnswer} (h : s.Inv) (hc : .cancelled s.current∉s.docket) :
    (s.work answers).Inv := by
  induction answers generalizing s with
  | nil => exact h
  | cons a answers ih =>
    obtain ⟨hcur,-,es,hes,hno⟩ := s.workerStep_docket a
    refine ih (h.worker fun hx => absurd hx hc) ?_
    rw [hcur,hes]
    exact fun hx => (mem_append.mp hx).elim (hno _) hc

theorem Inv.work {answers : List RlAnswer} (h : s.Inv) (ho : s.docket.Open s.current ie)
    (hi : s.initAsserted=false) (hl : s.toEnd+missed answers≤answers.length) :
    .finished s.current∈(s.work answers).docket := by
  induction answers generalizing s with
  | nil =>
    exfalso
    have h0 : s.toEnd=0 := Nat.le_zero.mp (Nat.le_trans (Nat.le_add_right _ _) hl)
    unfold toEnd at h0
    split at h0
    all_goals try split_ifs at h0
    all_goals omega
  | cons a answers ih =>
    obtain ⟨hcur,hinit,es,hes,hno⟩ := s.workerStep_docket a
    have hc : s.Careful (.worker a) := fun hx => absurd (.inl hx) ho.2
    have hinv := h.worker hc
    show .finished s.current∈((s.workerStep a).work answers).docket
    by_cases hf : .finished s.current∈(s.workerStep a).docket
    · obtain ⟨fs,hfs⟩ := (s.workerStep a).work_docket answers
      rw [hfs]
      exact mem_append_right _ hf
    · have hlt := (h.nearer ho hi a).resolve_right hf
      have ho' : (s.workerStep a).docket.Open (s.workerStep a).current ie := by
        rw [hcur]
        refine ⟨by rw [hes]; exact mem_append_right _ ho.1,fun hx => ?_⟩
        rcases hx with hx | hx
        · rw [hes] at hx
          rcases mem_append.mp hx with hy | hy
          · exact hno _ hy
          · exact ho.2 (.inl hy)
        · exact hf hx
      rw [← hcur]
      refine ih hinv ho' (hinit.trans hi) ?_
      have hm : missed (a::answers)=RlAnswer.misses a+missed answers := rfl
      rw [hm,length_cons] at hl
      omega

instance (s : RlSeat) : Decidable s.AtRest := by
  unfold AtRest
  split <;> infer_instance

instance (s : RlSeat) : Decidable s.Transferring :=
  inferInstanceAs (Decidable (_=_ ∨ _=_ ∨ _=_ ∧ (_=_ ∨ _=_)))

instance (s : RlSeat) : (e : RlEvent) → Decidable (s.Careful e)
  | .worker _ => inferInstanceAs (Decidable (_∈_ → (_=_ → _=_) ∧ (_=_ → _=_)))
  | .spurious => isFalse id
  | .acquire _ _ => inferInstanceAs (Decidable ((_=_ → _=_ → _=_) ∧ (_=_ → _=_ ∧ _=_)))
  | .writeMp _ => inferInstanceAs (Decidable (_ < _ ∨ ¬Transferring _))
  | .reset _ => inferInstanceAs (Decidable (AtRest _))
  | .writeCs _ | .init | .resetStep => isTrue trivial

def found : RlAnswer := ⟨false,true,.moved false⟩

/-- A Write of 200 words with an interrupt, and `n` steps of the worker -/
def writeTwo (n : Nat) : List RlEvent :=
  [.worker found,.writeMp 200,.writeCs 0x4a,.acquire true true]++replicate n (.worker found)

/-- A bus INIT between two sectors of a transfer, and two further steps of the worker -/
def resetInTransfer : List RlEvent :=
  writeTwo 14++[.reset true,.resetStep,.resetStep,.resetStep,.worker found,.worker found]

end RlSeat

end QUniLator.Disks
