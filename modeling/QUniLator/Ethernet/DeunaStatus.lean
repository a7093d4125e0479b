import Mathlib.Data.BitVec
import Mathlib.Tactic.IntervalCases
import QUniLator.Framework.Run

namespace QUniLator.Ethernet.Deuna

open Option BitVec

abbrev Word := BitVec 16

/-! The bits of PCSR0 -/

def pcsr0Seri : Word := 0o100000

def pcsr0Pcei : Word := 0o040000

def pcsr0Rxi : Word := 0o020000

def pcsr0Txi : Word := 0o010000

def pcsr0Dni : Word := 0o004000

def pcsr0Rcbi : Word := 0o002000

def pcsr0Fatl : Word := 0o001000

def pcsr0Usci : Word := 0o000400

def pcsr0Intr : Word := 0o000200

def pcsr0Inte : Word := 0o000100

def pcsr0Pcmd : Word := 0o000017

def pcsr0W1cMask : Word := 0o177400

/-- The changes of PCSR0 under `state_mutex`, each a read and a write: the status bits the worker sets, those that the
self-test clears, the INTE toggle and the command field of a register write, and the reset -/
inductive Change
  | seri | pcei | rxi | txi | dni | rcbi
  | clearUsci
  | clearFatl
  | toggleInte
  | clearPcmd
  | setPcmd (data : Word)
  | reset
  deriving DecidableEq,Repr

def Change.apply (w : Word) : Change → Word
  | .seri => w ||| pcsr0Seri
  | .pcei => w ||| pcsr0Pcei
  | .rxi => w ||| pcsr0Rxi
  | .txi => w ||| pcsr0Txi
  | .dni => w ||| pcsr0Dni
  | .rcbi => w ||| pcsr0Rcbi
  | .clearUsci => w &&& ~~~pcsr0Usci
  | .clearFatl => w &&& ~~~pcsr0Fatl
  | .toggleInte => w ^^^ pcsr0Inte
  | .clearPcmd => w &&& ~~~pcsr0Pcmd
  | .setPcmd data => w ||| (data &&& pcsr0Pcmd)
  | .reset => pcsr0Dni

/-- Where a thread is. `changing` has read PCSR0, `changed` has written it, the others are in `update_intr`: `decided`
knows whether a status bit is set, `summing` has read PCSR0, `summed` is about to show the registers, `shown` to look
at INTE, `rearmed` has cancelled the request. -/
inductive Phase
  | idle
  | changing (c : Change) (read : Word)
  | changed
  | decided (any : Bool)
  | summing (any : Bool) (read : Word)
  | summed (any : Bool)
  | shown (any : Bool)
  | rearmed (any : Bool)
  deriving DecidableEq,Repr

/-- `deuna_c`, with the register callback (`host`) and the threads that `state_mutex` lets in one at a time
(`worker`). `granted` tells that the request raised last has been granted. -/
structure State where
  pcsr0 : Word
  register : Word
  irq : Bool
  pending : Bool
  granted : Bool
  host : Phase
  worker : Phase
  deriving DecidableEq,Repr

namespace State

def any (s : State) : Bool := s.pcsr0 &&& pcsr0W1cMask≠0

def intr (s : State) : Bool := s.pcsr0 &&& pcsr0Intr≠0

def inte (s : State) : Bool := s.pcsr0 &&& pcsr0Inte≠0

/-- `cancel_INTR()`, where a request had been raised -/
def cancel (s : State) : State :=
  if s.irq then { s with irq := false,pending := false,granted := false } else s

/-- `INTR()` -/
def raise (s : State) : State := { s with irq := true,pending := true }

def next (s : State) : Phase → Option (Phase × State)
  | .idle => none
  | .changing c read => some (.changed,{ s with pcsr0 := c.apply read })
  | .changed => some (.decided s.any,s)
  | .decided any => some (.summing any s.pcsr0,s)
  | .summing any read =>
    some (.summed any,{ s with pcsr0 := if any then read ||| pcsr0Intr else read &&& ~~~pcsr0Intr })
  | .summed any => some (.shown any,{ s with register := s.pcsr0 })
  | .shown any => some (if s.inte then .rearmed any else .idle,s.cancel)
  | .rearmed any => some (.idle,if any then s.raise else s)

end State

/-- What happens: the host writes ones over status bits, a thread of the worker begins a change or calls
`update_intr`, either goes on, a ring with too short entries makes the worker leave without it, and the interrupt is
taken. -/
inductive Event
  | hostClear (mask : Word)
  | hostGo
  | begin (c : Change)
  | update
  | workerGo
  | leave
  | grant
  deriving DecidableEq,Repr

namespace State

def step (s : State) : Event → Option State
  | .hostClear mask =>
    if s.host=.idle ∧ mask &&& pcsr0W1cMask≠0 then
      some { s with pcsr0 := s.pcsr0 &&& ~~~(mask &&& pcsr0W1cMask),host := .changed } else none
  | .hostGo => (s.next s.host).map fun x => { x.2 with host := x.1 }
  | .begin c =>
    if s.worker=.idle ∨ s.worker=.changed then some { s with worker := .changing c s.pcsr0 }
    else none
  | .update => if s.worker=.idle then some { s with worker := .changed } else none
  | .workerGo => (s.next s.worker).map fun x => { x.2 with worker := x.1 }
  | .leave => if s.worker=.changed then some { s with worker := .idle } else none
  | .grant => if s.pending then some { s with pending := false,granted := true } else none

end State

def Change.own : Change → Word
  | .seri => pcsr0Seri
  | .pcei => pcsr0Pcei
  | .rxi => pcsr0Rxi
  | .txi => pcsr0Txi
  | .dni => pcsr0Dni
  | .rcbi => pcsr0Rcbi
  | .clearUsci => pcsr0Usci
  | .clearFatl => pcsr0Fatl
  | .toggleInte | .clearPcmd | .setPcmd _ => 0
  | .reset => pcsr0W1cMask

namespace Phase

def sums : Phase → Bool
  | .changing _ _ | .changed | .decided _ | .summing _ _ => true
  | .idle | .summed _ | .shown _ | .rearmed _ => false

def rearms : Phase → Bool
  | .changing _ _ | .changed | .decided _ | .summing _ _ | .summed _ | .shown _ => true
  | .idle | .rearmed _ => false

end Phase

namespace State

def level (s : State) : Bool := s.any && s.inte

/-- The next step of a thread writes back no status bits that changed since it read PCSR0; and where what it knows is
out of date, the other thread has its own such step first. -/
def current (s : State) (other : Phase) : Phase → Bool
  | .changing c read => (s.pcsr0 ^^^ read) &&& pcsr0W1cMask &&& ~~~c.own=0
  | .summing any read => (s.pcsr0 ^^^ read) &&& pcsr0W1cMask=0 && (any=s.any || other.sums)
  | .rearmed any => any=s.level || other.rearms
  | .idle | .changed | .decided _ | .summed _ | .shown _ => true

/-- The threads work with current values, and the worker leaves without `update_intr` only where INTR and
the request are right, or the callback has yet to see to them. -/
def keeps (s : State) : Event → Bool
  | .hostGo => s.current s.worker s.host
  | .workerGo => s.current s.host s.worker
  | .leave => (s.intr=s.any || s.host.sums) && (s.irq=s.level || s.host.rearms)
  | .hostClear _ | .begin _ | .update | .grant => true

/-- A state with the status bits that there have to be: what the worker has set, less what the host has
cleared since -/
abbrev Expecting := State × Word

def expected (w : Word) : Phase → Word
  | .changing c _ => c.apply w
  | .idle | .changed | .decided _ | .summing _ _ | .summed _ | .shown _ | .rearmed _ => w

def expectedAfter (s : State) (w : Word) : Event → Word
  | .hostClear mask => w &&& ~~~(mask &&& pcsr0W1cMask)
  | .hostGo => expected w s.host
  | .workerGo => expected w s.worker
  | .begin _ | .update | .leave | .grant => w

def stepExpecting (x : Expecting) (e : Event) : Option Expecting :=
  (x.1.step e).map fun t => (t,x.1.expectedAfter x.2 e)

def start : State := ⟨0,0,false,false,false,.idle,.idle⟩

def Presented (s : State) : Prop := s.pending ∨ s.granted

/-- The status bits are those that there have to be. Where all threads are done, INTR is set and a request
stands exactly when a status bit and INTE are set. -/
structure Right (s : State) (w : Word) : Prop where
  status : s.pcsr0 &&& pcsr0W1cMask=w &&& pcsr0W1cMask
  settled : s.host=.idle → s.worker=.idle → (s.pcsr0 &&& pcsr0Intr≠0 ∧ s.Presented ↔ s.any ∧ s.inte)

end State

section
variable {a b m own : Word}

theorem eq_on_iff : a &&& m=b &&& m ↔ ∀ i (hi : i<16),m[i] → a[i]=b[i] := by
  constructor
  · intro h i hi hm
    have hz := congrArg (fun w : Word => w.getLsbD i) h
    simpa [getLsbD_eq_getElem hi,hm] using hz
  · intro h
    ext i hi
    rw [getElem_and,getElem_and]
    cases hm : m[i] with
    | false => rw [Bool.and_false,Bool.and_false]
    | true => rw [h i hi hm]

theorem xor_on_iff : (a ^^^ b) &&& m &&& ~~~own=0 ↔ ∀ i (hi : i<16),m[i] → own[i]=false → a[i]=b[i] := by
  have hbool : ∀ x y z o : Bool,((x ^^ y) && z && !o)=false ↔ (z → o=false → x=y) := by decide
  constructor
  · intro h i hi
    have hz := congrArg (fun w : Word => w.getLsbD i) h
    exact (hbool _ _ _ _).mp (by simpa [getLsbD_eq_getElem hi] using hz)
  · intro h
    ext i hi
    have hb := (hbool _ _ _ _).mpr (h i hi)
    simpa using hb

theorem xor_zero_iff : (a ^^^ b) &&& m=0 ↔ a &&& m=b &&& m := by
  have h : (a ^^^ b) &&& m &&& ~~~0=0 ↔
      ∀ i (hi : i<16),m[i] → (0 : Word)[i]=false → a[i]=b[i] := xor_on_iff
  have hones : ~~~(0 : Word)=BitVec.allOnes 16 := rfl
  rw [hones,and_allOnes] at h
  rw [h,eq_on_iff]
  exact ⟨fun hb i hi hm => hb i hi hm (by simp),fun hb i hi hm _ => hb i hi hm⟩

end

theorem Change.apply_congr (c : Change) {a b : Word} (h : (a ^^^ b) &&& pcsr0W1cMask &&& ~~~c.own=0) :
    c.apply a &&& pcsr0W1cMask=c.apply b &&& pcsr0W1cMask := by
  refine eq_on_iff.mpr fun i hi hm => ?_
  have hi' := xor_on_iff.mp h i hi hm
  cases ho : c.own[i] with
  | false =>
    have hab := hi' ho
    cases c <;> simp only [Change.apply,getElem_or,getElem_and,getElem_xor,hab]
  | true =>
    cases c with
    | seri | pcei | rxi | txi | dni | rcbi =>
      rw [Change.own] at ho
      rw [Change.apply,Change.apply,getElem_or,getElem_or,ho,Bool.or_true,Bool.or_true]
    | clearUsci | clearFatl =>
      rw [Change.own] at ho
      rw [Change.apply,Change.apply,getElem_and,getElem_and,getElem_not,ho,
        Bool.not_true,Bool.and_false,Bool.and_false]
    | toggleInte | clearPcmd | setPcmd data => simp [Change.own] at ho
    | reset => rfl

namespace State

variable {s t : State} {a b p : Phase} {w : Word}

/-- The request has been raised, cancelled or left by a thread that is done, or one is on its way to it:
`a` and `b` are where the threads are. -/
structure Settled (s : State) (a b : Phase) : Prop where
  sum : s.intr=s.any ∨ a.sums ∨ b.sums
  request : s.irq=s.level ∨ a.rearms ∨ b.rearms ∨
    s.irq=false ∧ ((∃ x,a=.rearmed x) ∨ ∃ x,b=.rearmed x)
  presented : s.irq=(s.pending || s.granted)

theorem Settled.symm (h : s.Settled a b) : s.Settled b a := by
  refine ⟨?_,?_,h.presented⟩
  · obtain hs | ha | hb := h.sum
    · exact .inl hs
    · exact .inr (.inr ha)
    · exact .inr (.inl hb)
  · obtain hs | ha | hb | ⟨hi,ha | hb⟩ := h.request
    · exact .inl hs
    · exact .inr (.inr (.inl ha))
    · exact .inr (.inl hb)
    · exact .inr (.inr (.inr ⟨hi,.inr ha⟩))
    · exact .inr (.inr (.inr ⟨hi,.inl hb⟩))

theorem intr_write (any : Bool) (read : Word) :
    decide ((if any then read ||| pcsr0Intr else read &&& ~~~pcsr0Intr) &&& pcsr0Intr≠0)=any := by
  cases any with
  | false =>
    have hz : (read &&& ~~~pcsr0Intr) &&& pcsr0Intr=0 := by
      rw [BitVec.and_assoc]
      exact and_zero
    simp [hz]
  | true =>
    have hbit : ((read ||| pcsr0Intr) &&& pcsr0Intr).getLsbD 7=true := by
      simp [pcsr0Intr]
    have hne : (read ||| pcsr0Intr) &&& pcsr0Intr≠0 := by
      intro hz
      rw [hz] at hbit
      cases hbit
    exact decide_eq_true hne

theorem status_write (any : Bool) (read : Word) :
    (if any then read ||| pcsr0Intr else read &&& ~~~pcsr0Intr) &&& pcsr0W1cMask = read &&& pcsr0W1cMask := by
  cases any with
  | false =>
    show (read &&& ~~~pcsr0Intr) &&& pcsr0W1cMask=_
    rw [BitVec.and_assoc]
    rfl
  | true =>
    show (read ||| pcsr0Intr) &&& pcsr0W1cMask=_
    rw [BitVec.and_or_distrib_right]
    exact or_zero

theorem cancel_irq (s : State) : s.cancel.irq=false := by
  rw [cancel]
  cases h : s.irq with
  | true => rfl
  | false => exact h

theorem cancel_pcsr0 (s : State) : s.cancel.pcsr0=s.pcsr0 := by
  rw [cancel]
  cases s.irq <;> rfl

theorem cancel_presented (h : s.irq=(s.pending || s.granted)) :
    s.cancel.irq=(s.cancel.pending || s.cancel.granted) := by
  rw [cancel]
  cases hi : s.irq with
  | true => rfl
  | false => exact h

theorem Settled.next (h : s.Settled a b) (hk : s.current b a) (hn : s.next a=some (p,t)) : t.Settled p b := by
  cases a with
  | idle => cases hn
  | changing c read | changed | decided any =>
    cases hn
    exact ⟨.inr (.inl rfl),.inr (.inl rfl),h.presented⟩
  | summing any read =>
    cases hn
    rw [current,Bool.and_eq_true,Bool.or_eq_true] at hk
    obtain ⟨hsame,hany⟩ := hk
    refine ⟨?_,.inr (.inl rfl),h.presented⟩
    have hstatus := xor_zero_iff.mp (of_decide_eq_true hsame)
    have hany' : ({ s with pcsr0 := if any then read ||| pcsr0Intr else read &&& ~~~pcsr0Intr } :
        State).any=s.any := by
      show decide ((if any then read ||| pcsr0Intr else read &&& ~~~pcsr0Intr) &&& pcsr0W1cMask≠0) =
        decide (s.pcsr0 &&& pcsr0W1cMask≠0)
      rw [status_write,hstatus]
    obtain hcur | hother := hany
    · left
      rw [hany',← of_decide_eq_true hcur]
      exact intr_write any read
    · exact .inr (.inr hother)
  | summed any =>
    cases hn
    refine ⟨?_,.inr (.inl rfl),h.presented⟩
    exact h.sum
  | shown any =>
    cases hn
    refine ⟨?_,?_,cancel_presented h.presented⟩
    · rw [intr,State.any,cancel_pcsr0]
      obtain hs | ⟨⟨⟩⟩ | hb := h.sum
      · exact .inl hs
      · exact .inr (.inr hb)
    · cases hi : s.inte with
      | true => exact .inr (.inr (.inr ⟨cancel_irq s,.inl ⟨any,rfl⟩⟩))
      | false =>
        left
        rw [cancel_irq,level,inte,cancel_pcsr0]
        show false=(s.cancel.any && s.inte)
        rw [hi,Bool.and_false]
  | rearmed any =>
    cases hn
    rw [current,Bool.or_eq_true] at hk
    have hsum : s.intr=s.any ∨ b.sums := by
      obtain hs | ⟨⟨⟩⟩ | hb := h.sum
      · exact .inl hs
      · exact .inr hb
    cases any with
    | true =>
      refine ⟨?_,?_,rfl⟩
      · obtain hs | hb := hsum
        · exact .inl hs
        · exact .inr (.inr hb)
      · obtain hcur | hb := hk
        · exact .inl (of_decide_eq_true hcur)
        · exact .inr (.inr (.inl hb))
    | false =>
      refine ⟨?_,?_,h.presented⟩
      · obtain hs | hb := hsum
        · exact .inl hs
        · exact .inr (.inr hb)
      · obtain hcur | hb := hk
        · have hlevel : false=s.level := of_decide_eq_true hcur
          obtain hi | ⟨⟨⟩⟩ | hb | ⟨hi,_⟩ := h.request
          · exact .inl hi
          · exact .inr (.inr (.inl hb))
          · exact .inl (hi.trans hlevel)
        · exact .inr (.inr (.inl hb))

structure Inv (x : Expecting) : Prop where
  status : x.1.pcsr0 &&& pcsr0W1cMask=x.2 &&& pcsr0W1cMask
  settled : x.1.Settled x.1.host x.1.worker

theorem next_status (hs : s.pcsr0 &&& pcsr0W1cMask=w &&& pcsr0W1cMask) (hk : s.current b a)
    (hn : s.next a=some (p,t)) : t.pcsr0 &&& pcsr0W1cMask=expected w a &&& pcsr0W1cMask := by
  cases a with
  | idle => cases hn
  | changing c read =>
    cases hn
    have hk : (s.pcsr0 ^^^ read) &&& pcsr0W1cMask &&& ~~~c.own=0 := of_decide_eq_true hk
    refine c.apply_congr (xor_on_iff.mpr fun i hi hm ho => ?_)
    exact (xor_on_iff.mp hk i hi hm ho).symm.trans (eq_on_iff.mp hs i hi hm)
  | changed | decided any | summed any =>
    cases hn
    exact hs
  | summing any read =>
    cases hn
    rw [current,Bool.and_eq_true] at hk
    exact ((status_write any read).trans
      (xor_zero_iff.mp (of_decide_eq_true hk.1)).symm).trans hs
  | shown any =>
    cases hn
    rw [cancel_pcsr0]
    exact hs
  | rearmed any =>
    cases hn
    cases any <;> exact hs

theorem next_phases (hn : s.next a=some (p,t)) : t.host=s.host ∧ t.worker=s.worker := by
  cases a with
  | idle => cases hn
  | changing c read | changed | decided any | summed any | summing any read =>
    cases hn
    exact ⟨rfl,rfl⟩
  | shown any =>
    cases hn
    rw [cancel]
    cases s.irq <;> exact ⟨rfl,rfl⟩
  | rearmed any =>
    cases hn
    cases any <;> exact ⟨rfl,rfl⟩

theorem Inv.step {x y : Expecting} {e : Event} (h : Inv x) (hk : x.1.keeps e)
    (hs : stepExpecting x e=some y) : Inv y := by
  obtain ⟨t,ht,rfl⟩ := map_eq_some_iff.mp hs
  have hset := h.settled
  cases e with
  | hostClear mask =>
    rw [State.step] at ht
    split_ifs at ht with hg
    cases ht
    refine ⟨?_,.inr (.inl rfl),.inr (.inl rfl),hset.presented⟩
    refine eq_on_iff.mpr fun i hi hm => ?_
    have hb := eq_on_iff.mp h.status i hi hm
    show (x.1.pcsr0 &&& ~~~(mask &&& pcsr0W1cMask))[i]=(x.2 &&& ~~~(mask &&& pcsr0W1cMask))[i]
    rw [getElem_and,getElem_and,hb]
  | hostGo =>
    obtain ⟨⟨p,u⟩,hn,rfl⟩ := map_eq_some_iff.mp ht
    have hu := (next_phases hn).2
    have hgo := hset.next hk hn
    have hst := next_status h.status hk hn
    refine ⟨hst,?_⟩
    rw [← hu] at hgo
    exact ⟨hgo.sum,hgo.request,hgo.presented⟩
  | begin c | update =>
    rw [State.step] at ht
    split_ifs at ht with hg
    cases ht
    exact ⟨h.status,.inr (.inr rfl),.inr (.inr (.inl rfl)),hset.presented⟩
  | workerGo =>
    obtain ⟨⟨p,u⟩,hn,rfl⟩ := map_eq_some_iff.mp ht
    have hu := (next_phases hn).1
    have hgo := (hset.symm.next hk hn).symm
    have hst := next_status h.status hk hn
    refine ⟨hst,?_⟩
    rw [← hu] at hgo
    exact ⟨hgo.sum,hgo.request,hgo.presented⟩
  | leave =>
    rw [State.step] at ht
    split_ifs at ht with hg
    cases ht
    rw [keeps,Bool.and_eq_true,Bool.or_eq_true,Bool.or_eq_true] at hk
    obtain ⟨hsum,hreq⟩ := hk
    refine ⟨h.status,?_,?_,hset.presented⟩
    · obtain hs | hh := hsum
      · exact .inl (of_decide_eq_true hs)
      · exact .inr (.inl hh)
    · obtain hs | hh := hreq
      · exact .inl (of_decide_eq_true hs)
      · exact .inr (.inl hh)
  | grant =>
    rw [State.step] at ht
    split_ifs at ht with hg
    cases ht
    refine ⟨h.status,hset.sum,hset.request,?_⟩
    have hp := hset.presented
    rw [hg,Bool.true_or] at hp
    exact hp

theorem start_inv : Inv (start,0) :=
  ⟨rfl,.inl rfl,.inl rfl,rfl⟩

theorem Inv.right {x : Expecting} (h : Inv x) : x.1.Right x.2 := by
  refine ⟨h.status,fun hhost hworker => ?_⟩
  have hset := h.settled
  rw [hhost,hworker] at hset
  have hsum : x.1.intr=x.1.any := by
    obtain hs | ⟨⟨⟩⟩ | ⟨⟨⟩⟩ := hset.sum
    exact hs
  have hreq : x.1.irq=x.1.level := by
    obtain hs | ⟨⟨⟩⟩ | ⟨⟨⟩⟩ | ⟨_,⟨_,⟨⟩⟩ | ⟨_,⟨⟩⟩⟩ := hset.request
    exact hs
  have hpres : x.1.Presented ↔ x.1.level := by
    rw [← hreq,hset.presented,Bool.or_eq_true]
    exact Iff.rfl
  have hintr : x.1.pcsr0 &&& pcsr0Intr≠0 ↔ x.1.any := by
    rw [← hsum,intr,decide_eq_true_eq]
  rw [hpres,hintr,level,Bool.and_eq_true]
  exact ⟨fun h => h.2,fun h => ⟨h.1,h⟩⟩

/-- In any run of the register callback and the worker's threads whose steps work with current values, no status bit
is lost or comes back, and with all done INTR and the request are right. -/
theorem status_kept {as : List Event} {s : State} {w : Word}
    (h : Run (Guarded (fun x e => x.1.keeps e=true) stepExpecting) (start,0) as (s,w)) : s.Right w :=
  (h.invariant (P := Inv) (fun _ _ _ hs hn => hs.step hn.1 hn.2) start_inv).right

/-- A reception, reported, and cleared by the host while the worker reports a transmission -/
theorem status_kept_two : ∃ (s : State) (w : Word),w=pcsr0Txi ∧ s.host=.idle ∧ s.worker=.idle ∧ s.Right w := by
  obtain ⟨⟨s,w⟩,hs,hp⟩ := run_of_foldlM (fun x e => State.keeps x.1 e=true) stepExpecting
    (fun x : Expecting => x.2=pcsr0Txi ∧ x.1.host=.idle ∧ x.1.worker=.idle)
    [.begin .rxi,.workerGo,.workerGo,.workerGo,.workerGo,.workerGo,.workerGo,
      .hostClear 0o020000,.hostGo,.begin .txi,.hostGo,.hostGo,.workerGo,.hostGo,.hostGo,
      .workerGo,.workerGo,.workerGo,.workerGo,.workerGo] (start,0) (by decide)
  obtain ⟨hw,hhost,hworker⟩ := of_decide_eq_true hp
  cases hw
  exact ⟨s,_,rfl,hhost,hworker,status_kept hs⟩

/-- RXI is set between the read and the write of INTR in the register callback, and is lost. -/
theorem status_lost : ∃ s w,Run (Guarded (fun _ _ => True) stepExpecting) (start,0)
      [.hostClear 0o004000,.hostGo,.hostGo,.begin .rxi,.workerGo,.hostGo] (s,w) ∧
    w &&& pcsr0Rxi≠0 ∧ s.pcsr0=0 ∧ ¬s.Right w := by
  obtain ⟨⟨s,w⟩,hs,hp⟩ := run_of_foldlM (fun _ _ => True) stepExpecting
    (fun x : Expecting => x.2=pcsr0Rxi ∧ x.1.pcsr0=0)
    [.hostClear 0o004000,.hostGo,.hostGo,.begin .rxi,.workerGo,.hostGo] (start,0) (by decide)
  obtain ⟨hw,hzero⟩ := of_decide_eq_true hp
  cases hw
  refine ⟨s,_,hs,by decide,hzero,fun hr => ?_⟩
  have hstatus := hr.status
  rw [hzero] at hstatus
  exact absurd hstatus (by decide)

end State

end QUniLator.Ethernet.Deuna
