import QUniLator.Adapter.DmaInvariant
import QUniLator.Adapter.IntrTables
import QUniLator.Framework.Run

namespace QUniLator.Adapter

/-- The five levels of `request_levels`, with what the PRU has of them -/
structure Tables (ρ ι : Type) where
  dma : DmaTables ρ
  intr : IntrTables ι

/-- What is done to the tables, and what the PRU does in between. -/
inductive Op (ρ ι δ : Type)
  | dma (r : ρ) (control : Buscycle) (addr : Nat) (buffer : Nat → Word) (wordcount : Nat)
    (initActive answered : Bool)
  | intr (r : ι) (register : Option (IntrRegister δ)) (initActive : Bool)
  | setVector (r : ι) (vector : Word)
  | cancelIntr (r : ι)
  | chunkComplete
  | intrComplete (level : Fin 4)
  | abandon (r : ρ) (answers : Bool)
  | spinGiveUp (r : ρ)
  | cancelAll (expired : Bool) (answers : Slot → Bool)
  | pruStarts
  | pruEnds (status : DmaState) (addr : Nat)

namespace Level

variable {ρ : Type}

/-- The tables of a level agree: bits and slots, active request and slot, active request and mask. -/
structure Tidy (slot : ρ → Slot) (l : Level ρ) : Prop where
  bit : ∀ s : Slot,l.slotRequestMask.getLsbD s=true ↔ l.slotRequest s≠none
  active : ∀ r,l.active=some r → l.slotRequest (slot r)=some r
  empty : l.active=none ↔ l.slotRequestMask=0

theorem Consistent.tidy {slot : ρ → Slot} {l : Level ρ} (h : l.Consistent slot) (hb : l.Busy) : l.Tidy slot := by
  refine ⟨fun s => ?_,h.inSlot,hb,fun hz => ?_⟩
  · rw [h.bit,Option.isSome_iff_ne_none]
  · by_contra ha
    obtain ⟨r,hr⟩ := Option.ne_none_iff_exists'.mp ha
    have hbit := h.bit (slot r)
    rw [h.inSlot r hr,hz] at hbit
    simp at hbit

end Level

namespace Tables

variable {ρ ι δ : Type} [DecidableEq ρ] [DecidableEq ι] [DecidableEq δ]

def requestIsBlockingActive (level : Fin 4) (s : Tables ρ ι) : Bool :=
  ((List.finRange 4).any fun m => level ≤ m ∧
    ((s.intr.br m).active.isSome ∨ (s.intr.br m).slotRequestMask≠0)) ||
  (s.dma.npr.active.isSome || s.dma.npr.slotRequestMask≠0)

def withDma (s : Tables ρ ι) (dma : DmaTables ρ) : Tables ρ ι := { s with dma := dma }

def withIntr (s : Tables ρ ι) (x : IntrTables ι × List IntrCommand) : Tables ρ ι :=
  { s with intr := x.1 }

def step (w : AddrWidth) (b : Board ρ ι δ) (s : Tables ρ ι) : Op ρ ι δ → Option (Tables ρ ι)
  | .dma r control addr buffer wordcount initActive answered =>
    (s.dma.dma w b r control addr buffer wordcount initActive answered).map s.withDma
  | .intr r register initActive =>
    (s.intr.intr b r register initActive (s.requestIsBlockingActive (b.intrLevel r))).map s.withIntr
  | .setVector r vector => (s.intr.setVector r vector).map fun t => { s with intr := t }
  | .cancelIntr r => (s.intr.cancelIntr b r).map s.withIntr
  | .chunkComplete => (s.dma.dispatch w b).map s.withDma
  | .intrComplete level => (s.intr.completeEvent b level).map s.withIntr
  | .abandon r answers => (s.dma.abandon w b r answers).map s.withDma
  | .spinGiveUp r => (s.dma.spinGiveUp w b r).map s.withDma
  | .cancelAll expired answers =>
    some { dma := s.dma.cancelScheduled expired answers,intr := (s.intr.cancelAll b).1 }
  | .pruStarts => some { s with dma := s.dma.pruStarts }
  | .pruEnds status addr => some { s with dma := s.dma.pruEnds status addr }

/-- What the callers keep to: a processor transfers single words, a device changes its own registers,
and a vector is one of two words. -/
def Called (b : Board ρ ι δ) : Op ρ ι δ → Prop
  | .dma r _ _ _ wordcount _ _ => b.isCpuAccess r=true → wordcount=1
  | .intr r register _ => ∀ x∈register,x.device=b.device r
  | .setVector _ vector => vector &&& 3=0
  | _ => True

/-- No transfer is asked for with an object still scheduled; no request is cancelled with another object active in its
slot; no latch expires on a transfer that the PRU has. -/
def Avoids (b : Board ρ ι δ) (s : Tables ρ ι) : Op ρ ι δ → Prop
  | .dma r _ _ _ _ _ _ => s.dma.npr.slotRequest (b.dmaSlot r)≠some r
  | .cancelIntr r => ∀ q∈(s.intr.br (b.intrLevel r)).active,b.intrSlot q=b.intrSlot r → q=r
  | .cancelAll expired _ => s.dma.orphanOnPru=true → expired=true → s.dma.pru=.free
  | _ => True

instance (b : Board ρ ι δ) : DecidablePred (Called b)
  | .dma .. => inferInstanceAs (Decidable (_ → _))
  | .intr r register _ => inferInstanceAs (Decidable (∀ x∈register,x.device=b.device r))
  | .setVector _ vector => inferInstanceAs (Decidable (vector &&& 3=0))
  | .cancelIntr _ | .chunkComplete | .intrComplete _ | .abandon .. | .spinGiveUp _ | .cancelAll ..
  | .pruStarts | .pruEnds .. => isTrue trivial

instance (b : Board ρ ι δ) (s : Tables ρ ι) : DecidablePred (s.Avoids b)
  | .dma r .. => inferInstanceAs (Decidable (s.dma.npr.slotRequest (b.dmaSlot r)≠some r))
  | .cancelIntr r => inferInstanceAs (Decidable (∀ q∈(s.intr.br (b.intrLevel r)).active,
      b.intrSlot q=b.intrSlot r → q=r))
  | .cancelAll .. => inferInstanceAs (Decidable (_ → _ → _))
  | .intr .. | .setVector .. | .chunkComplete | .intrComplete _ | .abandon .. | .spinGiveUp _
  | .pruStarts | .pruEnds .. => isTrue trivial

/-- Nothing is scheduled, and the PRU is idle. -/
structure Start (s : Tables ρ ι) : Prop where
  npr : s.dma.npr=.init
  br : ∀ level,s.intr.br level=.init
  vector : ∀ r,s.intr.vector r &&& 3=0
  idle : s.dma.pru=.free
  noClash : s.dma.clash=false

structure Inv (w : AddrWidth) (b : Board ρ ι δ) (s : Tables ρ ι) : Prop where
  dma : s.dma.Inv w b
  intr : s.intr.Inv b

variable {w : AddrWidth} {b : Board ρ ι δ} {s : Tables ρ ι}

omit [DecidableEq ρ] [DecidableEq ι] [DecidableEq δ] in
theorem Start.inv (h : s.Start) : s.Inv w b := by
  refine ⟨⟨⟨?_,?_,fun _ => h.idle,h.noClash⟩,?_,fun hp => absurd h.idle hp⟩,fun level => ?_,h.vector⟩
  · rw [h.npr]; exact Level.init_consistent
  · rw [h.npr]; exact nofun
  · rw [h.npr]; exact Level.init_busy
  · rw [h.br]; exact IntrTables.init_kept b level

omit [DecidableEq ρ] [DecidableEq ι] [DecidableEq δ] in
theorem Inv.withDma (h : s.Inv w b) {x : Option (DmaTables ρ)}
    (hx : ∃ d,x=some d ∧ d.Inv w b) : ∃ s',x.map s.withDma=some s' ∧ s'.Inv w b := by
  obtain ⟨d,hd,hi⟩ := hx
  exact ⟨s.withDma d,by rw [hd]; rfl,hi,h.intr⟩

omit [DecidableEq ρ] [DecidableEq ι] [DecidableEq δ] in
theorem Inv.withIntr (h : s.Inv w b) {x : Option (IntrTables ι × List IntrCommand)}
    (hx : ∃ t c,x=some (t,c) ∧ t.Inv b) : ∃ s',x.map s.withIntr=some s' ∧ s'.Inv w b := by
  obtain ⟨t,c,ht,hi⟩ := hx
  exact ⟨s.withIntr (t,c),by rw [ht]; rfl,h.dma,hi⟩

theorem Inv.step (h : s.Inv w b) {op : Op ρ ι δ} (hc : Called b op) (ha : s.Avoids b op) :
    ∃ s',s.step w b op=some s' ∧ s'.Inv w b := by
  cases op with
  | dma r control addr buffer wordcount initActive answered =>
    exact h.withDma (h.dma.dma r control addr buffer wordcount initActive answered ha hc)
  | intr r register initActive => exact h.withIntr (h.intr.intr r register hc initActive _)
  | setVector r vector =>
    obtain ⟨t,ht,hi⟩ := h.intr.setVector r hc
    exact ⟨{ s with intr := t },by rw [Tables.step,ht]; rfl,h.dma,hi⟩
  | cancelIntr r => exact h.withIntr (h.intr.cancelIntr ha)
  | chunkComplete => exact h.withDma h.dma.dispatch
  | intrComplete level => exact h.withIntr (h.intr.completeEvent level)
  | abandon r answers => exact h.withDma (h.dma.abandon r answers)
  | spinGiveUp r => exact h.withDma (h.dma.spinGiveUp r)
  | cancelAll expired answers =>
    exact ⟨_,rfl,h.dma.cancelScheduled expired answers ha,h.intr.cancelAll⟩
  | pruStarts => exact ⟨_,rfl,h.dma.pruStarts,h.intr⟩
  | pruEnds status addr => exact ⟨_,rfl,h.dma.pruEnds status addr,h.intr⟩

/-- In every run of operations that avoid the three cases the tables agree, no transfer is pushed on
one that the PRU has, and no operation reaches an assert. -/
theorem run_tidy (w : AddrWidth) (b : Board ρ ι δ) (s s' : Tables ρ ι) (ops : List (Op ρ ι δ))
    (h0 : s.Start) (h : Run (Guarded (fun s op => Called b op ∧ s.Avoids b op) (step w b)) s ops s') :
    s'.dma.npr.Tidy b.dmaSlot ∧ (∀ level,(s'.intr.br level).Tidy b.intrSlot) ∧ s'.dma.clash=false ∧
    ∀ op,Called b op → s'.Avoids b op → (s'.step w b op).isSome := by
  have hinv : s'.Inv w b := by
    refine h.invariant (P := Inv w b) (fun s op t hs hst => ?_) h0.inv
    obtain ⟨⟨hc,ha⟩,ht⟩ := hst
    obtain ⟨u,hu,hi⟩ := hs.step hc ha
    rw [hu] at ht
    cases ht
    exact hi
  refine ⟨hinv.dma.consistent.tidy hinv.dma.busy,fun level => ?_,hinv.dma.noClash,
    fun op hc ha => ?_⟩
  · exact (hinv.intr.level level).consistent.tidy (hinv.intr.level level).busy
  · obtain ⟨u,hu,-⟩ := hinv.step hc ha
    rw [hu]
    rfl

def twoOnASlot : Board Bool Bool Unit where
  dmaSlot r := if r then .last 31 else .castAdd 30 (.last 1)
  isCpuAccess r := r
  cpu_slot _ hr := if_pos hr
  intrSlot _ := .castAdd 30 (.last 1)
  intrLevel _ := .last 3
  device _ := ()

def blank : Tables Bool Bool where
  dma := {
    npr := .init,executing := fun _ => false,complete := fun _ => false,orphanOnPru := false
    request := fun _ => ⟨.dati,0,0,fun _ => 0,0,false,0,0,0,false⟩
    mailbox := ⟨.ready,.dati,0,false,0,0,fun _ => 0⟩,pru := .free,clash := false }
  intr := {
    br := fun _ => .init,executing := fun _ => false,complete := fun _ => false
    vector := fun _ => 0o100,register := fun _ => none }

theorem blank_start : blank.Start :=
  ⟨rfl,fun _ => rfl,fun _ => show (0o100 : Word) &&& 3=0 by decide,rfl,rfl⟩

/-- A transfer of one word to address `addr` -/
def oneWord (addr : Nat) : Op Bool Bool Unit :=
  .dma false .dato addr (fun _ => 0) 1 false false

/-- Transfers and interrupts, a cancel, an INIT while the PRU has a transfer, and its end -/
def usualOps : List (Op Bool Bool Unit) :=
  [oneWord 0o1000,.intr false none false,.intr true none false,.pruStarts,.abandon false true,
    .cancelAll false (fun _ => true),oneWord 0o2000,.pruEnds .initstop 0o1000,.chunkComplete,
    .intr true none false,.cancelIntr true,.intrComplete (.last 3)]

theorem run_tidy_usual : ∃ s : Tables Bool Bool,
    s.dma.npr.active=some false ∧ s.dma.npr.Tidy twoOnASlot.dmaSlot ∧ s.dma.clash=false ∧
    (s.step .width18 twoOnASlot .pruStarts).isSome := by
  obtain ⟨s,hrun,hs⟩ := run_of_foldlM
    (fun (s : Tables Bool Bool) op => Called twoOnASlot op ∧ s.Avoids twoOnASlot op)
    (step .width18 twoOnASlot) (fun s => s.dma.npr.active=some false) usualOps blank
    (by decide +kernel)
  rw [decide_eq_true_eq] at hs
  obtain ⟨hn,-,hc,ho⟩ := run_tidy .width18 twoOnASlot blank s usualOps blank_start hrun
  exact ⟨s,hs,hn,hc,ho .pruStarts trivial trivial⟩

/-- The cancel of a request in whose slot another of the device is active ends the process. So does the end of a
transfer whose object was used for a refused one. And after a latch has expired a transfer is pushed on one that the
PRU has. -/
theorem tables_untidy : (∃ s,Run (Guarded (fun _ op => Called twoOnASlot op) (step .width18 twoOnASlot)) blank
      [.intr false none false] s ∧ (s.step .width18 twoOnASlot (.cancelIntr true)).isNone) ∧
    (∃ s,Run (Guarded (fun _ op => Called twoOnASlot op) (step .width18 twoOnASlot)) blank
      [oneWord 0o1000,.pruStarts,.abandon false true,oneWord 0o2000,.pruEnds .ready 0] s ∧
      (s.step .width18 twoOnASlot .chunkComplete).isNone) ∧
    ∃ s,Run (Guarded (fun _ op => Called twoOnASlot op) (step .width18 twoOnASlot)) blank
      [oneWord 0o1000,.pruStarts,.cancelAll false (fun _ => true),
        .cancelAll true (fun _ => true),oneWord 0o1000] s ∧ s.dma.clash=true := by
  refine ⟨?_,?_,?_⟩
  · exact run_of_foldlM (fun _ op => Called twoOnASlot op) (step .width18 twoOnASlot)
      (fun s => (s.step .width18 twoOnASlot (.cancelIntr true)).isNone) _ blank (by decide +kernel)
  · exact run_of_foldlM (fun _ op => Called twoOnASlot op) (step .width18 twoOnASlot)
      (fun s => (s.step .width18 twoOnASlot .chunkComplete).isNone) _ blank (by decide +kernel)
  · exact run_of_foldlM (fun _ op => Called twoOnASlot op) (step .width18 twoOnASlot)
      (fun s => s.dma.clash) _ blank (by decide +kernel)

end Tables

end QUniLator.Adapter
