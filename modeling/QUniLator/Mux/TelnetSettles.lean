import QUniLator.Mux.TelnetPair

namespace QUniLator.Mux

open List Option Function Item Function Option

/-- Two lines that are connected to each other. `wire i` is on its way to line `i`. -/
structure Pair where
  ends : Bool → Line
  wire : Bool → List Byte

/-- A line does something by itself, or it receives the next byte. -/
inductive PairEvent
  | act (i : Bool) (e : LineEvent)
  | deliver (i : Bool)

namespace Line

def out (s : Line) : List Byte := s.taken.getD []++s.tx

def negotiations (s : Line) : Nat := s.queued.countP Item.isOption

/-- Where the parser is, once `on_new_connection` has reset it -/
def state (s : Line) : TState := if s.begun then s.line.tstate else .data

def adds (s : Line) : LineEvent → List Item
  | .offer => (s.offers.head?.map fun q => (s.line.sendOption q.1 q.2).2).getD []
  | .send c => [.char c]
  | .byte b => (s.line.byte b).2.2
  | .newConnection | .take | .written _ => []

def isOwn : LineEvent → Bool
  | .byte _ => false
  | .newConnection | .offer | .send _ | .take | .written _ => true

end Line

namespace Pair

def step (p : Pair) : PairEvent → Option Pair
  | .act i e =>
    if Line.isOwn e then
      ((p.ends i).step e).map fun t =>
        ⟨update p.ends i t,update p.wire (!i)
          (p.wire (!i)++t.emitted.drop (p.ends i).emitted.length)⟩ else none
  | .deliver i =>
    match p.wire i with
    | [] => none
    | b::bs => ((p.ends i).step (.byte b)).map fun t =>
        ⟨update p.ends i t,update p.wire i bs⟩

def start (t : Bool → Telnet) : Pair := ⟨fun i => Line.start (t i),fun _ => []⟩

/-- All that line `i` has still to receive -/
def rem (p : Pair) (i : Bool) : List Byte := p.wire i++(p.ends (!i)).out

def Drained (p : Pair) : Prop :=
  ∀ i,(p.ends i).begun=true ∧ (p.ends i).offers=[] ∧ (p.ends i).taken=none ∧
    (p.ends i).tx=[] ∧ p.wire i=[]

end Pair

namespace Line

variable {rem : List Byte} {s t : Line}

theorem step_out {e : LineEvent} (hs : s.step e=some t) : ∃ w,t.emitted=s.emitted++w ∧
      w++t.out=s.out++(s.adds e).flatMap encode ∧ t.queued=s.queued++s.adds e := by
  cases e with
  | newConnection =>
    simp only [step,ite_none_left_eq_some,some.injEq] at hs
    obtain ⟨-,rfl⟩ := hs
    exact ⟨[],by simp,by simp [out,adds],by simp [adds]⟩
  | offer =>
    simp only [step] at hs
    split at hs
    · cases hs
    · rename_i v opt rest ho
      cases hs
      exact ⟨[],by simp [queue],by simp [out,adds,queue,ho],by simp [adds,queue,ho]⟩
  | send c =>
    cases hs
    exact ⟨[],by simp [queue],by simp [out,adds,queue],by simp [adds,queue]⟩
  | take =>
    simp only [step,ite_none_right_eq_some,some.injEq,ready,Bool.and_eq_true,
      isNone_iff_eq_none] at hs
    obtain ⟨⟨⟨-,hn⟩,-⟩,rfl⟩ := hs
    exact ⟨[],by simp,by simp [out,adds,hn],by simp [adds]⟩
  | written w =>
    simp only [step] at hs
    split at hs
    · cases hs
    · rename_i buf hb
      simp only [ite_none_right_eq_some,some.injEq] at hs
      obtain ⟨-,rfl⟩ := hs
      refine ⟨buf.take (w.getD 0),rfl,?_,by simp [adds]⟩
      simp only [out,adds,hb,getD_none,getD_some,nil_append,
        flatMap_nil,append_nil]
      rw [← List.append_assoc,take_append_drop]
  | byte b =>
    simp only [step,ite_none_right_eq_some,some.injEq] at hs
    obtain ⟨-,rfl⟩ := hs
    exact ⟨[],by simp [queue],by simp [out,adds,queue],by simp [adds,queue]⟩

theorem negotiations_step {e : LineEvent} (hs : s.step e=some t) :
    t.negotiations=s.negotiations+(s.adds e).countP isOption := by
  obtain ⟨-,-,-,hq⟩ := step_out hs
  rw [negotiations,hq,countP_append]
  rfl

/-- The line understands all that it has still to receive, and remembers what it said. -/
structure Talks (s : Line) (rem : List Byte) : Prop where
  follows : Follows Item.Agreed s.state rem
  fresh : s.begun=false → s.offers=[] ∧ s.negotiations=0
  recalls : s.begun=true → s.line.Recalls s.negotiations
  agreed : ∀ q∈s.offers,(Item.option q.1 q.2).Agreed ∧ (q.1=.will ∨ q.1=.do_)
  nodup : s.offers.Nodup
  echo : (Verb.will,(1 : Byte))∈s.offers → s.line.willState 1=0

theorem Talks.append {s : Line} (h : s.Talks rem) {js : List Item}
    (hj : ∀ i∈js,i.Agreed) : s.Talks (rem++js.flatMap encode) :=
  ⟨h.follows.append hj,h.fresh,h.recalls,h.agreed,h.nodup,h.echo⟩

theorem Talks.le {s : Line} (h : s.Talks rem) : s.negotiations≤9 := by
  cases hb : s.begun with
  | false => rw [(h.fresh hb).2]; omega
  | true => exact (h.recalls hb).le

theorem Talks.congr (h : s.Talks rem) (hl : t.line=s.line)
    (hb : t.begun=s.begun) (ho : t.offers=s.offers) (hn : t.negotiations=s.negotiations) : t.Talks rem := by
  obtain ⟨h1,h2,h3,h4,h5,h6⟩ := h
  refine ⟨?_,by rw [hb,ho,hn]; exact h2,by rw [hb,hl,hn]; exact h3,by rw [ho]; exact h4,
    by rw [ho]; exact h5,by rw [ho,hl]; exact h6⟩
  unfold state at h1 ⊢
  rw [hb,hl]
  exact h1

theorem begun_of_offers {s : Line} (h : s.Talks rem) (ho : s.offers≠[]) : s.begun=true := by
  cases hb : s.begun with
  | true => rfl
  | false => exact absurd (h.fresh hb).1 ho

theorem countP_option {v : Verb} {o : Byte} {is : List Item} (h : is=[] ∨ is=[.option v o]) :
    is.countP isOption=is.length := by
  rcases h with rfl | rfl <;> rfl

theorem sendOption_one {t : Telnet} {v : Verb} {o : Byte} :
    (t.sendOption v o).2=[] ∨ (t.sendOption v o).2=[.option v o] :=
  (t.sendOption_items v o).imp_left And.left

theorem Talks.offer (h : s.Talks rem) (hs : s.step .offer=some t) :
    t.Talks rem ∧ (∀ i∈s.adds .offer,i.Agreed) ∧ t.offers.length+1=s.offers.length ∧
    (s.adds .offer=[] ∨ ∃ v o,s.adds .offer=[.option v o]) := by
  have hneg := negotiations_step hs
  simp only [step] at hs
  split at hs
  · cases hs
  · rename_i v o rest ho
    cases hs
    have hb := begun_of_offers h (by rw [ho]; simp)
    obtain ⟨ha,hv⟩ := h.agreed (v,o) (by rw [ho]; exact mem_cons_self)
    have hadds : s.adds .offer=(s.line.sendOption v o).2 := by simp [adds,ho]
    have hone := sendOption_one (t := s.line) (v := v) (o := o)
    have hnd := h.nodup
    rw [ho,nodup_cons] at hnd
    have hecho : v=.will → o=1 → s.line.willState 1=0 := by
      rintro rfl rfl
      exact h.echo (by rw [ho]; exact mem_cons_self)
    rw [hadds,countP_option hone] at hneg
    refine ⟨⟨?_,?_,fun _ => ?_,?_,hnd.2,?_⟩,?_,?_,?_⟩
    · have hf := h.follows
      unfold state at hf ⊢
      rw [hb] at hf
      simp only [queue,hb,Telnet.sendOption_tstate]
      exact hf
    · intro hf
      rw [show s.begun=false from hf] at hb
      cases hb
    · rw [hneg]
      exact (h.recalls hb).sendOption ha hecho
    · exact fun q hq => h.agreed q (by rw [ho]; exact mem_cons_of_mem _ hq)
    · intro hm
      have h0 := h.echo (by rw [ho]; exact mem_cons_of_mem _ hm)
      have hne : (v,o)≠(Verb.will,(1 : Byte)) := fun he => hnd.1 (he ▸ hm)
      show (s.line.sendOption v o).1.willState 1=0
      obtain rfl | rfl := hv
      · have ho1 : (1 : Byte)≠o := fun he => hne (he ▸ rfl)
        simp only [Telnet.sendOption]
        split_ifs
        · exact h0
        · exact (update_of_ne ho1 _ _).trans h0
      · simp only [Telnet.sendOption]
        split_ifs <;> exact h0
    · rw [hadds]
      intro i hi
      rcases hone with hn | hn
      · rw [hn] at hi
        cases hi
      · rw [hn] at hi
        rw [mem_singleton.mp hi]
        exact ha
    · rw [ho]
      rfl
    · rw [hadds]
      exact hone.imp_right fun hn => ⟨v,o,hn⟩

theorem Talks.byte {b : Byte} (h : s.Talks (b::rem)) (hs : s.step (.byte b)=some t) :
    t.Talks rem ∧ (∀ i∈s.adds (.byte b),i.Agreed) ∧ (s.adds (.byte b)=[] ∨ ∃ v o,s.adds (.byte b)=[.option v o]) := by
  have hneg := negotiations_step hs
  simp only [step,ite_none_right_eq_some,some.injEq,ready,Bool.and_eq_true,
    List.isEmpty_iff] at hs
  obtain ⟨⟨⟨hb,ho⟩,-⟩,rfl⟩ := hs
  have hf := h.follows
  unfold state at hf
  rw [hb] at hf
  obtain ⟨hfol,hans⟩ := hf.byte (fun _ _ ha => ha)
  have hkeep : ∀ hr : (s.line.byte b).1.Recalls (s.negotiations+(s.line.byte b).2.2.length),
      (∀ is : List Item,is=(s.line.byte b).2.2 → is=[] ∨ ∃ v o,is=[.option v o]) →
      ((({ s with line := (s.line.byte b).1,rx := s.rx++(s.line.byte b).2.1 } : Line).queue
        (s.line.byte b).2.2).Talks rem) := by
    intro hr hone
    have hc : (s.line.byte b).2.2.countP isOption=(s.line.byte b).2.2.length := by
      rcases hone _ rfl with hn | ⟨v,o,hn⟩ <;> rw [hn] <;> rfl
    refine ⟨?_,?_,fun _ => ?_,?_,?_,?_⟩
    · unfold state
      simp only [queue,hb]
      exact hfol
    · intro hbf
      rw [show s.begun=false from hbf] at hb
      cases hb
    · rw [hneg]
      show (s.line.byte b).1.Recalls (s.negotiations+(s.line.byte b).2.2.countP isOption)
      rw [hc]
      exact hr
    · exact h.agreed
    · exact h.nodup
    · intro hm
      rw [show s.offers=[] from ho] at hm
      cases hm
  obtain ⟨v,ha,h1,h2⟩ | ⟨hn,hw,hd⟩ := hans
  · obtain ⟨hag,hne⟩ := Telnet.answer_agreed ha
    have hone := sendOption_one (t := { s.line with tstate := .data }) (v := Telnet.answer v b) (o := b)
    have hr : ({ s.line with tstate := .data } : Telnet).Recalls s.negotiations :=
      ⟨(h.recalls hb).will,(h.recalls hb).do_,(h.recalls hb).echoWill,(h.recalls hb).echoDo,
        (h.recalls hb).said⟩
    have hone' : s.adds (.byte b)=[] ∨ s.adds (.byte b)=[.option (Telnet.answer v b) b] := by
      show (s.line.byte b).2.2=[] ∨ (s.line.byte b).2.2=_
      rw [h2]
      exact hone
    refine ⟨hkeep ?_ ?_,?_,hone'.imp_right fun hx => ⟨_,_,hx⟩⟩
    · rw [h1,h2]
      exact hr.sendOption hag fun h3 h4 => absurd ⟨h3,h4⟩ hne
    · rintro is rfl
      exact hone'.imp_right fun hx => ⟨_,_,hx⟩
    · intro i hi
      rcases hone' with hx | hx
      · rw [hx] at hi
        cases hi
      · rw [hx] at hi
        rw [mem_singleton.mp hi]
        exact hag
  · have hadds : s.adds (.byte b)=[] := hn
    refine ⟨hkeep ?_ ?_,by rw [hadds]; simp,.inl hadds⟩
    · rw [hn]
      have hr := h.recalls hb
      refine ⟨?_,?_,?_,?_,?_⟩
      · rw [hw]; exact hr.will
      · rw [hd]; exact hr.do_
      · rw [hw]; exact hr.echoWill
      · rw [hd]; exact hr.echoDo
      · unfold Telnet.said
        rw [hw,hd]
        exact hr.said
    · rintro is rfl
      exact .inl hn

theorem offers_agreed : ∀ q∈Mux.offers,(option q.1 q.2).Agreed ∧ (q.1=.will ∨ q.1=.do_) := by
  simp [Mux.offers,Agreed,optionSupported]

theorem offers_nodup : Mux.offers.Nodup := by decide

theorem Talks.own {e : LineEvent} (h : s.Talks rem)
    (he : isOwn e=true) (hs : s.step e=some t) : t.Talks rem ∧ ∀ i∈s.adds e,i.Agreed := by
  have hneg := negotiations_step hs
  cases e with
  | newConnection =>
    simp only [step,ite_none_left_eq_some,some.injEq] at hs
    obtain ⟨hb,rfl⟩ := hs
    obtain ⟨-,hz⟩ := h.fresh (by simpa using hb)
    have hf := h.follows
    unfold state at hf
    rw [if_neg hb] at hf
    refine ⟨⟨hf,by rintro ⟨⟩,fun _ => ?_,offers_agreed,offers_nodup,fun _ => rfl⟩,by simp [adds]⟩
    rw [hneg,hz]
    exact ⟨fun _ _ => Nat.zero_le _,fun _ _ => Nat.zero_le _,Nat.zero_le _,.inl rfl,Nat.zero_le _⟩
  | offer => exact ⟨(h.offer hs).1,(h.offer hs).2.1⟩
  | send c =>
    cases hs
    exact ⟨h.congr rfl rfl rfl hneg,by simp [adds,Agreed]⟩
  | take =>
    simp only [step,ite_none_right_eq_some,some.injEq] at hs
    obtain ⟨-,rfl⟩ := hs
    exact ⟨h.congr rfl rfl rfl rfl,by simp [adds]⟩
  | written w =>
    simp only [step] at hs
    split at hs
    · cases hs
    · simp only [ite_none_right_eq_some,some.injEq] at hs
      obtain ⟨-,rfl⟩ := hs
      exact ⟨h.congr rfl rfl rfl rfl,by simp [adds]⟩
  | byte b => cases he

end Line

namespace Pair

variable {p q : Pair}

theorem step_act {i : Bool} {e : LineEvent} (hs : p.step (.act i e)=some q) :
    Line.isOwn e=true ∧ (p.ends i).step e=some (q.ends i) ∧ q.ends (!i)=p.ends (!i) ∧
    q.rem i=p.rem i ∧ q.rem (!i)=p.rem (!i)++((p.ends i).adds e).flatMap encode := by
  simp only [step,ite_none_right_eq_some,map_eq_some_iff] at hs
  obtain ⟨he,t,ht,rfl⟩ := hs
  obtain ⟨w,hw,ho,-⟩ := Line.step_out ht
  have hne : (!i)≠i := by cases i <;> simp
  refine ⟨he,by simpa using ht,by simp [hne],?_,?_⟩
  · simp [rem,hne,hne.symm]
  · simp only [rem,update_self,Bool.not_not,hw,drop_append_of_le_length,
      Nat.le_refl,drop_length,nil_append,List.append_assoc]
    rw [ho]

theorem step_deliver {i : Bool} (hs : p.step (.deliver i)=some q) :
    ∃ b,p.wire i=b::q.wire i ∧ (p.ends i).step (.byte b)=some (q.ends i) ∧
      q.ends (!i)=p.ends (!i) ∧ p.rem i=b::q.rem i ∧ q.wire (!i)=p.wire (!i) ∧
      q.rem (!i)=p.rem (!i)++((p.ends i).adds (.byte b)).flatMap encode := by
  simp only [step] at hs
  split at hs
  · cases hs
  · rename_i b bs hb
    obtain ⟨t,ht,rfl⟩ := map_eq_some_iff.mp hs
    obtain ⟨w,hw,ho,-⟩ := Line.step_out ht
    have hne : (!i)≠i := by cases i <;> simp
    have hemit : t.emitted=(p.ends i).emitted := by
      simp only [Line.step,ite_none_right_eq_some,some.injEq] at ht
      obtain ⟨-,rfl⟩ := ht
      rfl
    have hnil : w=[] := by
      rw [hemit] at hw
      simpa using hw
    rw [hnil,nil_append] at ho
    refine ⟨b,by simpa using hb,by simpa using ht,by simp [hne],?_,by simp [hne],?_⟩
    · simp [rem,hb,hne]
    · simp only [rem,Bool.not_not,update_self,ho,List.append_assoc]
      rw [update_of_ne hne]

def Talking (p : Pair) : Prop := ∀ i,(p.ends i).Talks (p.rem i)

theorem forall_side {P : Bool → Prop} (i : Bool) (h : P i) (h' : P (!i)) : ∀ j,P j := by
  intro j
  cases i <;> cases j <;> first | exact h | exact h'

theorem Talking.step {e : PairEvent} (h : p.Talking) (hs : p.step e=some q) : q.Talking := by
  cases e with
  | act i e =>
    obtain ⟨he,ht,hother,hr,hr'⟩ := step_act hs
    obtain ⟨htalk,hag⟩ := (h i).own he ht
    refine forall_side i ?_ ?_
    · rw [hr]
      exact htalk
    · rw [hother,hr']
      exact (h (!i)).append hag
  | deliver i =>
    obtain ⟨b,-,ht,hother,hr,-,hr'⟩ := step_deliver hs
    have hi := h i
    rw [hr] at hi
    obtain ⟨htalk,hag,-⟩ := hi.byte ht
    refine forall_side i htalk ?_
    rw [hother,hr']
    exact (h (!i)).append hag

theorem start_talking (t : Bool → Telnet) : (start t).Talking := fun _ =>
  ⟨.data [] (by simp),fun _ => ⟨rfl,rfl⟩,by rintro ⟨⟩,by simp [start,Line.start],
    by simp [start,Line.start],by simp [start,Line.start]⟩

def Settled (p : Pair) : Prop :=
  ∀ i,(p.ends i).begun=true ∧ (p.ends i).offers=[] ∧
    Follows Item.Plain (p.ends i).line.tstate (p.rem i)

theorem Settled.step {e : PairEvent} (h : p.Settled) (hs : p.step e=some q) :
    q.Settled ∧ ∀ i,(q.ends i).negotiations=(p.ends i).negotiations := by
  cases e with
  | act i e =>
    obtain ⟨he,ht,hother,hr,hr'⟩ := step_act hs
    obtain ⟨hb,ho,hf⟩ := h i
    have hline : (q.ends i).begun=true ∧ (q.ends i).offers=[] ∧
        (q.ends i).line.tstate=(p.ends i).line.tstate ∧
        (∀ j∈(p.ends i).adds e,j.Plain) := by
      cases e with
      | newConnection => simp [Line.step,hb] at ht
      | offer => simp [Line.step,ho] at ht
      | send c =>
        simp only [Line.step,some.injEq] at ht
        rw [← ht]
        exact ⟨hb,ho,rfl,by simp [Line.adds,Plain]⟩
      | take =>
        simp only [Line.step,ite_none_right_eq_some,some.injEq] at ht
        obtain ⟨-,ht⟩ := ht
        rw [← ht]
        exact ⟨hb,ho,rfl,by simp [Line.adds]⟩
      | written w =>
        simp only [Line.step] at ht
        split at ht
        · cases ht
        · simp only [ite_none_right_eq_some,some.injEq] at ht
          obtain ⟨-,ht⟩ := ht
          rw [← ht]
          exact ⟨hb,ho,rfl,by simp [Line.adds]⟩
      | byte b => cases he
    obtain ⟨hb',ho',hst,hplain⟩ := hline
    have hzero : ((p.ends i).adds e).countP isOption=0 := by
      rw [countP_eq_zero]
      intro j hj
      have := hplain j hj
      cases j <;> simp_all [isOption,Plain]
    refine ⟨forall_side i ⟨hb',ho',?_⟩ ?_,forall_side i ?_ ?_⟩
    · rw [hst,hr]
      exact hf
    · obtain ⟨hb2,ho2,hf2⟩ := h (!i)
      rw [hother,hr']
      exact ⟨hb2,ho2,hf2.append hplain⟩
    · rw [Line.negotiations_step ht,hzero,Nat.add_zero]
    · rw [hother]
  | deliver i =>
    obtain ⟨b,-,ht,hother,hr,-,hr'⟩ := step_deliver hs
    obtain ⟨hb,ho,hf⟩ := h i
    rw [hr] at hf
    obtain ⟨hfol,⟨v,hp,-⟩ | ⟨hn,-⟩⟩ := hf.byte (fun _ _ ha => ha)
    · exact absurd hp id
    have hadds : (p.ends i).adds (.byte b)=[] := hn
    have hneg := Line.negotiations_step ht
    simp only [Line.step,ite_none_right_eq_some,some.injEq] at ht
    obtain ⟨-,ht⟩ := ht
    refine ⟨forall_side i ?_ ?_,forall_side i ?_ ?_⟩
    · rw [← ht]
      exact ⟨hb,ho,hfol⟩
    · obtain ⟨hb2,ho2,hf2⟩ := h (!i)
      rw [hother,hr',hadds]
      simpa using ⟨hb2,ho2,hf2⟩
    · rw [hneg,hadds]
      rfl
    · rw [hother]

theorem Drained.settled {p : Pair} (h : p.Drained) (ht : p.Talking) : p.Settled := by
  intro i
  obtain ⟨hb,ho,-,-,hw⟩ := h i
  obtain ⟨-,-,hn,hx,-⟩ := h (!i)
  have hrem : p.rem i=[] := by simp [rem,Line.out,hw,hn,hx]
  have hf := (ht i).follows
  unfold Line.state at hf
  rw [hb,hrem] at hf
  refine ⟨hb,ho,?_⟩
  rw [hrem]
  -- nothing to receive: the parser is between two pieces
  generalize (p.ends i).line.tstate=st at hf
  generalize hbs : ([] : List Byte)=bs at hf
  cases hf with
  | data is hi =>
    rw [← hbs]
    exact .data [] (by simp)
  | escaped is hi | verb v o is ho hi | opt v o is ho hi => cases hbs

theorem Settled.run {es : List PairEvent} (h : p.Settled) (hr : Run (fun p e q => Pair.step p e=some q) p es q) :
    ∀ i,(q.ends i).negotiations=(p.ends i).negotiations := by
  induction hr with
  | nil p => exact fun _ => rfl
  | cons hs _ ih =>
    obtain ⟨hset,hn⟩ := h.step hs
    exact fun i => (ih hset i).trans (hn i)

/-- What a line has still to do: its offers, the bytes on their way out, and the negotiations that it may yet
queue -/
def lineWork (s : Line) : Nat :=
  13*(9-s.negotiations)+4*s.tx.length+2*(s.taken.getD []).length+s.taken.isSome.toNat+
    s.offers.length+(if s.begun then 0 else 7)

def work (p : Pair) : Nat :=
  lineWork (p.ends false)+lineWork (p.ends true)+(p.wire false).length+(p.wire true).length

theorem work_eq (p : Pair) (i : Bool) : p.work =
    lineWork (p.ends i)+lineWork (p.ends (!i))+(p.wire i).length+(p.wire (!i)).length := by
  cases i with
  | false => rfl
  | true =>
    simp only [work,Bool.not_true]
    omega

theorem work_act {p : Pair} {i : Bool} {e : LineEvent} {t : Line} (he : Line.isOwn e=true)
    (ht : (p.ends i).step e=some t)
    (hw : lineWork t+(t.emitted.drop (p.ends i).emitted.length).length<lineWork (p.ends i)) :
    ∃ e q,p.step e=some q ∧ q.work<p.work := by
  refine ⟨.act i e,_,by simp only [Pair.step,if_pos he,ht]; rfl,?_⟩
  have hne : (!i)≠i := by cases i <;> simp
  rw [p.work_eq i,work_eq _ i]
  simp only [update_self,update_of_ne hne,update_of_ne hne.symm,
    length_append]
  omega

theorem work_deliver {p : Pair} {i : Bool} {b : Byte} {bs : List Byte} {t : Line}
    (hb : p.wire i=b::bs) (ht : (p.ends i).step (.byte b)=some t)
    (hw : lineWork t≤lineWork (p.ends i)) : ∃ e q,p.step e=some q ∧ q.work<p.work := by
  refine ⟨.deliver i,_,by simp only [Pair.step,hb,ht]; rfl,?_⟩
  have hne : (!i)≠i := by cases i <;> simp
  rw [p.work_eq i,work_eq _ i,hb]
  simp only [update_self,update_of_ne hne,length_cons]
  omega

theorem lineWork_adds {s t : Line} {is : List Item} (h : is=[] ∨ ∃ v o,is=[.option v o])
    (hn : t.negotiations=s.negotiations+is.countP isOption) (hle : t.negotiations≤9)
    (hx : t.tx=s.tx++is.flatMap encode) (hk : t.taken=s.taken) (hb : t.begun=s.begun) :
    lineWork t+s.offers.length≤lineWork s+t.offers.length := by
  have hl : (is.flatMap encode).length=3*is.countP isOption := by
    obtain rfl | ⟨v,o,rfl⟩ := h <;> rfl
  unfold lineWork
  rw [hk,hb,hx,length_append,hl]
  omega

theorem Talking.progress {p : Pair} (h : p.Talking) (hn : ¬p.Drained) : ∃ e q,p.step e=some q ∧ q.work<p.work := by
  unfold Drained at hn
  rw [not_forall] at hn
  obtain ⟨i,hi⟩ := hn
  cases hb : (p.ends i).begun with
  | false =>
    obtain ⟨ho,-⟩ := (h i).fresh hb
    refine work_act (i := i) (e := .newConnection) rfl (by simp only [Line.step,hb]; rfl) ?_
    simp [lineWork,Line.negotiations,hb,ho,offers]
  | true =>
  cases ho : (p.ends i).offers with
  | cons a rest =>
    obtain ⟨t,ht⟩ : ∃ t,(p.ends i).step .offer=some t := by
      simp only [Line.step,ho]
      exact ⟨_,rfl⟩
    obtain ⟨htalk,-,hlen,hone⟩ := (h i).offer ht
    refine work_act (i := i) (e := .offer) rfl ht ?_
    have hneg := Line.negotiations_step ht
    simp only [Line.step,ho,some.injEq] at ht
    have hq := lineWork_adds hone hneg htalk.le (by rw [← ht]; simp [Line.queue,Line.adds,ho])
      (by rw [← ht]; rfl) (by rw [← ht]; rfl)
    have hem : t.emitted=(p.ends i).emitted := by rw [← ht]; rfl
    rw [hem,drop_length,length_nil]
    omega
  | nil =>
  cases htk : (p.ends i).taken with
  | some buf =>
    refine work_act (i := i) (e := .written (some buf.length)) rfl
      (by simp only [Line.step,htk,getD_some,Nat.le_refl,if_true]; rfl) ?_
    simp [lineWork,Line.negotiations,hb,htk]
    omega
  | none =>
  cases htx : (p.ends i).tx with
  | cons x xs =>
    refine work_act (i := i) (e := .take) rfl
      (by simp only [Line.step,Line.ready,hb,ho,htk,htx]; rfl) ?_
    simp [lineWork,Line.negotiations,hb,htk,htx]
    omega
  | nil =>
  cases hw : p.wire i with
  | nil => exact absurd ⟨hb,ho,htk,htx,hw⟩ hi
  | cons b bs =>
    obtain ⟨t,ht⟩ : ∃ t,(p.ends i).step (.byte b)=some t := by
      simp only [Line.step,Line.ready,hb,ho,htk]
      exact ⟨_,rfl⟩
    have hi' := h i
    rw [rem,hw,List.cons_append] at hi'
    obtain ⟨htalk,-,hone⟩ := hi'.byte ht
    have hneg := Line.negotiations_step ht
    refine work_deliver hw ht ?_
    simp only [Line.step,ite_none_right_eq_some,some.injEq] at ht
    obtain ⟨-,ht⟩ := ht
    have hq := lineWork_adds hone hneg htalk.le (by rw [← ht]; rfl) (by rw [← ht]; rfl)
      (by rw [← ht]; rfl)
    have hof : t.offers=(p.ends i).offers := by rw [← ht]; rfl
    rw [hof] at hq
    omega

theorem Talking.drains {p : Pair} (h : p.Talking) :
    ∃ es q,Run (fun p e q => Pair.step p e=some q) p es q ∧ q.Drained ∧ q.Talking := by
  induction hw : p.work using Nat.strongRecOn generalizing p with
  | ind n ih =>
    by_cases hd : p.Drained
    · exact ⟨[],p,.nil p,hd,h⟩
    · obtain ⟨e,q,hs,hlt⟩ := h.progress hd
      obtain ⟨es,r,hr,hdr,htr⟩ := ih q.work (hw ▸ hlt) (h.step hs) rfl
      exact ⟨e::es,r,.cons hs hr,hdr,htr⟩

end Pair

/-- What a line emits, in whatever pieces and with whatever negotiations between, a parser in whatever chunks reads as
the bytes sent. And two of these lines stop negotiating: from anywhere they come to rest, with no more than nine
negotiations queued. -/
theorem telnet_framing : (∀ (t : Telnet) (es : List LineEvent) (s : Line),
      Run (fun s e t => Line.step s e=some t) (Line.start t) es s →
      ∀ (u : Telnet) (chunks : List (List Byte)),u.tstate=.data → chunks.flatten=s.emitted →
        (feedChunks u chunks).rx <+: s.sent ∧
        (s.tx=[] → s.taken=none → (feedChunks u chunks).rx=s.sent)) ∧
    (∀ (t : Telnet) (cs ds : List (List Byte)),cs.flatten=ds.flatten →
      (feedChunks t cs).line=(feedChunks t ds).line ∧ (feedChunks t cs).rx=(feedChunks t ds).rx ∧
      (feedChunks t cs).tap.flatten=(feedChunks t ds).tap.flatten ∧
      (feedChunks t cs).replies=(feedChunks t ds).replies) ∧
    (∀ (t : Bool → Telnet) (es : List PairEvent) (p : Pair),
      Run (fun p e q => Pair.step p e=some q) (Pair.start t) es p →
      (∀ i,(p.ends i).negotiations≤9) ∧
      (∃ fs q,Run (fun p e q => Pair.step p e=some q) p fs q ∧ q.Drained) ∧
      (p.Drained → ∀ fs q,Run (fun p e q => Pair.step p e=some q) p fs q →
        ∀ i,(q.ends i).negotiations=(p.ends i).negotiations)) := by
  refine ⟨fun t es s h u chunks hu hc => ?_,fun t cs ds hcd => ?_,fun t es p h => ?_⟩
  · exact (h.invariant (P := Line.Inv) (fun _ _ _ hi hs => hi.step hs) (Line.start_inv t)).reads hu hc
  · obtain ⟨cl,cr,ct,cp⟩ := feedChunks_eq t cs
    obtain ⟨dl,dr,dt,dp⟩ := feedChunks_eq t ds
    rw [cl,cr,ct,cp,dl,dr,dt,dp,hcd]
    exact ⟨rfl,rfl,rfl,rfl⟩
  · have ht : p.Talking :=
      h.invariant (P := Pair.Talking) (fun _ _ _ hi hs => hi.step hs) (Pair.start_talking t)
    obtain ⟨fs,q,hr,hd,-⟩ := ht.drains
    exact ⟨fun i => (ht i).le,⟨fs,q,hr,hd⟩,fun hd fs q hr => (hd.settled ht).run hr⟩

def Telnet.fresh : Telnet := ⟨.data,[],fun _ => 0,fun _ => 0,⟨9600,8,1,1⟩⟩

def twoBytes : List LineEvent :=
  [.send 255,.newConnection,.offer,.offer,.send 65,.offer,.offer,.offer,.offer,.take,
    .written (some 1),.take,.written none,.take,.written (some 20)]

theorem telnet_framing_two : ∃ s,
    Run (fun s e t => Line.step s e=some t) (Line.start .fresh) twoBytes s ∧
    (feedChunks .fresh [s.emitted.take 7,s.emitted.drop 7]).rx=[255,65] := by
  obtain ⟨s,h,hs⟩ := run_of_foldlM (fun _ _ => True) Line.step
    (fun s => s.tx=[] ∧ s.taken=none ∧ s.sent=[255,65]) twoBytes (Line.start .fresh)
    (by decide +kernel)
  obtain ⟨hx,hn,hsent⟩ : s.tx=[] ∧ s.taken=none ∧ s.sent=[255,65] := by simpa using hs
  have hrun : Run (fun s e t => Line.step s e=some t) (Line.start .fresh) twoBytes s :=
    h.mono fun _ _ _ hg => hg.2
  refine ⟨s,hrun,?_⟩
  rw [← hsent]
  exact (telnet_framing.1 .fresh twoBytes s hrun .fresh _ rfl (by simp)).2 hx hn

end QUniLator.Mux
