import QUniLator.Mux.Telnet

namespace QUniLator.Mux

open List Option

namespace Telnet

def parse (t : Telnet) : List Byte → Telnet × List Byte × List Item
  | [] => (t,[],[])
  | b::bs =>
    let r := t.byte b
    let s := parse r.1 bs
    (s.1,r.2.1++s.2.1,r.2.2++s.2.2)

theorem parse_append (t : Telnet) (as bs : List Byte) :
    t.parse (as++bs)=((parse (t.parse as).1 bs).1, (t.parse as).2.1++(parse (t.parse as).1 bs).2.1,
      (t.parse as).2.2++(parse (t.parse as).1 bs).2.2) := by
  induction as generalizing t with
  | nil => rfl
  | cons a as ih => simp only [cons_append,parse,ih,append_assoc]

end Telnet

theorem foldl_byte (data : List Byte) (f : Fed) : let g := data.foldl Fed.byte f
    g.line=(f.line.parse data).1 ∧ g.rx++g.out=f.rx++f.out++(f.line.parse data).2.1 ∧
    g.tap.flatten++g.out=f.tap.flatten++f.out++(f.line.parse data).2.1 ∧
    g.replies=f.replies++(f.line.parse data).2.2 := by
  induction data generalizing f with
  | nil => simp [Telnet.parse]
  | cons b bs ih =>
    obtain ⟨hl,hr,ht,hp⟩ := ih (f.byte b)
    have hb : (f.byte b).line=(f.line.byte b).1 ∧
        (f.byte b).rx++(f.byte b).out=f.rx++f.out++(f.line.byte b).2.1 ∧
        (f.byte b).tap.flatten++(f.byte b).out =
          f.tap.flatten++f.out++(f.line.byte b).2.1 ∧
        (f.byte b).replies=f.replies++(f.line.byte b).2.2 := by
      unfold Fed.byte
      dsimp only
      split_ifs <;> simp
    obtain ⟨bl,br,bt,bp⟩ := hb
    simp only [foldl_cons,Telnet.parse]
    rw [hl,hr,ht,hp,br,bt,bp,bl]
    simp [append_assoc]

theorem feedInbound_eq (t : Telnet) (data : List Byte) :
    (feedInbound t data).line=(t.parse data).1 ∧ (feedInbound t data).rx=(t.parse data).2.1 ∧
    (feedInbound t data).tap.flatten=(t.parse data).2.1 ∧
    (feedInbound t data).replies=(t.parse data).2.2 ∧ (feedInbound t data).out=[] := by
  obtain ⟨hl,hr,ht,hp⟩ := foldl_byte data ⟨t,[],[],[],[]⟩
  unfold feedInbound Fed.flush
  split_ifs with h
  · simp only [nil_append,flatten_nil] at hl hr ht hp
    exact ⟨hl,by simpa using hr,by simpa using ht,hp,rfl⟩
  · have ho : (data.foldl Fed.byte ⟨t,[],[],[],[]⟩).out=[] := by simpa using h
    simp only [nil_append,flatten_nil,ho,append_nil] at hl hr ht hp
    exact ⟨hl,hr,ht,hp,ho⟩

theorem feedChunks_eq (t : Telnet) (chunks : List (List Byte)) :
    (feedChunks t chunks).line=(t.parse chunks.flatten).1 ∧ (feedChunks t chunks).rx=(t.parse chunks.flatten).2.1 ∧
    (feedChunks t chunks).tap.flatten=(t.parse chunks.flatten).2.1 ∧
    (feedChunks t chunks).replies=(t.parse chunks.flatten).2.2 := by
  induction chunks generalizing t with
  | nil => exact ⟨rfl,rfl,rfl,rfl⟩
  | cons c cs ih =>
    obtain ⟨cl,cr,ct,cp,-⟩ := feedInbound_eq t c
    obtain ⟨hl,hr,ht,hp⟩ := ih (feedInbound t c).line
    simp only [feedChunks,flatten_cons,Telnet.parse_append,flatten_append]
    rw [hl,hr,ht,hp,cl,cr,ct,cp]
    exact ⟨rfl,rfl,rfl,rfl⟩

def Item.data : Item → List Byte
  | .char c => [c]
  | .option _ _ | .comPort _ _ => []

def Item.Sound : Item → Prop
  | .char _ | .option _ _ => True
  | .comPort cmd _ => cmd≠255

namespace Telnet

theorem parse_escape (t : Telnet) (h : t.tstate=.data) (c : Byte) :
    (t.parse (escape c)).1.tstate=.data ∧ (t.parse (escape c)).2.1=[c] := by
  by_cases hc : c=255
  · subst hc
    simp [escape,parse,byte,h]
  · rw [escape,if_neg hc]
    simp only [parse,byte,h,if_neg hc]
    exact ⟨trivial,rfl⟩

theorem negotiate_tstate (t : Telnet) (v : Verb) (opt : Byte) : (t.negotiate v opt).1.tstate=.data := by
  unfold negotiate sendOption
  cases answer v opt <;> dsimp only <;> split_ifs <;> rfl

theorem parse_option (t : Telnet) (h : t.tstate=.data) (v : Verb) (opt : Byte) :
    (t.parse [255,v.code,opt]).1.tstate=.data ∧ (t.parse [255,v.code,opt]).2.1=[] := by
  cases v <;> simp [parse,byte,h,Verb.code,negotiate_tstate]

theorem parse_values (t : Telnet) (h : t.tstate=.sb) (vs : List Byte) :
    (t.parse (vs.flatMap escape)).1.tstate=.sb ∧ (t.parse (vs.flatMap escape)).2.1=[] := by
  induction vs generalizing t with
  | nil => exact ⟨h,rfl⟩
  | cons v vs ih =>
    have hv : (t.parse (escape v)).1.tstate=.sb ∧ (t.parse (escape v)).2.1=[] := by
      by_cases hc : v=255
      · subst hc
        simp [escape,parse,byte,h]
      · rw [escape,if_neg hc]
        simp only [parse,byte,h,if_neg hc]
        exact ⟨trivial,rfl⟩
    obtain ⟨hs,hd⟩ := ih _ hv.1
    rw [flatMap_cons,parse_append]
    exact ⟨hs,by rw [hv.2,hd]; rfl⟩

theorem parse_subnegEnd (t : Telnet) (h : t.tstate=.sb) :
    (t.parse [255,240]).1.tstate=.data ∧ (t.parse [255,240]).2.1=[] := by
  simp [parse,byte,h]

theorem parse_item (t : Telnet) (h : t.tstate=.data) {i : Item} (hi : i.Sound) :
    (t.parse i.encode).1.tstate=.data ∧ (t.parse i.encode).2.1=i.data := by
  cases i with
  | char c => exact t.parse_escape h c
  | option v opt => exact t.parse_option h v opt
  | comPort cmd value =>
    have hc : cmd≠255#8 := hi
    have hbegin : (t.parse [255,250,44,cmd]).1.tstate=.sb ∧
        (t.parse [255,250,44,cmd]).2.1=[] := by
      simp [parse,byte,h,hc]
    obtain ⟨hs,hd⟩ := parse_values _ hbegin.1 value
    obtain ⟨he,hn⟩ := parse_subnegEnd _ hs
    rw [Item.encode,parse_append,parse_append]
    exact ⟨he,by rw [hbegin.2,hd,hn]; rfl⟩

theorem parse_items (t : Telnet) (h : t.tstate=.data) {is : List Item} (hi : ∀ i∈is,i.Sound) :
    (t.parse (is.flatMap Item.encode)).1.tstate=.data ∧
    (t.parse (is.flatMap Item.encode)).2.1=is.flatMap Item.data := by
  induction is generalizing t with
  | nil => exact ⟨h,rfl⟩
  | cons i is ih =>
    obtain ⟨hs,hd⟩ := t.parse_item h (hi i mem_cons_self)
    obtain ⟨hs',hd'⟩ := ih _ hs fun j hj => hi j (mem_cons_of_mem i hj)
    rw [flatMap_cons,parse_append]
    exact ⟨hs',by rw [hd,hd',flatMap_cons]⟩

/-! What the parser queues is sound. -/

theorem sendOption_sound (t : Telnet) (v : Verb) (opt : Byte) : ∀ i∈(t.sendOption v opt).2,i.Sound ∧ i.data=[] := by
  unfold sendOption
  cases v <;> dsimp only <;> split_ifs <;> simp [Item.Sound,Item.data]

theorem handleComPort_sound (t : Telnet) (body : List Byte) : ∀ i∈(t.handleComPort body).2,i.Sound ∧ i.data=[] := by
  unfold handleComPort
  cases body with
  | nil => simp
  | cons cmd body => dsimp only; split_ifs <;> simp [Item.Sound,Item.data]

theorem handleSubneg_sound (t : Telnet) : ∀ i∈t.handleSubneg.2,i.Sound ∧ i.data=[] := by
  unfold handleSubneg
  cases t.sbBuf with
  | nil => simp
  | cons opt body =>
    dsimp only
    split_ifs
    · exact t.handleComPort_sound body
    · simp

theorem byte_sound (t : Telnet) (b : Byte) : ∀ i∈(t.byte b).2.2,i.Sound ∧ i.data=[] := by
  unfold byte
  cases t.tstate with
  | data | iac | sb => dsimp only; split_ifs <;> simp
  | will | wont | do_ | dont => exact sendOption_sound _ _ _
  | sbIac =>
    dsimp only
    split_ifs
    · exact t.handleSubneg_sound
    · simp

end Telnet

namespace Line

/-- What has been written, is being written and waits to be is the pieces that were queued. -/
structure Inv (s : Line) : Prop where
  stream : s.emitted++s.taken.getD []++s.tx=s.queued.flatMap Item.encode
  sound : ∀ i∈s.queued,i.Sound
  sent : s.sent=s.queued.flatMap Item.data

theorem Inv.queue {s : Line} {is : List Item} (h : s.Inv) (hi : ∀ i∈is,i.Sound ∧ i.data=[]) : (s.queue is).Inv where
  stream := by
    show s.emitted++s.taken.getD []++(s.tx++_)=(s.queued++is).flatMap Item.encode
    rw [flatMap_append,← h.stream,append_assoc,append_assoc,append_assoc]
  sound := fun i hm => (mem_append.mp hm).elim (h.sound i) fun hm => (hi i hm).1
  sent := by
    show s.sent=(s.queued++is).flatMap Item.data
    have hn : is.flatMap Item.data=[] := by
      rw [flatMap_eq_nil_iff]
      exact fun i hm => (hi i hm).2
    rw [flatMap_append,hn,append_nil,h.sent]

theorem Inv.congr {s t : Line} (h : s.Inv) (hx : t.tx=s.tx) (ht : t.taken=s.taken)
    (hq : t.queued=s.queued) (hs : t.sent=s.sent) (he : t.emitted=s.emitted) : t.Inv := by
  obtain ⟨h1,h2,h3⟩ := h
  exact ⟨by rw [he,ht,hx,hq]; exact h1,by rw [hq]; exact h2,by rw [hs,hq]; exact h3⟩

theorem Inv.step {s t : Line} {e : LineEvent} (h : s.Inv) (hs : s.step e=some t) : t.Inv := by
  cases e with
  | newConnection =>
    simp only [Line.step,ite_none_left_eq_some,Option.some.injEq] at hs
    obtain ⟨-,rfl⟩ := hs
    exact h.congr rfl rfl rfl rfl rfl
  | offer =>
    simp only [Line.step] at hs
    split at hs
    · cases hs
    · cases hs
      exact Inv.queue (h.congr rfl rfl rfl rfl rfl) (Telnet.sendOption_sound _ _ _)
  | send c =>
    cases hs
    refine ⟨?_,?_,?_⟩
    · show s.emitted++s.taken.getD []++(s.tx++_)=(s.queued++_).flatMap Item.encode
      rw [flatMap_append,← h.stream,append_assoc,append_assoc,append_assoc]
    · intro i hm
      obtain hm | hm := mem_append.mp hm
      · exact h.sound i hm
      · rw [mem_singleton.mp hm]
        trivial
    · show s.sent++[c]=(s.queued++[Item.char c]).flatMap Item.data
      rw [flatMap_append,← h.sent]
      rfl
  | take =>
    simp only [Line.step,ite_none_right_eq_some,Option.some.injEq] at hs
    obtain ⟨hr,rfl⟩ := hs
    have hn : s.taken=none := by
      simp only [Line.ready,Bool.and_eq_true,isNone_iff_eq_none] at hr
      exact hr.1.2
    refine ⟨?_,h.sound,h.sent⟩
    show s.emitted++s.tx.take 1024++s.tx.drop 1024=_
    rw [append_assoc,take_append_drop,← h.stream,hn]
    simp
  | written w =>
    simp only [Line.step] at hs
    split at hs
    · cases hs
    · rename_i buf hb
      simp only [ite_none_right_eq_some,Option.some.injEq] at hs
      obtain ⟨-,rfl⟩ := hs
      refine ⟨?_,h.sound,h.sent⟩
      show s.emitted++buf.take (w.getD 0)++[]++(buf.drop (w.getD 0)++s.tx)=_
      rw [← h.stream,hb,append_nil,← append_assoc,append_assoc s.emitted,take_append_drop]
      rfl
  | byte b =>
    simp only [Line.step,ite_none_right_eq_some,Option.some.injEq] at hs
    obtain ⟨-,rfl⟩ := hs
    exact Inv.queue (h.congr rfl rfl rfl rfl rfl) (Telnet.byte_sound _ _)

theorem start_inv (t : Telnet) : (start t).Inv := ⟨rfl,by simp [start],rfl⟩

/-- A parser between two pieces reads the bytes sent, in order and nothing else: those of the pieces that are through,
and all when nothing waits. -/
theorem Inv.reads {s : Line} (h : s.Inv) {t : Telnet} (ht : t.tstate=.data) {chunks : List (List Byte)}
    (hc : chunks.flatten=s.emitted) : (feedChunks t chunks).rx <+: s.sent ∧
    (s.tx=[] → s.taken=none → (feedChunks t chunks).rx=s.sent) := by
  obtain ⟨-,hr,-⟩ := feedChunks_eq t chunks
  have hp := (t.parse_items ht h.sound).2
  rw [← h.stream,append_assoc,Telnet.parse_append,← h.sent] at hp
  rw [hr,hc]
  refine ⟨⟨_,hp⟩,fun hx hn => ?_⟩
  rw [hx,hn] at hp
  simpa [Telnet.parse] using hp

end Line

end QUniLator.Mux
