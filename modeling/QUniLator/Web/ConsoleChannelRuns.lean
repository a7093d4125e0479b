import QUniLator.Web.ConsoleChannel

namespace QUniLator.Web

open List Option List

def IsQuery (q : List UInt8) : Prop :=
  q=[esc,0x5a] ∨ ∃ ps f,q=esc::0x5b::(ps++[f]) ∧ (∀ p∈ps,isFinal p=false) ∧
    (f=0x63 ∨ f=0x6e)

/-- The bytes come to the last one of a control sequence before a query begins. -/
def endsSequence : List UInt8 → Bool
  | [] => false
  | c::s => queryLength (c::s)=0 && (isFinal c || endsSequence s)

def endsEscape : List UInt8 → Bool
  | [] => false
  | c::s => queryLength (c::s)=0 && (c≠0x5b || endsSequence s)

/-- Outside its queries every escape sequence of the history is complete, and no query stands within one.
`n` bytes of a query are still to skip. -/
def settled : Nat → List UInt8 → Bool
  | _,[] => true
  | 0,c::s =>
    if queryLength (c::s)=0 then (c≠esc || endsEscape s) && settled 0 s else settled (queryLength (c::s)-1) s
  | n+1,_::s => settled n s

theorem IsQuery.head {q : List UInt8} (h : IsQuery q) : ∃ c s,q=esc::c::s ∧ (c=0x5a ∨ c=0x5b) := by
  rcases h with rfl | ⟨ps,f,rfl,-,-⟩
  · exact ⟨_,_,rfl,.inl rfl⟩
  · exact ⟨_,_,rfl,.inr rfl⟩

theorem find_isFinal {ps : List UInt8} (h : ∀ p∈ps,isFinal p=false) {f : UInt8} (hf : isFinal f)
    (s : List UInt8) : (ps++f::s).find? isFinal=some f := by
  have hn : ps.find? isFinal=none := find?_eq_none.mpr fun p hp => by simp [h p hp]
  rw [find?_append,hn,none_or,find?_cons_of_pos hf]

theorem strip_endsSequence {s : List UInt8} (h : endsSequence s) :
    ∃ ps f t,s=ps++f::t ∧ (∀ p∈ps,isFinal p=false) ∧ isFinal f ∧
      stripQueryEscapes 0 s=ps++f::stripQueryEscapes 0 t := by
  induction s with
  | nil => cases h
  | cons c s ih =>
    rw [endsSequence,Bool.and_eq_true,decide_eq_true_eq] at h
    obtain ⟨hq,h⟩ := h
    have hs : stripQueryEscapes 0 (c::s)=c::stripQueryEscapes 0 s := if_pos hq
    cases hc : isFinal c with
    | true => exact ⟨[],c,s,rfl,by simp,hc,hs⟩
    | false =>
      rw [hc,Bool.false_or] at h
      obtain ⟨ps,f,t,rfl,hps,hf,ht⟩ := ih h
      refine ⟨c::ps,f,t,rfl,?_,hf,by rw [hs,ht]; rfl⟩
      exact forall_mem_cons.mpr ⟨hc,hps⟩

theorem no_query_at {s live q post : List UInt8} (h : endsEscape s) (hq : queryLength (esc::s)=0)
    (he : esc::(stripQueryEscapes 0 s++live)=q++post) : ¬IsQuery q := by
  intro hi
  cases s with
  | nil => cases h
  | cons c s =>
    rw [endsEscape,Bool.and_eq_true,decide_eq_true_eq] at h
    obtain ⟨hc,h⟩ := h
    have hs : stripQueryEscapes 0 (c::s)=c::stripQueryEscapes 0 s := if_pos hc
    rw [hs] at he
    rcases hi with rfl | ⟨ps,f,rfl,hps,hf⟩
    · have hz : c=0x5a := by
        have := cons.inj (cons.inj he).2
        exact this.1
      rw [hz] at hq
      simp [queryLength] at hq
    · have he' := cons.inj (cons.inj he).2
      obtain rfl : c=0x5b := he'.1
      have hb : endsSequence s=true := by simpa using h
      obtain ⟨ps',f',t,rfl,hps',hf',ht⟩ := strip_endsSequence hb
      have hfin : isFinal f=true := by rcases hf with rfl | rfl <;> decide
      have h1 := find_isFinal hps' hf' (stripQueryEscapes 0 t++live)
      have h2 := find_isFinal hps hfin post
      have hsame : ps'++f'::(stripQueryEscapes 0 t++live)=ps++f::post := by
        have := he'.2
        rw [ht] at this
        simpa using this
      rw [hsame,h2] at h1
      obtain rfl : f=f' := some.inj h1
      have h3 := find_isFinal hps' hf' t
      simp [queryLength,h3,hf] at hq

theorem settled_queries {n : Nat} {s live pre q post : List UInt8} (h : settled n s)
    (he : stripQueryEscapes n s++live=pre++q++post) (hq : IsQuery q) : (stripQueryEscapes n s).length≤pre.length := by
  induction s generalizing n pre with
  | nil =>
    have h0 : stripQueryEscapes n []=[] := by cases n <;> rfl
    rw [h0]
    exact Nat.zero_le _
  | cons c s ih =>
    cases n with
    | succ n => exact ih h he
    | zero =>
      by_cases hc : queryLength (c::s)=0
      · have hs : stripQueryEscapes 0 (c::s)=c::stripQueryEscapes 0 s := if_pos hc
        have h' : ((decide (c≠esc) || endsEscape s) && settled 0 s)=true := by
          rw [settled,if_pos hc] at h
          exact h
        rw [Bool.and_eq_true,Bool.or_eq_true,decide_eq_true_eq] at h'
        rw [hs] at he ⊢
        cases pre with
        | nil =>
          exfalso
          obtain ⟨c',s',rfl,-⟩ := hq.head
          obtain rfl : c=esc := (cons.inj he).1
          exact no_query_at (h'.1.resolve_left fun hn => hn rfl) hc he hq
        | cons p pre =>
          have := ih h'.2 (cons.inj he).2
          simpa using this
      · have hs : stripQueryEscapes 0 (c::s)=stripQueryEscapes (queryLength (c::s)-1) s := if_neg hc
        rw [hs] at he ⊢
        rw [settled,if_neg hc] at h
        exact ih h he

namespace ChannelCall

variable {κ : Type*}

def sink : ChannelCall κ → Option (Sink κ)
  | .append k _ | .addClient k _ | .removeClient k _ => some k
  | .setTransfer _ _ | .clearRing | .clearClients => none

end ChannelCall

namespace Channel

variable {κ : Type*} {s : Channel κ} {a : Account κ} {k : Sink κ}

/-- What the channel owes is what it does. -/
structure Kept (s : Channel κ) (a : Account κ) : Prop where
  history : s.ring=a.retained s.cap
  bounded : s.ring.length ≤ s.cap
  recording : ∀ r,s.recorder=some r → r=a.line
  offers : ∀ c,s.offered c=a.due c
  replay : ∀ c∈s.clients,∀ pre q post,a.due c=pre++q++post → IsQuery q → a.shown c≤pre.length
  transfer : ∀ h,s.transfer=some h → a.away h=false
  answerer : ∀ c,s.answerer=some c → c∈s.clients

def Began (a : Account κ) (c : κ) : Prop :=
  ∃ r live,settled 0 r=true ∧ a.due c=stripQueryEscapes 0 r++live ∧
    a.shown c=(stripQueryEscapes 0 r).length

structure Inv (s : Channel κ) (a : Account κ) : Prop where
  history : s.ring=a.retained s.cap
  cleared : a.cleared≤a.line.length
  recording : ∀ r,s.recorder=some r → r=a.line
  offers : ∀ c,s.offered c=a.due c
  began : ∀ c∈s.clients,Began a c
  transfer : ∀ h,s.transfer=some h → a.away h=false
  answerer : ∀ c,s.answerer=some c → c∈s.clients
  role : s.answerer≠none → s.designateAnswerer=true ∧ s.sendsText=true

theorem Inv.kept (h : Inv s a) : Kept s a := by
  refine ⟨h.history,?_,h.recording,h.offers,?_,h.transfer,h.answerer⟩
  · rw [h.history,Account.retained,length_drop]
    omega
  · intro c hc pre q post he hq
    obtain ⟨r,live,hr,hd,hs⟩ := h.began c hc
    rw [hs]
    exact settled_queries hr (hd.symm.trans he) hq

theorem Inv.start (cap : Nat) (designateAnswerer sendsText recording : Bool) :
    Inv (κ := κ) (.start cap designateAnswerer sendsText recording) .start := by
  refine ⟨?_,Nat.le_refl _,?_,fun _ => rfl,fun _ hc => absurd hc not_mem_nil,fun _ ht => (by cases ht),
    fun _ ha => (by cases ha),fun ha => absurd rfl ha⟩
  · simp [Account.retained,Channel.start,Account.start]
  intro r hr
  cases recording with
  | false => cases hr
  | true => exact (some.inj hr).symm

variable {e : ChannelCall κ} {c : κ}

theorem Began.mono {b : Account κ} (h : Began a c) {d : List UInt8} (hd : b.due c=a.due c++d)
    (hs : b.shown c=a.shown c) : Began b c := by
  obtain ⟨r,live,hr,he,hn⟩ := h
  exact ⟨r,live++d,hr,by rw [hd,he,append_assoc],hs.trans hn⟩

theorem setAnswerer_eq (s : Channel κ) (k : Sink κ) (c : κ) :
    s.setAnswerer k c={ s with answerer := (s.setAnswerer k c).answerer } := by
  unfold setAnswerer
  split_ifs <;> rfl

theorem setAnswerer_answerer (s : Channel κ) (k : Sink κ) (c : κ) : (s.setAnswerer k c).answerer=s.answerer ∨
      (s.setAnswerer k c).answerer=some c ∧ k.tell c .answerer=.sent := by
  unfold setAnswerer
  split_ifs with h1 h2
  · exact .inl rfl
  · exact .inr ⟨rfl,h2⟩
  · exact .inl rfl

theorem setAnswerer_designates (hs : s.answerer=none) (h : (s.setAnswerer k c).answerer≠none) :
    s.designateAnswerer=true ∧ s.sendsText=true := by
  unfold setAnswerer at h
  split_ifs at h with h1
  · exact absurd hs h
  · simpa using h1
  · exact absurd hs h

def candidate (s : Channel κ) : ChannelCall κ → Option κ
  | .addClient k c => if s.answerer=none then (s.setAnswerer k c).answerer else s.answerer
  | _ => s.answerer

theorem promote_eq (s : Channel κ) (k : Sink κ) (cs : List κ) :
    s.promote k cs={ s with answerer := (s.promote k cs).answerer } := by
  induction cs with
  | nil => rfl
  | cons c cs ih =>
    unfold promote
    split_ifs
    · exact ih
    · exact s.setAnswerer_eq k c

theorem promote_mem {cs : List κ} (hs : s.answerer=none) (h : (s.promote k cs).answerer=some c) : c∈cs := by
  induction cs with
  | nil => cases hs.symm.trans h
  | cons x cs ih =>
    unfold promote at h
    split_ifs at h with hn
    · exact mem_cons_of_mem x (ih h)
    · rcases s.setAnswerer_answerer k x with h0 | ⟨h0,-⟩
      · exact absurd (h0.trans hs) hn
      · rw [h0] at h
        exact some.inj h ▸ mem_cons_self

theorem promote_none {cs : List κ} (hd : s.designateAnswerer) (ht : s.sendsText)
    (h : (s.promote k cs).answerer=none) : ∀ c∈cs,k.tell c .answerer≠.sent := by
  induction cs with
  | nil => exact fun _ hc => absurd hc not_mem_nil
  | cons x cs ih =>
    unfold promote at h
    split_ifs at h with hn
    swap
    · exact absurd h hn
    · refine forall_mem_cons.mpr ⟨fun hx => ?_,ih h⟩
      unfold setAnswerer at hn
      rw [if_neg (by simp [hd,ht]),if_pos hx] at hn
      cases hn

theorem Inv.candidate_designates (h : Inv s a) (hc : s.candidate e≠none) :
    s.designateAnswerer=true ∧ s.sendsText=true := by
  unfold candidate at hc
  split at hc
  · split_ifs at hc with hn
    · exact setAnswerer_designates hn hc
    · exact h.role hc
  · exact h.role hc

theorem candidate_addClient {c x : κ} (h : s.candidate (.addClient k c)=some x) :
    s.answerer=some x ∨ s.answerer=none ∧ x=c := by
  unfold candidate at h
  dsimp only at h
  split_ifs at h with hn
  · rcases s.setAnswerer_answerer k c with h0 | ⟨h0,-⟩
    · exact .inl (h0.symm.trans h)
    · exact .inr ⟨hn,(some.inj (h0.symm.trans h)).symm⟩
  · exact .inl h

variable [LinearOrder κ]

def Succeeds (s : Channel κ) (e : ChannelCall κ) : Prop :=
  ∀ c,s.candidate e=some c → c∉(s.step e).clients → (s.step e).answerer≠none ∨
    ∀ k,e.sink=some k → ∀ x∈(s.step e).clients,k.tell x .answerer≠.sent

/-- The calls the channel is right about: nobody who runs the transfer, or answers in a broadcast, is found dead; a
client comes with the history settled, and one that fails then has neither part; clients are forgotten without a
transfer or an answerer among them. -/
def Careful (s : Channel κ) : ChannelCall κ → Prop
  | .append k data => data≠[] → (∀ h∈s.transfer,k.send h≠.dead) ∧ (s.transfer=none → ∀ c∈s.answerer,k.send c≠.dead)
  | .addClient k c => settled 0 s.ring=true ∧ (s.Fails k c → s.transfer≠some c ∧
      (s.answerer=none → (s.setAnswerer k c).answerer≠none → ∀ x∈s.clients,k.tell x .answerer≠.sent))
  | .clearClients => s.transfer=none ∧ s.answerer=none
  | .removeClient _ _ | .setTransfer _ _ | .clearRing => True

theorem drop_append_drop (l d : List UInt8) (n : Nat) :
    (l.drop (l.length-n)++d).drop ((l.drop (l.length-n)++d).length-n) = (l++d).drop ((l++d).length-n) := by
  have hl : l.drop (l.length-n)++d=(l++d).drop (l.length-n) :=
    (drop_append_of_le_length (by omega)).symm
  rw [hl,drop_drop,length_drop,length_append]
  congr 1
  omega

theorem retained_emit (h : a.cleared≤a.line.length) (cs : List κ) (d : List UInt8) (n : Nat) :
    (a.emit cs d).retained n=(a.retained n++d).drop ((a.retained n++d).length-n) := by
  have hd : (a.line++d).drop a.cleared=a.line.drop a.cleared++d := drop_append_of_le_length h
  unfold Account.retained
  show (drop _ ((a.line++d).drop a.cleared))=_
  rw [drop_append_drop]
  show drop (((a.line++d).drop a.cleared).length-n) _=_
  rw [hd]

theorem Inv.append (h : Inv s a) {data : List UInt8} (hc : s.Careful (.append k data)) :
    Inv (s.append k data) (a.step s (.append k data)) := by
  show Inv (s.append k data) (a.append s k data)
  unfold Channel.append Account.append
  by_cases hd : data=[]
  · rw [if_pos hd,if_pos hd]
    exact h
  obtain ⟨hh,ha⟩ := hc hd
  rw [if_neg hd,if_neg hd]
  cases ht : s.transfer with
  | some c =>
    have hlive : k.send c≠.dead := hh c ht
    dsimp only
    rw [if_neg hlive,if_neg hlive]
    refine ⟨h.history,h.cleared,h.recording,?_,?_,h.transfer,h.answerer,h.role⟩
    · intro x
      by_cases hx : x=c
      · subst hx
        simp [offer,h.offers x]
      · simp [offer,hx,h.offers x]
    · intro x hx
      by_cases hxc : x=c
      · subst hxc
        exact (h.began x hx).mono (Function.update_self ..) rfl
      · refine (h.began x hx).mono (d := []) ?_ rfl
        rw [append_nil]
        exact Function.update_of_ne hxc ..
  | none =>
    dsimp only
    refine ⟨?_,?_,?_,?_,?_,?_,?_,h.role⟩
    · show (s.ring++data).drop ((s.ring++data).length-s.cap)=(a.emit s.clients data).retained s.cap
      rw [retained_emit h.cleared,← h.history]
    · show a.cleared≤(a.line++data).length
      rw [length_append]
      exact Nat.le_add_right_of_le h.cleared
    · intro r hr
      obtain ⟨r0,hr0,rfl⟩ := map_eq_some_iff.mp hr
      rw [h.recording r0 hr0]
      rfl
    · intro x
      show (if x∈s.clients then s.offered x++data else s.offered x)=_
      rw [h.offers x]
      rfl
    · intro x hx
      have hx' : x∈s.clients := (mem_filter.mp hx).1
      exact (h.began x hx').mono (if_pos hx') rfl
    · intro x hx
      have hn : none=some x := hx
      cases hn
    · intro x hx
      exact mem_filter.mpr ⟨h.answerer x hx,decide_eq_true (ha ht x hx)⟩

theorem giveUp_eq (s : Channel κ) (c : κ) :
    s.giveUp c={ s with answerer := if s.answerer=some c then none else s.answerer } := by
  unfold giveUp
  split_ifs <;> rfl

theorem replay_eq (h : s.offered c=[]) :
    s.replay c={ s with offered := Function.update s.offered c (stripQueryEscapes 0 s.ring) } := by
  unfold replay
  split_ifs with hn
  · rw [hn,← h,Function.update_eq_self]
  · unfold offer
    congr 1
    funext x
    by_cases hx : x=c
    · subst hx
      simp [h]
    · simp [hx]

theorem join_eq (s : Channel κ) (k : Sink κ) (c : κ) : s.join k c={ s with
      clients := if s.Fails k c ∨ c∈s.clients then s.clients else s.clients.orderedInsert (· ≤ ·) c
      answerer := if s.Fails k c ∧ s.answerer=some c then none else s.answerer } := by
  unfold join
  rw [giveUp_eq,← ite_or]
  by_cases hf : s.Fails k c
  · rw [if_pos (show _ ∨ _ from hf)]
    simp only [hf,true_and,true_or,if_true]
  · rw [if_neg (show ¬(_ ∨ _) from hf)]
    simp only [hf,false_and,false_or,if_false]

theorem addClient_eq (s : Channel κ) (k : Sink κ) (c : κ) : s.addClient k c={ s with
      offered := Function.update s.offered c (stripQueryEscapes 0 s.ring)
      clients := if s.Fails k c ∨ c∈s.clients then s.clients else s.clients.orderedInsert (· ≤ ·) c
      answerer := if s.Fails k c ∧ s.candidate (.addClient k c)=some c then none
                  else s.candidate (.addClient k c) } := by
  have hname : (s.greet c).nameFirst k c={ s.greet c with answerer := s.candidate (.addClient k c) } := by
    unfold nameFirst candidate setAnswerer greet
    dsimp only
    split_ifs <;> rfl
  unfold addClient
  rw [hname,replay_eq (Function.update_self ..),join_eq]
  generalize s.candidate (.addClient k c)=x
  unfold greet
  dsimp only
  rw [Function.update_idem]
  rfl

theorem mem_addClient {c x : κ} (h : x∈s.clients) : x∈(s.addClient k c).clients := by
  rw [addClient_eq]
  dsimp only
  split_ifs
  · exact h
  · exact (mem_orderedInsert _).mpr (.inr h)

theorem Inv.addClient (h : Inv s a) (hc : s.Careful (.addClient k c)) :
    Inv (s.addClient k c) (a.step s (.addClient k c)) := by
  obtain ⟨hset,hfail⟩ := hc
  have hmem (x : κ) (hx : x∈(s.addClient k c).clients) : x=c ∨ x∈s.clients := by
    rw [addClient_eq] at hx
    dsimp only at hx
    split_ifs at hx
    · exact .inr hx
    · exact (mem_orderedInsert _).mp hx
  have hin (hf : ¬s.Fails k c) : c∈(s.addClient k c).clients := by
    rw [addClient_eq]
    dsimp only
    split_ifs with hin
    · exact hin.resolve_left hf
    · exact (mem_orderedInsert _).mpr (.inl rfl)
  have hold (x : κ) (hx : s.answerer=some x) : x∈(s.addClient k c).clients :=
    mem_addClient (h.answerer x hx)
  refine ⟨?_,h.cleared,?_,?_,?_,?_,?_,?_⟩
  · rw [addClient_eq]
    exact h.history
  · intro r hr
    rw [addClient_eq] at hr
    exact h.recording r hr
  · intro x
    rw [addClient_eq]
    show Function.update s.offered c (stripQueryEscapes 0 s.ring) x =
      Function.update a.due c (stripQueryEscapes 0 (a.retained s.cap)) x
    rw [← h.history]
    by_cases hx : x=c
    · subst hx
      rw [Function.update_self,Function.update_self]
    · rw [Function.update_of_ne hx,Function.update_of_ne hx]
      exact h.offers x
  · intro x hx
    by_cases hxc : x=c
    · subst hxc
      refine ⟨s.ring,[],hset,?_,?_⟩
      · show Function.update a.due x _ x=_
        rw [Function.update_self,← h.history,append_nil]
      · show Function.update a.shown x _ x=_
        rw [Function.update_self,← h.history]
    · refine (h.began x ((hmem x hx).resolve_left hxc)).mono (d := []) ?_ ?_
      · show Function.update a.due c _ x=_
        rw [Function.update_of_ne hxc,append_nil]
      · show Function.update a.shown c _ x=_
        rw [Function.update_of_ne hxc]
  · intro x hx
    rw [addClient_eq] at hx
    show Function.update a.away c (decide (s.Fails k c)) x=false
    by_cases hxc : x=c
    · subst hxc
      rw [Function.update_self]
      exact decide_eq_false fun hf => (hfail hf).1 hx
    · rw [Function.update_of_ne hxc]
      exact h.transfer x hx
  · intro x hx
    have hx' : s.candidate (.addClient k c)=some x ∧ (s.Fails k c → x≠c) := by
      rw [addClient_eq] at hx
      dsimp only at hx
      split_ifs at hx with hn
      exact ⟨hx,fun hf hxc => hn ⟨hf,hx.trans (congrArg some hxc)⟩⟩
    rcases candidate_addClient hx'.1 with ho | ⟨-,rfl⟩
    · exact hold x ho
    · exact hin fun hf => hx'.2 hf rfl
  · intro hn
    have hcand : s.candidate (.addClient k c)≠none := by
      intro h0
      apply hn
      rw [addClient_eq]
      dsimp only
      rw [h0]
      exact ite_self none
    have hr := h.candidate_designates hcand
    rw [addClient_eq]
    exact hr

theorem Inv.removeClient (h : Inv s a) (c : κ) : Inv (s.removeClient k c) (a.step s (.removeClient k c)) := by
  have htransfer (x : κ) (hx : (if s.transfer=some c then none else s.transfer)=some x) :
      Function.update a.away c true x=false := by
    split_ifs at hx with hc
    rw [Function.update_of_ne fun he => hc (hx.trans (congrArg some he))]
    exact h.transfer x hx
  have hbegan (x : κ) (hx : x∈s.clients.erase c) : Began (a.step s (.removeClient k c)) x :=
    (h.began x (mem_of_mem_erase hx)).mono (append_nil _).symm rfl
  unfold Channel.removeClient
  dsimp only
  by_cases hans : s.answerer=some c
  · rw [if_pos hans,promote_eq]
    exact ⟨h.history,h.cleared,h.recording,h.offers,hbegan,htransfer,fun x hx => promote_mem rfl hx,
      fun _ => h.role (by rw [hans]; simp)⟩
  · rw [if_neg hans]
    refine ⟨h.history,h.cleared,h.recording,h.offers,hbegan,htransfer,fun x hx => ?_,h.role⟩
    exact (mem_erase_of_ne fun he => hans (hx.trans (congrArg some he))).mpr (h.answerer x hx)

theorem Inv.setTransfer (h : Inv s a) (c : κ) (on : Bool) :
    Inv (s.setTransfer c on) (a.step s (.setTransfer c on)) := by
  have hbegan (b : Account κ) (hd : b.due=a.due) (hs : b.shown=a.shown) (x : κ) (hx : x∈s.clients) :
      Began b x :=
    (h.began x hx).mono (d := []) (by rw [hd,append_nil]) (by rw [hs])
  cases on with
  | true =>
    refine ⟨h.history,h.cleared,h.recording,h.offers,hbegan _ rfl rfl,fun x hx => ?_,h.answerer,h.role⟩
    obtain rfl : c=x := some.inj hx
    exact Function.update_self ..
  | false =>
    show Inv (if s.transfer=some c then { s with transfer := none } else s) a
    split_ifs
    · exact ⟨h.history,h.cleared,h.recording,h.offers,h.began,fun x hx => (by cases hx),h.answerer,h.role⟩
    · exact h

theorem Inv.clearRing (h : Inv s a) : Inv { s with ring := [] } (a.step s .clearRing) := by
  refine ⟨?_,Nat.le_refl _,h.recording,h.offers,?_,h.transfer,h.answerer,h.role⟩
  · show []=drop _ (a.line.drop a.line.length)
    rw [drop_length,drop_nil]
  · intro x hx
    exact (h.began x hx).mono (append_nil _).symm rfl

theorem Inv.clearClients (h : Inv s a) (hc : s.Careful .clearClients) :
    Inv { s with clients := [] } (a.step s .clearClients) := by
  refine ⟨h.history,h.cleared,h.recording,h.offers,fun x hx => absurd hx not_mem_nil,?_,?_,h.role⟩
  · intro x hx
    exact absurd (hc.1.symm.trans hx) (some_ne_none x).symm
  · intro x hx
    exact absurd (hc.2.symm.trans hx) (some_ne_none x).symm

theorem Inv.step (h : Inv s a) (hc : s.Careful e) : Inv (s.step e) (a.step s e) := by
  cases e with
  | append k data => exact h.append hc
  | addClient k c => exact h.addClient hc
  | removeClient k c => exact h.removeClient c
  | setTransfer c on => exact h.setTransfer c on
  | clearRing => exact h.clearRing
  | clearClients => exact h.clearClients hc

theorem append_answerer (s : Channel κ) (k : Sink κ) (data : List UInt8) : (s.append k data).answerer=s.answerer := by
  unfold Channel.append
  split_ifs
  · rfl
  · split
    · split_ifs <;> rfl
    · rfl

theorem Inv.succeeds (h : Inv s a) (hc : s.Careful e) : s.Succeeds e := by
  intro c hcand hleft
  have hin : ∀ x,s.answerer=some x → x∈s.clients := h.answerer
  cases e with
  | append k data =>
    have hkeep := (h.append hc).answerer c ((s.append_answerer k data).trans hcand)
    exact absurd hkeep hleft
  | addClient k c' =>
    rcases candidate_addClient hcand with ho | ⟨hn,rfl⟩
    · exact absurd (mem_addClient (hin c ho)) hleft
    · have hsame : (s.addClient k c).clients=s.clients ∧ s.Fails k c := by
        change c∉(s.addClient k c).clients at hleft
        rw [addClient_eq] at hleft ⊢
        dsimp only at hleft ⊢
        split_ifs at hleft ⊢ with hf
        · refine ⟨rfl,hf.resolve_right hleft⟩
        · exact absurd ((mem_orderedInsert _).mpr (.inl rfl)) hleft
      have htold : (s.setAnswerer k c).answerer≠none := by
        unfold candidate at hcand
        dsimp only at hcand
        rw [if_pos hn] at hcand
        rw [hcand]
        exact some_ne_none c
      refine .inr fun k' hk' x hx => ?_
      obtain rfl : k=k' := some.inj hk'
      exact (hc.2 hsame.2).2 hn htold x (hsame.1 ▸ hx)
  | removeClient k c' =>
    have hans : s.answerer=some c := hcand
    have hrole := h.role (by rw [hans]; exact some_ne_none c)
    by_cases hcc : c=c'
    · subst hcc
      by_cases hnone : (s.removeClient k c).answerer=none
      · refine .inr fun k' hk' x hx => ?_
        obtain rfl : k=k' := some.inj hk'
        change x∈(s.removeClient k c).clients at hx
        unfold Channel.removeClient at hnone hx
        dsimp only at hnone hx
        rw [if_pos hans] at hnone hx
        rw [promote_eq] at hx
        refine promote_none ?_ ?_ hnone x hx
        · exact hrole.1
        · exact hrole.2
      · exact .inl hnone
    · have hstay : c∈(s.removeClient k c').clients := by
        have hne : ¬s.answerer=some c' := fun hx => hcc (some.inj (hans.symm.trans hx))
        unfold Channel.removeClient
        dsimp only
        rw [if_neg hne]
        exact (mem_erase_of_ne hcc).mpr (hin c hans)
      exact absurd hstay hleft
  | setTransfer c' on =>
    have hstay : c∈(s.setTransfer c' on).clients := by
      unfold Channel.setTransfer
      split_ifs
      all_goals exact hin c hcand
    exact absurd hstay hleft
  | clearRing => exact absurd (hin c hcand) hleft
  | clearClients => exact absurd (hc.2.symm.trans hcand) (some_ne_none c).symm

def stepBoth (x : Channel κ × Account κ) (e : ChannelCall κ) : Option (Channel κ × Account κ) :=
  some (x.1.step e,x.2.step x.1 e)

/-- In every run of careful calls the channel does what it owes. -/
theorem channel_right {cap : Nat} {designateAnswerer sendsText recording : Bool} {es : List (ChannelCall κ)}
    {s : Channel κ} {a : Account κ} (h : Run (Guarded (fun x e => x.1.Careful e) stepBoth)
      (start cap designateAnswerer sendsText recording,Account.start) es (s,a)) :
    s.Kept a ∧ ∀ e,s.Careful e → s.Succeeds e := by
  have hinv : Inv s a := h.invariant (P := fun x => Inv x.1 x.2)
    (fun x e y hi hs => by
      obtain rfl := some.inj hs.2
      exact hi.step hs.1)
    (Inv.start cap designateAnswerer sendsText recording)
  exact ⟨hinv.kept,fun e hc => hinv.succeeds hc⟩

instance (s : Channel κ) : (e : ChannelCall κ) → Decidable (s.Careful e)
  | .append k data => inferInstanceAs (Decidable (data≠[] → (∀ h∈s.transfer,k.send h≠.dead) ∧
      (s.transfer=none → ∀ c∈s.answerer,k.send c≠.dead)))
  | .addClient k c => inferInstanceAs (Decidable (settled 0 s.ring=true ∧ (s.Fails k c → s.transfer≠some c ∧
      (s.answerer=none → (s.setAnswerer k c).answerer≠none → ∀ x∈s.clients,k.tell x .answerer≠.sent))))
  | .clearClients => inferInstanceAs (Decidable (s.transfer=none ∧ s.answerer=none))
  | .removeClient _ _ | .setTransfer _ _ | .clearRing => isTrue trivial

def allSent : Sink Nat := ⟨fun _ => .sent,fun _ _ => .sent⟩

/-- Two clients join, the first transfers a file and leaves, and its role goes to the second. -/
def twoClients : List (ChannelCall Nat) :=
  [.append allSent [0x41,esc,0x5b,0x63],.addClient allSent 1,.addClient allSent 2,.append allSent [0x42],
    .setTransfer 1 true,.append allSent [0x43],.removeClient allSent 1]

theorem channel_right_two : ∃ s : Channel Nat,s.answerer=some 2 ∧ s.transfer=none ∧
    s.ring=[0x41,esc,0x5b,0x63,0x42] ∧ s.offered 1=[0x41,0x42,0x43] ∧ s.offered 2=[0x41,0x42] := by
  obtain ⟨x,hx,hp⟩ := run_of_foldlM (fun x e => x.1.Careful e) stepBoth
    (fun x : Channel Nat × Account Nat => decide (x.1.answerer=some 2 ∧ x.1.transfer=none ∧
      x.2.retained x.1.cap=[0x41,esc,0x5b,0x63,0x42] ∧ x.2.due 1=[0x41,0x42,0x43] ∧ x.2.due 2=[0x41,0x42]))
    twoClients (start 0x40000 true true true,Account.start) (by decide +kernel)
  obtain ⟨s,a⟩ := x
  obtain ⟨h1,h2,h3,h4,h5⟩ := of_decide_eq_true hp
  obtain ⟨hk,-⟩ := channel_right hx
  exact ⟨s,h1,h2,hk.history.trans h3,(hk.offers 1).trans h4,(hk.offers 2).trans h5⟩

/-- The bytes that find the client of a transfer dead reach neither the history nor the other client. -/
theorem transfer_bytes_lost : ∃ (s : Channel Nat) (a : Account Nat),
    Run (fun x e y => stepBoth x e=some y) (start 0x40000 true true true,Account.start)
      [.addClient allSent 1,.addClient allSent 2,.setTransfer 1 true,
        .append ⟨fun c => if c=1 then .dead else .sent,fun _ _ => .sent⟩ [0x41]] (s,a) ∧
    s.transfer=none ∧ s.ring=[] ∧ s.offered 2=[] ∧ s.answerer=some 1 ∧ s.clients=[2] ∧ ¬s.Kept a := by
  refine ⟨_,_,run_of_foldlM_eq rfl,rfl,rfl,rfl,rfl,by decide +kernel,fun hk => ?_⟩
  have h := hk.history
  revert h
  decide +kernel

end Channel

end QUniLator.Web
