import QUniLator.Mux.TelnetCodec

namespace QUniLator.Mux

open List Function

/-- What can be said about options between two of these lines: WILL and DO for those that are supported,
and the offer of ECHO with its refusal -/
def Item.Agreed : Item → Prop
  | .char _ => True
  | .option v opt => (optionSupported opt=true ∧ (v=.will ∨ v=.do_)) ∨ (opt=1 ∧ (v=.will ∨ v=.wont ∨ v=.dont))
  | .comPort _ _ => False

def Item.Plain : Item → Prop
  | .char _ => True
  | .option _ _ | .comPort _ _ => False

def Item.isOption : Item → Bool
  | .option _ _ => true
  | .char _ | .comPort _ _ => false

def Verb.state : Verb → TState
  | .will => .will
  | .wont => .wont
  | .do_ => .do_
  | .dont => .dont

/-- What a parser may have before it: whole pieces, or the rest of one and then whole pieces. `G` says which
pieces there are. -/
inductive Follows (G : Item → Prop) : TState → List Byte → Prop
  | data (is : List Item) (h : ∀ i∈is,G i) : Follows G .data (is.flatMap Item.encode)
  | escaped (is : List Item) (h : ∀ i∈is,G i) : Follows G .iac (255::is.flatMap Item.encode)
  | verb (v : Verb) (opt : Byte) (is : List Item) (ho : G (.option v opt)) (h : ∀ i∈is,G i) :
    Follows G .iac (v.code::opt::is.flatMap Item.encode)
  | opt (v : Verb) (opt : Byte) (is : List Item) (ho : G (.option v opt)) (h : ∀ i∈is,G i) :
    Follows G v.state (opt::is.flatMap Item.encode)

theorem Follows.append {G : Item → Prop} {st : TState} {bs : List Byte} (h : Follows G st bs)
    {js : List Item} (hj : ∀ i∈js,G i) : Follows G st (bs++js.flatMap Item.encode) := by
  have hmem : ∀ is : List Item,(∀ i∈is,G i) → ∀ i∈is++js,G i := fun is hi i hm =>
    (mem_append.mp hm).elim (hi i) (hj i)
  cases h with
  | data is hi => exact flatMap_append ▸ .data _ (hmem is hi)
  | escaped is hi =>
    rw [cons_append,← flatMap_append]
    exact .escaped _ (hmem is hi)
  | verb v o is ho hi =>
    rw [cons_append,cons_append,← flatMap_append]
    exact .verb v o _ ho (hmem is hi)
  | opt v o is ho hi =>
    rw [cons_append,← flatMap_append]
    exact .opt v o _ ho (hmem is hi)

/-- A byte of such a stream: the rest follows, and only the end of a negotiation is answered. -/
theorem Follows.byte {G : Item → Prop} (hG : ∀ cmd value,¬G (.comPort cmd value)) {t : Telnet} {b : Byte}
    {bs : List Byte} (h : Follows G t.tstate (b::bs)) : Follows G (t.byte b).1.tstate bs ∧
    ((∃ v,G (.option v b) ∧ (t.byte b).1=(t.negotiate v b).1 ∧ (t.byte b).2.2=(t.negotiate v b).2) ∨
    ((t.byte b).2.2=[] ∧ (t.byte b).1.willState=t.willState ∧ (t.byte b).1.doState=t.doState)) := by
  generalize hst : t.tstate=st at h
  generalize hbb : b::bs=bb at h
  cases h with
  | data is hi =>
    cases is with
    | nil => cases hbb
    | cons i is =>
      have his : ∀ j∈is,G j := fun j hj => hi j (mem_cons_of_mem i hj)
      rw [flatMap_cons] at hbb
      cases i with
      | char c =>
        by_cases hc : c=255
        · simp only [Item.encode,escape,if_pos hc,cons_append,nil_append,List.cons.injEq] at hbb
          obtain ⟨rfl,rfl⟩ := hbb
          refine ⟨?_,.inr ?_⟩
          · simpa [Telnet.byte,hst] using .escaped is his
          · simp [Telnet.byte,hst]
        · simp only [Item.encode,escape,if_neg hc,cons_append,nil_append,List.cons.injEq] at hbb
          obtain ⟨rfl,rfl⟩ := hbb
          have hb : t.byte b=(t,[b],[]) := by
            unfold Telnet.byte
            rw [hst]
            exact if_neg hc
          rw [hb]
          exact ⟨hst.symm ▸ .data is his,.inr ⟨rfl,rfl,rfl⟩⟩
      | option v o =>
        simp only [Item.encode,cons_append,nil_append,List.cons.injEq] at hbb
        obtain ⟨rfl,rfl⟩ := hbb
        refine ⟨?_,.inr ?_⟩
        · simpa [Telnet.byte,hst] using .verb v o is (hi _ mem_cons_self) his
        · simp [Telnet.byte,hst]
      | comPort cmd value => exact absurd (hi _ mem_cons_self) (hG cmd value)
  | escaped is hi =>
    obtain ⟨rfl,rfl⟩ := List.cons.inj hbb
    refine ⟨?_,.inr ?_⟩
    · simpa [Telnet.byte,hst] using .data is hi
    · simp [Telnet.byte,hst]
  | verb v o is ho hi =>
    obtain ⟨rfl,rfl⟩ := List.cons.inj hbb
    have hb : t.byte v.code=({ t with tstate := v.state },[],[]) := by
      unfold Telnet.byte
      rw [hst]
      cases v <;> rfl
    rw [hb]
    exact ⟨.opt v o is ho hi,.inr ⟨rfl,rfl,rfl⟩⟩
  | opt v o is ho hi =>
    obtain ⟨rfl,rfl⟩ := List.cons.inj hbb
    have hb : t.byte b=((t.negotiate v b).1,[],(t.negotiate v b).2) := by
      unfold Telnet.byte
      rw [hst]
      cases v <;> rfl
    rw [hb]
    exact ⟨by rw [Telnet.negotiate_tstate]; exact .data is hi,.inl ⟨v,ho,rfl,rfl⟩⟩

namespace Telnet

def said (t : Telnet) : Nat :=
  t.willState 0+t.willState 3+t.willState 44+t.doState 0+t.doState 3+t.doState 44+t.willState 1+
    t.doState 1/2

/-- The memory of a line that talks to one of its kind, after `n` negotiations -/
structure Recalls (t : Telnet) (n : Nat) : Prop where
  will : ∀ o,optionSupported o=true → t.willState o≤1
  do_ : ∀ o,optionSupported o=true → t.doState o≤1
  echoWill : t.willState 1≤2
  echoDo : t.doState 1=0 ∨ t.doState 1=2
  said : n≤t.said

variable {t : Telnet} {n : Nat} {o : Byte}

theorem Recalls.le (h : t.Recalls n) : n≤9 := by
  have h0 := h.will 0 rfl
  have h3 := h.will 3 rfl
  have h44 := h.will 44 rfl
  have d0 := h.do_ 0 rfl
  have d3 := h.do_ 3 rfl
  have d44 := h.do_ 44 rfl
  have he := h.echoWill
  have hd := h.echoDo
  have hs := h.said
  unfold Telnet.said at hs
  omega

theorem supported_cases (h : optionSupported o) : o=0 ∨ o=3 ∨ o=44 := by
  simpa [optionSupported,or_assoc] using h

theorem update_le {f : Byte → Nat} (hn : n≤1) (h : ∀ p,optionSupported p → f p≤1) :
    ∀ p,optionSupported p → update f o n p≤1 := by
  intro p hp
  by_cases hpo : p=o
  · subst hpo
    simpa using hn
  · rw [update_of_ne hpo]
    exact h p hp

theorem not_supported_echo : optionSupported 1=false := rfl

theorem Recalls.will_new (h : t.Recalls n) (hz : t.willState o=0) (ho : optionSupported o ∨ o=1) :
    Recalls { t with willState := update t.willState o 1 } (n+1) := by
  have hs := h.said
  refine ⟨update_le (Nat.le_refl 1) h.will,h.do_,?_,h.echoDo,?_⟩
  · have he := h.echoWill
    by_cases h1 : (1 : Byte)=o
    · subst h1
      simp
    · show update t.willState o 1 1≤2
      rw [update_of_ne h1]
      exact he
  · unfold Telnet.said at hs ⊢
    obtain rfl | rfl | rfl | rfl : o=0 ∨ o=3 ∨ o=44 ∨ o=1 := by
      rcases ho with ho | ho
      · rcases supported_cases ho with h | h | h <;> simp [h]
      · simp [ho]
    all_goals
      simp only [update_self,ne_eq,not_false_eq_true,BitVec.reduceEq,update_of_ne]
      omega

theorem Recalls.do_new (h : t.Recalls n) (hz : t.doState o=0) (ho : optionSupported o) :
    Recalls { t with doState := update t.doState o 1 } (n+1) := by
  have hs := h.said
  have h1 : (1 : Byte)≠o := by
    rintro rfl
    rw [not_supported_echo] at ho
    cases ho
  refine ⟨h.will,update_le (Nat.le_refl 1) h.do_,h.echoWill,?_,?_⟩
  · show update t.doState o 1 1=0 ∨ update t.doState o 1 1=2
    rw [update_of_ne h1]
    exact h.echoDo
  · unfold Telnet.said at hs ⊢
    obtain rfl | rfl | rfl := supported_cases ho
    all_goals
      simp only [update_self,ne_eq,not_false_eq_true,BitVec.reduceEq,update_of_ne]
      omega

theorem Recalls.wont_echo (h : t.Recalls n) (hz : t.willState 1≠2) :
    Recalls { t with willState := update t.willState 1 2 } (n+1) := by
  have hs := h.said
  have he := h.echoWill
  refine ⟨fun p hp => ?_,h.do_,by simp,h.echoDo,?_⟩
  · have hp1 : p≠1 := by
      rintro rfl
      rw [not_supported_echo] at hp
      cases hp
    show update t.willState 1 2 p≤1
    rw [update_of_ne hp1]
    exact h.will p hp
  · unfold Telnet.said at hs ⊢
    simp only [update_self,ne_eq,not_false_eq_true,BitVec.reduceEq,update_of_ne]
    omega

theorem Recalls.dont_echo (h : t.Recalls n) (hz : t.doState 1≠2) :
    Recalls { t with doState := update t.doState 1 2 } (n+1) := by
  have hs := h.said
  have he := h.echoDo
  refine ⟨h.will,fun p hp => ?_,h.echoWill,by simp,?_⟩
  · have hp1 : p≠1 := by
      rintro rfl
      rw [not_supported_echo] at hp
      cases hp
    show update t.doState 1 2 p≤1
    rw [update_of_ne hp1]
    exact h.do_ p hp
  · unfold Telnet.said at hs ⊢
    simp only [update_self,ne_eq,not_false_eq_true,BitVec.reduceEq,update_of_ne]
    omega

theorem sendOption_items (t : Telnet) (v : Verb) (o : Byte) :
    (t.sendOption v o).2=[] ∧ (t.sendOption v o).1=t ∨ (t.sendOption v o).2=[.option v o] := by
  unfold sendOption
  cases v <;> dsimp only <;> split_ifs <;> simp

theorem sendOption_tstate (t : Telnet) (v : Verb) (o : Byte) : (t.sendOption v o).1.tstate=t.tstate := by
  unfold sendOption
  cases v <;> dsimp only <;> split_ifs <;> rfl

theorem Recalls.sendOption (h : t.Recalls n) {v : Verb}
    (ha : (Item.option v o).Agreed) (he : v=.will → o=1 → t.willState 1=0) :
    (t.sendOption v o).1.Recalls (n+(t.sendOption v o).2.length) := by
  cases v with
  | will =>
    simp only [Telnet.sendOption]
    split_ifs with hk
    · exact h
    · obtain ⟨ho,-⟩ | ⟨rfl,-⟩ := ha
      · have := h.will o ho
        exact h.will_new (by omega) (.inl ho)
      · exact h.will_new (he rfl rfl) (.inr rfl)
  | do_ =>
    simp only [Telnet.sendOption]
    split_ifs with hk
    · exact h
    · obtain ⟨ho,-⟩ | ⟨-,hv | hv | hv⟩ := ha
      · have := h.do_ o ho
        exact h.do_new (by omega) ho
      all_goals cases hv
  | wont =>
    simp only [Telnet.sendOption]
    split_ifs with hk
    · exact h
    · obtain ⟨-,hv | hv⟩ | ⟨rfl,-⟩ := ha
      · cases hv
      · cases hv
      · exact h.wont_echo hk
  | dont =>
    simp only [Telnet.sendOption]
    split_ifs with hk
    · exact h
    · obtain ⟨-,hv | hv⟩ | ⟨rfl,-⟩ := ha
      · cases hv
      · cases hv
      · exact h.dont_echo hk

theorem answer_agreed {v : Verb} (ha : (Item.option v o).Agreed) :
    (Item.option (answer v o) o).Agreed ∧ ¬(answer v o=.will ∧ o=1) := by
  obtain ⟨ho,hv⟩ | ⟨rfl,hv⟩ := ha
  · have h1 : o≠1 := by
      rintro rfl
      rw [not_supported_echo] at ho
      cases ho
    obtain rfl | rfl := hv
    · exact ⟨.inl ⟨ho,.inr (by simp [answer,ho])⟩,fun h => h1 h.2⟩
    · exact ⟨.inl ⟨ho,.inl (by simp [answer,serverPerforms,ho])⟩,fun h => h1 h.2⟩
  · obtain rfl | rfl | rfl := hv <;>
      exact ⟨.inr ⟨rfl,by decide⟩,by decide⟩

end Telnet

end QUniLator.Mux
