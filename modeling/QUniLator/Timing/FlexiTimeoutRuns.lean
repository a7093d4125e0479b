import QUniLator.Timing.FlexiTimeout
import Mathlib.Data.List.Perm.Basic
import Mathlib.Data.List.TakeWhile

namespace QUniLator.Timing

open List Option Function

namespace Timers

variable {s u : Timers}

theorem perm_multimapInsert (e : WaitEntry) (l : List WaitEntry) : (multimapInsert e l).Perm (e::l) := by
  induction l with
  | nil => exact Perm.refl _
  | cons f l ih =>
    unfold multimapInsert
    split
    · exact Perm.refl _
    · exact (ih.cons f).trans (Perm.swap e f l)

variable {pc : TimerPc} {t : Option FlexiTimeout} {th : Nat} {i : TimeoutId} {l : List WaitEntry}

theorem mem_multimapInsert {e f : WaitEntry} : f∈multimapInsert e l ↔ f=e ∨ f∈l :=
  (perm_multimapInsert e l).mem_iff.trans mem_cons

theorem pairwise_multimapInsert {sig : TimeoutId → Nat} {e : WaitEntry}
    (hl : l.Pairwise fun a b => sig a.id ≤ sig b.id)
    (hfits : ∀ f∈l,(f.key≤e.key → sig f.id ≤ sig e.id) ∧ (e.key<f.key → sig e.id ≤ sig f.id)) :
    (multimapInsert e l).Pairwise fun a b => sig a.id ≤ sig b.id := by
  induction l with
  | nil => exact pairwise_singleton _ e
  | cons f l ih =>
    obtain ⟨hf,hl'⟩ := pairwise_cons.mp hl
    have hfe := hfits f mem_cons_self
    unfold multimapInsert
    split
    · rename_i hlt
      have hef := hfe.2 hlt
      refine pairwise_cons.mpr ⟨fun g hg => ?_,hl⟩
      rcases mem_cons.mp hg with rfl | hg
      · exact hef
      · exact Nat.le_trans hef (hf g hg)
    · rename_i hge
      refine pairwise_cons.mpr ⟨fun g hg => ?_,ih hl' fun g hg => hfits g (mem_cons_of_mem f hg)⟩
      rcases mem_multimapInsert.mp hg with rfl | hg
      · exact hfe.1 (Nat.not_lt.mp hge)
      · exact hf g hg

theorem lt_of_mem_dropWhile (sig : WaitEntry → Nat) {now : Nat}
    (hl : l.Pairwise fun a b => sig a ≤ sig b) {e : WaitEntry}
    (he : e∈l.dropWhile fun e => decide (sig e≤now)) : now<sig e := by
  induction l with
  | nil => simp at he
  | cons f l ih =>
    obtain ⟨hf,hl'⟩ := pairwise_cons.mp hl
    unfold List.dropWhile at he
    split at he
    · exact ih hl' he
    · rename_i hd
      have hn : now<sig f := Nat.not_le.mp (of_decide_eq_false hd)
      rcases mem_cons.mp he with rfl | he
      · exact hn
      · exact Nat.lt_of_lt_of_le hn (hf e he)

def listed (s : Timers) (i : TimeoutId) : Nat := (s.waitList.map WaitEntry.id).count i

theorem listed_eq_zero : s.listed i=0 ↔ ¬s.InList i :=
  count_eq_zero

theorem signalOf_congr (h : u.timeouts i=s.timeouts i) : u.signalOf i=s.signalOf i := by
  unfold signalOf
  rw [h]

theorem signalOf_postAll (l : List WaitEntry) (b : Bool) (i : TimeoutId) :
    (s.postAll l b).signalOf i=s.signalOf i := by
  unfold signalOf postAll
  rw [Option.map_map]
  rfl

theorem timeouts_postAll (l : List WaitEntry) (b : Bool) {t : FlexiTimeout}
    (h : s.timeouts i=some t) : (s.postAll l b).timeouts i =
      some ⟨t.starttime,t.signaltime,t.semaphore.map (· + (l.map WaitEntry.id).count i)⟩ := by
  show (s.timeouts i).map _=_
  rw [h]
  rfl

theorem firstSignal_congr (h : ∀ e∈l,u.signalOf e.id=s.signalOf e.id) : u.firstSignal l=s.firstSignal l := by
  cases l with
  | nil => rfl
  | cons e l => exact h e mem_cons_self

/-- What a thread that has come to a place has of its timeout and of the list, where it is `k` times. -/
def Place (pc : TimerPc) (t : Option FlexiTimeout) (k : Nat) : Prop :=
  match pc with
  | .waitBuilt _ | .waitTimed | .waited => k=0 ∧ ∃ a b,t=some ⟨a,b,some 0⟩
  | .waiting => (k=1 ∧ ∃ a b,t=some ⟨a,b,some 0⟩) ∨ (k=0 ∧ ∃ a b,t=some ⟨a,b,some 1⟩)
  | .idle | .waitTested _ | .startTested _ _ | .startTimed _ | .switching _ | .stepTested _ | .stepAdded
  | .stepScanning => k=0 ∧ t=none

/-- The threads are in their places, the list is in the order of the deadlines, none of which is 0, the first
is the oldest one, and what `Right` says holds between the steps. -/
structure Inv (s : Timers) : Prop where
  places : ∀ th,Place (s.threads th) (s.timeouts (.inWait th)) (s.listed (.inWait th))
  sorted : s.waitList.Pairwise fun a b => s.signalOf a.id ≤ s.signalOf b.id
  nonzero : ∀ e∈s.waitList,s.signalOf e.id≠0
  oldest : s.mode=.emulated → s.emuOldestSignalTime=s.firstSignal s.waitList
  due : ∀ p∈s.posts,p.bySwitch=true ∨ p.signaltime≤p.now
  late : (∃ th,s.Stepping th) ∨ ∀ e∈s.waitList,e.old=true → s.emuNow<s.signalOf e.id
  world : s.mode=.world → s.waitList=[]
  live : ∀ e∈s.waitList,∃ t n,s.timeouts e.id=some t ∧ t.semaphore=some n
  asserts : s.failed=false

theorem Inv.right (h : s.Inv) : s.Right where
  once th hth := by
    have hp := h.places th
    rw [hth] at hp
    rcases hp with ⟨hk,a,b,ht⟩ | ⟨hk,a,b,ht⟩
    · exact .inl ⟨hk,_,ht,rfl⟩
    · exact .inr ⟨hk,_,ht,rfl⟩
  due := h.due
  late hno := by
    rcases h.late with ⟨th,hth⟩ | hl
    · exact (hno th hth).elim
    · exact hl
  world := h.world
  live := h.live
  asserts := h.asserts

theorem Inv.start : start.Inv where
  places _ := ⟨rfl,rfl⟩
  sorted := Pairwise.nil
  nonzero e he := by simp [Timers.start] at he
  oldest h := by cases h
  due p hp := by simp [Timers.start] at hp
  late := .inr fun e he => by simp [Timers.start] at he
  world _ := rfl
  live e he := by simp [Timers.start] at he
  asserts := rfl

theorem Inv.frame (h : s.Inv) (hl : u.waitList=s.waitList) (hm : u.mode=s.mode)
    (hn : u.emuNow=s.emuNow) (ho : u.emuOldestSignalTime=s.emuOldestSignalTime)
    (hpo : u.posts=s.posts) (hf : u.failed=false) (ht : ∀ e∈s.waitList,u.timeouts e.id=s.timeouts e.id)
    (hp : ∀ th,Place (u.threads th) (u.timeouts (.inWait th)) (s.listed (.inWait th))) (hst : ∀ th,s.Stepping th →
      (∃ th,u.Stepping th) ∨ ∀ e∈s.waitList,s.emuNow<s.signalOf e.id) : u.Inv := by
  have hs : ∀ e∈s.waitList,u.signalOf e.id=s.signalOf e.id := fun e he => signalOf_congr (ht e he)
  constructor
  case places =>
    intro th
    unfold listed
    rw [hl]
    exact hp th
  case sorted =>
    rw [hl]
    refine h.sorted.imp_of_mem fun {a b} ha hb hab => ?_
    rw [hs a ha,hs b hb]
    exact hab
  case nonzero =>
    intro e he
    rw [hl] at he
    rw [hs e he]
    exact h.nonzero e he
  case oldest =>
    intro hm'
    rw [ho,hl,firstSignal_congr hs]
    exact h.oldest (hm.symm.trans hm')
  case due =>
    rw [hpo]
    exact h.due
  case late =>
    have hall : (∀ e∈s.waitList,e.old=true → s.emuNow<s.signalOf e.id) →
        ∀ e∈u.waitList,e.old=true → u.emuNow<u.signalOf e.id := by
      intro hx e he hold
      rw [hl] at he
      rw [hn,hs e he]
      exact hx e he hold
    rcases h.late with ⟨th,hth⟩ | hx
    · rcases hst th hth with hu | hx
      · exact .inl hu
      · exact .inr (hall fun e he _ => hx e he)
    · exact .inr (hall hx)
  case world =>
    intro hm'
    rw [hl]
    exact h.world (hm.symm.trans hm')
  case live =>
    intro e he
    rw [hl] at he
    rw [ht e he]
    exact h.live e he
  case asserts => exact hf

theorem Inv.places_update (h : s.Inv) (pc : TimerPc) (hp : Place pc t (s.listed (.inWait th))) (k : Nat) :
    Place (update s.threads th pc k) (update s.timeouts (.inWait th) t (.inWait k)) (s.listed (.inWait k)) := by
  by_cases hk : k=th
  · subst hk
    rw [update_self,update_self]
    exact hp
  · rw [update_of_ne hk,update_of_ne (fun he => hk (TimeoutId.inWait.inj he))]
    exact h.places k

theorem stepping_update {th k : Nat} (hth : ¬s.Stepping th) (hk : s.Stepping k)
    (hu : u.threads=update s.threads th pc) : u.Stepping k := by
  have hne : k≠th := fun he => hth (he ▸ hk)
  unfold Stepping
  rw [hu,update_of_ne hne]
  exact hk

theorem timeouts_update (i : TimeoutId) (t : Option FlexiTimeout) (hi : ¬s.InList i) {e : WaitEntry}
    (he : e∈s.waitList) : update s.timeouts i t e.id=s.timeouts e.id :=
  update_of_ne (fun hx => hi (by rw [← hx]; exact List.mem_map_of_mem he)) _ _

theorem Inv.wait (h : s.Inv) (hi : s.listed (.inWait th)=0) (hp : Place pc t 0) (hst : ¬s.Stepping th) :
    ((s.put (.inWait th) t).goto th pc).Inv :=
  h.frame rfl rfl rfl rfl rfl h.asserts (fun _ he => timeouts_update _ _ (listed_eq_zero.mp hi) he)
    (h.places_update _ (hi ▸ hp)) fun k hk => .inl ⟨k,stepping_update hst hk rfl⟩

theorem Inv.goto (h : s.Inv) (hp : Place pc (s.timeouts (.inWait th)) (s.listed (.inWait th)))
    (hst : s.Stepping th → (s.goto th pc).Stepping th ∨ ∀ e∈s.waitList,s.emuNow<s.signalOf e.id) :
    (s.goto th pc).Inv := by
  refine h.frame rfl rfl rfl rfl rfl h.asserts (fun _ _ => rfl) (fun k => ?_) fun k hk => ?_
  · have hx := h.places_update _ hp k
    rw [update_eq_self] at hx
    exact hx
  · by_cases hth : s.Stepping th
    · rcases hst hth with hx | hx
      · exact .inl ⟨th,hx⟩
      · exact .inr hx
    · exact .inl ⟨k,stepping_update hth hk rfl⟩

theorem Inv.put_member (h : s.Inv) {n : Nat} (hi : ¬s.InList (.member n)) : (s.put (.member n) t).Inv :=
  h.frame rfl rfl rfl rfl rfl h.asserts (fun _ he => timeouts_update _ _ hi he)
    (fun k => by
      have hne : TimeoutId.inWait k≠.member n := by simp
      show Place (s.threads k) (update s.timeouts (.member n) t (.inWait k)) _
      rw [update_of_ne hne]
      exact h.places k)
    fun k hk => .inl ⟨k,hk⟩

theorem Inv.insertWait (h : s.Inv) (hm : s.mode=.emulated)
    (hfits : s.Fits i) (hlive : ∃ t n,s.timeouts i=some t ∧ t.semaphore=some n) (hst : ¬s.Stepping th)
    (hp : ∀ k,Place (update s.threads th pc k) (s.timeouts (.inWait k))
      (s.listed (.inWait k)+if i=.inWait k then 1 else 0)) : ((s.insertWait i).goto th pc).Inv := by
  have hmem : ∀ {e},e∈(s.insertWait i).waitList →
      e=⟨((s.timeouts i).map FlexiTimeout.starttime).getD 0,i,false⟩ ∨ e∈s.waitList :=
    fun he => mem_multimapInsert.mp he
  constructor
  case places =>
    intro k
    have hc : ((s.insertWait i).goto th pc).listed (.inWait k) =
        s.listed (.inWait k)+if i=.inWait k then 1 else 0 := by
      unfold listed
      show ((multimapInsert _ s.waitList).map WaitEntry.id).count _=_
      rw [((perm_multimapInsert _ _).map WaitEntry.id).count_eq,map_cons,count_cons]
      simp
    rw [hc]
    exact hp k
  case sorted => exact pairwise_multimapInsert h.sorted hfits.2
  case nonzero =>
    intro e he
    rcases hmem he with rfl | he
    · exact hfits.1
    · exact h.nonzero e he
  case oldest => exact fun _ => rfl
  case due => exact h.due
  case late =>
    rcases h.late with ⟨k,hk⟩ | hl
    · exact .inl ⟨k,stepping_update hst hk rfl⟩
    · refine .inr fun e he hold => ?_
      rcases hmem he with rfl | he
      · cases hold
      · exact hl e he hold
  case world =>
    intro hw
    cases hm.symm.trans hw
  case live =>
    intro e he
    rcases hmem he with rfl | he
    · exact hlive
    · exact h.live e he
  case asserts => exact h.asserts

theorem Place.post {j k : Nat} {f g : Nat → Nat} (h : Place pc t (j+k)) :
    Place pc (t.map fun t => ⟨f t.starttime,g t.signaltime,t.semaphore.map (· + j)⟩) k := by
  have hout : j+k=0 ∧ t=none →
      k=0 ∧ (t.map fun t => (⟨f t.starttime,g t.signaltime,t.semaphore.map (· + j)⟩ : FlexiTimeout))=none := by
    rintro ⟨hk,rfl⟩
    exact ⟨by omega,rfl⟩
  have hin : (j+k=0 ∧ ∃ a b,t=some ⟨a,b,some 0⟩) → k=0 ∧ ∃ a b,
      (t.map fun t => (⟨f t.starttime,g t.signaltime,t.semaphore.map (· + j)⟩ : FlexiTimeout)) =
        some ⟨a,b,some 0⟩ := by
    rintro ⟨hk,a,b,rfl⟩
    obtain rfl : j=0 := by omega
    exact ⟨by omega,f a,g b,rfl⟩
  cases pc with
  | waiting =>
    rcases h with ⟨hk,a,b,rfl⟩ | ⟨hk,a,b,rfl⟩
    · rcases Nat.eq_zero_or_pos j with rfl | hj
      · exact .inl ⟨by omega,f a,g b,rfl⟩
      · obtain rfl : j=1 := by omega
        exact .inr ⟨by omega,f a,g b,rfl⟩
    · obtain rfl : j=0 := by omega
      exact .inr ⟨by omega,f a,g b,rfl⟩
  | waitBuilt d | waitTimed | waited => exact hin h
  | idle | waitTested d | startTested n d | startTimed n | switching m | stepAdded => exact hout h
  | stepTested d | stepScanning => exact hout h

theorem Inv.scan (h : s.Inv) (th : Nat) (hth : s.threads th=.stepScanning) : (s.scan.goto th .idle).Inv := by
  have hsub : (s.waitList.dropWhile fun e => decide (s.signalOf e.id ≤ s.emuNow)).Sublist s.waitList :=
    dropWhile_sublist _
  have hsig : ∀ i,(s.scan.goto th .idle).signalOf i=s.signalOf i :=
    signalOf_postAll (s.waitList.takeWhile fun e => decide (s.signalOf e.id ≤ s.emuNow)) false
  constructor
  case places =>
    intro k
    have hk : Place (update s.threads th .idle k) (s.timeouts (.inWait k)) (s.listed (.inWait k)) := by
      have hx := h.places_update .idle (hth ▸ h.places th : Place .stepScanning _ _) k
      rw [update_eq_self] at hx
      exact hx
    refine Place.post (f := id) (g := id) ?_
    unfold listed at hk
    rw [← takeWhile_append_dropWhile (p := fun e => decide (s.signalOf e.id ≤ s.emuNow)) (l := s.waitList),
      map_append,count_append] at hk
    exact hk
  case sorted =>
    refine (h.sorted.sublist hsub).imp fun {a b} hab => ?_
    rw [hsig,hsig]
    exact hab
  case nonzero =>
    intro e he
    rw [hsig]
    exact h.nonzero e (hsub.subset he)
  case oldest => exact fun _ => (firstSignal_congr fun e _ => hsig e.id).symm
  case due =>
    intro p hp
    rcases mem_append.mp hp with hp | hp
    · obtain ⟨e,he,rfl⟩ := List.mem_map.mp hp
      have hd := mem_takeWhile_imp he
      exact .inr (of_decide_eq_true hd)
    · exact h.due p hp
  case late =>
    refine .inr fun e he _ => ?_
    rw [hsig]
    exact lt_of_mem_dropWhile (fun e => s.signalOf e.id) h.sorted he
  case world =>
    intro hw
    have hl := h.world hw
    exact sublist_nil.mp (hl ▸ hsub)
  case live =>
    intro e he
    obtain ⟨t,n,ht,hn⟩ := h.live e (hsub.subset he)
    have hu := timeouts_postAll (s.waitList.takeWhile fun e => decide (s.signalOf e.id ≤ s.emuNow)) false ht
    refine ⟨_,n+((s.waitList.takeWhile fun e => decide (s.signalOf e.id ≤ s.emuNow)).map WaitEntry.id).count
      e.id,hu,?_⟩
    rw [hn]
    rfl
  case asserts => exact h.asserts

theorem Inv.switch (h : s.Inv) {m : TimeMode} (worldNow : Nat) (hth : s.threads th=.switching m) :
    ((s.switch worldNow).goto th .idle).Inv := by
  have hk : ∀ k,Place (update s.threads th .idle k) (s.timeouts (.inWait k)) (s.listed (.inWait k)) := by
    intro k
    have hx := h.places_update .idle (hth ▸ h.places th : Place (.switching m) _ _) k
    rw [update_eq_self] at hx
    exact hx
  cases hm : s.mode with
  | world =>
    have hl := h.world hm
    unfold Timers.switch
    rw [hm]
    constructor
    case places => exact hk
    case sorted => exact h.sorted
    case nonzero => exact h.nonzero
    case oldest =>
      intro _
      show 0=s.firstSignal s.waitList
      rw [hl]
      rfl
    case due => exact h.due
    case late =>
      refine .inr fun e he => ?_
      rw [show _=[] from hl] at he
      cases he
    case world => exact fun hw => by cases hw
    case live => exact h.live
    case asserts => simp [Timers.goto,h.asserts,hl]
  | emulated =>
    unfold Timers.switch
    rw [hm]
    have hnil : ∀ {P : WaitEntry → Prop},∀ e∈([] : List WaitEntry),P e := fun e he => by cases he
    constructor
    case places =>
      intro k
      have hx := (hk k).post (k := 0) (f := s.shift worldNow) (g := s.shift worldNow)
      show Place (update s.threads th .idle k) (Option.map _ (Option.map _ (s.timeouts (.inWait k)))) 0
      rw [Option.map_map]
      exact hx
    case sorted => exact Pairwise.nil
    case nonzero => exact hnil
    case oldest => exact fun hw => by cases hw
    case due =>
      intro p hp
      rcases mem_append.mp hp with hp | hp
      · obtain ⟨e,_,rfl⟩ := List.mem_map.mp hp
        exact .inl rfl
      · exact h.due p hp
    case late => exact .inr hnil
    case world => exact fun _ => rfl
    case live => exact hnil
    case asserts => exact h.asserts

theorem Inv.place (h : s.Inv) (hth : s.threads th=pc) : Place pc (s.timeouts (.inWait th)) (s.listed (.inWait th)) :=
  hth ▸ h.places th

theorem not_stepping (hth : s.threads th=pc) (ha : pc≠.stepAdded) (hs : pc≠.stepScanning) : ¬s.Stepping th := by
  rintro (hx | hx)
  · exact ha (hth.symm.trans hx)
  · exact hs (hth.symm.trans hx)

theorem Inv.leave (h : s.Inv) {pc pc' : TimerPc} (hth : s.threads th=pc)
    (hp : ∀ t k,Place pc t k → Place pc' t k) (ha : pc≠.stepAdded) (hs : pc≠.stepScanning) : (s.goto th pc').Inv :=
  h.goto (hp _ _ (h.place hth)) fun hx => (not_stepping hth ha hs hx).elim

theorem Inv.quick (h : s.Inv) (hq : ¬(s.emuOldestSignalTime≠0 ∧ s.emuOldestSignalTime ≤ s.emuNow)) :
    ∀ e∈s.waitList,s.emuNow<s.signalOf e.id := by
  cases hm : s.mode with
  | world =>
    intro e he
    rw [h.world hm] at he
    cases he
  | emulated =>
    have ho := h.oldest hm
    cases hl : s.waitList with
    | nil => exact fun e he => by cases he
    | cons f l =>
      have hsorted := h.sorted
      have hf := h.nonzero f (by
        rw [hl]
        exact mem_cons_self)
      rw [hl] at ho hsorted
      have hof : s.emuOldestSignalTime=s.signalOf f.id := ho
      have hlt : s.emuNow<s.signalOf f.id := by
        by_contra hge
        exact hq ⟨hof ▸ hf,hof ▸ Nat.not_lt.mp hge⟩
      intro e he
      rcases mem_cons.mp he with rfl | he
      · exact hlt
      · exact Nat.lt_of_lt_of_le hlt ((pairwise_cons.mp hsorted).1 e he)

theorem Inv.add (h : s.Inv) {th delta : Nat} (hth : s.threads th=.stepTested delta) (now : Nat) :
    (Timers.goto { s with emuNow := now,waitList := s.waitList.map fun e => { e with old := true } } th
      .stepAdded).Inv := by
  have hids : (s.waitList.map fun e => ({ e with old := true } : WaitEntry)).map WaitEntry.id =
      s.waitList.map WaitEntry.id := by
    rw [List.map_map]
    rfl
  constructor
  case places =>
    intro k
    have hk := h.place hth
    have hp := h.places_update .stepAdded hk k
    rw [update_eq_self] at hp
    unfold listed
    show Place _ _ (((s.waitList.map fun e => ({ e with old := true } : WaitEntry)).map WaitEntry.id).count _)
    rw [hids]
    exact hp
  case sorted => exact pairwise_map.mpr h.sorted
  case nonzero =>
    intro e he
    obtain ⟨f,hf,rfl⟩ := List.mem_map.mp he
    exact h.nonzero f hf
  case oldest =>
    intro hm
    have ho := h.oldest hm
    show s.emuOldestSignalTime=s.firstSignal (s.waitList.map fun e => { e with old := true })
    rw [ho]
    cases s.waitList with
    | nil | cons e l => rfl
  case due => exact h.due
  case late => exact .inl ⟨th,.inl (update_self _ _ _)⟩
  case world =>
    intro hm
    show s.waitList.map _=[]
    rw [h.world hm]
    rfl
  case live =>
    intro e he
    obtain ⟨f,hf,rfl⟩ := List.mem_map.mp he
    exact h.live f hf
  case asserts => exact h.asserts

theorem destruct_eq (ha : s.mode=.emulated → (s.timeouts i).any fun t => t.semaphore=some 0) :
    s.destruct i=s.put i none := by
  have hok : (s.failed || !(s.mode=.world || (s.timeouts i).any fun t => t.semaphore=some 0)) =
      (s.put i none).failed := by
    cases hm : s.mode with
    | world => simp [Timers.put]
    | emulated => simp [Timers.put,ha hm]
  unfold destruct
  simp only
  rw [hok]

theorem Inv.step (h : s.Inv) {e : TimerEvent} (hc : s.Careful e) (hs : s.step e=some u) : u.Inv := by
  cases e <;> simp only [Timers.step,ite_none_right_eq_some,Option.some.injEq] at hs
  case waitTest th d | modeTest th m =>
    obtain ⟨hth,rfl⟩ := hs
    split
    · exact h
    · exact h.leave hth (fun _ _ hp => hp) (by simp) (by simp)
  case waitBuild th =>
    split at hs
    · rename_i d hth
      obtain rfl := some.inj hs
      have hem : s.mode=.emulated := hc
      refine h.wait (h.place hth).1 ⟨rfl,0,0,?_⟩ (not_stepping hth (by simp) (by simp))
      unfold fresh
      rw [if_pos hem]
    · cases hs
  case waitTime th =>
    split at hs
    · rename_i d hth
      obtain rfl := some.inj hs
      obtain ⟨hk,a,b,ht⟩ := h.place hth
      rw [ht]
      exact h.wait hk ⟨rfl,_,_,rfl⟩ (not_stepping hth (by simp) (by simp))
    · cases hs
  case waitInsert th =>
    obtain ⟨hth,rfl⟩ := hs
    obtain ⟨hk,a,b,ht⟩ := h.place hth
    refine h.insertWait hc.1 hc.2 ⟨_,0,ht,rfl⟩ (not_stepping hth (by simp) (by simp)) fun k => ?_
    by_cases hkt : k=th
    · subst hkt
      rw [update_self,if_pos rfl,hk]
      exact .inl ⟨rfl,a,b,ht⟩
    · rw [update_of_ne hkt,if_neg (fun he => hkt (TimeoutId.inWait.inj he).symm)]
      exact h.places k
  case waitSemaphore th =>
    obtain ⟨hth,hs⟩ := hs
    split at hs
    · rename_i a b n ht
      obtain rfl := some.inj hs
      rcases h.place hth with ⟨_,a',b',hx⟩ | ⟨hk,a',b',hx⟩
      · rw [ht] at hx
        cases hx
      · rw [ht] at hx
        obtain rfl : n=0 := by
          cases hx
          rfl
        exact h.wait hk ⟨rfl,a,b,rfl⟩ (not_stepping hth (by simp) (by simp))
    · cases hs
  case waitSignal th => exact hc.elim
  case waitEnd th =>
    obtain ⟨hth,rfl⟩ := hs
    obtain ⟨hk,a,b,ht⟩ := h.place hth
    rw [destruct_eq fun _ => by rw [ht]; rfl]
    exact h.wait hk ⟨rfl,rfl⟩ (not_stepping hth (by simp) (by simp))
  case create n =>
    split at hs
    · cases hs
    · rename_i hno
      obtain rfl := some.inj hs
      refine h.put_member fun hin => hno ?_
      obtain ⟨e,he,hid⟩ := List.mem_map.mp hin
      obtain ⟨t,_,ht,_⟩ := h.live e he
      rw [← hid,ht]
      rfl
  case destroy n =>
    obtain ⟨_,rfl⟩ := hs
    rw [destruct_eq hc.2]
    exact h.put_member hc.1
  case startTest th n d worldNow =>
    split at hs
    · rename_i t ht
      simp only [ite_none_right_eq_some,Option.some.injEq] at hs
      obtain ⟨hth,rfl⟩ := hs
      split
      · rename_i hw
        refine h.put_member fun hin => ?_
        unfold InList at hin
        rw [h.world hw] at hin
        cases hin
      · exact h.leave hth (fun _ _ hp => hp) (by simp) (by simp)
    · cases hs
  case startTime th =>
    split at hs
    · rename_i n d hth
      obtain rfl := some.inj hs
      have hno : s.MayTime (.startTested n d) := hth ▸ hc
      exact (h.put_member hno).leave hth (fun _ _ hp => hp) (by simp) (by simp)
    · cases hs
  case startInsert th =>
    split at hs
    · rename_i n hth
      obtain rfl := some.inj hs
      have hx : s.MayInsert (.startTimed n) := hth ▸ hc
      obtain ⟨hm,hsem,hfits⟩ := hx
      obtain ⟨t,ht,hsome⟩ := Option.any_eq_true _ _ |>.mp hsem
      obtain ⟨c,hc'⟩ := isSome_iff_exists.mp hsome
      refine h.insertWait hm hfits ⟨t,c,ht,hc'⟩ (not_stepping hth (by simp) (by simp)) fun k => ?_
      have hk := h.place hth
      have hp := h.places_update .idle hk k
      rw [update_eq_self] at hp
      rw [if_neg (by simp)]
      exact hp
    · cases hs
  case modeSwitch th worldNow =>
    split at hs
    · rename_i m hth
      obtain rfl := some.inj hs
      exact h.switch _ hth
    · cases hs
  case stepTest th delta =>
    obtain ⟨hth,rfl⟩ := hs
    split
    · exact h.leave hth (fun _ _ hp => hp) (by simp) (by simp)
    · exact h
  case stepAdd th =>
    split at hs
    · rename_i delta hth
      obtain rfl := some.inj hs
      exact h.add hth _
    · cases hs
  case stepQuick th =>
    obtain ⟨hth,rfl⟩ := hs
    split
    · have hp := h.place hth
      exact h.goto hp fun _ => .inl (.inr (update_self _ _ _))
    · rename_i hq
      have hp := h.place hth
      exact h.goto hp fun _ => .inr (h.quick hq)
  case stepScan th =>
    obtain ⟨hth,rfl⟩ := hs
    exact h.scan th hth

/-- In every run whose steps are careful, everybody who waits in emulated time is posted once, in time. -/
theorem waits_right {es : List TimerEvent} (h : Run (Guarded Careful Timers.step) start es s) : s.Right :=
  (h.invariant (fun _ _ _ hi hs => hi.step hs.1 hs.2) Inv.start).right

instance (s : Timers) (i : TimeoutId) : Decidable (s.InList i) :=
  inferInstanceAs (Decidable (i∈_))

instance (s : Timers) (i : TimeoutId) : Decidable (s.Fits i) :=
  inferInstanceAs (Decidable (_ ∧ ∀ e∈s.waitList,_))

instance (s : Timers) : (pc : TimerPc) → Decidable (s.MayTime pc)
  | .startTested _ _ => inferInstanceAs (Decidable (¬_))
  | .idle | .waitTested _ | .waitBuilt _ | .waitTimed | .waiting | .waited | .startTimed _ | .switching _
  | .stepTested _ | .stepAdded | .stepScanning => isTrue trivial

instance (s : Timers) : (pc : TimerPc) → Decidable (s.MayInsert pc)
  | .startTimed _ => inferInstanceAs (Decidable (_=_ ∧ _=_ ∧ Fits _ _))
  | .idle | .waitTested _ | .waitBuilt _ | .waitTimed | .waiting | .waited | .startTested _ _ | .switching _
  | .stepTested _ | .stepAdded | .stepScanning => isTrue trivial

instance (s : Timers) : (e : TimerEvent) → Decidable (s.Careful e)
  | .waitBuild _ => inferInstanceAs (Decidable (_=_))
  | .waitInsert _ => inferInstanceAs (Decidable (_ ∧ Fits _ _))
  | .waitSignal _ => isFalse id
  | .destroy _ => inferInstanceAs (Decidable (¬InList _ _ ∧ (_ → _=_)))
  | .startTime _ => inferInstanceAs (Decidable (MayTime _ _))
  | .startInsert _ => inferInstanceAs (Decidable (MayInsert _ _))
  | .modeSwitch _ _ => inferInstanceAs (Decidable (_≠_))
  | .waitTest _ _ | .waitTime _ | .waitSemaphore _ | .waitEnd _ | .create _ | .startTest _ _ _ _
  | .modeTest _ _ | .stepTest _ _ | .stepAdd _ | .stepQuick _ | .stepScan _ => isTrue trivial

/-- `wait_ns(d)` of a thread up to `sem_wait()` -/
def waits (thread duration : Nat) : List TimerEvent :=
  [.waitTest thread duration,.waitBuild thread,.waitTime thread,.waitInsert thread]

/-- `emu_step_ns(delta)` of a thread, when it has to scan the list and when it has not -/
def steps (thread delta : Nat) (scans : Bool) : List TimerEvent :=
  [.stepTest thread delta,.stepAdd thread,.stepQuick thread]++if scans then [.stepScan thread] else []

def emulates : List TimerEvent := [.modeTest 0 .emulated,.modeSwitch 0 100]

theorem waits_right_two : ∃ s : Timers,s.Right ∧ s.waitList=[] ∧ s.posts =
    [⟨.inWait 1,120,120,false⟩,⟨.inWait 2,110,110,false⟩] := by
  obtain ⟨s,hs,hp⟩ := run_of_foldlM Careful Timers.step (fun s => decide (s.waitList=[] ∧ s.posts =
      [⟨.inWait 1,120,120,false⟩,⟨.inWait 2,110,110,false⟩]))
    (emulates++waits 2 10++waits 1 20++steps 0 5 false++steps 0 5 true ++
      [.waitSemaphore 2,.waitEnd 2]++steps 0 10 true++[.waitSemaphore 1,.waitEnd 1]) start (by decide)
  exact ⟨s,waits_right hs,of_decide_eq_true hp⟩

/-- Thread 1 waits 1000 from 100 on, thread 2 waits 5 from 110 on, and two steps come after that. -/
def shortBehindLong : List TimerEvent :=
  emulates++waits 1 1000++steps 0 10 false++waits 2 5++steps 0 10 false++steps 0 10 false

def ranShort : Timers := (shortBehindLong.foldlM Timers.step start).getD start

theorem run_ranShort : Run (fun s e t => Timers.step s e=some t) start shortBehindLong ranShort := by
  have hsome : (shortBehindLong.foldlM Timers.step start).isSome := by decide
  obtain ⟨t,ht⟩ := isSome_iff_exists.mp hsome
  have hr : ranShort=t := by
    unfold ranShort
    rw [ht]
    rfl
  exact run_of_foldlM_eq (hr ▸ ht)

/-- The time is 130, and thread 2 still waits for 115. -/
theorem waits_late : ∃ s : Timers,Run (fun s e t => Timers.step s e=some t) start shortBehindLong s ∧
    s.emuNow=130 ∧ s.signalOf (.inWait 2)=115 ∧ s.threads 2=.waiting ∧ ¬s.Right := by
  refine ⟨ranShort,run_ranShort,by decide,by decide,by decide,fun hr => ?_⟩
  have hpc : ∀ th,ranShort.threads th≠.stepAdded ∧ ranShort.threads th≠.stepScanning
    | 0 | 1 | 2 => by decide
    | th+3 => by
      have hidle : ranShort.threads (th+3)=.idle := rfl
      rw [hidle]
      decide
  have hlt := hr.late (fun th hx => hx.elim (hpc th).1 (hpc th).2) ⟨110,.inWait 2,true⟩ (by decide) rfl
  revert hlt
  decide

end Timers

end QUniLator.Timing
