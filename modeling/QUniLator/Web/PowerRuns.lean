import QUniLator.Web.Power

namespace QUniLator.Web

open List

namespace Machine

variable {ι : Type*} [DecidableEq ι] {r : Rack ι} {m s t : Machine ι} {refused unopened : List ι}

theorem disable_eq (r : Rack ι) (m : Machine ι) (dev : ι) :
    ∃ enabled',m.disable r dev={ m with enabled := enabled' } ∧ ∀ x,enabled' x ↔
      m.enabled x=true ∧ ¬(m.enabled dev ∧ (x=dev ∨ x∈r.drives dev++r.box dev)) := by
  unfold disable
  by_cases h : m.enabled dev=true
  · rw [if_pos h]
    refine ⟨_,rfl,fun x => ?_⟩
    simp [h]
  · rw [if_neg h]
    exact ⟨m.enabled,rfl,fun x => by simp [h]⟩

theorem enable_eq (r : Rack ι) (m : Machine ι) (refused : List ι) (dev : ι) :
    ∃ enabled',m.enable r refused dev={ m with enabled := enabled' } ∧ ∀ x,enabled' x ↔
      m.enabled x=true ∨ m.enabled dev=false ∧ dev∉refused ∧ (x=dev ∨ x∈r.box dev ∧ x∉refused) := by
  unfold enable
  by_cases h : (m.enabled dev || dev∈refused)=true
  · rw [if_pos h]
    refine ⟨m.enabled,rfl,fun x => ?_⟩
    simp only [Bool.or_eq_true,decide_eq_true_eq] at h
    constructor
    · exact .inl
    · rintro (hx | ⟨h1,h2,-⟩)
      · exact hx
      · rcases h with h | h
        · rw [h] at h1
          cases h1
        · exact absurd h h2
  · rw [if_neg h]
    refine ⟨_,rfl,fun x => ?_⟩
    simp only [Bool.or_eq_true,decide_eq_true_eq,not_or,Bool.not_eq_true] at h
    simp [h.1,h.2,or_assoc]

theorem setMedium_eq (m : Machine ι) (dev : ι) (path : String) (opens : Bool) :
    ∃ medium',m.setMedium dev path opens={ m with medium := medium' } ∧ (∀ x,x≠dev → medium' x=m.medium x) ∧
      (path = "" ∨ opens ∨ m.medium dev=path → medium' dev=path) := by
  unfold setMedium
  by_cases h : m.medium dev=path
  · rw [if_pos h]
    exact ⟨m.medium,rfl,fun _ _ => rfl,fun _ => h⟩
  rw [if_neg h]
  by_cases ho : path = "" ∨ opens=true
  · rw [if_pos ho]
    exact ⟨_,rfl,fun x hx => Function.update_of_ne hx ..,fun _ => Function.update_self ..⟩
  · rw [if_neg ho]
    exact ⟨m.medium,rfl,fun _ _ => rfl,fun h' => absurd (h'.imp_right fun h' => h'.resolve_right h) ho⟩

end Machine

def CarriedDevice.Holds {ι : Type*} (d : CarriedDevice ι) : Prop := d.hadImage=true ∧ d.image ≠ ""

namespace Machine

variable {ι : Type*} [DecidableEq ι] {r : Rack ι} {m s t : Machine ι} {refused unopened : List ι}

theorem takeOne_eq (r : Rack ι) (m : Machine ι) (d : CarriedDevice ι) :
    ∃ enabled' medium',m.takeOne r d={ m with enabled := enabled',medium := medium' } ∧ (∀ x,enabled' x ↔
        m.enabled x=true ∧ ¬(m.enabled d.dev ∧ (x=d.dev ∨ x∈r.drives d.dev++r.box d.dev))) ∧
      (∀ x,x=d.dev ∧ d.Holds → medium' x = "") ∧ ∀ x,¬(x=d.dev ∧ d.Holds) → medium' x=m.medium x := by
  obtain ⟨enabled',he,hen⟩ := disable_eq r m d.dev
  unfold takeOne
  by_cases h : d.Holds
  · obtain ⟨medium',hm,hother,hself⟩ := setMedium_eq (m.disable r d.dev) d.dev "" true
    rw [if_pos (by simpa [CarriedDevice.Holds] using h),hm]
    rw [he] at hother ⊢
    refine ⟨enabled',medium',rfl,hen,fun x hx => ?_,fun x hx => hother x fun hxd => hx ⟨hxd,h⟩⟩
    rw [hx.1]
    exact hself (.inl rfl)
  · rw [if_neg (by simpa [CarriedDevice.Holds] using h),he]
    exact ⟨enabled',m.medium,rfl,hen,fun x hx => absurd hx.2 h,fun _ _ => rfl⟩

theorem putOne_eq (r : Rack ι) (m : Machine ι) (refused unopened : List ι) (d : CarriedDevice ι) :
    ∃ enabled' medium',m.putOne r refused unopened d={ m with enabled := enabled',medium := medium' } ∧
      (∀ x,enabled' x ↔ m.enabled x ∨
        m.enabled d.dev=false ∧ d.dev∉refused ∧ (x=d.dev ∨ x∈r.box d.dev ∧ x∉refused)) ∧
      (d.Holds → d.dev∉unopened ∨ m.medium d.dev=d.image → medium' d.dev=d.image) ∧
      ∀ x,¬(x=d.dev ∧ d.Holds) → medium' x=m.medium x := by
  unfold putOne
  by_cases h : d.Holds
  · obtain ⟨medium',hm,hother,hself⟩ := setMedium_eq m d.dev d.image (d.dev∉unopened)
    rw [if_pos (by simpa [CarriedDevice.Holds] using h),hm]
    obtain ⟨enabled',he,hen⟩ := enable_eq r { m with medium := medium' } refused d.dev
    refine ⟨enabled',medium',he,hen,fun _ ho => hself ?_,fun x hx => hother x fun hxd => hx ⟨hxd,h⟩⟩
    exact .inr (ho.imp_left fun ho => by simpa using ho)
  · obtain ⟨enabled',he,hen⟩ := enable_eq r m refused d.dev
    rw [if_neg (by simpa [CarriedDevice.Holds] using h)]
    exact ⟨enabled',m.medium,he,hen,fun hh => absurd hh h,fun _ _ => rfl⟩

/-- Every device that is on is one that is still to be taken out, or in a box that is. -/
def Leaves (r : Rack ι) (m : Machine ι) (devs : List (CarriedDevice ι)) : Prop :=
  ∀ x,m.enabled x=true → ∃ d∈devs,x=d.dev ∨ x∈r.box d.dev ∧ m.enabled d.dev=true

omit [DecidableEq ι] in
theorem box_flat (r : Rack ι) {c x y : ι} (hx : x∈r.drives c++r.box c) : y∉r.box x := by
  rw [r.flat c x hx]
  exact not_mem_nil

theorem takeOut_eq {devs : List (CarriedDevice ι)} (h : m.Leaves r devs) :
    ∃ enabled' medium',m.takeOut r devs={ m with enabled := enabled',medium := medium' } ∧
      (∀ x,enabled' x=false) ∧ (∀ d∈devs,d.Holds → medium' d.dev = "") ∧
      (∀ x,(∀ d∈devs,d.Holds → x≠d.dev) → medium' x=m.medium x) ∧
      ∀ x,m.medium x = "" → medium' x = "" := by
  induction devs generalizing m with
  | nil =>
    refine ⟨m.enabled,m.medium,rfl,fun x => ?_,fun _ hd => absurd hd not_mem_nil,fun _ _ => rfl,fun _ h => h⟩
    refine Bool.eq_false_iff.mpr fun hx => ?_
    obtain ⟨d,hd,-⟩ := h x hx
    cases hd
  | cons d devs ih =>
    obtain ⟨en,med,he,hen,hself,hother⟩ := takeOne_eq r m d
    have hleaves : (m.takeOne r d).Leaves r devs := by
      intro x hx
      rw [he] at hx ⊢
      obtain ⟨hx1,hx2⟩ := (hen x).mp hx
      obtain ⟨d',hd',hor⟩ := h x hx1
      rcases mem_cons.mp hd' with rfl | hd'
      · -- it leaves with the card that has just been taken out
        refine absurd ⟨?_,?_⟩ hx2
        · rcases hor with rfl | hor
          · exact hx1
          · exact hor.2
        · exact hor.imp_right fun hor => mem_append_right _ hor.1
      · refine ⟨d',hd',hor.imp_right fun hor => ⟨hor.1,(hen d'.dev).mpr ⟨hor.2,fun hon => ?_⟩⟩⟩
        rcases hon.2 with heq | hmem
        · exact hx2 ⟨hon.1,.inr (mem_append_right _ (heq ▸ hor.1))⟩
        · exact box_flat r hmem hor.1
    obtain ⟨en',med',he',hoff,hholds,hrest,hempty⟩ := ih hleaves
    rw [he] at he' hrest hempty
    have hmed : ∀ x,m.medium x = "" → med x = "" := by
      intro x hx
      by_cases hxd : x=d.dev ∧ d.Holds
      · exact hself x hxd
      · exact (hother x hxd).trans hx
    refine ⟨en',med',?_,hoff,forall_mem_cons.mpr ⟨fun hh => ?_,hholds⟩,fun x hx => ?_,fun x hx => ?_⟩
    · show (m.takeOne r d).takeOut r devs=_
      rw [he]
      exact he'
    · exact hempty _ (hself _ ⟨rfl,hh⟩)
    · obtain ⟨hx1,hx2⟩ := forall_mem_cons.mp hx
      exact (hrest x hx2).trans (hother x fun hxd => hx1 hxd.2 hxd.1)
    · exact hempty x (hmed x hx)

def putAll (r : Rack ι) (refused unopened : List ι) (m : Machine ι) (devs : List (CarriedDevice ι)) : Machine ι :=
  devs.foldl (putOne r · refused unopened) m

theorem putAll_eq (r : Rack ι) (refused unopened : List ι) (m : Machine ι) (devs : List (CarriedDevice ι)) (hd : (devs.map (·.dev)).Nodup) :
    ∃ enabled' medium',m.putAll r refused unopened devs={ m with enabled := enabled',medium := medium' } ∧
      (∀ x,m.enabled x → enabled' x) ∧ (∀ d∈devs,d.dev∉refused → enabled' d.dev) ∧
      (∀ x∈refused,enabled' x=m.enabled x) ∧
      (∀ x,enabled' x → m.enabled x ∨
        ∃ d∈devs,x=d.dev ∨ x∈r.box d.dev ∧ enabled' d.dev) ∧
      (∀ d∈devs,d.Holds → d.dev∉unopened ∨ m.medium d.dev=d.image → medium' d.dev=d.image) ∧
      ∀ x,(∀ d∈devs,d.Holds → x≠d.dev) → medium' x=m.medium x := by
  induction devs generalizing m with
  | nil =>
    exact ⟨m.enabled,m.medium,rfl,fun _ h => h,fun _ h => absurd h not_mem_nil,fun _ _ => rfl,fun _ h => .inl h,
      fun _ h => absurd h not_mem_nil,fun _ _ => rfl⟩
  | cons d devs ih =>
    obtain ⟨hd1,hd2⟩ := nodup_cons.mp hd
    obtain ⟨en,med,he,hen,hself,hother⟩ := putOne_eq r m refused unopened d
    obtain ⟨en',med',he',hkeep,hon,hrefused,hfrom,hholds,hrest⟩ := ih { m with enabled := en,medium := med } hd2
    have hsame : ∀ d'∈devs,d'.dev≠d.dev := by
      intro d' hd' heq
      exact hd1 (mem_map.mpr ⟨d',hd',heq⟩)
    refine ⟨en',med',?_,fun x hx => hkeep x ((hen x).mpr (.inl hx)),forall_mem_cons.mpr ⟨fun hr => ?_,hon⟩,
      fun x hx => ?_,fun x hx => ?_,forall_mem_cons.mpr ⟨fun hh ho => ?_,fun d' hd' hh ho => ?_⟩,fun x hx => ?_⟩
    · show (m.putOne r refused unopened d).putAll r refused unopened devs=_
      rw [he]
      exact he'
    · refine hkeep _ ((hen _).mpr ?_)
      by_cases h : m.enabled d.dev=true
      · exact .inl h
      · exact .inr ⟨Bool.not_eq_true _ ▸ h,hr,.inl rfl⟩
    · rw [hrefused x hx]
      refine Bool.eq_iff_iff.mpr ((hen x).trans ⟨?_,.inl⟩)
      rintro (h | ⟨-,hr,rfl | hb⟩)
      · exact h
      · exact absurd hx hr
      · exact absurd hx hb.2
    · rcases hfrom x hx with h | ⟨d',hd',h⟩
      · rcases (hen x).mp h with h | ⟨hoff,hr,h⟩
        · exact .inl h
        · refine .inr ⟨d,mem_cons_self,h.imp_right fun h => ⟨h.1,hkeep _ ((hen _).mpr ?_)⟩⟩
          exact .inr ⟨hoff,hr,.inl rfl⟩
      · exact .inr ⟨d',mem_cons_of_mem d hd',h⟩
    · refine (hrest _ fun d' hd' _ heq => hsame d' hd' heq.symm).trans (hself hh ho)
    · refine hholds d' hd' hh (ho.imp_right fun ho => ?_)
      exact (hother _ fun h => hsame d' hd' h.1).trans ho
    · obtain ⟨hx1,hx2⟩ := forall_mem_cons.mp hx
      exact (hrest x hx2).trans (hother x fun hxd => hx1 hxd.2 hxd.1)

theorem putIn_ok (devs tried : List (CarriedDevice ι)) (m : Machine ι) (h : ∀ d∈devs,d.dev∉refused) :
    putIn r refused unopened tried devs m=(m.putAll r refused unopened devs,none) := by
  induction devs generalizing m tried with
  | nil => rfl
  | cons d devs ih =>
    obtain ⟨hd,hdevs⟩ := forall_mem_cons.mp h
    obtain ⟨en,med,he,hen,-⟩ := putOne_eq r m refused unopened d
    have hon : (m.putOne r refused unopened d).enabled d.dev=true := by
      rw [he]
      refine (hen _).mpr ?_
      by_cases h : m.enabled d.dev=true
      · exact .inl h
      · exact .inr ⟨Bool.not_eq_true _ ▸ h,hd,.inl rfl⟩
    unfold putIn
    dsimp only
    rw [if_pos hon,ih _ _ hdevs]
    rfl

theorem putIn_refused (r : Rack ι) (unopened : List ι) (devs tried : List (CarriedDevice ι)) (m : Machine ι) (h : ∃ d∈devs,d.dev∈refused)
    (hoff : ∀ x∈refused,m.enabled x=false) : ∃ l l',devs=l++l' ∧
      putIn r refused unopened tried devs m=(m.putAll r refused unopened l,some (tried++l)) := by
  induction devs generalizing m tried with
  | nil =>
    obtain ⟨d,hd,-⟩ := h
    cases hd
  | cons d devs ih =>
    obtain ⟨en,med,he,hen,-⟩ := putOne_eq r m refused unopened d
    by_cases hd : d.dev∈refused
    · have hoff' : (m.putOne r refused unopened d).enabled d.dev=false := by
        rw [he]
        refine Bool.eq_false_iff.mpr fun hon => ?_
        rcases (hen _).mp hon with hon | hon
        · rw [hoff _ hd] at hon
          cases hon
        · exact hon.2.1 hd
      refine ⟨[d],devs,rfl,?_⟩
      unfold putIn
      dsimp only
      rw [if_neg (by simp [hoff'])]
      rfl
    · have hon : (m.putOne r refused unopened d).enabled d.dev=true := by
        rw [he]
        refine (hen _).mpr ?_
        by_cases h : m.enabled d.dev=true
        · exact .inl h
        · exact .inr ⟨Bool.not_eq_true _ ▸ h,hd,.inl rfl⟩
      have hrest : ∃ d'∈devs,d'.dev∈refused := by
        obtain ⟨d',hd',hr⟩ := h
        rcases mem_cons.mp hd' with rfl | hd'
        · exact absurd hr hd
        · exact ⟨d',hd',hr⟩
      have hoff' : ∀ x∈refused,(m.putOne r refused unopened d).enabled x=false := by
        intro x hx
        rw [he]
        refine Bool.eq_false_iff.mpr fun hon => ?_
        rcases (hen _).mp hon with hon | ⟨-,-,rfl | hb⟩
        · rw [hoff x hx] at hon
          cases hon
        · exact hd hx
        · exact hb.2 hx
      obtain ⟨l,l',rfl,hl⟩ := ih (tried++[d]) _ hrest hoff'
      refine ⟨d::l,l',rfl,?_⟩
      unfold putIn
      dsimp only
      rw [if_pos hon,hl,append_assoc]
      rfl

/-- A live machine carries nothing; in a dark one nothing is on, and each card is carried once. -/
structure Inv (r : Rack ι) (m : Machine ι) : Prop where
  live : m.machineDark=false → m.carried=[]
  off : m.machineDark=true → ∀ d,m.enabled d=false
  nodup : (m.carried.map (·.dev)).Nodup
  image : ∀ d∈m.carried,d.hadImage=r.image d.dev ∧ (d.hadImage=false → d.image = "")

variable {d : CarriedDevice ι} {x : ι}

theorem find?_entry {l : List (CarriedDevice ι)} (hl : (l.map (·.dev)).Nodup) :
    l.find? (·.dev=x)=some d ↔ d∈l ∧ d.dev=x := by
  induction l with
  | nil => simp
  | cons e l ih =>
    obtain ⟨he,hl⟩ := nodup_cons.mp hl
    by_cases hx : e.dev=x
    · rw [List.find?_cons_of_pos (by simpa using hx)]
      constructor
      · intro h
        obtain rfl := Option.some.inj h
        exact ⟨mem_cons_self,hx⟩
      · rintro ⟨hd,rfl⟩
        rcases mem_cons.mp hd with rfl | hd
        · rfl
        · exact absurd (mem_map.mpr ⟨d,hd,hx.symm⟩) he
    · rw [List.find?_cons_of_neg (by simpa using hx),ih hl]
      constructor
      · exact fun h => ⟨mem_cons_of_mem e h.1,h.2⟩
      · rintro ⟨hd,rfl⟩
        rcases mem_cons.mp hd with rfl | hd
        · exact absurd rfl hx
        · exact ⟨hd,rfl⟩

theorem carriedEntry_eq (hd : m.machineDark) (hn : (m.carried.map (·.dev)).Nodup) : m.carriedEntry x=some d ↔ d∈m.carried ∧ d.dev=x := by
  unfold carriedEntry
  rw [if_pos hd]
  exact find?_entry hn

theorem carriedEntry_isSome (hd : m.machineDark) (hn : (m.carried.map (·.dev)).Nodup) :
    (m.carriedEntry x).isSome=true ↔ ∃ d∈m.carried,d.dev=x := by
  rw [Option.isSome_iff_exists]
  exact exists_congr fun d => carriedEntry_eq hd hn

theorem Inv.dark_inMachine (h : m.Inv r) (hd : m.machineDark) : m.isInMachine x=true ↔ ∃ d∈m.carried,d.dev=x := by
  unfold isInMachine
  rw [h.off hd x,Bool.or_false]
  exact carriedEntry_isSome hd h.nodup

theorem live_entry (hd : m.machineDark=false) (x : ι) : m.carriedEntry x=none := by
  unfold carriedEntry
  rw [if_neg (by simp [hd])]

theorem live_inMachine (hd : m.machineDark=false) (x : ι) : m.isInMachine x=m.enabled x := by
  unfold isInMachine
  rw [live_entry hd]
  rfl

theorem live_paramValue (hd : m.machineDark=false) (x : ι) : m.paramValue x=m.medium x := by
  unfold paramValue
  rw [live_entry hd]

theorem dark_paramValue (hd : m.machineDark) (hn : (m.carried.map (·.dev)).Nodup)
    (h : d∈m.carried) : m.paramValue d.dev=if d.hadImage then d.image else m.medium d.dev := by
  unfold paramValue
  rw [(carriedEntry_eq hd hn).mpr ⟨h,rfl⟩]

theorem other_paramValue (hd : m.machineDark) (hn : (m.carried.map (·.dev)).Nodup)
    (h : ∀ d∈m.carried,d.dev≠x) : m.paramValue x=m.medium x := by
  unfold paramValue
  have hnone : m.carriedEntry x=none := by
    refine Option.eq_none_iff_forall_not_mem.mpr fun d hx => ?_
    obtain ⟨hm,hx⟩ := (carriedEntry_eq hd hn).mp hx
    exact h d hm hx
  rw [hnone]

def Same (s t : Machine ι) : Prop := ∀ x,t.isInMachine x=s.isInMachine x ∧ t.paramValue x=s.paramValue x

theorem mem_restore (h : m.Inv r) : d∈m.carriedInRegistryOrder r ↔ d∈m.carried := by
  unfold carriedInRegistryOrder
  rw [mem_filterMap]
  constructor
  · rintro ⟨x,-,hx⟩
    exact ((find?_entry h.nodup).mp hx).1
  · exact fun hd => ⟨d.dev,r.all d.dev,(find?_entry h.nodup).mpr ⟨hd,rfl⟩⟩

omit [DecidableEq ι] in
theorem filterMap_sublist {f : ι → Option (CarriedDevice ι)} (hf : ∀ x d,f x=some d → d.dev=x) (l : List ι) :
    ((l.filterMap f).map (·.dev)).Sublist l := by
  induction l with
  | nil => exact .slnil
  | cons x l ih =>
    cases hx : f x with
    | none =>
      rw [filterMap_cons_none hx]
      exact ih.cons x
    | some d =>
      rw [filterMap_cons_some hx,map_cons,hf x d hx]
      exact ih.cons_cons x

theorem nodup_restore (h : m.Inv r) : ((m.carriedInRegistryOrder r).map (·.dev)).Nodup :=
  (filterMap_sublist (fun _ _ hx => ((find?_entry h.nodup).mp hx).2) r.registry).nodup r.nodup

omit [DecidableEq ι] in
theorem mem_taken (r : Rack ι) (m : Machine ι) :
    d∈(r.registry.filter m.enabled).map (m.entryFor r) ↔ m.enabled d.dev ∧ d=m.entryFor r d.dev := by
  rw [mem_map]
  constructor
  · rintro ⟨x,hx,rfl⟩
    exact ⟨(mem_filter.mp hx).2,rfl⟩
  · exact fun h => ⟨d.dev,mem_filter.mpr ⟨r.all _,h.1⟩,h.2.symm⟩

omit [DecidableEq ι] in
theorem nodup_taken (r : Rack ι) (m : Machine ι) :
    (((r.registry.filter m.enabled).map (m.entryFor r)).map (·.dev)).Nodup := by
  have he : ((r.registry.filter m.enabled).map (m.entryFor r)).map (·.dev)=r.registry.filter m.enabled := by
    rw [map_map]
    exact map_id _
  rw [he]
  exact r.nodup.filter _

theorem Inv.devicesOff (h : m.Inv r) : (m.devicesOff r).Inv r ∧ m.Same (m.devicesOff r) ∧
    (m.devicesOff r).machineDark=true ∧
    (m.machineDark=false → ∀ d∈(m.devicesOff r).carried,d.hadImage → (m.devicesOff r).medium d.dev = "") := by
  by_cases hd : m.machineDark=true
  · have he : m.devicesOff r=m := if_pos hd
    rw [he]
    exact ⟨h,fun _ => ⟨rfl,rfl⟩,hd,fun hl => absurd (hl.symm.trans hd) (by decide)⟩
  have hlive : m.machineDark=false := Bool.not_eq_true _ ▸ hd
  have he : m.devicesOff r=takeOut r { m with carried := (r.registry.filter m.enabled).map (m.entryFor r)
                                              machineDark := true } _ := if_neg hd
  have hleaves : Leaves r { m with carried := (r.registry.filter m.enabled).map (m.entryFor r),machineDark := true }
      ((r.registry.filter m.enabled).map (m.entryFor r)) := by
    exact fun x hx => ⟨m.entryFor r x,(mem_taken r m).mpr ⟨hx,rfl⟩,.inl rfl⟩
  obtain ⟨en,med,hout,hoff,hholds,hrest,-⟩ := takeOut_eq hleaves
  rw [he,hout]
  have hmed : ∀ d∈(r.registry.filter m.enabled).map (m.entryFor r),d.hadImage=true → med d.dev = "" := by
    intro d hdm hi
    by_cases hh : d.Holds
    · exact hholds d hdm hh
    · refine (hrest _ fun d' hd' hh' heq => hh ?_).trans ?_
      · have h1 := ((mem_taken r m).mp hdm).2
        have h2 := ((mem_taken r m).mp hd').2
        rw [← heq,← h1] at h2
        exact h2 ▸ hh'
      · have him : d.image = "" := by
          by_contra hne
          exact hh ⟨hi,hne⟩
        have h1 := ((mem_taken r m).mp hdm).2
        have hr : r.image d.dev=true := by
          rw [h1] at hi
          exact hi
        rw [h1] at him
        unfold entryFor at him
        dsimp only at him
        rw [if_pos hr] at him
        exact him
  have hinv : Inv r { m with enabled := en,medium := med,machineDark := true,
                             carried := (r.registry.filter m.enabled).map (m.entryFor r) } := by
    refine ⟨fun hf => (by cases hf),fun _ => hoff,nodup_taken r m,fun d hdm => ?_⟩
    obtain ⟨-,h2⟩ := (mem_taken r m).mp hdm
    rw [h2]
    refine ⟨rfl,fun hf => ?_⟩
    have hr : ¬r.image d.dev=true := by simpa [entryFor] using hf
    exact if_neg hr
  refine ⟨hinv,fun x => ⟨?_,?_⟩,rfl,fun _ => hmed⟩
  · rw [live_inMachine hlive]
    refine Bool.eq_iff_iff.mpr ((hinv.dark_inMachine rfl).trans ⟨?_,fun hx => ?_⟩)
    · rintro ⟨d,hdm,rfl⟩
      exact ((mem_taken r m).mp hdm).1
    · exact ⟨m.entryFor r x,(mem_taken r m).mpr ⟨hx,rfl⟩,rfl⟩
  · rw [live_paramValue hlive]
    by_cases hx : m.enabled x=true
    · have hmem : m.entryFor r x∈(r.registry.filter m.enabled).map (m.entryFor r) := (mem_taken r m).mpr ⟨hx,rfl⟩
      refine (dark_paramValue (d := m.entryFor r x) rfl hinv.nodup hmem).trans ?_
      by_cases hi : r.image x=true
      · simp [entryFor,hi]
      · have hrx : med x=m.medium x := by
          refine hrest x fun d hdm hh heq => hi ?_
          have h2 := ((mem_taken r m).mp hdm).2
          rw [h2] at hh
          rw [heq]
          exact hh.1
        simp [entryFor,hi,hrx]
    · have hnot : ∀ d∈(r.registry.filter m.enabled).map (m.entryFor r),d.dev≠x := by
        rintro d hdm rfl
        exact hx ((mem_taken r m).mp hdm).1
      refine (other_paramValue rfl hinv.nodup hnot).trans ?_
      exact hrest x fun d hdm _ heq => hnot d hdm heq.symm

/-- A power-up is refused: two cards answer at one address, or a card is refused. -/
def Refused (r : Rack ι) (m : Machine ι) (refused : List ι) : Prop :=
  (∃ d∈m.carried,m.addressConflict r d.dev=true) ∨ ∃ d∈m.carried,d.dev∈refused

/-- For a refused power-up, no drive names a medium of its own. For another, a drive without a medium names none of
its own, every other one can open its medium, and a box is carried with its drives. -/
def Careful (r : Rack ι) (m : Machine ι) : PowerStep ι → Prop
  | .devicesOn refused unopened => m.machineDark=true →
    (m.Refused r refused → ∀ d∈m.carried,d.hadImage=true → m.medium d.dev = "") ∧
    (¬m.Refused r refused → ∀ d∈m.carried, (d.hadImage=true → d.image = "" → m.medium d.dev = "") ∧
      (d.hadImage=true → d.dev∉unopened ∨ m.medium d.dev=d.image) ∧ ∀ x∈r.box d.dev,∃ d'∈m.carried,d'.dev=x)
  | .devicesOff | .setInMachine _ _ | .setImage _ _ _ => True

theorem Inv.comesUp (h : m.Inv r) (hd : m.machineDark) (hc : m.Careful r (.devicesOn refused unopened))
    (hr : ¬m.Refused r refused) : ∃ t,m.devicesOn r refused unopened=(t,true) ∧ t.Inv r ∧ m.Same t ∧
      t.machineDark=false ∧ (∀ x,t.enabled x ↔ ∃ d∈m.carried,d.dev=x) ∧
      ∀ d∈m.carried,d.hadImage → t.medium d.dev=d.image := by
  obtain ⟨-,hcare⟩ := hc hd
  have hcare := hcare hr
  obtain ⟨hconf,hrefused⟩ := not_or.mp hr
  have hnone : ¬(m.carried.any fun d => m.addressConflict r d.dev)=true := by
    intro hany
    obtain ⟨d,hdm,hda⟩ := any_eq_true.mp hany
    exact hconf ⟨d,hdm,hda⟩
  have hmem := fun d => mem_restore (d := d) h
  obtain ⟨en,med,he,-,hon,-,hfrom,hholds,hrest⟩ := putAll_eq r refused unopened
    { m with carried := [],machineDark := false } (m.carriedInRegistryOrder r) (nodup_restore h)
  have hstep : m.devicesOn r refused unopened =
      ({ m with carried := [],machineDark := false,enabled := en,medium := med },true) := by
    unfold devicesOn
    rw [if_neg (by simp [hd]),if_neg hnone]
    dsimp only
    rw [putIn_ok _ _ _ fun d hdm hin => hrefused ⟨d,(hmem d).mp hdm,hin⟩,he]
    rfl
  have henabled : ∀ x,en x=true ↔ ∃ d∈m.carried,d.dev=x := by
    intro x
    constructor
    · intro hx
      rcases hfrom x hx with hx | ⟨d,hdm,rfl | hx⟩
      · exact absurd ((h.off hd x).symm.trans hx) (by decide)
      · exact ⟨d,(hmem d).mp hdm,rfl⟩
      · exact (hcare d ((hmem d).mp hdm)).2.2 x hx.1
    · rintro ⟨d,hdm,rfl⟩
      exact hon d ((hmem d).mpr hdm) fun hin => hrefused ⟨d,hdm,hin⟩
  have hmedium : ∀ d∈m.carried,d.hadImage=true → med d.dev=d.image := by
    intro d hdm hi
    by_cases him : d.image = ""
    · refine (hrest _ fun d' hd' hh heq => ?_).trans ?_
      · have h1 := (find?_entry h.nodup).mpr ⟨hdm,rfl⟩
        have h2 := (find?_entry h.nodup).mpr ⟨(hmem d').mp hd',heq.symm⟩
        rw [h1] at h2
        obtain rfl := Option.some.inj h2
        exact hh.2 him
      · exact ((hcare d hdm).1 hi him).trans him.symm
    · exact hholds d ((hmem d).mpr hdm) ⟨hi,him⟩ ((hcare d hdm).2.1 hi)
  refine ⟨_,hstep,⟨fun _ => rfl,fun hf => (by cases hf),nodup_nil,fun _ hd => absurd hd not_mem_nil⟩,
    fun x => ⟨?_,?_⟩,rfl,henabled,hmedium⟩
  · rw [live_inMachine rfl]
    exact Bool.eq_iff_iff.mpr ((henabled x).trans (h.dark_inMachine hd).symm)
  · rw [live_paramValue rfl]
    by_cases hx : ∃ d∈m.carried,d.dev=x
    · obtain ⟨d,hdm,rfl⟩ := hx
      rw [dark_paramValue hd h.nodup hdm]
      by_cases hi : d.hadImage=true
      · rw [if_pos hi]
        exact hmedium d hdm hi
      · rw [if_neg hi]
        refine hrest _ fun d' hd' hh heq => hi ?_
        have h1 := (h.image d hdm).1
        have h2 := (h.image d' ((hmem d').mp hd')).1
        rw [h1,heq,← h2]
        exact hh.1
    · have hnot : ∀ d∈m.carried,d.dev≠x := fun d hdm heq => hx ⟨d,hdm,heq⟩
      rw [other_paramValue hd h.nodup hnot]
      exact hrest x fun d hdm _ heq => hnot d ((hmem d).mp hdm) heq.symm

theorem Inv.refuses (h : m.Inv r) (hd : m.machineDark) (hc : m.Careful r (.devicesOn refused unopened))
    (hr : m.Refused r refused) : ∃ t,m.devicesOn r refused unopened=(t,false) ∧ t.Inv r ∧ m.Same t ∧
      t.machineDark=true ∧ (∀ d,d∈t.carried ↔ d∈m.carried) ∧
      ∀ d∈t.carried,t.enabled d.dev=false ∧ (d.hadImage → t.medium d.dev = "") := by
  have hempty := (hc hd).1 hr
  by_cases hconf : (m.carried.any fun d => m.addressConflict r d.dev)=true
  · have hstep : m.devicesOn r refused unopened=(m,false) := by
      unfold devicesOn
      rw [if_neg (by simp [hd]),if_pos hconf]
    exact ⟨m,hstep,h,fun _ => ⟨rfl,rfl⟩,hd,fun _ => .rfl,fun d hdm => ⟨h.off hd _,hempty d hdm⟩⟩
  have hrefused : ∃ d∈m.carried,d.dev∈refused := by
    rcases hr with ⟨d,hdm,hda⟩ | hr
    · exact absurd (any_eq_true.mpr ⟨d,hdm,hda⟩) hconf
    · exact hr
  have hmem := fun d => mem_restore (d := d) h
  have hrefused' : ∃ d∈m.carriedInRegistryOrder r,d.dev∈refused := by
    obtain ⟨d,hdm,hin⟩ := hrefused
    exact ⟨d,(hmem d).mpr hdm,hin⟩
  obtain ⟨l,l',hl,hput⟩ := putIn_refused r unopened _ []
    { m with carried := [],machineDark := false } hrefused' fun x _ => h.off hd x
  have hnodup := nodup_restore h
  rw [hl,map_append] at hnodup
  have hlm : ∀ d∈l,d∈m.carried := by
    intro d hdl
    refine (hmem d).mp ?_
    rw [hl]
    exact mem_append_left l' hdl
  obtain ⟨en,med,he,-,-,-,hfrom,-,hrest⟩ := putAll_eq r refused unopened
    { m with carried := [],machineDark := false } l (nodup_append.mp hnodup).1
  have hleaves : Leaves r { m with carried := m.carriedInRegistryOrder r,enabled := en,medium := med } l := by
    intro x hx
    rcases hfrom x hx with hx | hx
    · exact absurd ((h.off hd x).symm.trans hx) (by decide)
    · exact hx
  obtain ⟨en',med',hout,hoff,hholds,hrest',hempty'⟩ := takeOut_eq hleaves
  have hstep : m.devicesOn r refused unopened =
      ({ m with carried := m.carriedInRegistryOrder r,enabled := en',medium := med' },false) := by
    have hdark : ({ m with carried := m.carriedInRegistryOrder r,enabled := en,medium := med } : Machine ι) =
        { m with carried := m.carriedInRegistryOrder r,enabled := en,medium := med,machineDark := true } := by
      rw [hd]
    unfold devicesOn
    rw [if_neg (by simp [hd]),if_neg hconf]
    dsimp only
    rw [hput,he]
    unfold powered
    dsimp only
    rw [nil_append,← hdark,hout]
  have hmedium : ∀ x,(∀ d∈l,d.Holds → x≠d.dev) → med' x=m.medium x :=
    fun x hx => (hrest' x hx).trans (hrest x hx)
  have hcarried : ∀ d∈m.carried,d.hadImage=true → med' d.dev = "" := by
    intro d hdm hi
    by_cases hx : ∀ d'∈l,d'.Holds → d.dev≠d'.dev
    · exact (hmedium _ hx).trans (hempty d hdm hi)
    · obtain ⟨d',hx⟩ := not_forall.mp hx
      obtain ⟨hdl,hx⟩ := not_forall.mp hx
      obtain ⟨hh,hx⟩ := not_forall.mp hx
      rw [not_not.mp hx]
      exact hholds d' hdl hh
  let t : Machine ι := { m with carried := m.carriedInRegistryOrder r,enabled := en',medium := med' }
  have hinv : t.Inv r := by
    refine ⟨fun hf => absurd (hf.symm.trans hd) (by decide),fun _ => hoff,nodup_restore h,fun d hdm => ?_⟩
    exact h.image d ((hmem d).mp hdm)
  refine ⟨t,hstep,hinv,fun x => ⟨?_,?_⟩,hd,hmem,fun d hdm => ⟨hoff _,hcarried d ((hmem d).mp hdm)⟩⟩
  · refine Bool.eq_iff_iff.mpr ((hinv.dark_inMachine hd).trans (Iff.trans ?_ (h.dark_inMachine hd).symm))
    exact exists_congr fun d => and_congr_left fun _ => hmem d
  · by_cases hx : ∃ d∈m.carried,d.dev=x
    · obtain ⟨d,hdm,rfl⟩ := hx
      rw [dark_paramValue hd h.nodup hdm]
      refine (dark_paramValue (m := t) hd hinv.nodup ((hmem d).mpr hdm)).trans ?_
      by_cases hi : d.hadImage=true
      · rw [if_pos hi,if_pos hi]
      · rw [if_neg hi,if_neg hi]
        refine hmedium _ fun d' hdl hh heq => hi ?_
        have h1 := (h.image d hdm).1
        have h2 := (h.image d' (hlm d' hdl)).1
        rw [h1,heq,← h2]
        exact hh.1
    · have hnot : ∀ d∈m.carried,d.dev≠x := fun d hdm heq => hx ⟨d,hdm,heq⟩
      rw [other_paramValue hd h.nodup hnot]
      refine (other_paramValue (m := t) hd hinv.nodup fun d hdm => hnot d ((hmem d).mp hdm)).trans ?_
      exact hmedium x fun d hdl _ heq => hnot d (hlm d hdl) heq.symm

theorem Inv.notCarried (h : m.Inv r) (hd : m.machineDark) (hx : (m.carriedEntry x).isSome=false) :
    ∀ d∈m.carried,d.dev≠x := by
  intro d hdm heq
  rw [(carriedEntry_isSome hd h.nodup).mpr ⟨d,hdm,heq⟩] at hx
  cases hx

theorem Inv.append (h : m.Inv r) (hd : m.machineDark) {e : CarriedDevice ι}
    (hnew : (m.carriedEntry e.dev).isSome=false) (hi : e.hadImage=r.image e.dev)
    (hno : e.hadImage=false → e.image = "") : Inv r { m with carried := m.carried++[e] } ∧
      ∀ x,isInMachine { m with carried := m.carried++[e] } x=(m.isInMachine x || x=e.dev) ∧
        paramValue { m with carried := m.carried++[e] } x =
          if x=e.dev then if e.hadImage then e.image else m.medium x else m.paramValue x := by
  let t : Machine ι := { m with carried := m.carried++[e] }
  have hnot := h.notCarried hd hnew
  have hinv : t.Inv r := by
    refine ⟨fun hf => absurd (hf.symm.trans hd) (by decide),h.off,?_,fun d hdm => ?_⟩
    · show ((m.carried++[e]).map (·.dev)).Nodup
      rw [map_append]
      refine nodup_append.mpr ⟨h.nodup,nodup_singleton _,fun a ha b hb => ?_⟩
      obtain ⟨d,hdm,rfl⟩ := mem_map.mp ha
      rw [mem_singleton.mp hb]
      exact hnot d hdm
    · rcases mem_append.mp hdm with hdm | hdm
      · exact h.image d hdm
      · rw [mem_singleton.mp hdm]
        exact ⟨hi,hno⟩
  refine ⟨hinv,fun x => ⟨?_,?_⟩⟩
  · refine Bool.eq_iff_iff.mpr ((hinv.dark_inMachine hd).trans ?_)
    rw [Bool.or_eq_true,h.dark_inMachine hd,decide_eq_true_eq]
    constructor
    · rintro ⟨d,hdm,rfl⟩
      rcases mem_append.mp hdm with hdm | hdm
      · exact .inl ⟨d,hdm,rfl⟩
      · exact .inr (congrArg _ (mem_singleton.mp hdm))
    · rintro (⟨d,hdm,rfl⟩ | rfl)
      · exact ⟨d,mem_append_left _ hdm,rfl⟩
      · exact ⟨e,mem_append_right _ mem_cons_self,rfl⟩
  · by_cases hx : x=e.dev
    · subst hx
      rw [if_pos rfl]
      exact dark_paramValue (m := t) hd hinv.nodup (mem_append_right _ mem_cons_self)
    · rw [if_neg hx]
      by_cases hc : ∃ d∈m.carried,d.dev=x
      · obtain ⟨d,hdm,rfl⟩ := hc
        rw [dark_paramValue hd h.nodup hdm]
        exact dark_paramValue (m := t) hd hinv.nodup (mem_append_left _ hdm)
      · have hnx : ∀ d∈m.carried,d.dev≠x := fun d hdm heq => hc ⟨d,hdm,heq⟩
        rw [other_paramValue hd h.nodup hnx]
        refine other_paramValue (m := t) hd hinv.nodup fun d hdm heq => ?_
        rcases mem_append.mp hdm with hdm | hdm
        · exact hnx d hdm heq
        · rw [mem_singleton.mp hdm] at heq
          exact hx heq.symm

theorem Inv.filter (h : m.Inv r) (hd : m.machineDark) (p : ι → Bool) :
    Inv r { m with carried := m.carried.filter fun d => p d.dev } ∧
      ∀ x,isInMachine { m with carried := m.carried.filter fun d => p d.dev } x=(m.isInMachine x && p x) ∧
        (p x → paramValue { m with carried := m.carried.filter fun d => p d.dev } x=m.paramValue x) := by
  let t : Machine ι := { m with carried := m.carried.filter fun d => p d.dev }
  have hinv : t.Inv r := by
    refine ⟨fun hf => absurd (hf.symm.trans hd) (by decide),h.off,?_,fun d hdm => h.image d (mem_filter.mp hdm).1⟩
    exact h.nodup.sublist (filter_sublist.map _)
  refine ⟨hinv,fun x => ⟨?_,fun hx => ?_⟩⟩
  · refine Bool.eq_iff_iff.mpr ((hinv.dark_inMachine hd).trans ?_)
    rw [Bool.and_eq_true,h.dark_inMachine hd]
    constructor
    · rintro ⟨d,hdm,rfl⟩
      obtain ⟨hdm,hp⟩ := mem_filter.mp hdm
      exact ⟨⟨d,hdm,rfl⟩,hp⟩
    · rintro ⟨⟨d,hdm,rfl⟩,hp⟩
      exact ⟨d,mem_filter.mpr ⟨hdm,hp⟩,rfl⟩
  · by_cases hc : ∃ d∈m.carried,d.dev=x
    · obtain ⟨d,hdm,rfl⟩ := hc
      rw [dark_paramValue hd h.nodup hdm]
      exact dark_paramValue (m := t) hd hinv.nodup (mem_filter.mpr ⟨hdm,hx⟩)
    · have hnx : ∀ d∈m.carried,d.dev≠x := fun d hdm heq => hc ⟨d,hdm,heq⟩
      rw [other_paramValue hd h.nodup hnx]
      exact other_paramValue (m := t) hd hinv.nodup fun d hdm => hnx d (mem_filter.mp hdm).1

theorem Inv.holdImage (h : m.Inv r) (hd : m.machineDark) {dev : ι} (hi : r.image dev) (path : String)
    (hc : (m.carriedEntry dev).isSome) : (m.holdImage dev path).Inv r ∧
      ∀ x,(m.holdImage dev path).isInMachine x=m.isInMachine x ∧
        (m.holdImage dev path).paramValue x=if x=dev then path else m.paramValue x := by
  let f : CarriedDevice ι → CarriedDevice ι := fun d => if d.dev=dev then { d with image := path } else d
  have hf : ∀ d,(f d).dev=d.dev ∧ (f d).hadImage=d.hadImage := by
    intro d
    by_cases hx : d.dev=dev
    · simp [f,hx]
    · simp [f,hx]
  have hinv : (m.holdImage dev path).Inv r := by
    refine ⟨fun hf => absurd (hf.symm.trans hd) (by decide),h.off,?_,fun d hdm => ?_⟩
    · show ((m.carried.map f).map (·.dev)).Nodup
      have he : (m.carried.map f).map (·.dev)=m.carried.map (·.dev) := by
        rw [map_map]
        exact map_congr_left fun d _ => (hf d).1
      rw [he]
      exact h.nodup
    · obtain ⟨d,hdm',rfl⟩ := mem_map.mp hdm
      obtain ⟨h1,h2⟩ := h.image d hdm'
      show (f d).hadImage=r.image (f d).dev ∧ ((f d).hadImage=false → (f d).image = "")
      rw [(hf d).1,(hf d).2]
      refine ⟨h1,fun hno => ?_⟩
      by_cases hx : d.dev=dev
      · rw [h1,hx,hi] at hno
        cases hno
      · exact (congrArg CarriedDevice.image (if_neg hx)).trans (h2 hno)
  have hmem : ∀ {d},d∈m.carried → f d∈(m.holdImage dev path).carried := fun hdm => mem_map_of_mem hdm
  refine ⟨hinv,fun x => ⟨?_,?_⟩⟩
  · refine Bool.eq_iff_iff.mpr ((hinv.dark_inMachine hd).trans (Iff.trans ?_ (h.dark_inMachine hd).symm))
    constructor
    · rintro ⟨d,hdm,rfl⟩
      obtain ⟨d,hdm',rfl⟩ := mem_map.mp hdm
      exact ⟨d,hdm',(hf d).1.symm⟩
    · rintro ⟨d,hdm,rfl⟩
      exact ⟨f d,hmem hdm,(hf d).1⟩
  · by_cases hx : ∃ d∈m.carried,d.dev=x
    · obtain ⟨d,hdm,rfl⟩ := hx
      have hp := dark_paramValue (m := m.holdImage dev path) hd hinv.nodup (hmem hdm)
      rw [(hf d).1,(hf d).2] at hp
      rw [hp,dark_paramValue hd h.nodup hdm]
      by_cases hx : d.dev=dev
      · have hh : d.hadImage=true := by
          rw [(h.image d hdm).1,hx]
          exact hi
        rw [if_pos hx,if_pos hh]
        exact congrArg CarriedDevice.image (if_pos hx)
      · rw [if_neg hx,show f d=d from if_neg hx]
        rfl
    · have hnx : ∀ d∈m.carried,d.dev≠x := fun d hdm heq => hx ⟨d,hdm,heq⟩
      have hxd : x≠dev := by
        rintro rfl
        exact hx ((carriedEntry_isSome hd h.nodup).mp hc)
      rw [if_neg hxd,other_paramValue hd h.nodup hnx]
      refine other_paramValue (m := m.holdImage dev path) hd hinv.nodup fun d hdm => ?_
      obtain ⟨d,hdm',rfl⟩ := mem_map.mp hdm
      intro heq
      exact hnx d hdm' ((hf d).1.symm.trans heq)

/-- What a call gives that leaves `t` and answers `ok` -/
def Delivers (r : Rack ι) (s : Machine ι) (e : PowerStep ι) (t : Machine ι) (ok : Bool) : Prop :=
  match e with
  | .devicesOff => s.Same t ∧ t.machineDark=true ∧
    (s.machineDark=false → ∀ d∈t.carried,d.hadImage=true → t.medium d.dev = "")
  | .devicesOn refused _ => s.Same t ∧ (s.machineDark=false → t=s ∧ ok=true) ∧
    (s.machineDark=true → ¬s.Refused r refused → ok=true ∧ t.machineDark=false ∧
      (∀ x,t.enabled x=true ↔ ∃ d∈s.carried,d.dev=x) ∧
      ∀ d∈s.carried,d.hadImage=true → t.medium d.dev=d.image) ∧
    (s.machineDark=true → s.Refused r refused → ok=false ∧ t.machineDark=true ∧
      (∀ d,d∈t.carried ↔ d∈s.carried) ∧
      ∀ d∈t.carried,t.enabled d.dev=false ∧ (d.hadImage=true → t.medium d.dev = ""))
  | .setInMachine dev on => (ok=false → t=s) ∧ (ok=true ↔ s.machineDark=true ∧
      (on=true → s.isInMachine dev=true ∨ s.addressConflict r dev=false)) ∧
    (ok=true → on=true → ∀ x,t.isInMachine x=(s.isInMachine x || x=dev) ∧ t.paramValue x=s.paramValue x) ∧
    (ok=true → on=false → ∀ x,t.isInMachine x=(s.isInMachine x && (x≠dev && r.parent x≠some dev)) ∧
      (t.isInMachine x=true → t.paramValue x=s.paramValue x))
  | .setImage dev path imageExists => (ok=false → t=s) ∧
    (ok=true ↔ r.image dev=true ∧ imageExists=true ∧ s.machineDark=true ∧
      (s.isInMachine dev=true ∨ path = "" ∨ s.hasController r dev=true)) ∧
    (ok=true → s.isInMachine dev=true ∨ path ≠ "" → ∀ x,t.isInMachine x=(s.isInMachine x || x=dev) ∧
      t.paramValue x=if x=dev then path else s.paramValue x) ∧
    (s.isInMachine dev=false → path = "" → t=s)

theorem dark_isInMachine (h : m.Inv r) (hd : m.machineDark) (x : ι) : m.isInMachine x=(m.carriedEntry x).isSome := by
  unfold isInMachine
  rw [h.off hd x,Bool.or_false]

theorem Inv.setInMachine (h : m.Inv r) (dev : ι) (on : Bool) : (m.setInMachine r dev on).1.Inv r ∧
    m.Delivers r (.setInMachine dev on) (m.setInMachine r dev on).1 (m.setInMachine r dev on).2 := by
  by_cases hd : m.machineDark=false
  · have he : m.setInMachine r dev on=(m,false) := if_pos hd
    rw [he]
    refine ⟨h,fun _ => rfl,⟨fun hf => (by cases hf),fun hx => ?_⟩,fun hf => (by cases hf),fun hf => (by cases hf)⟩
    exact absurd (hd.symm.trans hx.1) (by decide)
  have hdark : m.machineDark=true := by simpa using hd
  have hin := dark_isInMachine h hdark dev
  cases on with
  | true =>
    by_cases hc : (m.carriedEntry dev).isSome=true
    · have he : m.setInMachine r dev true=(m,true) := by
        unfold Machine.setInMachine
        rw [if_neg hd,if_pos rfl,if_pos hc]
      rw [he]
      have hin' : m.isInMachine dev=true := hin.trans hc
      refine ⟨h,fun hf => (by cases hf),⟨fun _ => ⟨hdark,fun _ => .inl hin'⟩,fun _ => rfl⟩,fun _ _ x => ⟨?_,rfl⟩,
        fun _ hf => (by cases hf)⟩
      by_cases hx : x=dev
      · rw [hx,hin']
        rfl
      · simp [hx]
    have hnot : m.isInMachine dev=false := hin.trans (by simpa using hc)
    by_cases ha : m.addressConflict r dev=true
    · have he : m.setInMachine r dev true=(m,false) := by
        unfold Machine.setInMachine
        rw [if_neg hd,if_pos rfl,if_neg hc,if_pos ha]
      rw [he]
      refine ⟨h,fun _ => rfl,⟨fun hf => (by cases hf),fun hx => ?_⟩,fun hf => (by cases hf),fun hf => (by cases hf)⟩
      rcases hx.2 rfl with hx | hx
      · rw [hnot] at hx
        cases hx
      · rw [ha] at hx
        cases hx
    · have he : m.setInMachine r dev true=({ m with carried := m.carried++[m.entryFor r dev] },true) := by
        unfold Machine.setInMachine
        rw [if_neg hd,if_pos rfl,if_neg hc,if_neg ha]
      have hno : (m.entryFor r dev).hadImage=false → (m.entryFor r dev).image = "" := by
        intro hf
        have hf' : r.image dev=false := hf
        exact if_neg (by simp [hf'])
      have hfree : (m.carriedEntry dev).isSome=false := by simpa using hc
      obtain ⟨hinv,hview⟩ := h.append (e := m.entryFor r dev) hdark hfree rfl hno
      rw [he]
      refine ⟨hinv,fun hf => (by cases hf),⟨fun _ => ⟨hdark,fun _ => .inr (by simpa using ha)⟩,fun _ => rfl⟩,
        fun _ _ x => ⟨(hview x).1,(hview x).2.trans ?_⟩,fun _ hf => (by cases hf)⟩
      by_cases hx : x=dev
      · subst hx
        have hold := other_paramValue hdark h.nodup (h.notCarried hdark (by simpa using hc))
        rw [hold]
        refine (if_pos rfl).trans ?_
        by_cases hi : r.image x=true
        all_goals simp [entryFor,hi]
      · exact if_neg hx
  | false =>
    have he : m.setInMachine r dev false =
        ({ m with carried := m.carried.filter fun d => d.dev≠dev && r.parent d.dev≠some dev },true) := by
      unfold Machine.setInMachine
      rw [if_neg hd,if_neg (by decide)]
    obtain ⟨hinv,hview⟩ := h.filter hdark fun x => x≠dev && r.parent x≠some dev
    rw [he]
    refine ⟨hinv,fun hf => (by cases hf),⟨fun _ => ⟨hdark,fun hf => (by cases hf)⟩,fun _ => rfl⟩,
      fun _ hf => (by cases hf),fun _ _ x => ⟨(hview x).1,fun hx => (hview x).2 ?_⟩⟩
    rw [(hview x).1] at hx
    exact (Bool.and_eq_true_iff.mp hx).2

theorem Inv.setImage (h : m.Inv r) (dev : ι) (path : String) (imageExists : Bool) :
    (m.setImage r dev path imageExists).1.Inv r ∧ m.Delivers r (.setImage dev path imageExists)
      (m.setImage r dev path imageExists).1 (m.setImage r dev path imageExists).2 := by
  have hrefuse : ∀ {p : Prop},¬p → m.Inv r ∧ ((false=false → m=m) ∧ (false=true ↔ p) ∧
      (false=true → m.isInMachine dev=true ∨ path ≠ "" → ∀ x,m.isInMachine x=(m.isInMachine x || x=dev) ∧
        m.paramValue x=if x=dev then path else m.paramValue x) ∧
      (m.isInMachine dev=false → path = "" → m=m)) := by
    intro p hp
    exact ⟨h,fun _ => rfl,⟨fun hf => (by cases hf),fun hx => absurd hx hp⟩,fun hf => (by cases hf),fun _ _ => rfl⟩
  by_cases hi : r.image dev=false
  · have he : m.setImage r dev path imageExists=(m,false) := if_pos hi
    rw [he]
    exact hrefuse fun hx => absurd (hi.symm.trans hx.1) (by decide)
  by_cases hex : imageExists=false
  · have he : m.setImage r dev path imageExists=(m,false) := (if_neg hi).trans (if_pos hex)
    rw [he]
    exact hrefuse fun hx => absurd (hex.symm.trans hx.2.1) (by decide)
  by_cases hd : m.machineDark=false
  · have he : m.setImage r dev path imageExists=(m,false) := (if_neg hi).trans ((if_neg hex).trans (if_pos hd))
    rw [he]
    exact hrefuse fun hx => absurd (hd.symm.trans hx.2.2.1) (by decide)
  have himg : r.image dev=true := by simpa using hi
  have hexists : imageExists=true := by simpa using hex
  have hdark : m.machineDark=true := by simpa using hd
  have hin := dark_isInMachine h hdark dev
  by_cases hc : (m.carriedEntry dev).isSome=true
  · have he : m.setImage r dev path imageExists=(m.holdImage dev path,true) := by
      unfold Machine.setImage
      rw [if_neg hi,if_neg hex,if_neg hd,if_pos hc]
    obtain ⟨hinv,hview⟩ := h.holdImage hdark himg path hc
    have hin' : m.isInMachine dev=true := hin.trans hc
    rw [he]
    refine ⟨hinv,fun hf => (by cases hf),⟨fun _ => ⟨himg,hexists,hdark,.inl hin'⟩,fun _ => rfl⟩,
      fun _ _ x => ⟨(hview x).1.trans ?_,(hview x).2⟩,fun hf => absurd (hin'.symm.trans hf) (by decide)⟩
    by_cases hx : x=dev
    · rw [hx,hin']
      rfl
    · simp [hx]
  have hnot : m.isInMachine dev=false := hin.trans (by simpa using hc)
  by_cases hp : path = ""
  · have he : m.setImage r dev path imageExists=(m,true) := by
      unfold Machine.setImage
      rw [if_neg hi,if_neg hex,if_neg hd,if_neg hc,if_pos hp]
    rw [he]
    refine ⟨h,fun hf => (by cases hf),⟨fun _ => ⟨himg,hexists,hdark,.inr (.inl hp)⟩,fun _ => rfl⟩,fun _ hx => ?_,
      fun _ _ => rfl⟩
    rcases hx with hx | hx
    · exact absurd (hnot.symm.trans hx) (by decide)
    · exact absurd hp hx
  by_cases hctl : m.hasController r dev=false
  · have he : m.setImage r dev path imageExists=(m,false) := by
      unfold Machine.setImage
      rw [if_neg hi,if_neg hex,if_neg hd,if_neg hc,if_neg hp,if_pos hctl]
    rw [he]
    refine hrefuse fun hx => ?_
    rcases hx.2.2.2 with hx | hx | hx
    · exact absurd (hnot.symm.trans hx) (by decide)
    · exact hp hx
    · exact absurd (hctl.symm.trans hx) (by decide)
  · have he : m.setImage r dev path imageExists =
        ({ m with carried := m.carried++[{ m.entryFor r dev with image := path }] },true) := by
      unfold Machine.setImage
      rw [if_neg hi,if_neg hex,if_neg hd,if_neg hc,if_neg hp,if_neg hctl]
    have hcontroller : m.hasController r dev=true := by simpa using hctl
    have hfree : (m.carriedEntry dev).isSome=false := by simpa using hc
    obtain ⟨hinv,hview⟩ := h.append (e := { m.entryFor r dev with image := path }) hdark hfree rfl
      fun hf => absurd (himg.symm.trans hf) (by decide)
    rw [he]
    refine ⟨hinv,fun hf => (by cases hf),⟨fun _ => ⟨himg,hexists,hdark,.inr (.inr hcontroller)⟩,fun _ => rfl⟩,
      fun _ _ x => ⟨(hview x).1,(hview x).2.trans ?_⟩,fun _ hf => absurd hf hp⟩
    by_cases hx : x=dev
    · rw [if_pos hx]
      exact (if_pos hx).trans (if_pos himg)
    · rw [if_neg hx]
      exact if_neg hx

theorem Inv.step {e : PowerStep ι} (h : m.Inv r) (hc : m.Careful r e) :
    (m.step r e).1.Inv r ∧ m.Delivers r e (m.step r e).1 (m.step r e).2 := by
  cases e with
  | devicesOff =>
    obtain ⟨hinv,hsame,hdark,hmedium⟩ := h.devicesOff
    exact ⟨hinv,hsame,hdark,hmedium⟩
  | devicesOn refused unopened =>
    by_cases hd : m.machineDark=true
    · by_cases hr : m.Refused r refused
      · obtain ⟨t,he,hinv,hsame,hdark,hcarried,hoff⟩ := h.refuses hd hc hr
        have hs : m.step r (.devicesOn refused unopened)=(t,false) := he
        rw [hs]
        exact ⟨hinv,hsame,fun hf => absurd (hf.symm.trans hd) (by decide),fun _ hn => absurd hr hn,
          fun _ _ => ⟨rfl,hdark,hcarried,hoff⟩⟩
      · obtain ⟨t,he,hinv,hsame,hlive,hon,hmedium⟩ := h.comesUp hd hc hr
        have hs : m.step r (.devicesOn refused unopened)=(t,true) := he
        rw [hs]
        exact ⟨hinv,hsame,fun hf => absurd (hf.symm.trans hd) (by decide),fun _ _ => ⟨rfl,hlive,hon,hmedium⟩,
          fun _ hy => absurd hy hr⟩
    · have hs : m.step r (.devicesOn refused unopened)=(m,true) := if_pos (by simpa using hd)
      rw [hs]
      exact ⟨h,fun _ => ⟨rfl,rfl⟩,fun _ => ⟨rfl,rfl⟩,fun hf => absurd hf hd,fun hf => absurd hf hd⟩
  | setInMachine dev on => exact h.setInMachine dev on
  | setImage dev path imageExists => exact h.setImage dev path imageExists

/-- A machine as it was found: live, or dark with nothing on and nothing carried. -/
def Found (m : Machine ι) : Prop := m.carried=[] ∧ (m.machineDark=true → ∀ d,m.enabled d=false)

omit [DecidableEq ι] in
theorem Found.inv (h : m.Found) : m.Inv r := by
  refine ⟨fun _ => h.1,h.2,?_,fun d hd => ?_⟩
  · rw [h.1]
    exact nodup_nil
  · rw [h.1] at hd
    cases hd

instance (r : Rack ι) (m : Machine ι) (refused : List ι) : Decidable (m.Refused r refused) :=
  inferInstanceAs (Decidable ((∃ d∈m.carried,m.addressConflict r d.dev=true) ∨ ∃ d∈m.carried,d.dev∈refused))

instance (r : Rack ι) (m : Machine ι) : (e : PowerStep ι) → Decidable (m.Careful r e)
  | .devicesOn refused unopened => inferInstanceAs (Decidable (m.machineDark=true →
    (m.Refused r refused → ∀ d∈m.carried,d.hadImage=true → m.medium d.dev = "") ∧
    (¬m.Refused r refused → ∀ d∈m.carried,(d.hadImage=true → d.image = "" → m.medium d.dev = "") ∧
      (d.hadImage=true → d.dev∉unopened ∨ m.medium d.dev=d.image) ∧
      ∀ x∈r.box d.dev,∃ d'∈m.carried,d'.dev=x)))
  | .devicesOff | .setInMachine _ _ | .setImage _ _ _ => isTrue trivial

end Machine

/-- A floppy controller, the processor of its box, and two drives -/
inductive Floppies
  | rx
  | uCPU
  | rx0
  | rx1
  deriving DecidableEq,Repr

namespace Floppies

def rack : Rack Floppies where
  registry := [rx,uCPU,rx0,rx1]
  parent d := if d=rx then none else some rx
  image d := d=rx0 || d=rx1
  drives d := if d=rx then [rx0,rx1] else []
  box d := if d=uCPU then [rx0,rx1] else []
  window d := if d=rx then some (0x1fe78,0x1fe7c) else none
  nodup := by decide
  all d := by cases d <;> decide
  flat c := by cases c <;> decide

def liveWith (on : List Floppies) : Machine Floppies :=
  ⟨(· ∈ on),fun d => if d=rx0 then "rt11.rx" else "",[],false⟩

end Floppies

namespace Machine

open Floppies

end Machine

end QUniLator.Web
