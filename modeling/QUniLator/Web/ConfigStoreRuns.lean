import QUniLator.Web.ConfigStoreSteps

namespace QUniLator.Web.Configs

open Document Option

namespace Store
variable {b : Board} {s : Store}

section
variable {name : Text} {doc : Document}

theorem doc?_eq : s.doc? name=some doc ↔ s.files.lookup name=some (.good doc) := by
  unfold doc?
  cases s.files.lookup name with
  | none => exact ⟨fun h => (by cases h),fun h => (by cases h)⟩
  | some file =>
    cases file with
    | broken e => exact ⟨fun h => (by cases h),fun h => (by cases h)⟩
    | good doc' => exact ⟨fun h => (by cases h; rfl),fun h => (by cases h; rfl)⟩

theorem mem_of_doc? (h : s.doc? name=some doc) : name∈s.files :=
  AList.lookup_isSome.mp (by rw [doc?_eq.mp h]; rfl)

theorem doc?_store : (s.store name (.good doc)).doc? name=some doc :=
  doc?_eq.mpr (AList.lookup_insert _)

theorem doc?_store_ne {other : Text} (h : other≠name) {file : File} :
    (s.store name file).doc? other=s.doc? other := by
  rw [doc?,doc?,store,AList.lookup_insert_ne h]

def Bound (s : Store) (name : Text) (doc : Document) : Prop :=
  doc.configDipValue≤15 ∧ ∀ name' doc',s.doc? name'=some doc' → 0<doc.configDipValue →
    doc.configDipValue=doc'.configDipValue → name'=name

theorem configForDip_free {dip : Int} (hs : s.Kept b) (hd : 0<dip)
    (h : s.configForDip dip=[] ∨ s.configForDip dip=name) {name' : Text} {doc' : Document}
    (hm : s.doc? name'=some doc') (he : doc'.configDipValue=dip) : name'=name := by
  have hvalid := hs.valid name' (mem_of_doc? hm)
  have hmem : (⟨name',.good doc'⟩ : Sigma fun _ : Text => File)∈s.files.entries :=
    AList.mem_lookup_iff.mp (doc?_eq.mp hm)
  have hb : (validConfigName name' && File.binds (.good doc') dip)=true := by
    rw [hvalid,Bool.true_and]
    exact decide_eq_true he
  obtain ⟨f,hf⟩ : ∃ f,s.files.entries.find? (fun f => validConfigName f.1 && File.binds f.2 dip)=some f :=
    isSome_iff_exists.mp (List.find?_isSome.mpr ⟨_,hmem,hb⟩)
  have hval : s.configForDip dip=f.1 := by
    rw [configForDip,if_neg (by omega),hf]
    rfl
  have hp := List.find?_some hf
  rw [Bool.and_eq_true] at hp
  obtain ⟨name'',file⟩ := f
  cases file with
  | broken e => cases hp.2
  | good doc'' =>
    have hin : s.doc? name''=some doc'' :=
      doc?_eq.mpr (AList.mem_lookup_iff.mpr (List.mem_of_find?_eq_some hf))
    have heq : doc''.configDipValue=dip := of_decide_eq_true hp.2
    have hsame : name''=name' := hs.unshared name'' doc'' name' doc' hin hm (by omega) (by omega)
    rw [hval] at h
    rcases h with h | h
    · dsimp only at h
      subst h
      cases hp.1
    · exact hsame.symm.trans h

theorem Kept.bound_of_free (hs : s.Kept b) (hd : s.DipFree name doc) : s.Bound name doc :=
  ⟨hd.1,fun _ _ hm h0 he => configForDip_free hs h0 hd.2 hm he.symm⟩

theorem Kept.bound_of_same {old : Document} (hs : s.Kept b) (ho : s.doc? name=some old)
    (he : doc.configDipValue=old.configDipValue) : s.Bound name doc :=
  ⟨he ▸ hs.settings name old ho,fun name' doc' hm h0 hd =>
    (hs.unshared name old name' doc' ho hm (he ▸ h0) (he ▸ hd)).symm⟩

theorem bound_of_unbound (h : doc.configDipValue≤0) : s.Bound name doc :=
  ⟨by omega,fun _ _ _ h0 => absurd h0 (by omega)⟩

theorem empty_kept : (empty : Store).Kept b :=
  ⟨fun _ h => absurd h (AList.notMem_empty _),fun _ _ h => (by cases h),fun _ _ h => (by cases h),
    fun _ _ _ _ h => (by cases h),.inl rfl⟩

theorem Kept.down (hs : s.Kept b) : s.down.Kept b :=
  ⟨hs.valid,hs.good,hs.settings,hs.unshared,.inl rfl⟩

theorem Kept.setCurrent (hs : s.Kept b) (h : name∈s.files) : (s.setCurrent name).Kept b :=
  ⟨hs.valid,hs.good,hs.settings,hs.unshared,.inr h⟩

theorem Kept.store {devices : List Entry} (hs : s.Kept b) (hn : validConfigName name)
    (hd : doc.devices=.value devices) (hsound : b.Sound devices) (hplain : ∀ d∈devices,b.Plain d)
    (hb : s.Bound name doc) : (s.store name (.good doc)).Kept b := by
  refine ⟨fun other ho => ?_,fun other file hf => ?_,fun other doc' ho => ?_,?_,?_⟩
  · rcases (AList.mem_insert _).mp ho with rfl | h
    · exact hn
    · exact hs.valid other h
  · by_cases he : other=name
    · subst he
      have hg : (s.files.insert other (.good doc)).lookup other=some (.good doc) := AList.lookup_insert _
      obtain rfl := some.inj (hg.symm.trans hf)
      exact ⟨doc,devices,rfl,hd,hsound,hplain⟩
    · exact hs.good other file ((AList.lookup_insert_ne he).symm.trans hf)
  · by_cases he : other=name
    · subst he
      obtain rfl := some.inj (doc?_store.symm.trans ho)
      exact hb.1
    · rw [doc?_store_ne he] at ho
      exact hs.settings other doc' ho
  · intro n1 d1 n2 d2 h1 h2 h0 he
    by_cases e1 : n1=name
    · subst e1
      obtain rfl := some.inj (doc?_store.symm.trans h1)
      by_cases e2 : n2=n1
      · exact e2.symm
      · rw [doc?_store_ne e2] at h2
        exact (hb.2 n2 d2 h2 h0 he).symm
    · rw [doc?_store_ne e1] at h1
      by_cases e2 : n2=name
      · subst e2
        obtain rfl := some.inj (doc?_store.symm.trans h2)
        exact hb.2 n1 d1 h1 (by omega) he.symm
      · rw [doc?_store_ne e2] at h2
        exact hs.unshared n1 d1 n2 d2 h1 h2 h0 he
  · rcases hs.stored with h | h
    · exact .inl h
    · exact .inr ((AList.mem_insert _).mpr (.inr h))

theorem lookup_moved {source target : Text} {file : File} (n : Text) : (s.moved source target file).files.lookup n =
      if n=target then some file else if n=source then none else s.files.lookup n := by
  unfold moved
  dsimp only
  by_cases h1 : n=target
  · rw [if_pos h1,h1]
    exact AList.lookup_insert _
  · rw [if_neg h1,AList.lookup_insert_ne h1]
    by_cases h2 : n=source
    · rw [if_pos h2,h2]
      exact AList.lookup_erase _ _
    · rw [if_neg h2]
      exact AList.lookup_erase_ne h2

def oldName (source target n : Text) : Text := if n=target then source else n

theorem lookup_oldName {source target n : Text} {file f : File} (hf : s.files.lookup source=some file)
    (h : (s.moved source target file).files.lookup n=some f) :
    s.files.lookup (oldName source target n)=some f ∧ (n≠target → n≠source) := by
  rw [lookup_moved] at h
  unfold oldName
  by_cases h1 : n=target
  · rw [if_pos h1] at h ⊢
    exact ⟨hf.trans h,fun hn => absurd h1 hn⟩
  · rw [if_neg h1] at h ⊢
    by_cases h2 : n=source
    · rw [if_pos h2] at h
      cases h
    · rw [if_neg h2] at h
      exact ⟨h,fun _ => h2⟩

theorem Kept.moved {source target : Text} {file : File} (hs : s.Kept b) (hf : s.files.lookup source=some file)
    (hn : validConfigName target) : (s.moved source target file).Kept b := by
  have hdoc : ∀ n d,(s.moved source target file).doc? n=some d →
      s.doc? (oldName source target n)=some d ∧ (n≠target → n≠source) := by
    intro n d h
    have hl := lookup_oldName hf (doc?_eq.mp h)
    exact ⟨doc?_eq.mpr hl.1,hl.2⟩
  refine ⟨fun n hmem => ?_,fun n f h => hs.good _ f (lookup_oldName hf h).1,
    fun n d h => hs.settings _ d (hdoc n d h).1,?_,?_⟩
  · rcases (AList.mem_insert _).mp hmem with rfl | hold
    · exact hn
    · exact hs.valid n (AList.mem_erase.mp hold).2
  · intro n1 d1 n2 d2 h1 h2 h0 he
    have hsame := hs.unshared _ d1 _ d2 (hdoc n1 d1 h1).1 (hdoc n2 d2 h2).1 h0 he
    have hne1 := (hdoc n1 d1 h1).2
    have hne2 := (hdoc n2 d2 h2).2
    unfold oldName at hsame
    split_ifs at hsame with e1 e2 e2
    · exact e1.trans e2.symm
    · exact absurd hsame.symm (hne2 e2)
    · exact absurd hsame (hne1 e1)
    · exact hsame
  · change (if s.current=source then target else s.current)=[] ∨
      (if s.current=source then target else s.current)∈(s.files.erase source).insert target file
    by_cases hc : s.current=source
    · rw [if_pos hc]
      exact .inr ((AList.mem_insert _).mpr (.inl rfl))
    · rw [if_neg hc]
      rcases hs.stored with h | h
      · exact .inl h
      · exact .inr ((AList.mem_insert _).mpr (.inr (AList.mem_erase.mpr ⟨hc,h⟩)))

theorem Kept.erase (hs : s.Kept b) (hc : name≠s.current) :
    ({ s with files := s.files.erase name } : Store).Kept b := by
  have hold : ∀ n f,(s.files.erase name).lookup n=some f → s.files.lookup n=some f := by
    intro n f h
    by_cases hn : n=name
    · rw [hn,AList.lookup_erase] at h
      cases h
    · rwa [AList.lookup_erase_ne hn] at h
  have hdoc : ∀ n d,({ s with files := s.files.erase name } : Store).doc? n=some d → s.doc? n=some d :=
    fun n d h => doc?_eq.mpr (hold n _ (doc?_eq.mp h))
  refine ⟨fun n hn => hs.valid n (AList.mem_erase.mp hn).2,fun n f h => hs.good n f (hold n f h),
    fun n d h => hs.settings n d (hdoc n d h),
    fun n1 d1 n2 d2 h1 h2 => hs.unshared n1 d1 n2 d2 (hdoc n1 d1 h1) (hdoc n2 d2 h2),?_⟩
  rcases hs.stored with h | h
  · exact .inl h
  · exact .inr (AList.mem_erase.mpr ⟨hc.symm,h⟩)

end

section
variable {name : Text} {doc old : Document}

theorem kept_get {α : Type} {field : Field α} {before : Field α} (h : ¬field≠.absent) :
    (kept field (some before)).get? = before.get? := by
  rw [not_not.mp h]
  cases before <;> rfl

theorem kept_none {α : Type} (field : Field α) : kept field none=field := by
  cases field <;> rfl

theorem preserveMetadata_keeps (ho : s.doc? name=some old) : old.Keeps (s.preserveMetadata name doc)
    ⟨doc.title≠.absent,doc.dipValue≠.absent,doc.layout≠.absent,doc.autostart≠.absent⟩ := by
  unfold preserveMetadata
  rw [ho]
  exact ⟨kept_get,kept_get,kept_get,kept_get⟩

theorem preserveMetadata_free (ho : s.doc? name=none) : s.preserveMetadata name doc=doc := by
  unfold preserveMetadata
  rw [ho]
  simp only [map_none,kept_none]

theorem preserveMetadata_bound (hs : s.Kept b) (hd : doc.dipValue=.absent ∨ s.DipFree name doc) :
    s.Bound name (s.preserveMetadata name doc) := by
  have hsame : doc.dipValue≠.absent → (s.preserveMetadata name doc).configDipValue=doc.configDipValue := by
    intro hne
    unfold configDipValue preserveMetadata
    cases hv : doc.dipValue with
    | absent => exact absurd hv hne
    | other | value v => rfl
  by_cases hne : doc.dipValue=.absent
  · cases ho : s.doc? name with
    | none =>
      rw [preserveMetadata_free ho]
      refine bound_of_unbound ?_
      rw [configDipValue,hne]
      decide
    | some old =>
      refine hs.bound_of_same ho ?_
      rw [configDipValue,configDipValue,(preserveMetadata_keeps ho).dip (not_not.mpr hne)]
  · obtain ⟨h15,hfree⟩ := hd.resolve_left hne
    have hb : s.Bound name doc := hs.bound_of_free ⟨h15,hfree⟩
    exact ⟨(hsame hne).symm ▸ hb.1,(hsame hne).symm ▸ hb.2⟩

theorem imported_bound (hs : s.Kept b)
    (h : s.configForDip doc.configDipValue=[] ∨ s.configForDip doc.configDipValue=name →
      doc.configDipValue≤15) : s.Bound name (s.imported name doc) := by
  by_cases hc : 0≤doc.configDipValue ∧ s.configForDip doc.configDipValue≠[] ∧
      s.configForDip doc.configDipValue≠name
  · refine bound_of_unbound ?_
    have hd : (s.imported name doc).dipValue=.absent := if_pos hc
    rw [configDipValue,hd]
    decide
  · have hd : (s.imported name doc).configDipValue=doc.configDipValue := by
      have hd : (s.imported name doc).dipValue=doc.dipValue := if_neg hc
      rw [configDipValue,hd]
      rfl
    by_cases h0 : doc.configDipValue≤0
    · exact bound_of_unbound (hd.le.trans h0)
    · have hfree : s.configForDip doc.configDipValue=[] ∨ s.configForDip doc.configDipValue=name := by
        by_contra hn
        rw [not_or] at hn
        exact hc ⟨by omega,hn.1,hn.2⟩
      refine hs.bound_of_free ⟨hd.le.trans (h hfree),?_⟩
      rw [hd]
      exact hfree

theorem store_metadata {r : Request} {doc' : Document} {t : Store}
    (ht : t.files=(s.store r.name (.good doc')).files) (hn : ∀ n,r.newName n=n)
    (hk : ∀ old,s.doc? r.name=some old → old.Keeps doc' r.named) (ho : s.doc? name=some old) :
    ∃ doc',t.doc? (r.newName name)=some doc' ∧ (name≠r.name → doc'=old) ∧ old.Keeps doc' r.named := by
  have hdoc : t.doc? name=(s.store r.name (.good doc')).doc? name := by rw [doc?,doc?,ht]
  rw [hn,hdoc]
  by_cases he : name=r.name
  · rw [he] at ho ⊢
    exact ⟨doc',doc?_store,fun h => absurd rfl h,hk old ho⟩
  · rw [doc?_store_ne he]
    exact ⟨old,ho,fun _ => rfl,⟨fun _ => rfl,fun _ => rfl,fun _ => rfl,fun _ => rfl⟩⟩

theorem keeps_refl {n : Named} : doc.Keeps doc n :=
  ⟨fun _ => rfl,fun _ => rfl,fun _ => rfl,fun _ => rfl⟩

end

variable {r : Request} {fate : Fate}

theorem Kept.accepted {t : Store} (hs : s.Kept b) (hc : s.Careful b fate r)
    (hv : validConfigName r.name) (ha : Accepted b s r t) : t.Kept b := by
  cases ha with
  | @put name doc devices fromLive hd hval =>
    have hdev : devices∈doc.devices.get? := by rw [hd]; rfl
    obtain ⟨⟨hplain,hdup⟩,hfree⟩ := hc devices hdev hval
    have hk : (s.store name (.good (s.preserveMetadata name doc))).Kept b :=
      hs.store hv hd (Board.sound_of_checks hplain hval hdup) hplain (preserveMetadata_bound hs (.inr hfree))
    cases fromLive with
    | false => exact hk
    | true => exact hk.setCurrent ((AList.mem_insert _).mpr (.inl rfl))
  | @imported name doc devices hnone hd hval =>
    have hdev : devices∈doc.devices.get? := by rw [hd]; rfl
    obtain ⟨⟨hplain,hdup⟩,hrange⟩ := hc devices hdev hval
    rw [preserveMetadata_free hnone]
    exact hs.store hv hd (Board.sound_of_checks hplain hval hdup) hplain (imported_bound hs hrange)
  | @edited r doc doc' hold hd hk hdip he =>
    obtain ⟨doc0,devices,hfile,hdev,hsound,hplain⟩ := hs.good _ _ (doc?_eq.mp hold)
    cases hfile
    refine hs.store hv (hd.trans hdev) hsound hplain ?_
    rcases hdip with hsame | hfree
    · exact hs.bound_of_same hold (by rw [configDipValue,hsame]; rfl)
    · exact hs.bound_of_free hfree
  | @image name devname value doc devices after target hold hd ht hfree =>
    obtain ⟨doc0,devices0,hfile,hdev,hsound,hplain⟩ := hs.good _ _ (doc?_eq.mp hold)
    cases hfile
    obtain rfl := Field.value.inj (hd.symm.trans hdev)
    have hsplit : devices=before devname devices++target::after := by
      rw [← ht]
      exact (List.takeWhile_append_dropWhile).symm
    have htake : b.imagePath value≠[] → b.TakesImage target :=
      hc.1 doc hold devices (by rw [hd]; rfl) target (by rw [ht]; rfl)
    rw [hsplit] at hsound hplain
    obtain ⟨hsound',hplain'⟩ := hsound.withImage hplain htake hfree
    exact hs.store hv rfl hsound' hplain' (hs.bound_of_same hold rfl)
  | @renamed source target file hf hn ht => exact hs.moved hf hn
  | @deleted name hcur => exact hs.erase hcur
  | @saved name snapshot =>
    obtain ⟨hval,hplain,hdup⟩ := hc
    have hk : (s.store name (.good (s.preserveMetadata name
        ⟨.absent,.absent,.absent,.absent,.value snapshot⟩))).Kept b :=
      hs.store hv rfl (Board.sound_of_checks hplain hval hdup) hplain (preserveMetadata_bound hs (.inl rfl))
    exact hk.setCurrent ((AList.mem_insert _).mpr (.inl rfl))
  | @applied name doc hold => exact hs.setCurrent (mem_of_doc? hold)

theorem Accepted.metadata {t : Store} (ha : Accepted b s r t) {name : Text} {doc : Document}
    (ho : s.doc? name=some doc) (hr : r≠.delete name) :
    ∃ doc',t.doc? (r.newName name)=some doc' ∧ (name≠r.name → doc'=doc) ∧ doc.Keeps doc' r.named := by
  cases ha with
  | @put n document devices fromLive hd hval =>
    cases fromLive with
    | false => exact store_metadata rfl (fun _ => rfl) (fun old hold => preserveMetadata_keeps hold) ho
    | true => exact store_metadata rfl (fun _ => rfl) (fun old hold => preserveMetadata_keeps hold) ho
  | @imported n document devices hnone hd hval =>
    refine store_metadata rfl (fun _ => rfl) (fun old hold => ?_) ho
    cases hnone.symm.trans hold
  | @edited r doc0 doc' hold hd hk hdip he =>
    refine store_metadata rfl (Request.newName_of_edits he) (fun old hold' => ?_) ho
    cases hold.symm.trans hold'
    exact hk
  | @image n devname value doc0 devices after target hold hd ht hfree =>
    refine store_metadata rfl (fun _ => rfl) (fun old hold' => ?_) ho
    cases hold.symm.trans hold'
    exact ⟨fun _ => rfl,fun _ => rfl,fun _ => rfl,fun _ => rfl⟩
  | @renamed source target file hf hn ht =>
    have hne : name≠target := fun h => ht (h ▸ mem_of_doc? ho)
    refine ⟨doc,doc?_eq.mpr ?_,fun _ => rfl,keeps_refl⟩
    by_cases he : name=source
    · have hnew : (Request.rename source (.value target)).newName name=target := if_pos he
      rw [hnew,lookup_moved,if_pos rfl,← hf,← he]
      exact doc?_eq.mp ho
    · have hnew : (Request.rename source (.value target)).newName name=name := if_neg he
      rw [hnew,lookup_moved,if_neg hne,if_neg he]
      exact doc?_eq.mp ho
  | @deleted n hcur =>
    have hne : name≠n := fun h => hr (by rw [h])
    refine ⟨doc,doc?_eq.mpr ?_,fun _ => rfl,keeps_refl⟩
    exact (AList.lookup_erase_ne hne).trans (doc?_eq.mp ho)
  | @saved n snapshot =>
    exact store_metadata rfl (fun _ => rfl) (fun old hold => by
      have hk : old.Keeps (s.preserveMetadata n ⟨.absent,.absent,.absent,.absent,.value snapshot⟩) _ :=
        preserveMetadata_keeps hold
      have hnot : ¬(Field.absent : Field Text)≠.absent := fun h => h rfl
      exact ⟨fun _ => hk.title hnot,fun _ => hk.dip fun h => h rfl,fun _ => hk.layout hnot,
        fun _ => hk.autostart fun h => h rfl⟩) ho
  | @applied n doc0 hold => exact ⟨doc,ho,fun _ => rfl,keeps_refl⟩

def step (b : Board) (s : Store) (e : Request × Fate) : Option Store := some (s.request b e.1 e.2).1

theorem Atomic.ok {d out : Store × Reply} (h : Atomic s d out) (hok : out.2=.ok) : out=d := by
  cases h with
  | done => rfl
  | refused status error | before | after h => cases hok

theorem accepted_of_ok (hc : s.Careful b fate r) (hok : (s.request b r fate).2=.ok) :
    s.request b r fate=s.request b r .done ∧ Accepted b s r (s.request b r fate).1 := by
  have he := (request_atomic hc).ok hok
  refine ⟨he,?_⟩
  rw [he] at hok ⊢
  rcases request_settled (b := b) (s := s) r with ⟨_,ha⟩ | ⟨status,error,hr⟩
  · exact ha
  · rw [hr] at hok
    cases hok

theorem valid_of_ok (hok : (s.request b r fate).2=.ok) : validConfigName r.name=true := by
  unfold request at hok
  split at hok
  · assumption
  · cases hok

theorem Kept.request (hs : s.Kept b) (hc : s.Careful b fate r) : (s.request b r fate).1.Kept b := by
  have hdone : (s.request b r .done).1.Kept b := by
    rcases request_settled (b := b) (s := s) r with ⟨hok,ha⟩ | ⟨status,error,hr⟩
    · exact hs.accepted hc (valid_of_ok hok) ha
    · rw [hr]
      exact hs
  have ha := request_atomic (b := b) hc
  generalize s.request b r fate=out at ha ⊢
  cases ha with
  | done => exact hdone
  | refused status error => exact hs
  | before => exact hs.down
  | after h => exact hdone.down

theorem delivers (hc : s.Careful b fate r) : s.Delivers b r fate := by
  refine ⟨fun status error h => ?_,fun h => ?_,fun hok name doc ho hr => ?_,fun source target hr hok => ?_,
    fun name hr hok => ?_⟩
  · have ha := request_atomic (b := b) hc
    rcases request_settled (b := b) (s := s) r with ⟨hok,_⟩ | ⟨status',error',hd⟩
    · generalize s.request b r fate=out at ha h ⊢
      cases ha with
      | done => rw [hok] at h; cases h
      | refused status error => rfl
      | before | after _ => cases h
    · rw [hd] at ha
      generalize s.request b r fate=out at ha h ⊢
      cases ha with
      | done | refused status error => rfl
      | before | after _ => cases h
  · have ha := request_atomic (b := b) hc
    generalize s.request b r fate=out at ha h ⊢
    cases ha with
    | done | after _ => exact .inr rfl
    | refused status error => cases h
    | before => exact .inl rfl
  · exact (accepted_of_ok hc hok).2.metadata ho hr
  · have ha := (accepted_of_ok hc hok).2
    subst hr
    generalize (s.request b (.rename source (.value target)) fate).1=t at ha ⊢
    cases ha with
    | edited hs hd hk hdip he => cases he
    | renamed hf hn ht => rfl
  · have ha := (accepted_of_ok hc hok).2
    subst hr
    generalize (s.request b (.delete name) fate).1=t at ha ⊢
    cases ha with
    | edited hs hd hk hdip he => cases he
    | deleted hcur => exact hcur.symm

theorem Kept.applies (hs : s.Kept b) {name : Text} {doc : Document} (ho : s.doc? name=some doc) :
    (s.request b (.apply name) .done).2=.ok := by
  obtain ⟨doc0,devices,hfile,hd,hsound,hplain⟩ := hs.good name _ (doc?_eq.mp ho)
  cases hfile
  have hv : validConfigName (Request.apply name).name=true := hs.valid name (mem_of_doc? ho)
  have hnone : b.duplicateImageIn devices=none :=
    (Board.duplicateImageIn_none hsound.known hplain).mpr hsound.images
  rw [Store.request,if_pos hv,serve]
  unfold webconfigsApply
  simp only [ho,hd,hnone]

end Store

instance (b : Board) (d : Entry) : Decidable (b.Plain d) :=
  inferInstanceAs (Decidable (∀ dev∈b.deviceNamed d.devname,∀ kv∈d.paramsOf.entries,
    ∀ p∈dev.paramByName kv.1,(p.name=imageKey ↔ kv.1=imageKey) ∧ (p.name=slotKey ↔ kv.1=slotKey)))

instance (b : Board) (d : Entry) : Decidable (b.TakesImage d) :=
  inferInstanceAs (Decidable (∃ dev∈b.deviceNamed d.devname,∃ p∈dev.paramByName imageKey,
    p.settable=true ∧ p.name=imageKey))

namespace Store

instance (s : Store) (name : Text) (doc : Document) : Decidable (s.DipFree name doc) :=
  inferInstanceAs (Decidable (_ ∧ _))

instance (b : Board) (devices : List Entry) : Decidable (CarefulDevices b devices) :=
  inferInstanceAs (Decidable ((∀ d∈devices,b.Plain d) ∧ _))

instance (b : Board) (doc : Document) (bound : Prop) [Decidable bound] : Decidable (CarefulDocument b doc bound) :=
  inferInstanceAs (Decidable (∀ devices∈doc.devices.get?,b.validateConfigDocument devices=none →
    CarefulDevices b devices ∧ bound))

instance (b : Board) (s : Store) (name devname value : Text) (fate : Fate) :
    Decidable (s.CarefulImage b name devname value fate) :=
  inferInstanceAs (Decidable ((∀ doc∈s.doc? name,∀ devices∈doc.devices.get?,
    ∀ target∈(fromTarget devname devices).head?,b.imagePath value≠[] → b.TakesImage target) ∧ _))

instance (b : Board) (s : Store) (fate : Fate) : (r : Request) → Decidable (s.Careful b fate r)
  | .put name (some doc) _ => inferInstanceAs (Decidable (CarefulDocument b doc (s.DipFree name doc)))
  | .put _ none _ => isTrue trivial
  | .importDocument name (some doc) => inferInstanceAs (Decidable (CarefulDocument b doc
    (s.configForDip doc.configDipValue=[] ∨ s.configForDip doc.configDipValue=name → doc.configDipValue≤15)))
  | .importDocument _ none => isTrue trivial
  | .title _ _ => isTrue trivial
  | .dip _ _ => isTrue trivial
  | .autostart _ _ => isTrue trivial
  | .layout _ _ => isTrue trivial
  | .image name devname (.value value) => inferInstanceAs (Decidable (s.CarefulImage b name devname value fate))
  | .image _ _ .absent => isTrue trivial
  | .image _ _ .other => isTrue trivial
  | .rename _ _ => isTrue trivial
  | .delete _ => isTrue trivial
  | .save _ snapshot => inferInstanceAs (Decidable (_ ∧ CarefulDevices b snapshot))
  | .apply _ => isTrue trivial

/-- A disk controller in slot 10 with its two drives, and a serial line in slots 12 and 13 -/
def bench : Board where
  imagesDir := "/root/images".toList
  mydevices := [⟨"RL11".toList,false,[⟨slotKey,"sl".toList,true⟩],some ⟨10,10,[10,10]⟩⟩,
    ⟨"RL0".toList,false,[⟨imageKey,"img".toList,true⟩],none⟩,
    ⟨"RL1".toList,false,[⟨imageKey,"img".toList,true⟩],none⟩,
    ⟨"DL11".toList,false,[⟨slotKey,"sl".toList,true⟩],some ⟨12,12,[12,13]⟩⟩]
  apart := by decide

def card (name slot : String) : Entry :=
  ⟨.value name.toList,.value true,.value ((∅ : Params).insert slotKey (some slot.toList))⟩

def drive (name image : String) : Entry :=
  ⟨.value name.toList,.value true,.value ((∅ : Params).insert imageKey (some image.toList))⟩

def setup (dip : Field ℚ) (devices : List Entry) : Document := ⟨.absent,dip,.absent,.absent,.value devices⟩

end Store

end QUniLator.Web.Configs
