import QUniLator.Shared.SyncWorker

namespace QUniLator.Shared

open Option Function List

namespace HostTree

variable {d : SharedDir} {h h' : HostTree} {m n : Name} {f g : HostFile} {e : HostEvent}

def Keeps (m : Name) (h h' : HostTree) : Prop :=
  ∀ f,h.fileByPath m=some f → ∃ g,h'.fileByPath m=some g ∧ g.id=f.id

theorem Keeps.registered (hk : Keeps e.hostPath h h') (hr : h.Registered e) : h'.Registered e := by
  obtain ⟨f,hf,he⟩ := hr
  obtain ⟨g,hg,hid⟩ := hk f hf
  exact ⟨g,hg,by rw [hid]; exact he⟩

theorem keeps_setFile (hf : h.fileByPath n=some f) (hid : g.id=f.id) : Keeps m h (h.setFile n g) := by
  intro k hk
  by_cases hmn : m=n
  · subst hmn
    rw [hf] at hk
    cases hk
    exact ⟨g,update_self ..,hid⟩
  · exact ⟨k,(update_of_ne hmn ..).trans hk,rfl⟩

theorem keeps_created : Keeps m h (h.created n) := by
  intro k hk
  rw [created]
  split_ifs with hn
  · have hmn : m≠n := by
      rintro rfl
      rw [hk] at hn
      cases hn
    exact ⟨k,(update_of_ne hmn ..).trans hk,rfl⟩
  · exact ⟨k,hk,rfl⟩

theorem keeps_removeFile (hmn : m≠n) : Keeps m h (h.removeFile n) :=
  fun k hk => ⟨k,(update_of_ne hmn ..).trans hk,rfl⟩

theorem created_queue : (h.created n).eventQueue=h.eventQueue := by
  rw [created]
  split_ifs <;> rfl

theorem loadDiskAttributes_eq (hl : h.loadDiskAttributes d n f=some h') :
    ∃ size,h'=h.setFile n { f with fileSize := size } := by
  rw [loadDiskAttributes] at hl
  cases hd : d.fileExists n with
  | false => simp [hd] at hl
  | true =>
    simp only [hd,assert_true] at hl
    exact ⟨_,(some.inj hl).symm⟩

/-- What the evaluation of an inotify event leaves: the objects but for a file that is deleted or moved
away, and further events for objects that are registered. -/
structure Evaluated (m : Inotify) (n : Name) (h h' : HostTree) : Prop where
  keeps : ∀ k,k≠n ∨ m≠.delete ∧ m≠.movedFrom → Keeps k h h'
  queue : ∃ new,h'.eventQueue=h.eventQueue++new ∧ ∀ e∈new,e.operation≠.delete → h'.Registered e

theorem evaluated_load {op : Inotify} {operation : Operation} {u v : HostTree}
    (hk : ∀ k,Keeps k h u) (hq : u.eventQueue=h.eventQueue) (hf : u.fileByPath n=some f)
    (hg : g.id=f.id) (hv : v=u.push ⟨operation,n,some f.id⟩)
    (hl : v.loadDiskAttributes d n g=some h') : Evaluated op n h h' := by
  obtain ⟨size,rfl⟩ := loadDiskAttributes_eq hl
  subst hv
  have hset : Keeps n u (u.setFile n { g with fileSize := size }) := keeps_setFile hf hg
  refine ⟨fun k _ => ?_,[⟨operation,n,some f.id⟩],?_,fun e he _ => ?_⟩
  · intro x hx
    obtain ⟨y,hy,hid⟩ := hk k x hx
    obtain ⟨z,hz,hid'⟩ := keeps_setFile (g := { g with fileSize := size }) hf hg y hy
    exact ⟨z,hz,hid'.trans hid⟩
  · show u.eventQueue++_=_
    rw [hq]
  · cases mem_singleton.mp he
    exact ⟨{ g with fileSize := size },update_self ..,by rw [← hg]⟩

theorem inotifyEventEval_cases {op : Inotify} (he : h.inotifyEventEval d op n=some h') : Evaluated op n h h' := by
  cases op with
  | create =>
    cases he
    exact ⟨fun _ _ => keeps_created,[],by rw [created_queue,append_nil],
      fun e he => absurd he not_mem_nil⟩
  | attrib =>
    obtain ⟨f,hf,he⟩ := bind_eq_some_iff.mp he
    obtain ⟨u,hu,he⟩ := bind_eq_some_iff.mp he
    cases he
    obtain ⟨size,rfl⟩ := loadDiskAttributes_eq hu
    refine ⟨fun k _ => keeps_setFile hf rfl,[⟨.modify,n,some f.id⟩],rfl,fun e he _ => ?_⟩
    cases mem_singleton.mp he
    exact ⟨_,update_self ..,rfl⟩
  | modify =>
    obtain ⟨f,hf,he⟩ := bind_eq_some_iff.mp he
    cases he
    exact ⟨fun k _ => keeps_setFile hf rfl,[],(append_nil _).symm,
      fun e he => absurd he not_mem_nil⟩
  | movedTo =>
    obtain ⟨f,hf,he⟩ := bind_eq_some_iff.mp he
    exact evaluated_load (fun _ => keeps_created) created_queue hf rfl rfl he
  | closeWrite =>
    obtain ⟨f,hf,he⟩ := bind_eq_some_iff.mp he
    have hk (k : Name) : Keeps k h (h.setFile n
        { f with inotifyCreatePending := false,inotifyModifyPending := false }) :=
      keeps_setFile hf rfl
    have hg : (h.setFile n { f with inotifyCreatePending := false,inotifyModifyPending := false
        }).fileByPath n=some { f with
          inotifyCreatePending := false,inotifyModifyPending := false } :=
      update_self ..
    simp only at he
    split_ifs at he
    · exact evaluated_load hk rfl hg rfl rfl he
    · exact evaluated_load hk rfl hg rfl rfl he
    · cases he
      exact ⟨fun k _ => hk k,[],(append_nil _).symm,fun e he => absurd he not_mem_nil⟩
  | movedFrom | delete =>
    simp only [inotifyEventEval] at he
    split_ifs at he
    · cases he
      refine ⟨fun k hk => ?_,[⟨.delete,n,none⟩],rfl,fun e he hne => ?_⟩
      · exact keeps_removeFile (hk.resolve_right (by simp))
      · cases mem_singleton.mp he
        exact absurd rfl hne
    · cases he
      exact ⟨fun k _ f hf => ⟨f,hf,rfl⟩,[],(append_nil _).symm,
        fun e he => absurd he not_mem_nil⟩

end HostTree

theorem updateEvent_cases (d : SharedDir) (e : HostEvent) :
    (updateEvent d e).operation=.delete ∨ updateEvent d e=e := by
  rw [updateEvent]
  cases e.operation with
  | create | modify =>
    simp only
    split_ifs
    · exact .inr rfl
    · exact .inl rfl
  | delete => exact .inr rfl

theorem updateEvent_path (d : SharedDir) (e : HostEvent) : (updateEvent d e).hostPath=e.hostPath := by
  rw [updateEvent]
  cases e.operation with
  | create | modify =>
    simp only
    split_ifs <;> rfl
  | delete => rfl

namespace DecTree

variable {t t' s : DecTree} {type : FilesystemType} {n : Name} {p : DecStream} {e : DecEvent}

def Fresh (t : DecTree) : Prop := ∀ id,t.next ≤ id → t.file id=none

theorem Fresh.addFile (h : t.Fresh) (f : DecFile) : (t.addFile f).Fresh := by
  intro id hid
  have hid : t.next+1 ≤ id := hid
  exact (update_of_ne (by omega) ..).trans (h id (by omega))

theorem Owns.addFile (h : t.Owns p) (hf : t.Fresh) (f : DecFile) : (t.addFile f).Owns p := by
  obtain ⟨g,hg,hp⟩ := h
  have hne : p.1≠t.next := by
    intro hx
    rw [hf p.1 (Nat.le_of_eq hx.symm)] at hg
    cases hg
  exact ⟨g,(update_of_ne hne ..).trans hg,hp⟩

theorem fresh_parse (type : FilesystemType) (image : List ParsedFile) (t : DecTree) : (t.parse type image).Fresh := by
  have hloop (image : List ParsedFile) : ∀ u : DecTree,u.Fresh →
      (image.foldl (fun t f => t.addFile (parsed type f)) u).Fresh := by
    induction image with
    | nil => exact fun u hu => hu
    | cons f image ih => exact fun u hu => ih _ (hu.addFile _)
  exact hloop image t.clear fun _ _ => rfl

theorem importHostFile_owns {admitted : Bool} {size : Nat} (hf : t.Fresh)
    (h : t.importHostFile type admitted n size=some t') : t'.Fresh ∧ ∀ p,t.Owns p → t'.Owns p := by
  rw [importHostFile] at h
  split_ifs at h
  · cases h
    exact ⟨hf,fun _ hp => hp⟩
  · cases h
    exact ⟨hf,fun _ hp => hp⟩
  · cases h
    exact ⟨hf,fun _ hp => hp⟩
  · cases admitted with
    | false => cases h
    | true =>
      cases h
      exact ⟨hf.addFile _,fun _ hp => hp.addFile hf _⟩

theorem fileByHost_file {f : DecFile} {id : Nat} (h : t.fileByHost type n=some (id,f)) : t.file id=some f := by
  obtain ⟨x,-,h⟩ := bind_eq_some_iff.mp h
  obtain ⟨g,hg,h⟩ := bind_eq_some_iff.mp h
  cases h
  exact hg

theorem Fresh.update (hf : t.Fresh) {id : Nat} {f : DecFile} (h : t.file id=some f)
    (x : Option DecFile) (k : Nat) (hk : t.next≤k) : Function.update t.file id x k=none := by
  have hne : k≠id := by
    rintro rfl
    rw [hf k hk] at h
    cases h
  exact (update_of_ne hne ..).trans (hf k hk)

theorem deleteHostFile_owns (type : FilesystemType) (n : Name) (hf : t.Fresh) : (t.deleteHostFile type n).Fresh ∧
    ∀ p,t.Owns p → t.deletes type n p=false → (t.deleteHostFile type n).Owns p := by
  rw [deleteHostFile]
  cases hx : t.fileByHost type n with
  | none => exact ⟨hf,fun _ hp _ => hp⟩
  | some y =>
    obtain ⟨id,f⟩ := y
    have hid := fileByHost_file hx
    simp only
    by_cases hv : isVolumeInfo type n=true
    · rw [if_pos hv]
      exact ⟨hf,fun _ hp _ => hp⟩
    rw [if_neg hv]
    rw [Bool.not_eq_true] at hv
    -- a stream of another file, or another stream of the file
    have hother (p : DecStream) (hp : t.Owns p) (hd : t.deletes type n p=false) :
        p.1≠id ∨ type=.rt11 ∧ p.2≠(streamCode type n).2 ∧ (f.hostPath p.2).isSome := by
      by_cases hpid : p.1=id
      case neg => exact .inl hpid
      obtain ⟨g,hg,hp⟩ := hp
      rw [hpid,hid] at hg
      cases hg
      simp only [deletes,hx,any_some,hpid,hv,decide_true,Bool.not_false,
        Bool.true_and,Bool.or_eq_false_iff,decide_eq_false_iff_not] at hd
      cases type with
      | xxdp => exact absurd rfl hd.1
      | rt11 => exact .inr ⟨rfl,hd.2,hp⟩
    cases type with
    | xxdp =>
      refine ⟨hf.update hid none,fun p hp hd => ?_⟩
      obtain hne | ⟨hx,-⟩ := hother p hp hd
      · obtain ⟨g,hg,hp⟩ := hp
        exact ⟨g,(update_of_ne hne ..).trans hg,hp⟩
      · cases hx
    | rt11 =>
      simp only
      split_ifs with hnone hall
      · exact ⟨hf,fun _ hp _ => hp⟩
      · refine ⟨hf.update hid none,fun p hp hd => ?_⟩
        obtain hne | ⟨-,hc,hs⟩ := hother p hp hd
        · obtain ⟨g,hg,hp⟩ := hp
          exact ⟨g,(update_of_ne hne ..).trans hg,hp⟩
        · have hgone := all_eq_true.mp hall p.2 (by
            rw [StreamCode.all]
            cases p.2 <;> simp)
          rw [update_of_ne hc,isNone_iff_eq_none] at hgone
          rw [hgone] at hs
          cases hs
      · refine ⟨hf.update hid _,fun p hp hd => ?_⟩
        obtain hne | ⟨-,hc,hs⟩ := hother p hp hd
        · obtain ⟨g,hg,hp⟩ := hp
          exact ⟨g,(update_of_ne hne ..).trans hg,hp⟩
        · by_cases hne : p.1=id
          · refine ⟨_,by rw [hne]; exact update_self ..,?_⟩
            show (Function.update f.hostPath _ none p.2).isSome=true
            rw [update_of_ne hc]
            exact hs
          · obtain ⟨g,hg,hp⟩ := hp
            exact ⟨g,(update_of_ne hne ..).trans hg,hp⟩

theorem mem_produceEvents {operation : Operation} {id : Nat} {f : DecFile} (h : e∈produceEvents operation id f) :
    e.operation=operation ∧ e.decStream.1=id ∧ (f.hostPath e.decStream.2).isSome=true := by
  obtain ⟨code,-,h⟩ := mem_filterMap.mp h
  obtain ⟨hostPath,hp,rfl⟩ := map_eq_some_iff.mp h
  exact ⟨rfl,rfl,by rw [hp]; rfl⟩

theorem mem_compareDirectories {missing : Operation} {produceModify : Bool}
    (h : e∈t.compareDirectories s missing produceModify) : t.Owns e.decStream ∧
    (e.operation=missing ∨ produceModify ∧ e.operation=.modify) := by
  obtain ⟨id,-,h⟩ := mem_flatMap.mp h
  cases hf : t.file id with
  | none => simp [hf] at h
  | some f =>
    simp only [hf] at h
    split_ifs at h with hmissing hmodify
    · obtain ⟨hop,hid,hp⟩ := mem_produceEvents h
      exact ⟨⟨f,by rw [hid]; exact hf,hp⟩,.inl hop⟩
    · obtain ⟨hop,hid,hp⟩ := mem_produceEvents h
      exact ⟨⟨f,by rw [hid]; exact hf,hp⟩,.inr ⟨(Bool.and_eq_true_iff.mp hmodify).2,hop⟩⟩
    · cases h

theorem mem_changeEvents (h : e∈t.changeEvents s) :
    e.operation≠.delete ∧ t.Owns e.decStream ∨ e.operation=.delete ∧ s.Owns e.decStream := by
  obtain h | h := mem_append.mp h
  · obtain ⟨ho,hop | ⟨-,hop⟩⟩ := mem_compareDirectories h
    all_goals exact .inl ⟨by rw [hop]; rintro ⟨⟩,ho⟩
  · obtain ⟨ho,hop | ⟨hx,-⟩⟩ := mem_compareDirectories h
    · exact .inr ⟨hop,ho⟩
    · cases hx

end DecTree

end QUniLator.Shared
