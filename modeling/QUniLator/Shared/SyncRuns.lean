import QUniLator.Shared.SyncEvents

namespace QUniLator.Shared.Sync

open Option DecTree List

/-- Between steps. The volume has events queued within a pass only, and the host has none left when they are
consumed. -/
structure Inv (s : Sync) : Prop where
  host : ∀ e∈s.host.eventQueue,e.operation≠.delete → s.host.Registered e
  dec : ∀ e∈s.decQueue,e.operation≠.delete → s.decTree.Owns e.decStream
  deleted : ∀ e∈s.decQueue,e.operation=.delete → s.snapshot.Owns e.decStream
  fresh : s.decTree.Fresh
  decIdle : s.phase≠.hostEvents → s.phase≠.decEvents → s.decQueue=[]
  hostIdle : s.phase=.decEvents → s.host.eventQueue=[]

variable {s t : Sync}

theorem Inv.sound (h : s.Inv) : s.Sound := by
  refine ⟨h.host,fun e he hne => ?_,h.dec,h.deleted⟩
  obtain hd | hs := updateEvent_cases s.dir e
  · exact absurd hd hne
  · rw [hs] at hne ⊢
    exact h.host e (mem_of_head? he) hne

theorem Inv.same (h : s.Inv) (hh : t.host=s.host) (hd : t.decTree=s.decTree)
    (hq : t.decQueue=s.decQueue) (hs : t.snapshot=s.snapshot)
    (hi : t.phase≠.hostEvents → t.phase≠.decEvents → s.decQueue=[])
    (he : t.phase=.decEvents → s.host.eventQueue=[]) : t.Inv :=
  ⟨by rw [hh]; exact h.host,by rw [hq,hd]; exact h.dec,by rw [hq,hs]; exact h.deleted,
    by rw [hd]; exact h.fresh,fun h1 h2 => hq ▸ hi h1 h2,fun h1 => hh ▸ he h1⟩

theorem Inv.eval (h : s.Inv) {m : Inotify} {n : Name} {rest : List (Inotify × Name)}
    {host : HostTree} (hp : s.phase=.poll) (hd : s.dir.pending=(m,n)::rest)
    (hk : s.Keeps .eval) (he : s.host.inotifyEventEval s.dir m n=some host) :
    ({ s with dir := { s.dir with pending := rest },host := host } : Sync).Inv := by
  obtain ⟨hkeeps,new,hqueue,hnew⟩ := HostTree.inotifyEventEval_cases he
  refine ⟨fun e he hne => ?_,h.dec,h.deleted,h.fresh,h.decIdle,fun hx => ?_⟩
  · have he : e∈host.eventQueue := he
    rw [hqueue] at he
    obtain he | he := mem_append.mp he
    · refine (hkeeps e.hostPath ?_).registered (h.host e he hne)
      by_cases hm : m=.delete ∨ m=.movedFrom
      · exact .inl (hk (m,n) (by rw [hd]; rfl) hm e he hne)
      · exact .inr (not_or.mp hm)
    · exact hnew e he hne
  · rw [hp] at hx
    cases hx

theorem Inv.parseImage (h : s.Inv) {image : List ParsedFile} (hs : s.parseImage image=some t) : t.Inv := by
  rw [Sync.parseImage] at hs
  cases hq : s.decQueue.isEmpty with
  | false => simp [hq] at hs
  | true =>
    simp only [hq,assert_true] at hs
    cases hs
    refine ⟨h.host,fun e he hne => ?_,fun e he hop => ?_,fresh_parse s.type image s.decTree,
      fun hx => absurd rfl hx,fun hx => by cases hx⟩
    · obtain ⟨-,ho⟩ | ⟨hop,-⟩ := mem_changeEvents he
      · exact ho
      · exact absurd hop hne
    · obtain ⟨hne,-⟩ | ⟨-,ho⟩ := mem_changeEvents he
      · exact absurd hop hne
      · exact ho

theorem decConsume_owns {admitted : Bool} {e : HostEvent} {u : DecTree} (hf : s.decTree.Fresh)
    (h : s.decConsume admitted e=some u) : u.Fresh ∧ ∀ p,s.decTree.Owns p →
      (e.operation≠.create → s.decTree.deletes s.type e.hostPath p=false) → u.Owns p := by
  have himport {v : DecTree} (hv : v.Fresh) (hi : s.importFile admitted e v=some u) :
      u.Fresh ∧ ∀ p,v.Owns p → u.Owns p := by
    obtain ⟨f,-,hi⟩ := bind_eq_some_iff.mp hi
    split_ifs at hi
    exact importHostFile_owns hv hi
  obtain ⟨hdf,hdo⟩ := deleteHostFile_owns s.type e.hostPath hf
  rw [decConsume] at h
  cases hop : e.operation with
  | create =>
    rw [hop] at h
    obtain ⟨hu,ho⟩ := himport hf h
    exact ⟨hu,fun p hp _ => ho p hp⟩
  | modify =>
    rw [hop] at h
    obtain ⟨hu,ho⟩ := himport hdf h
    exact ⟨hu,fun p hp hd => ho p (hdo p hp (hd (by rintro ⟨⟩)))⟩
  | delete =>
    rw [hop] at h
    cases h
    exact ⟨hdf,fun p hp hd => hdo p hp (hd (by rintro ⟨⟩))⟩

theorem Inv.consumeHost (h : s.Inv) {e : HostEvent} {rest : List HostEvent} {admitted : Bool}
    {u : DecTree} (hp : s.phase=.hostEvents) (hq : s.host.eventQueue=e::rest) (hk : s.Keeps (.consumeHost admitted))
    (hd : s.decConsume admitted (updateEvent s.dir e)=some u) :
    ({ s with host := { s.host with eventQueue := rest },decTree := u } : Sync).Inv := by
  obtain ⟨hu,ho⟩ := decConsume_owns h.fresh hd
  refine ⟨fun x hx hne => ?_,fun x hx hne => ho x.decStream (h.dec x hx hne) fun hop => ?_,
    h.deleted,hu,fun hx => absurd hp hx,fun hx => ?_⟩
  · have hx : x∈s.host.eventQueue := by
      rw [hq]
      exact mem_cons_of_mem e hx
    exact h.host x hx hne
  · rw [updateEvent_path]
    exact hk e (by rw [hq]; rfl) hop x hx hne
  · have hx : s.phase=.decEvents := hx
    rw [hp] at hx
    cases hx

theorem hostConsume_same (e : DecEvent) (size : Nat) (s : Sync) :
    (s.hostConsume e size).host.eventQueue=s.host.eventQueue ∧
    (s.hostConsume e size).decTree=s.decTree ∧ (s.hostConsume e size).decQueue=s.decQueue ∧
    (s.hostConsume e size).snapshot=s.snapshot ∧ (s.hostConsume e size).phase=s.phase := by
  have hc (n : Name) (s : Sync) : (s.hostCreate n size).host.eventQueue=s.host.eventQueue ∧
      (s.hostCreate n size).decTree=s.decTree ∧ (s.hostCreate n size).decQueue=s.decQueue ∧
      (s.hostCreate n size).snapshot=s.snapshot ∧ (s.hostCreate n size).phase=s.phase := by
    rw [hostCreate]
    split_ifs <;> exact ⟨rfl,rfl,rfl,rfl,rfl⟩
  have hd (n : Name) : (s.hostDelete n).host.eventQueue=s.host.eventQueue ∧
      (s.hostDelete n).decTree=s.decTree ∧ (s.hostDelete n).decQueue=s.decQueue ∧
      (s.hostDelete n).snapshot=s.snapshot ∧ (s.hostDelete n).phase=s.phase := by
    rw [hostDelete]
    split_ifs <;> exact ⟨rfl,rfl,rfl,rfl,rfl⟩
  rw [hostConsume]
  cases e.operation with
  | create => exact hc e.hostPath s
  | modify =>
    obtain ⟨h1,h2,h3,h4,h5⟩ := hd e.hostPath
    obtain ⟨g1,g2,g3,g4,g5⟩ := hc e.hostPath (s.hostDelete e.hostPath)
    exact ⟨g1.trans h1,g2.trans h2,g3.trans h3,g4.trans h4,g5.trans h5⟩
  | delete => exact hd e.hostPath

theorem Inv.consumeDec (h : s.Inv) {e : DecEvent} {rest : List DecEvent} (size : Nat)
    (hp : s.phase=.decEvents) (hq : s.decQueue=e::rest) : ({ s with decQueue := rest }.hostConsume e size).Inv := by
  obtain ⟨h1,h2,h3,h4,h5⟩ := hostConsume_same e size { s with decQueue := rest }
  have hsub (x : DecEvent) (hx : x∈rest) : x∈s.decQueue := by
    rw [hq]
    exact mem_cons_of_mem e hx
  refine ⟨fun x hx => ?_,?_,?_,by rw [h2]; exact h.fresh,fun _ hx => ?_,fun _ => ?_⟩
  · rw [h1] at hx
    have hx : x∈s.host.eventQueue := hx
    rw [h.hostIdle hp] at hx
    exact absurd hx not_mem_nil
  · rw [h2,h3]
    exact fun x hx => h.dec x (hsub x hx)
  · rw [h3,h4]
    exact fun x hx => h.deleted x (hsub x hx)
  · exact absurd (h5.trans hp) hx
  · exact h1.trans (h.hostIdle hp)

theorem Inv.finishPass (h : s.Inv) (info : Nat) (hq : s.decQueue=[]) : (s.finishPass info).Inv := by
  have hno (e : DecEvent) (he : e∈s.decQueue) : False := by
    rw [hq] at he
    exact absurd he not_mem_nil
  rw [Sync.finishPass]
  split_ifs
  · exact ⟨h.host,fun e he => (hno e he).elim,fun e he => (hno e he).elim,h.fresh,
      fun _ _ => hq,fun hx => by cases hx⟩
  · exact ⟨h.host,h.dec,h.deleted,h.fresh,fun _ _ => hq,fun hx => by cases hx⟩

theorem Inv.step (h : s.Inv) {a : Step} (hk : s.Keeps a) (hs : s.step a=some t) : t.Inv := by
  have hidle (hp : s.phase=.wait ∨ s.phase=.poll ∨ s.phase=.work) : s.decQueue=[] := by
    obtain hp | hp | hp := hp <;> exact h.decIdle (by rw [hp]; rintro ⟨⟩) (by rw [hp]; rintro ⟨⟩)
  cases a with
  | user op =>
    cases hs
    exact h.same rfl rfl rfl rfl h.decIdle h.hostIdle
  | decWrite | lock =>
    cases hp : s.phase <;> simp only [Sync.step,hp,reduceCtorEq] at hs
    cases hs
    exact h.same rfl rfl rfl rfl (fun _ _ => hidle (.inl hp)) fun hx => by cases hx
  | eval =>
    cases hp : s.phase <;> simp only [Sync.step,hp,reduceCtorEq] at hs
    cases hd : s.dir.pending with
    | nil => simp only [hd,reduceCtorEq] at hs
    | cons x rest =>
      simp only [hd] at hs
      obtain ⟨host,he,hs⟩ := bind_eq_some_iff.mp hs
      cases hs
      simpa only [hp] using h.eval hp hd hk he
  | polled stable =>
    cases hp : s.phase <;> simp only [Sync.step,hp,reduceCtorEq] at hs
    split_ifs at hs with hd
    all_goals
      cases hs
      exact h.same rfl rfl rfl rfl (fun _ _ => hidle (.inr (.inl hp))) fun hx => by cases hx
  | parse image =>
    cases hp : s.phase <;> simp only [Sync.step,hp,reduceCtorEq] at hs
    split_ifs at hs with hd
    · exact h.parseImage hs
    · cases hs
      exact h.same rfl rfl rfl rfl (fun hx => absurd rfl hx) fun hx => by cases hx
  | consumeHost admitted =>
    cases hp : s.phase <;> simp only [Sync.step,hp,reduceCtorEq] at hs
    cases hq : s.host.eventQueue with
    | nil => simp only [hq,reduceCtorEq] at hs
    | cons e rest =>
      simp only [hq] at hs
      obtain ⟨u,hu,hs⟩ := bind_eq_some_iff.mp hs
      cases hs
      simpa only [hp] using h.consumeHost hp hq hk hu
  | render =>
    cases hp : s.phase <;> simp only [Sync.step,hp,reduceCtorEq] at hs
    split_ifs at hs with hq
    cases hs
    exact h.same rfl rfl rfl rfl (fun _ hx => absurd rfl hx)
      fun _ => isEmpty_iff.mp hq
  | consumeDec size =>
    cases hp : s.phase <;> simp only [Sync.step,hp,reduceCtorEq] at hs
    cases hq : s.decQueue with
    | nil => simp only [hq,reduceCtorEq] at hs
    | cons e rest =>
      simp only [hq] at hs
      cases hs
      simpa only [hp] using h.consumeDec size hp hq
  | finish info =>
    cases hp : s.phase <;> simp only [Sync.step,hp,reduceCtorEq] at hs
    split_ifs at hs with hq
    cases hs
    exact h.finishPass info (isEmpty_iff.mp hq)

theorem inv_start (type : FilesystemType) (cleared : List Name) : (start type cleared).Inv :=
  ⟨fun _ he => absurd he not_mem_nil,fun _ he => absurd he not_mem_nil,
    fun _ he => absurd he not_mem_nil,fun _ _ => rfl,fun _ _ => rfl,fun hx => by cases hx⟩

/-- From the opening of an image on, whatever the user, the PDP-11 and the sync worker do and in whatever
order: as long as nothing is deleted under a queued event, every event points at what is there. -/
theorem run_sound (type : FilesystemType) (cleared : List Name) {as : List Step}
    (h : Run (Guarded Keeps step) (start type cleared) as s) : s.Sound :=
  (h.invariant (fun _ _ _ hs hn => hs.step hn.1 hn.2) (inv_start type cleared)).sound

/-- A file is made, and its creation consumed while the PDP-11 has made another. -/
theorem run_sound_created : ∃ s : Sync,s.decTree.files.length=2 ∧ s.Sound := by
  obtain ⟨s,hs,hp⟩ := run_of_foldlM Keeps step (fun s : Sync => s.decTree.files.length=2)
    [.parse [],.render,.finish 1,
      .user (.create ['A']),.user (.write ['A'] 512),.user (.close ['A']),
      .lock,.eval,.eval,.eval,.eval,.eval,.eval,.polled false,.decWrite,
      .lock,.polled true,.parse [⟨['B','.'],fun _ => true,false⟩],
      .consumeHost true,.consumeHost true]
    (start .xxdp []) (by decide)
  exact ⟨s,of_decide_eq_true hp,run_sound .xxdp [] hs⟩

/-- A file is deleted and made again before its creation is consumed: the event has the object that was
deleted. -/
theorem recreated_dangles : ∃ s,Run (Guarded (fun _ _ => True) step) (start .rt11 []) [.parse [],.render,.finish 1,
      .user (.create ['A']),.user (.write ['A'] 512),.user (.close ['A']),
      .lock,.eval,.eval,.eval,.eval,.eval,.eval,.polled false,
      .user (.delete ['A']),.user (.create ['A']),.user (.write ['A'] 512),.user (.close ['A']),
      .lock,.eval,.eval,.eval,.eval,.polled false,.lock,.polled true,.parse [],.consumeHost true] s ∧
    s.phase=.hostEvents ∧ ∃ e∈s.host.eventQueue.head?, (updateEvent s.dir e).operation=.create ∧
      ¬s.host.Registered (updateEvent s.dir e) ∧ ¬s.Sound := by
  obtain ⟨s,hs,hp⟩ := run_of_foldlM (fun _ _ => True) step
    (fun s : Sync => s.phase=.hostEvents ∧ s.host.eventQueue.head? = some ⟨.create,['A'],some 1⟩ ∧
      s.dir.fileExists ['A']=true ∧ (s.host.fileByPath ['A']).map HostFile.id=some 2)
    [.parse [],.render,.finish 1,
      .user (.create ['A']),.user (.write ['A'] 512),.user (.close ['A']),
      .lock,.eval,.eval,.eval,.eval,.eval,.eval,.polled false,
      .user (.delete ['A']),.user (.create ['A']),.user (.write ['A'] 512),.user (.close ['A']),
      .lock,.eval,.eval,.eval,.eval,.polled false,.lock,.polled true,.parse [],.consumeHost true]
    (start .rt11 []) (by decide)
  obtain ⟨hphase,hhead,hdisk,hid⟩ := of_decide_eq_true hp
  have hup : updateEvent s.dir ⟨.create,['A'],some 1⟩=⟨.create,['A'],some 1⟩ := by
    simp [updateEvent,hdisk]
  have hno : ¬s.host.Registered ⟨.create,['A'],some 1⟩ := by
    rintro ⟨f,hf,he⟩
    have hf : s.host.fileByPath ['A']=some f := hf
    rw [hf,map_some] at hid
    have he : some 1=some f.id := he
    rw [hid] at he
    cases he
  refine ⟨s,hs,hphase,_,hhead,by rw [hup],by rw [hup]; exact hno,fun hsound => hno ?_⟩
  exact hsound.host _ (mem_of_head? hhead) (by rintro ⟨⟩)

end QUniLator.Shared.Sync
