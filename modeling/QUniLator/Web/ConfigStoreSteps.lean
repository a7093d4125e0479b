import QUniLator.Web.ConfigStore

namespace QUniLator.Web.Configs

def Fate.whole : Fate → Bool
  | .noWrite _ _ | .crash 1 => false
  | _ => true

namespace Store
variable (b : Board) (s : Store)

def DipFree (name : Text) (doc : Document) : Prop :=
  doc.configDipValue≤15 ∧ (s.configForDip doc.configDipValue=[] ∨ s.configForDip doc.configDipValue=name)

/-- A document that, if it passes the validator, names no image twice, and its images and slots under those names -/
def CarefulDevices (devices : List Entry) : Prop :=
  (∀ d∈devices,b.Plain d) ∧ b.duplicateImageIn devices=none

def CarefulDocument (doc : Document) (bound : Prop) : Prop :=
  ∀ devices∈doc.devices.get?,b.validateConfigDocument devices=none → CarefulDevices b devices ∧ bound

def CarefulImage (name devname : Text) (value : Text) (fate : Fate) : Prop :=
  (∀ doc∈s.doc? name,∀ devices∈doc.devices.get?,∀ target∈(fromTarget devname devices).head?,
    b.imagePath value≠[] → b.TakesImage target) ∧ fate.whole=true

def Careful (fate : Fate) : Request → Prop
  | .put name (some doc) _ => CarefulDocument b doc (s.DipFree name doc)
  | .importDocument name (some doc) => CarefulDocument b doc
    (s.configForDip doc.configDipValue=[] ∨ s.configForDip doc.configDipValue=name → doc.configDipValue≤15)
  | .image name devname (.value value) => s.CarefulImage b name devname value fate
  | .save _ snapshot => b.validateConfigDocument snapshot=none ∧ CarefulDevices b snapshot
  | _ => True

structure Kept : Prop where
  valid : ∀ name∈s.files,validConfigName name=true
  good : ∀ name file,s.files.lookup name=some file → ∃ doc devices,file=.good doc ∧
    doc.devices=.value devices ∧ b.Sound devices ∧ ∀ d∈devices,b.Plain d
  settings : ∀ name doc,s.doc? name=some doc → doc.configDipValue≤15
  unshared : ∀ name doc name' doc',s.doc? name=some doc → s.doc? name'=some doc' →
    0<doc.configDipValue → doc.configDipValue=doc'.configDipValue → name=name'
  stored : s.current=[] ∨ s.current∈s.files

end Store

/-- The metadata that a request names -/
structure Named where
  title : Prop
  dip : Prop
  layout : Prop
  autostart : Prop

def Request.named : Request → Named
  | .put _ (some doc) _ => ⟨doc.title≠.absent,doc.dipValue≠.absent,doc.layout≠.absent,doc.autostart≠.absent⟩
  | .title _ _ => ⟨True,False,False,False⟩
  | .dip _ _ => ⟨False,True,False,False⟩
  | .layout _ _ => ⟨False,False,True,False⟩
  | .autostart _ _ => ⟨False,False,False,True⟩
  | _ => ⟨False,False,False,False⟩

/-- The metadata of one document is that of another, but for what is named. -/
structure Document.Keeps (doc doc' : Document) (n : Named) : Prop where
  title : ¬n.title → doc'.title.get? = doc.title.get?
  dip : ¬n.dip → doc'.dipValue.get? = doc.dipValue.get?
  layout : ¬n.layout → doc'.layout.get? = doc.layout.get?
  autostart : ¬n.autostart → doc'.autostart.get? = doc.autostart.get?

def Request.newName : Request → Text → Text
  | .rename source (.value target),name => if name=source then target else name
  | _,name => name

def Request.edits : Request → Bool
  | .title _ _ | .dip _ _ | .autostart _ _ | .layout _ _ => true
  | _ => false

theorem Request.newName_of_edits {r : Request} (h : r.edits) (n : Text) : r.newName n=n := by
  cases r with
  | rename source target => cases h
  | _ => rfl

namespace Store

/-- What a request does to the store -/
structure Delivers (b : Board) (s : Store) (r : Request) (fate : Fate) : Prop where
  /-- One that is refused leaves every file. -/
  refused : ∀ status error,(s.request b r fate).2=.refused status error → (s.request b r fate).1=s
  /-- One that is cut off leaves the files there were, or those that it would have left. -/
  crashed : (s.request b r fate).2=.crashed → (s.request b r fate).1.files=s.files ∨
    (s.request b r fate).1.files=(s.request b r .done).1.files
  /-- Nothing else is touched, and what is not named is kept. -/
  metadata : (s.request b r fate).2=.ok → ∀ name doc,s.doc? name=some doc → r≠.delete name →
    ∃ doc',(s.request b r fate).1.doc? (r.newName name)=some doc' ∧
      (name≠r.name → doc'=doc) ∧ doc.Keeps doc' r.named
  /-- The pointer follows a rename. -/
  follows : ∀ source target,r=.rename source (.value target) → (s.request b r fate).2=.ok →
    (s.request b r fate).1.current=if s.current=source then target else s.current
  /-- What is current is not deleted. -/
  current : ∀ name,r=.delete name → (s.request b r fate).2=.ok → (s.request b r fate).1.current≠name

/-- All of what is to be done or none of it, and not without saying so -/
inductive Atomic (s : Store) (d : Store × Reply) : Store × Reply → Prop
  | done : Atomic s d d
  | refused (status : Nat) (error : Text) : Atomic s d (s,.refused status error)
  | before : Atomic s d (s.down,.crashed)
  | after (h : d.2=.ok) : Atomic s d (d.1.down,.crashed)

variable {b : Board} {s : Store}

theorem writeConfigFile_atomic (name : Text) (doc : Document) (fate : Fate) :
    Atomic s (s.store name (.good doc),.ok) (s.writeConfigFile name doc fate) := by
  cases fate with
  | done => exact .done
  | noOpen why | noWrite why left | noRename why => exact .refused _ _
  | crash n =>
    change Atomic _ _ (if n<3 then _ else _)
    split_ifs
    · exact .before
    · exact .after rfl

variable {fate : Fate} {r : Request}

theorem overwriteFile_atomic (name : Text) (doc : Document) (hw : fate.whole) :
    Atomic s (s.store name (.good doc),.ok) (s.overwriteFile name doc fate) := by
  cases fate with
  | done | noRename why => exact .done
  | noOpen why => exact .refused _ _
  | noWrite why left => cases hw
  | crash n =>
    match n with
    | 0 => exact .before
    | 1 => cases hw
    | _+2 => exact .after rfl

theorem alter_atomic (t : Store) (status : Nat) (error : Text) (fate : Fate) :
    Atomic s (t,.ok) (s.alter t (.refused status error) fate) := by
  cases fate with
  | done => exact .done
  | noOpen why | noWrite why left | noRename why => exact .refused _ _
  | crash n =>
    match n with
    | 0 => exact .before
    | _+1 => exact .after rfl

theorem Atomic.onOk {t : Store} {out : Store × Reply} (h : Atomic s (t,.ok) out) {f : Store → Store}
    (hf : (f t).down=t.down) : Atomic s (f t,.ok) (onOk f out) := by
  cases h with
  | done => exact .done
  | refused status error => exact .refused status error
  | before => exact .before
  | after hok =>
    change Atomic s (f t,.ok) (t.down,.crashed)
    rw [← hf]
    exact .after rfl

theorem webconfigsWrite_atomic (name : Text) (doc : Document) (fromLive : Bool) (fate : Fate) :
    Atomic s (s.webconfigsWrite b name doc fromLive .done) (s.webconfigsWrite b name doc fromLive fate) := by
  unfold webconfigsWrite
  cases doc.devices with
  | absent | other => exact .refused _ _
  | value devices =>
    dsimp only
    cases b.validateConfigDocument devices with
    | some error => exact .refused _ _
    | none =>
      exact (writeConfigFile_atomic name (s.preserveMetadata name doc) fate).onOk
        (f := fun t => if fromLive then t.setCurrent name else t) (by cases fromLive <;> rfl)

theorem edit_atomic (name : Text) (change : Document → Document) (fate : Fate) :
    Atomic s (s.edit name change .done) (s.edit name change fate) := by
  unfold edit
  cases s.doc? name with
  | none => exact .refused _ _
  | some doc => exact writeConfigFile_atomic _ _ _

theorem configSetImage_atomic (name devname value : Text) (hw : fate.whole) :
    Atomic s (s.configSetImage b name devname (.value value) .done)
      (s.configSetImage b name devname (.value value) fate) := by
  unfold configSetImage
  dsimp only
  cases s.doc? name with
  | none => exact .refused _ _
  | some doc =>
    dsimp only
    cases doc.devices with
    | absent | other => exact .refused _ _
    | value devices =>
      dsimp only
      unfold setImageIn
      cases fromTarget devname devices with
      | nil => exact .refused _ _
      | cons target after =>
        dsimp only
        split
        · exact .refused _ _
        · exact overwriteFile_atomic _ _ hw

theorem webconfigsRename_atomic (source target : Text) (fate : Fate) :
    Atomic s (s.webconfigsRename source target .done) (s.webconfigsRename source target fate) := by
  unfold webconfigsRename
  split
  · exact .refused _ _
  · cases s.files.lookup source with
    | none => exact .refused _ _
    | some file =>
      dsimp only
      split
      · exact .refused _ _
      · exact alter_atomic _ _ _ _

theorem webconfigsDelete_atomic (name : Text) (fate : Fate) :
    Atomic s (s.webconfigsDelete name .done) (s.webconfigsDelete name fate) := by
  unfold webconfigsDelete
  split_ifs
  · exact .refused _ _
  · exact alter_atomic _ _ _ _
  · exact .refused _ _

theorem webconfigsApply_atomic (name : Text) (fate : Fate) :
    Atomic s (s.webconfigsApply b name .done) (s.webconfigsApply b name fate) := by
  unfold webconfigsApply
  cases s.doc? name with
  | none => exact .refused _ _
  | some doc =>
    dsimp only
    cases doc.devices with
    | absent | other => exact .refused _ _
    | value devices =>
      dsimp only
      cases b.duplicateImageIn devices with
      | some conflict => exact .refused _ _
      | none =>
        cases fate with
        | crash n => exact .before
        | _ => exact .done

theorem serve_atomic (hc : s.Careful b fate r) : Atomic s (s.serve b .done r) (s.serve b fate r) := by
  cases r with
  | put name body fromLive =>
    cases body with
    | none => exact .refused _ _
    | some doc => exact webconfigsWrite_atomic name doc fromLive fate
  | importDocument name body =>
    cases body with
    | none => exact .refused _ _
    | some doc =>
      change Atomic s (s.webconfigsImport b name doc .done) (s.webconfigsImport b name doc fate)
      unfold webconfigsImport
      split_ifs
      · exact .refused _ _
      · exact webconfigsWrite_atomic _ _ _ _
  | title name value =>
    cases value with
    | absent | other => exact .refused _ _
    | value title =>
      change Atomic s (s.configSetTitle name (.value title) .done) (s.configSetTitle name (.value title) fate)
      unfold configSetTitle
      dsimp only
      split
      · exact .refused _ _
      · exact edit_atomic _ _ _
  | dip name body =>
    match body with
    | none => exact .refused _ _
    | some .other => exact .refused _ _
    | some .absent => exact edit_atomic _ _ _
    | some (.value v) =>
      change Atomic s (s.configSetDip name (some (.value v)) .done) (s.configSetDip name (some (.value v)) fate)
      unfold configSetDip
      dsimp only
      split_ifs
      · exact .refused _ _
      · exact .refused _ _
      · exact .refused _ _
      · exact edit_atomic _ _ _
  | autostart name body =>
    match body with
    | none => exact .refused _ _
    | some .other => exact .refused _ _
    | some .absent => exact .refused _ _
    | some (.value on) => exact edit_atomic _ _ _
  | layout name body =>
    match body with
    | none => exact .refused _ _
    | some .other => exact edit_atomic _ _ _
    | some .absent => exact edit_atomic _ _ _
    | some (.value layout) => exact edit_atomic _ _ _
  | image name devname value =>
    cases value with
    | absent | other => exact .refused _ _
    | value text => exact configSetImage_atomic name devname text hc.2
  | rename source target =>
    cases target with
    | absent | other => exact .refused _ _
    | value name => exact webconfigsRename_atomic source name fate
  | delete name => exact webconfigsDelete_atomic name fate
  | save name snapshot =>
    exact (writeConfigFile_atomic name _ fate).onOk (f := fun t => t.setCurrent name) rfl
  | apply name => exact webconfigsApply_atomic name fate

theorem request_atomic (hc : s.Careful b fate r) : Atomic s (s.request b r .done) (s.request b r fate) := by
  unfold request
  split_ifs
  · exact serve_atomic hc
  · exact .refused _ _

/-- What a request that is not refused comes to -/
inductive Accepted (b : Board) (s : Store) : Request → Store → Prop
  | put {name : Text} {doc : Document} {devices : List Entry} (fromLive : Bool) (hd : doc.devices=.value devices)
      (hv : b.validateConfigDocument devices=none) : Accepted b s (.put name (some doc) fromLive)
        (if fromLive then (s.store name (.good (s.preserveMetadata name doc))).setCurrent name
          else s.store name (.good (s.preserveMetadata name doc)))
  | imported {name : Text} {doc : Document} {devices : List Entry} (hfree : s.doc? name=none)
      (hd : doc.devices=.value devices) (hv : b.validateConfigDocument devices=none) :
      Accepted b s (.importDocument name (some doc))
        (s.store name (.good (s.preserveMetadata name (s.imported name doc))))
  | edited {r : Request} {doc doc' : Document} (hs : s.doc? r.name=some doc) (hd : doc'.devices=doc.devices)
      (hk : doc.Keeps doc' r.named) (hdip : doc'.dipValue=doc.dipValue ∨ s.DipFree r.name doc')
      (he : r.edits=true) : Accepted b s r (s.store r.name (.good doc'))
  | image {name devname value : Text} {doc : Document} {devices after : List Entry} {target : Entry}
      (hs : s.doc? name=some doc) (hd : doc.devices=.value devices)
      (ht : fromTarget devname devices=target::after)
      (hfree : b.imagePath value≠[] → ∀ d∈before devname devices++after,
        b.imageSubpath d.deviceImage≠b.imageSubpath (b.imagePath value)) :
      Accepted b s (.image name devname (.value value)) (s.store name (.good { doc with
        devices := .value (before devname devices++target.withImage (b.imagePath value)::after) }))
  | renamed {source target : Text} {file : File} (hf : s.files.lookup source=some file)
      (hn : validConfigName target=true) (ht : target∉s.files) :
      Accepted b s (.rename source (.value target)) (s.moved source target file)
  | deleted {name : Text} (hc : name≠s.current) :
      Accepted b s (.delete name) { s with files := s.files.erase name }
  | saved {name : Text} (snapshot : List Entry) : Accepted b s (.save name snapshot)
      ((s.store name (.good (s.preserveMetadata name
        ⟨.absent,.absent,.absent,.absent,.value snapshot⟩))).setCurrent name)
  | applied {name : Text} {doc : Document} (hs : s.doc? name=some doc) :
      Accepted b s (.apply name) (s.setCurrent name)

def Settled (b : Board) (s : Store) (r : Request) (out : Store × Reply) : Prop :=
  out.2=.ok ∧ Accepted b s r out.1 ∨ ∃ status error,out=(s,.refused status error)

theorem webconfigsWrite_settled {name : Text} {doc : Document} {fromLive : Bool}
    (h : ∀ devices,doc.devices=.value devices → b.validateConfigDocument devices=none →
      Accepted b s r (if fromLive then (s.store name (.good (s.preserveMetadata name doc))).setCurrent name
          else s.store name (.good (s.preserveMetadata name doc)))) :
    Settled b s r (s.webconfigsWrite b name doc fromLive .done) := by
  unfold webconfigsWrite
  cases hd : doc.devices with
  | absent | other => exact .inr ⟨_,_,rfl⟩
  | value devices =>
    dsimp only
    cases hv : b.validateConfigDocument devices with
    | some error => exact .inr ⟨_,_,rfl⟩
    | none => exact .inl ⟨rfl,h devices hd hv⟩

theorem edit_settled {change : Document → Document} (hd : ∀ doc,(change doc).devices=doc.devices)
    (hk : ∀ doc : Document,doc.Keeps (change doc) r.named)
    (hdip : ∀ doc,(change doc).dipValue=doc.dipValue ∨ s.DipFree r.name (change doc))
    (he : r.edits) : Settled b s r (s.edit r.name change .done) := by
  unfold edit
  cases hs : s.doc? r.name with
  | none => exact .inr ⟨_,_,rfl⟩
  | some doc => exact .inl ⟨rfl,.edited hs (hd doc) (hk doc) (hdip doc) he⟩

theorem configSetImage_settled (name devname : Text) (value : Field Text) :
    Settled b s (.image name devname value) (s.configSetImage b name devname value .done) := by
  cases value with
  | absent | other => exact .inr ⟨_,_,rfl⟩
  | value text =>
    unfold configSetImage
    dsimp only
    cases hs : s.doc? name with
    | none => exact .inr ⟨_,_,rfl⟩
    | some doc =>
      dsimp only
      cases hd : doc.devices with
      | absent | other => exact .inr ⟨_,_,rfl⟩
      | value devices =>
        dsimp only
        unfold setImageIn
        cases ht : fromTarget devname devices with
        | nil => exact .inr ⟨_,_,rfl⟩
        | cons target after =>
          dsimp only
          split
          · exact .inr ⟨_,_,rfl⟩
          · rename_i hfind
            refine .inl ⟨rfl,.image hs hd ht fun hp d hd' he => ?_⟩
            rw [if_neg hp] at hfind
            exact absurd (decide_eq_true he) (List.find?_eq_none.mp hfind d hd')

theorem webconfigsRename_settled (source target : Text) :
    Settled b s (.rename source (.value target)) (s.webconfigsRename source target .done) := by
  unfold webconfigsRename
  split
  · exact .inr ⟨_,_,rfl⟩
  · rename_i hv
    cases hf : s.files.lookup source with
    | none => exact .inr ⟨_,_,rfl⟩
    | some file =>
      dsimp only
      split
      · exact .inr ⟨_,_,rfl⟩
      · rename_i ht
        exact .inl ⟨rfl,.renamed hf (Bool.eq_true_of_not_eq_false fun h => hv (.inr h)) ht⟩

theorem webconfigsDelete_settled (name : Text) : Settled b s (.delete name) (s.webconfigsDelete name .done) := by
  unfold webconfigsDelete
  split_ifs with hc
  · exact .inr ⟨_,_,rfl⟩
  · exact .inl ⟨rfl,.deleted hc⟩
  · exact .inr ⟨_,_,rfl⟩

theorem webconfigsApply_settled (name : Text) : Settled b s (.apply name) (s.webconfigsApply b name .done) := by
  unfold webconfigsApply
  cases hs : s.doc? name with
  | none => exact .inr ⟨_,_,rfl⟩
  | some doc =>
    dsimp only
    cases doc.devices with
    | absent | other => exact .inr ⟨_,_,rfl⟩
    | value devices =>
      dsimp only
      cases b.duplicateImageIn devices with
      | some conflict => exact .inr ⟨_,_,rfl⟩
      | none => exact .inl ⟨rfl,.applied hs⟩

theorem configSetTitle_settled (name : Text) (value : Field Text) :
    Settled b s (.title name value) (s.configSetTitle name value .done) := by
  unfold configSetTitle
  cases value with
  | absent | other => exact .inr ⟨_,_,rfl⟩
  | value title =>
    dsimp only
    split
    · exact .inr ⟨_,_,rfl⟩
    · exact edit_settled (r := .title name (.value title)) (fun _ => rfl)
        (fun _ => ⟨fun h => absurd trivial h,fun _ => rfl,fun _ => rfl,fun _ => rfl⟩) (fun _ => .inl rfl) rfl

theorem truncated_intCast (n : Int) : truncated (n : ℚ)=n := by
  rw [truncated,Rat.num_intCast,Rat.den_intCast]
  exact Int.tdiv_one n

theorem configSetDip_settled (name : Text) (body : Option (Field ℚ)) :
    Settled b s (.dip name body) (s.configSetDip name body .done) := by
  unfold configSetDip
  match body with
  | none => exact .inr ⟨_,_,rfl⟩
  | some .other => exact .inr ⟨_,_,rfl⟩
  | some .absent =>
    exact edit_settled (r := .dip name (some .absent)) (fun _ => rfl)
      (fun _ => ⟨fun _ => rfl,fun h => absurd trivial h,fun _ => rfl,fun _ => rfl⟩)
      (fun _ => .inr ⟨show (-1 : Int)≤15 by decide,.inl rfl⟩) rfl
  | some (.value v) =>
    dsimp only
    split_ifs with h1 h2 h3
    · exact .inr ⟨_,_,rfl⟩
    · exact .inr ⟨_,_,rfl⟩
    · exact .inr ⟨_,_,rfl⟩
    · refine edit_settled (r := .dip name (some (.value v))) (fun _ => rfl)
        (fun _ => ⟨fun _ => rfl,fun h => absurd trivial h,fun _ => rfl,fun _ => rfl⟩)
        (fun doc => .inr ?_) rfl
      have hval : ({ doc with dipValue := .value (truncated v : ℚ) } : Document).configDipValue=truncated v :=
        truncated_intCast _
      unfold DipFree
      rw [hval]
      exact ⟨by omega,by tauto⟩

theorem configSetAutostart_settled (name : Text) (body : Option (Field Bool)) :
    Settled b s (.autostart name body) (s.configSetAutostart name body .done) := by
  unfold configSetAutostart
  match body with
  | none => exact .inr ⟨_,_,rfl⟩
  | some .other => exact .inr ⟨_,_,rfl⟩
  | some .absent => exact .inr ⟨_,_,rfl⟩
  | some (.value on) =>
    exact edit_settled (r := .autostart name (some (.value on))) (fun _ => rfl)
      (fun _ => ⟨fun _ => rfl,fun _ => rfl,fun _ => rfl,fun h => absurd trivial h⟩) (fun _ => .inl rfl) rfl

theorem configSetLayout_settled (name : Text) (body : Option (Field Text)) :
    Settled b s (.layout name body) (s.configSetLayout name body .done) := by
  unfold configSetLayout
  match body with
  | none => exact .inr ⟨_,_,rfl⟩
  | some .other =>
    exact edit_settled (r := .layout name (some .other)) (fun _ => rfl)
      (fun _ => ⟨fun _ => rfl,fun _ => rfl,fun h => absurd trivial h,fun _ => rfl⟩) (fun _ => .inl rfl) rfl
  | some .absent =>
    exact edit_settled (r := .layout name (some .absent)) (fun _ => rfl)
      (fun _ => ⟨fun _ => rfl,fun _ => rfl,fun h => absurd trivial h,fun _ => rfl⟩) (fun _ => .inl rfl) rfl
  | some (.value layout) =>
    exact edit_settled (r := .layout name (some (.value layout))) (fun _ => rfl)
      (fun _ => ⟨fun _ => rfl,fun _ => rfl,fun h => absurd trivial h,fun _ => rfl⟩) (fun _ => .inl rfl) rfl

theorem request_settled (r : Request) : Settled b s r (s.request b r .done) := by
  unfold request
  by_cases hv : validConfigName r.name=true
  · rw [if_pos hv]
    cases r with
    | put name body fromLive =>
      cases body with
      | none => exact .inr ⟨_,_,rfl⟩
      | some doc => exact webconfigsWrite_settled fun _ hd hv => .put fromLive hd hv
    | importDocument name body =>
      cases body with
      | none => exact .inr ⟨_,_,rfl⟩
      | some doc =>
        change Settled b s _ (s.webconfigsImport b name doc .done)
        unfold webconfigsImport
        cases hfree : s.doc? name with
        | some old => exact .inr ⟨_,_,rfl⟩
        | none => exact webconfigsWrite_settled fun _ hd hv => .imported hfree hd hv
    | title name value => exact configSetTitle_settled name value
    | dip name body => exact configSetDip_settled name body
    | autostart name body => exact configSetAutostart_settled name body
    | layout name body => exact configSetLayout_settled name body
    | image name devname value => exact configSetImage_settled name devname value
    | rename source target =>
      cases target with
      | absent | other => exact .inr ⟨_,_,rfl⟩
      | value name => exact webconfigsRename_settled source name
    | delete name => exact webconfigsDelete_settled name
    | save name snapshot => exact .inl ⟨rfl,.saved snapshot⟩
    | apply name => exact webconfigsApply_settled name
  · rw [if_neg hv]
    exact .inr ⟨_,_,rfl⟩

end Store

end QUniLator.Web.Configs
