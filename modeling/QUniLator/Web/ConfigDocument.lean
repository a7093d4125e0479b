import QUniLator.Framework.Conflict
import QUniLator.Web.Auth
import Mathlib.Data.Rat.Defs
import Mathlib.Data.List.Sort

namespace QUniLator.Web.Configs

open List Option Bool

abbrev Text := List Char

/-- `strcasecmp` finds no difference. -/
def sameName (a b : Text) : Bool := a.map Char.toLower=b.map Char.toLower

structure Parameter where
  name : Text
  shortname : Text
  settable : Bool
  deriving DecidableEq

/-- A card of the backplane: where it is now, where it goes unless told, and where its requests are -/
structure Card where
  prioritySlot : Nat
  defaultPrioritySlot : Nat
  requests : List Nat
  deriving DecidableEq

structure Device where
  name : Text
  infrastructure : Bool
  parameter : List Parameter
  card : Option Card
  deriving DecidableEq

def Device.paramByName (dev : Device) (name : Text) : Option Parameter :=
  match dev.parameter.find? fun p => sameName p.name name with
  | some p => some p
  | none => dev.parameter.find? fun p => sameName p.shortname name

/-- The devices of the board, and where it keeps its images. No part of the bridge has a device's name. -/
structure Board where
  imagesDir : Text
  mydevices : List Device
  apart : ∀ d∈mydevices,d.infrastructure=true → ∀ e∈mydevices,e.infrastructure=false →
    sameName d.name e.name=false

def prioritySlotCount : Nat := 32

def Card.slotOffsets (c : Card) : List Int :=
  if c.prioritySlot=0 then []
  else
    match (c.requests.filter (·<prioritySlotCount)).map fun s => (s : Int)-c.prioritySlot with
    | [] => [0]
    | offset::offsets => (offset::offsets).dedup.insertionSort (· ≤ ·)

/-- A member of an object: none, one of another type, or one of the type that is asked for -/
inductive Field (α : Type)
  | absent
  | other
  | value (a : α)
  deriving DecidableEq

def Field.get? {α : Type} : Field α → Option α
  | .value a => some a
  | _ => none

abbrev Params := AList fun _ : Text => Option Text

structure Entry where
  name : Field Text
  enabled : Field Bool
  params : Field Params
  deriving DecidableEq

structure Document where
  title : Field Text
  dipValue : Field ℚ
  layout : Field Text
  autostart : Field Bool
  devices : Field (List Entry)
  deriving DecidableEq

def Entry.paramsOf (d : Entry) : Params := d.params.get?.getD ∅

def Entry.paramText (d : Entry) (key : Text) : Option Text := (d.paramsOf.lookup key).join

/-- `device_entry_enabled` -/
def Entry.isEnabled (d : Entry) : Bool := d.enabled.get?.getD true

def imageKey : Text := "image".toList

def slotKey : Text := "slot".toList

def Entry.withImage (d : Entry) (path : Text) : Entry :=
  { d with params := .value (if path=[] then d.paramsOf.erase imageKey
      else d.paramsOf.insert imageKey (some path)) }

def Entry.devname (d : Entry) : Text := d.name.get?.getD []

/-- A number as an `int` -/
def truncated (q : ℚ) : Int := q.num.tdiv q.den

def Document.configDipValue (doc : Document) : Int := doc.dipValue.get?.elim (-1) truncated

/-- `strtoul` after white space and a sign -/
def unsignedOf (negative : Bool) (text : Text) : Nat :=
  if 0x100000000≤Auth.decimal text then 0xffffffff
  else if negative then (0x100000000-Auth.decimal text)%0x100000000
  else Auth.decimal text

def strtoul (text : Text) : Nat :=
  match text.dropWhile isSpace with
  | '-' :: digits => unsignedOf true digits
  | '+' :: digits => unsignedOf false digits
  | digits => unsignedOf false digits

def Entry.deviceImage (d : Entry) : Text := (d.paramText imageKey).getD []

/-- `device_entry_slot` -/
def Entry.slot (d : Entry) (c : Card) : Nat := (d.paramText slotKey).elim c.defaultPrioritySlot strtoul

/-- A slot and an offset from it, as `unsigned` -/
def slotAt (slot : Nat) (offset : Int) : Nat := (((slot : Int)+offset)%0x100000000).toNat

namespace Board
variable (b : Board)

/-- `webstorage_image_subpath` -/
def imageSubpath (value : Text) : Text :=
  if value=[] then []
  else if (b.imagesDir++['/']).isPrefixOf value then value.drop (b.imagesDir.length+1)
  else
    let v := if "./".toList.isPrefixOf value then value.drop 2 else value
    if "images/".toList.isPrefixOf v then v.drop 7 else v

/-- `webstorage_image_path` -/
def imagePath (value : Text) : Text :=
  match b.imageSubpath value with
  | [] => []
  | '/' :: sub => '/' :: sub
  | sub => "images/".toList++sub

def deviceNamed (name : Text) : Option Device :=
  b.mydevices.find? fun cand => !cand.infrastructure && sameName cand.name name

/-- The card of that name, `none` for what holds no slot -/
def cardNamed (name : Text) : Option Card :=
  (b.mydevices.find? fun cand => sameName cand.name name).bind Device.card

def checkParam (devname : Text) (dev : Device) (key : Text) (value : Option Text) : Option Text :=
  match dev.paramByName key with
  | none => some (devname ++ '.' :: key ++ ": unknown parameter".toList)
  | some p =>
    if p.settable=false then some (devname ++ '.' :: key ++ ": not settable".toList)
    else if value=none then some (devname ++ '.' :: key ++ ": value must be a string".toList)
    else none

def checkEntry (d : Entry) : Option Text :=
  match d.name with
  | .value devname =>
    match b.deviceNamed devname with
    | none => some ("unknown device \"".toList++devname++['"'])
    | some dev => d.paramsOf.entries.findSome? fun kv => checkParam devname dev kv.1 kv.2
  | _ => some "every device entry needs a string \"name\"".toList

def entrySlots (d : Entry) : List Nat :=
  if d.isEnabled=false then []
  else (b.cardNamed d.devname).elim [] fun c => c.slotOffsets.map (slotAt (d.slot c))

def beyondLast (slot : Nat) (devname : Text) : Option Text :=
  if slot<prioritySlotCount then none
  else some (devname ++ ": backplane slot ".toList++Nat.toDigits 10 slot ++ " is beyond the last slot ".toList ++
    Nat.toDigits 10 (prioritySlotCount-1))

def bothUse (slot : Nat) (holder devname : Text) : Text :=
  devname ++ " and ".toList++holder ++ " both use backplane slot ".toList++Nat.toDigits 10 slot

/-- `validate_config_slots`: its two loops, the slots of one entry after those of the other -/
def validateConfigSlots (devices : List Entry) : Option Text :=
  firstConflict beyondLast bothUse ∅ (devices.flatMap fun d => (b.entrySlots d).map fun s => (s,d.devname))

def validateConfigDocument (devices : List Entry) : Option Text :=
  match devices.findSome? b.checkEntry with
  | some error => some error
  | none => b.validateConfigSlots devices

def imageOfBoth (sub : Text) (holder devname : Text) : Text :=
  '"' :: sub ++ "\" is the image of both ".toList++holder ++ " and ".toList++devname

def imageClaim (d : Entry) : Option (Text × Text) :=
  match b.imageSubpath d.deviceImage with
  | [] => none
  | sub => some (sub,d.name.get?.getD "another drive".toList)

def duplicateImageIn (devices : List Entry) : Option Text :=
  firstConflict (fun _ _ => none) imageOfBoth ∅ (devices.filterMap b.imageClaim)

end Board

/-- The texts that an entry gives a parameter of its device, under any of the names of the parameter -/
def Entry.settings (d : Entry) (dev : Device) (which : Text) : List Text :=
  d.paramsOf.entries.filterMap fun kv => if (dev.paramByName kv.1).map Parameter.name=some which then kv.2 else none

def Card.places (c : Card) : List Text → List Nat
  | [] => [c.defaultPrioritySlot]
  | text::texts => (text::texts).map strtoul

namespace Board
variable (b : Board)

def imagesOf (d : Entry) : List Text :=
  (b.deviceNamed d.devname).elim [] fun dev => ((d.settings dev imageKey).map b.imageSubpath).filter (· ≠ [])

def slotsOf (d : Entry) : List Nat :=
  if d.isEnabled=false then []
  else (b.deviceNamed d.devname).elim [] fun dev => dev.card.elim [] fun c =>
    (c.places (d.settings dev slotKey)).flatMap fun slot => c.slotOffsets.map (slotAt slot)

/-- An entry is of a device that exists, and its parameters are ones that may be set. -/
def Known (d : Entry) : Prop :=
  ∃ devname dev,d.name=.value devname ∧ b.deviceNamed devname=some dev ∧
    ∀ kv∈d.paramsOf.entries,∃ p,dev.paramByName kv.1=some p ∧ p.settable=true ∧ kv.2≠none

/-- No unknown device or parameter, no file in two drives and no two cards in one slot -/
structure Sound (devices : List Entry) : Prop where
  known : ∀ d∈devices,b.Known d
  images : (devices.flatMap b.imagesOf).Nodup
  slots : (devices.flatMap b.slotsOf).Nodup
  inBackplane : ∀ s∈devices.flatMap b.slotsOf,s<prioritySlotCount

def Plain (d : Entry) : Prop :=
  ∀ dev∈b.deviceNamed d.devname,∀ kv∈d.paramsOf.entries,∀ p∈dev.paramByName kv.1,
    (p.name=imageKey ↔ kv.1=imageKey) ∧ (p.name=slotKey ↔ kv.1=slotKey)

def TakesImage (d : Entry) : Prop :=
  ∃ dev∈b.deviceNamed d.devname,∃ p∈dev.paramByName imageKey,p.settable=true ∧ p.name=imageKey

variable {b}

theorem filterMap_key (which : Text) : ∀ {l : List (Sigma fun _ : Text => Option Text)},l.NodupKeys →
    l.filterMap (fun kv => if kv.1=which then kv.2 else none)=(l.dlookup which).join.toList := by
  intro l hl
  induction l with
  | nil => rfl
  | cons kv l ih =>
    obtain ⟨hkv,hrest⟩ := nodupKeys_cons.mp hl
    obtain ⟨key,value⟩ := kv
    have ih := ih hrest
    by_cases hk : key=which
    · subst hk
      have hnone : l.filterMap (fun kv => if kv.1=key then kv.2 else none)=[] := by
        rw [ih,dlookup_eq_none.mpr hkv]
        rfl
      rw [dlookup_cons_eq,filterMap_cons]
      simp only [if_true,hnone]
      cases value <;> rfl
    · rw [dlookup_cons_ne _ _ (Ne.symm hk),filterMap_cons]
      simp only [if_neg hk]
      exact ih

variable {devices : List Entry} {d : Entry}

theorem settings_eq {devname : Text} {dev : Device} (hn : d.name=.value devname)
    (hdev : b.deviceNamed devname=some dev)
    (hknown : ∀ kv∈d.paramsOf.entries,∃ p,dev.paramByName kv.1=some p ∧ p.settable ∧ kv.2≠none)
    (hp : b.Plain d) : d.settings dev imageKey=(d.paramText imageKey).toList ∧
      d.settings dev slotKey=(d.paramText slotKey).toList := by
  have hname : d.devname=devname := by rw [Entry.devname,hn]; rfl
  have hplain := hp dev (by rw [hname]; exact hdev)
  have key : ∀ which,(∀ kv∈d.paramsOf.entries,∀ p∈dev.paramByName kv.1,p.name=which ↔ kv.1=which) →
      d.settings dev which=(d.paramText which).toList := by
    intro which hw
    rw [Entry.paramText,AList.lookup,← filterMap_key which d.paramsOf.nodupKeys,Entry.settings]
    apply filterMap_congr
    intro kv hkv
    obtain ⟨p,hpar,_,_⟩ := hknown kv hkv
    refine if_congr ?_ rfl rfl
    rw [hpar,map_some,some_inj]
    exact hw kv hkv p hpar
  exact ⟨key imageKey fun kv hkv p hpar => (hplain kv hkv p hpar).1,
    key slotKey fun kv hkv p hpar => (hplain kv hkv p hpar).2⟩

theorem imagesOf_eq (hk : b.Known d) (hp : b.Plain d) : b.imagesOf d=((b.imageClaim d).map Prod.fst).toList := by
  obtain ⟨devname,dev,hn,hdev,hknown⟩ := hk
  have hname : d.devname=devname := by rw [Entry.devname,hn]; rfl
  have hset := (settings_eq hn hdev hknown hp).1
  rw [imagesOf,hname,hdev,elim_some,hset,imageClaim,Entry.deviceImage]
  cases d.paramText imageKey with
  | none => rfl
  | some text =>
    rw [toList_some,map_singleton,getD_some]
    cases b.imageSubpath text <;> rfl

theorem cardNamed_eq {devname : Text} {dev : Device} (hdev : b.deviceNamed devname=some dev) :
    b.cardNamed devname=dev.card := by
  have hmem := List.mem_of_find?_eq_some hdev
  have hp := List.find?_some hdev
  rw [and_eq_true,not_eq_true'] at hp
  obtain ⟨first,hf⟩ : ∃ first,b.mydevices.find? (fun cand => sameName cand.name devname)=some first :=
    isSome_iff_exists.mp (List.find?_isSome.mpr ⟨dev,hmem,hp.2⟩)
  have hfirst : first.infrastructure=false := by
    by_contra h
    have ha := b.apart first (List.mem_of_find?_eq_some hf) (eq_true_of_not_eq_false h) dev hmem hp.1
    have hs : sameName first.name devname=true :=
      List.find?_some (p := fun cand : Device => sameName cand.name devname) hf
    rw [sameName,decide_eq_true_eq] at hs
    rw [sameName,hs,decide_eq_false_iff_not] at ha
    exact ha (of_decide_eq_true hp.2).symm
  have heq : b.deviceNamed devname=some first := by
    rw [deviceNamed,List.find?_eq_some_iff_append]
    obtain ⟨hs,as,bs,hl,has⟩ := List.find?_eq_some_iff_append.mp hf
    refine ⟨by rw [hfirst]; exact hs,as,bs,hl,fun a ha => ?_⟩
    have := has a ha
    rw [not_eq_true'] at this ⊢
    rw [this,Bool.and_false]
  rw [cardNamed,hf,bind_some,some.inj (hdev.symm.trans heq)]

theorem slotsOf_eq (hk : b.Known d) (hp : b.Plain d) : b.slotsOf d=b.entrySlots d := by
  obtain ⟨devname,dev,hn,hdev,hknown⟩ := hk
  have hname : d.devname=devname := by rw [Entry.devname,hn]; rfl
  have hset := (settings_eq hn hdev hknown hp).2
  rw [slotsOf,entrySlots]
  refine if_congr Iff.rfl rfl ?_
  rw [hname,hdev,cardNamed_eq hdev,elim_some,hset]
  cases dev.card with
  | none => rfl
  | some c =>
    rw [elim_some,elim_some,Entry.slot]
    cases d.paramText slotKey with
    | none | some text => exact flatMap_singleton _ _

theorem known_of_checkEntry (h : b.checkEntry d=none) : b.Known d := by
  unfold checkEntry at h
  cases hn : d.name with
  | absent | other => rw [hn] at h; cases h
  | value devname =>
    rw [hn] at h
    dsimp only at h
    cases hdev : b.deviceNamed devname with
    | none => rw [hdev] at h; cases h
    | some dev =>
      rw [hdev] at h
      refine ⟨devname,dev,hn,hdev,fun kv hkv => ?_⟩
      have hc := List.findSome?_eq_none_iff.mp h kv hkv
      unfold checkParam at hc
      cases hpar : dev.paramByName kv.1 with
      | none => rw [hpar] at hc; cases hc
      | some p =>
        rw [hpar] at hc
        dsimp only at hc
        split_ifs at hc with h1 h2
        exact ⟨p,rfl,eq_true_of_not_eq_false h1,h2⟩

theorem flatMap_slots (hk : ∀ d∈devices,b.Known d) (hp : ∀ d∈devices,b.Plain d) :
    (devices.flatMap fun d => (b.entrySlots d).map fun s => (s,d.devname)).map Prod.fst =
      devices.flatMap b.slotsOf := by
  rw [map_flatMap]
  apply flatMap_congr
  intro d hd
  rw [List.map_map,slotsOf_eq (hk d hd) (hp d hd)]
  exact List.map_id _

theorem flatMap_images (hk : ∀ d∈devices,b.Known d) (hp : ∀ d∈devices,b.Plain d) :
    (devices.filterMap b.imageClaim).map Prod.fst=devices.flatMap b.imagesOf := by
  rw [map_filterMap,filterMap_eq_flatMap_toList]
  apply flatMap_congr
  intro d hd
  exact (imagesOf_eq (hk d hd) (hp d hd)).symm

theorem duplicateImageIn_none (hk : ∀ d∈devices,b.Known d) (hp : ∀ d∈devices,b.Plain d) :
    b.duplicateImageIn devices=none ↔ (devices.flatMap b.imagesOf).Nodup := by
  rw [duplicateImageIn,firstConflict_empty,flatMap_images hk hp]
  exact and_iff_right fun _ _ => rfl

theorem sound_of_checks (hp : ∀ d∈devices,b.Plain d)
    (hv : b.validateConfigDocument devices=none) (hi : b.duplicateImageIn devices=none) : b.Sound devices := by
  unfold validateConfigDocument at hv
  cases hf : devices.findSome? b.checkEntry with
  | some error => rw [hf] at hv; cases hv
  | none =>
    rw [hf] at hv
    have hk : ∀ d∈devices,b.Known d := fun d hd =>
      known_of_checkEntry (List.findSome?_eq_none_iff.mp hf d hd)
    obtain ⟨hb,hn⟩ := firstConflict_empty.mp hv
    rw [flatMap_slots hk hp] at hn
    refine ⟨hk,(duplicateImageIn_none hk hp).mp hi,hn,fun s hs => ?_⟩
    rw [← flatMap_slots hk hp] at hs
    obtain ⟨claim,hc,rfl⟩ := List.mem_map.mp hs
    have hc := hb claim hc
    unfold beyondLast at hc
    split_ifs at hc with h
    exact h

section
variable {d : Entry} {path : Text}

theorem lookup_withImage {key : Text} (hk : key≠imageKey) :
    (d.withImage path).paramsOf.lookup key=d.paramsOf.lookup key := by
  rw [Entry.paramsOf,Entry.withImage,Field.get?,getD_some]
  by_cases hp : path=[]
  · rw [if_pos hp]
    exact AList.lookup_erase_ne hk
  · rw [if_neg hp]
    exact AList.lookup_insert_ne hk

theorem lookup_withImage_image :
    (d.withImage path).paramsOf.lookup imageKey=if path=[] then none else some (some path) := by
  rw [Entry.paramsOf,Entry.withImage,Field.get?,getD_some]
  by_cases hp : path=[]
  · rw [if_pos hp,if_pos hp]
    exact AList.lookup_erase _ _
  · rw [if_neg hp,if_neg hp]
    exact AList.lookup_insert _

theorem entries_withImage {kv : Sigma fun _ : Text => Option Text} (h : kv∈(d.withImage path).paramsOf.entries) :
    kv.1≠imageKey ∧ kv∈d.paramsOf.entries ∨ path≠[] ∧ kv=⟨imageKey,some path⟩ := by
  obtain ⟨key,value⟩ := kv
  have hl := AList.mem_lookup_iff.mpr h
  by_cases hk : key=imageKey
  · subst hk
    rw [lookup_withImage_image] at hl
    by_cases hp : path=[]
    · rw [if_pos hp] at hl
      cases hl
    · rw [if_neg hp] at hl
      cases hl
      exact .inr ⟨hp,rfl⟩
  · rw [lookup_withImage hk] at hl
    exact .inl ⟨hk,AList.mem_lookup_iff.mp hl⟩

theorem Known.withImage (hk : b.Known d) (ht : path≠[] → b.TakesImage d) : b.Known (d.withImage path) := by
  obtain ⟨devname,dev,hn,hdev,hknown⟩ := hk
  have hname : d.devname=devname := by rw [Entry.devname,hn]; rfl
  refine ⟨devname,dev,hn,hdev,fun kv hkv => ?_⟩
  rcases entries_withImage hkv with ⟨_,hold⟩ | ⟨hp,rfl⟩
  · exact hknown kv hold
  · obtain ⟨dev',hdev',p,hpar,hset,_⟩ := ht hp
    rw [hname,hdev] at hdev'
    cases hdev'
    exact ⟨p,hpar,hset,fun h => (by cases h)⟩

theorem Plain.withImage (hp : b.Plain d) (ht : path≠[] → b.TakesImage d) : b.Plain (d.withImage path) := by
  intro dev hdev kv hkv p hpar
  rcases entries_withImage hkv with ⟨_,hold⟩ | ⟨hne,rfl⟩
  · exact hp dev hdev kv hold p hpar
  · obtain ⟨dev',hdev',q,hq,_,hname⟩ := ht hne
    have hdevs : some dev=some dev' := hdev.symm.trans hdev'
    cases hdevs
    have hpq : some p=some q := hpar.symm.trans hq
    cases hpq
    rw [hname]
    exact ⟨Iff.rfl,Iff.rfl⟩

theorem paramText_withImage : (d.withImage path).paramText imageKey=if path=[] then none else some path := by
  rw [Entry.paramText,lookup_withImage_image]
  split_ifs <;> rfl

theorem entrySlots_withImage : b.entrySlots (d.withImage path)=b.entrySlots d := by
  have hs : (d.withImage path).paramText slotKey=d.paramText slotKey := by
    rw [Entry.paramText,lookup_withImage (by decide)]
    rfl
  have hslot : (d.withImage path).slot=d.slot := by
    funext c
    rw [Entry.slot,hs]
    rfl
  rw [entrySlots,hslot]
  rfl

theorem deviceImage_withImage : (d.withImage path).deviceImage=path := by
  rw [Entry.deviceImage,paramText_withImage]
  split_ifs with h
  · exact h.symm
  · rfl

theorem imageClaim_fst : (b.imageClaim d).map Prod.fst =
    if b.imageSubpath d.deviceImage=[] then none else some (b.imageSubpath d.deviceImage) := by
  rw [imageClaim]
  cases h : b.imageSubpath d.deviceImage with
  | nil | cons c sub => rfl

theorem Sound.withImage {before after : List Entry} (hs : b.Sound (before++d::after))
    (hp : ∀ e∈before++d::after,b.Plain e) (ht : path≠[] → b.TakesImage d)
    (hfree : path≠[] → ∀ e∈before++after,b.imageSubpath e.deviceImage≠b.imageSubpath path) :
    b.Sound (before++d.withImage path::after) ∧ ∀ e∈before++d.withImage path::after,b.Plain e := by
  have hd : d∈before++d::after := mem_append_right _ mem_cons_self
  have hrest : ∀ e∈before++d.withImage path::after,e=d.withImage path ∨ e∈before++after := by
    intro e he
    rw [mem_append,mem_cons] at he
    rw [mem_append]
    tauto
  have hold : ∀ e∈before++after,e∈before++d::after := by
    intro e he
    rw [mem_append] at he
    rw [mem_append,mem_cons]
    tauto
  have hknown : ∀ e∈before++d.withImage path::after,b.Known e := by
    intro e he
    rcases hrest e he with rfl | he
    · exact (hs.known d hd).withImage ht
    · exact hs.known e (hold e he)
  have hplain : ∀ e∈before++d.withImage path::after,b.Plain e := by
    intro e he
    rcases hrest e he with rfl | he
    · exact (hp d hd).withImage ht
    · exact hp e (hold e he)
  have hslots : (before++d.withImage path::after).flatMap b.slotsOf=(before++d::after).flatMap b.slotsOf := by
    rw [flatMap_append,flatMap_append,flatMap_cons,flatMap_cons,
      slotsOf_eq ((hs.known d hd).withImage ht) ((hp d hd).withImage ht),entrySlots_withImage,
      slotsOf_eq (hs.known d hd) (hp d hd)]
  refine ⟨⟨hknown,?_,hslots ▸ hs.slots,hslots ▸ hs.inBackplane⟩,hplain⟩
  have hothers : ((before++after).flatMap b.imagesOf).Nodup := by
    refine hs.images.sublist ?_
    rw [flatMap_append,flatMap_append,flatMap_cons]
    exact (Sublist.refl _).append (sublist_append_right _ _)
  have hmine : b.imagesOf (d.withImage path)=((b.imageClaim (d.withImage path)).map Prod.fst).toList :=
    imagesOf_eq ((hs.known d hd).withImage ht) ((hp d hd).withImage ht)
  have hperm : ((before++d.withImage path::after).flatMap b.imagesOf).Perm
      (b.imagesOf (d.withImage path)++(before++after).flatMap b.imagesOf) := by
    rw [flatMap_append,flatMap_append,flatMap_cons,← append_assoc,← append_assoc]
    exact perm_append_comm.append_right _
  rw [hperm.nodup_iff,hmine,imageClaim_fst,deviceImage_withImage]
  by_cases hsub : b.imageSubpath path=[]
  · rw [if_pos hsub]
    exact hothers
  · rw [if_neg hsub,toList_some,singleton_append,nodup_cons]
    refine ⟨fun hm => ?_,hothers⟩
    obtain ⟨e,he,hi⟩ := mem_flatMap.mp hm
    rw [imagesOf_eq (hs.known e (hold e he)) (hp e (hold e he)),mem_toList,imageClaim_fst] at hi
    have hpath : path≠[] := fun h => hsub (by rw [h]; rfl)
    by_cases hempty : b.imageSubpath e.deviceImage=[]
    · rw [if_pos hempty] at hi
      cases hi
    · rw [if_neg hempty] at hi
      exact hfree hpath e he (some.inj hi)

end

end Board

end QUniLator.Web.Configs
