import QUniLator.Framework.Loop
import QUniLator.Mscp.Transfer
import Mathlib.Data.List.Nodup

/-!
The walk of a host over the units of a controller, by the Next Unit modifier of GET UNIT STATUS.
-/

namespace QUniLator.Mscp

open List Option

section
variable (count : Nat) (available : Nat → Bool)

def seeking (unitNumber : Nat) : Bool := decide (unitNumber<count) && !available unitNumber

/-- `unitNumber++`, on a `uint16_t` -/
def seek (unitNumber : Nat) : Nat := (unitNumber+1)%0x10000

/-- The loop ends, and the unit `a` answers for `unitNumber`. -/
def Answers (unitNumber a : Nat) : Prop :=
  ∃ fuel v,runWhile (seeking count available) seek fuel unitNumber=some v ∧
    a=if count≤v then 0 else v

/-- The answers to a host that begins with a number and asks for one past each answer. -/
inductive Asks : Nat → List Nat → Prop
  | nil (u : Nat) : Asks u []
  | cons {u a : Nat} {as : List Nat} (h : Answers count available u a)
      (hs : Asks ((a+1)%0x10000) as) : Asks u (a::as)

/-- A walk from unit 0 until the first number that comes back. -/
structure Walked (as : List Nat) : Prop where
  asks : Asks count available 0 as
  bounded : as.length ≤ count+2
  again : ∃ front a,as=front++[a] ∧ a∈front ∧ front.Nodup
  complete : ∀ u,available u=true → u∈as

def named : Nat := min count 0x10000

/-- The available units from `r` on. -/
def availableFrom (r : Nat) : List Nat := (List.range' r (named count-r)).filter available

theorem answers_done (u : Nat) (h : seeking count available u=false) :
    Answers count available u (if count≤u then 0 else u) :=
  ⟨0,u,by rw [runWhile,if_neg (by simp [h])],rfl⟩

variable {count available}

theorem answers_seek {u a : Nat} (hs : seeking count available u)
    (h : Answers count available (seek u) a) : Answers count available u a := by
  obtain ⟨fuel,v,hv,ha⟩ := h
  exact ⟨fuel+1,v,by rw [runWhile,if_pos hs,hv],ha⟩

theorem asks_seek {u a : Nat} {as : List Nat} (hs : seeking count available u)
    (h : Asks count available (seek u) (a::as)) : Asks count available u (a::as) := by
  cases h with
  | cons h hs' => exact .cons (answers_seek hs h) hs'

theorem answers_least {p : Nat} (hp : p<count) (h16 : p<0x10000) (ha : available p) (r : Nat)
    (hr : r≤p) (hno : ∀ w,r≤w → w<p → available w=false) : Answers count available r p := by
  obtain ⟨k,rfl⟩ := Nat.le.dest hr
  clear hr
  induction k generalizing r with
  | zero =>
    rw [Nat.add_zero] at hp ha ⊢
    have hdone := answers_done count available r (by simp [seeking,ha])
    rwa [if_neg (Nat.not_le_of_lt hp)] at hdone
  | succ k ih =>
    have hbusy : seeking count available r=true := by
      simp [seeking,hno r (Nat.le_refl r) (by omega)]
      omega
    refine answers_seek hbusy ?_
    have hnext : seek r=r+1 := Nat.mod_eq_of_lt (by omega)
    rw [hnext,show r+(k+1)=r+1+k by omega]
    rw [show r+(k+1)=r+1+k by omega] at hp h16 ha hno
    exact ih (r+1) hp h16 ha (fun w h1 h2 => hno w (by omega) h2)

theorem answers_end {w : Nat} (hw : Answers count available (named count%0x10000) w) (r : Nat)
    (hr : r≤named count) (hno : ∀ u,r≤u → u<named count → available u=false) :
    Answers count available (r%0x10000) w := by
  obtain ⟨k,hk⟩ := Nat.le.dest hr
  induction k generalizing r with
  | zero =>
    obtain rfl : r=named count := hk
    exact hw
  | succ k ih =>
    have hlt : r<count ∧ r<0x10000 := by
      unfold named at hk
      omega
    have hbusy : seeking count available r=true := by
      simp [seeking,hno r (Nat.le_refl r) (by omega),hlt.1]
    rw [Nat.mod_eq_of_lt hlt.2]
    exact answers_seek hbusy (ih (r+1) (by omega) (fun u h1 h2 => hno u (by omega) h2) (by omega))

theorem availableFrom_end : availableFrom count available (named count)=[] := by
  simp [availableFrom]

theorem availableFrom_step {r : Nat} (hr : r<named count) :
    availableFrom count available r=(if available r then r::availableFrom count available (r+1)
      else availableFrom count available (r+1)) := by
  unfold availableFrom
  rw [show named count-r=(named count-(r+1))+1 by omega,range'_succ,filter_cons]

theorem asks_from {w : Nat} {ks : List Nat} (hw : Answers count available (named count%0x10000) w)
    (hks : Asks count available ((w+1)%0x10000) ks) (r : Nat) (hr : r≤named count) :
    Asks count available (r%0x10000) (availableFrom count available r++w::ks) := by
  obtain ⟨k,hk⟩ := Nat.le.dest hr
  induction k generalizing r with
  | zero =>
    obtain rfl : r=named count := hk
    rw [availableFrom_end]
    exact .cons hw hks
  | succ k ih =>
    have hlt : r<count ∧ r<0x10000 := by
      unfold named at hk
      omega
    have hrest := ih (r+1) (by omega) (by omega)
    rw [availableFrom_step (by omega),Nat.mod_eq_of_lt hlt.2]
    cases ha : available r with
    | true =>
      have hdone := answers_done count available r (by simp [seeking,ha])
      rw [if_neg (Nat.not_le_of_lt hlt.1)] at hdone
      exact .cons hdone hrest
    | false =>
      rw [if_neg Bool.false_ne_true]
      rcases hl : availableFrom count available (r+1)++w::ks with _ | ⟨a,as⟩
      · simp at hl
      · rw [hl] at hrest
        exact asks_seek (by simp [seeking,ha,hlt.1]) hrest

theorem mem_availableFrom {u : Nat} : u∈availableFrom count available 0 ↔ u<named count ∧ available u=true := by
  simp [availableFrom,mem_range']

theorem availableFrom_nodup : (availableFrom count available 0).Nodup :=
  (nodup_range' ..).filter _

theorem availableFrom_length (count : Nat) (available : Nat → Bool) : (availableFrom count available 0).length ≤ count := by
  have hle := length_filter_le available (List.range' 0 (named count-0))
  rw [length_range'] at hle
  unfold availableFrom named at *
  omega

theorem walked_of {as : List Nat} {w a : Nat} {ks : List Nat} (hw : Answers count available (named count%0x10000) w)
    (hks : Asks count available ((w+1)%0x10000) ks) (hin : ∀ u,available u → u<named count)
    (has : as=availableFrom count available 0++w::ks) (hlen : ks.length≤1)
    (hagain : ∃ front,as=front++[a] ∧ a∈front ∧ front.Nodup) : Walked count available as := by
  obtain ⟨front,hfront,ha,hnodup⟩ := hagain
  refine ⟨?_,?_,⟨front,a,hfront,ha,hnodup⟩,fun u hu => ?_⟩
  · rw [has]
    exact asks_from hw hks 0 (Nat.zero_le _)
  · have hl := availableFrom_length count available
    rw [has,length_append,length_cons]
    omega
  · rw [has,mem_append]
    exact .inl (mem_availableFrom.mpr ⟨hin u hu,hu⟩)

theorem walked_short (hcount : count<0x10000) (hin : ∀ u,available u → u<count) : ∃ as,Walked count available as := by
  have hnamed : named count=count := by
    unfold named
    omega
  have hend : Answers count available (named count%0x10000) 0 := by
    rw [hnamed,Nat.mod_eq_of_lt hcount]
    have hdone := answers_done count available count (by simp [seeking])
    rwa [if_pos (Nat.le_refl _)] at hdone
  have hin' : ∀ u,available u=true → u<named count := fun u hu => hnamed.symm ▸ hin u hu
  cases h0 : available 0 with
  | true =>
    refine ⟨_,walked_of hend (.nil _) hin' rfl (by simp) (a := 0) ⟨_,rfl,?_,availableFrom_nodup⟩⟩
    exact mem_availableFrom.mpr ⟨hin' 0 h0,h0⟩
  | false =>
    have hnew : 0∉availableFrom count available 0 := by
      rw [mem_availableFrom]
      simp [h0]
    have hfront : (availableFrom count available 0++[0]).Nodup := by
      rw [nodup_append]
      refine ⟨availableFrom_nodup,nodup_singleton 0,fun a ha b hb => ?_⟩
      obtain rfl := mem_singleton.mp hb
      exact fun h => hnew (h ▸ ha)
    by_cases hany : ∃ p,available p=true
    · -- The first unit answers for 1 as it did for 0.
      have hp := Nat.find_spec hany
      have hmin : ∀ w,w<Nat.find hany → available w=false := fun w hw => by
        simpa using Nat.find_min hany hw
      have hne : Nat.find hany≠0 := by
        intro hz
        rw [hz] at hp
        simp [h0] at hp
      have hone : Answers count available ((0+1)%0x10000) (Nat.find hany) :=
        answers_least (hin _ hp) ((hin _ hp).trans hcount) hp 1 (by omega) (fun w _ hw => hmin w hw)
      refine ⟨_,walked_of hend (.cons hone (.nil _)) hin' rfl (by simp) (a := Nat.find hany)
        ⟨availableFrom count available 0++[0],by simp,?_,hfront⟩⟩
      exact mem_append_left _ (mem_availableFrom.mpr ⟨hin' _ hp,hp⟩)
    · have hnone : ∀ u,available u=false := fun u => by simpa using not_exists.mp hany u
      have hone : Answers count available ((0+1)%0x10000) 0 := by
        by_cases hc : 1≤named count
        · exact answers_end hend 1 hc (fun u _ _ => hnone u)
        · have hdone := answers_done count available 1
            (by simp [seeking]; omega)
          rwa [if_pos (by omega)] at hdone
      refine ⟨_,walked_of hend (.cons hone (.nil _)) hin' rfl (by simp) (a := 0)
        ⟨availableFrom count available 0++[0],by simp,?_,hfront⟩⟩
      simp

theorem walked_long (hcount : 0x10000 ≤ count) (hany : ∃ p,available p)
    (hin : ∀ u,available u → u<0x10000) : ∃ as,Walked count available as := by
  have hnamed : named count=0x10000 := by
    unfold named
    omega
  have hp := Nat.find_spec hany
  have hmin : ∀ w,w<Nat.find hany → available w=false := fun w hw => by
    simpa using Nat.find_min hany hw
  have hend : Answers count available (named count%0x10000) (Nat.find hany) := by
    rw [hnamed]
    exact answers_least ((hin _ hp).trans_le hcount) (hin _ hp) hp 0 (Nat.zero_le _) (fun w _ hw => hmin w hw)
  have hin' : ∀ u,available u=true → u<named count := fun u hu => hnamed.symm ▸ hin u hu
  exact ⟨_,walked_of hend (.nil _) hin' rfl (by simp) (a := Nat.find hany)
    ⟨_,rfl,mem_availableFrom.mpr ⟨hin' _ hp,hp⟩,availableFrom_nodup⟩⟩

theorem seek_lt (u : Nat) : seek u<0x10000 := Nat.mod_lt _ (by decide)

theorem not_answers (hcount : 0x10000 ≤ count) (hno : ∀ u,u<0x10000 → available u=false) (a : Nat) :
    ¬Answers count available 0 a := by
  rintro ⟨fuel,v,hv,-⟩
  have hnone : ∀ u,u<0x10000 → runWhile (seeking count available) seek fuel u=none := by
    clear hv
    induction fuel with
    | zero =>
      intro u hu
      rw [runWhile,if_pos]
      simp [seeking,hno u hu]
      omega
    | succ fuel ih =>
      intro u hu
      rw [runWhile,if_pos]
      · exact ih _ (seek_lt u)
      · simp [seeking,hno u hu]
        omega
  rw [hnone 0 (by decide)] at hv
  cases hv

theorem answers_lt {u a : Nat} (hu : u<0x10000) (h : Answers count available u a) : a<0x10000 := by
  obtain ⟨fuel,v,hv,rfl⟩ := h
  have hlt : v<0x10000 := by
    induction fuel generalizing u with
    | zero =>
      rw [runWhile] at hv
      split_ifs at hv
      obtain rfl := some.inj hv
      exact hu
    | succ fuel ih =>
      rw [runWhile] at hv
      split_ifs at hv
      · exact ih (seek_lt u) hv
      · obtain rfl := some.inj hv
        exact hu
  split_ifs
  · decide
  · exact hlt

theorem asks_lt {u : Nat} {as : List Nat} (hu : u<0x10000) (h : Asks count available u as) : ∀ a∈as,a<0x10000 := by
  induction h with
  | nil u => simp
  | cons h hs ih =>
    intro b hb
    rcases mem_cons.mp hb with rfl | hb
    · exact answers_lt hu h
    · exact ih (Nat.mod_lt _ (by decide)) b hb

theorem walked_iff (hin : ∀ u,available u → u<count) : (∃ as,Walked count available as) ↔
      count<0x10000 ∨ (∃ u,available u) ∧ ∀ u,available u → u<0x10000 := by
  constructor
  · rintro ⟨as,hasks,-,⟨front,a,rfl,-,-⟩,hcomplete⟩
    by_cases hcount : count<0x10000
    · exact .inl hcount
    · right
      have hlt := asks_lt (by decide) hasks
      refine ⟨?_,fun u hu => hlt u (hcomplete u hu)⟩
      by_contra hnone
      have hno : ∀ u,u<0x10000 → available u=false := fun u _ => by
        simpa using not_exists.mp hnone u
      generalize hfront : front++[a]=as at hasks
      cases hasks with
      | nil => simp at hfront
      | cons h hs => exact not_answers (by omega) hno _ h
  · rintro (hcount | ⟨hany,h16⟩)
    · exact walked_short hcount hin
    · by_cases hcount : count<0x10000
      · exact walked_short hcount hin
      · exact walked_long (by omega) hany h16

end

namespace Disks
variable {blk : Nat}

def isAvailableUnit (s : Disks blk) (unitNumber : Nat) : Bool := (s.availableUnit unitNumber).isSome

theorem isAvailableUnit_lt {s : Disks blk} {u : Nat} (h : s.isAvailableUnit u) : u<s.units.length := by
  by_contra hge
  have hnone : s.units[u]? = none := List.getElem?_eq_none (Nat.le_of_not_lt hge)
  simp [isAvailableUnit,availableUnit,getDiskDrive,hnone] at h

theorem nextUnit_answers (s : Disks blk) (hcount : s.units.length<0x10000) (u : Nat) (hu : u<0x10000) :
    Answers s.units.length s.isAvailableUnit u (s.nextUnit u) := by
  unfold nextUnit
  by_cases hend : s.units.length≤u
  · have hdone := answers_done s.units.length s.isAvailableUnit u
      (by simp [seeking]; omega)
    rw [if_pos hend] at hdone
    rw [Nat.sub_eq_zero_of_le hend]
    exact hdone
  · obtain ⟨k,hk⟩ := Nat.le.dest (Nat.le_of_not_le hend)
    clear hend
    induction k generalizing u with
    | zero =>
      have hdone := answers_done s.units.length s.isAvailableUnit u
        (by simp [seeking]; omega)
      rw [if_pos (by omega)] at hdone
      rw [show s.units.length-u=0 by omega]
      exact hdone
    | succ k ih =>
      rw [show s.units.length-u=s.units.length-(u+1)+1 by omega,range'_succ,List.find?_cons]
      have hnext : seek u=u+1 := Nat.mod_eq_of_lt (by omega)
      cases ha : (s.availableUnit u).isSome with
      | true =>
        have hdone := answers_done s.units.length s.isAvailableUnit u
          (by simp [seeking,isAvailableUnit,ha])
        rwa [if_neg (by omega)] at hdone
      | false =>
        refine answers_seek (by simp [seeking,isAvailableUnit,ha]; omega) ?_
        rw [hnext]
        exact ih (u+1) (by omega) (by omega)

/-- A host that asks with Next Unit for unit 0, then for one past each answer, is given every available unit and a
number it had before, within two requests more than there are units, if and only if the units are fewer than 65536, or
some are available and those that are have numbers of 16 bits. -/
theorem unit_walk (s : Disks blk) : (∃ as,Walked s.units.length s.isAvailableUnit as) ↔ s.units.length<0x10000 ∨
      (∃ u,s.isAvailableUnit u) ∧ ∀ u,s.isAvailableUnit u → u<0x10000 :=
  walked_iff (fun _ => isAvailableUnit_lt)

def emptyUnits : Disks 4096 :=
  { single newUnit with
    units := replicate 0x10000 { newUnit with storage := ⟨none,false,(by simp)⟩ } }

theorem emptyUnits_unavailable (u : Nat) : emptyUnits.isAvailableUnit u=false := by
  unfold isAvailableUnit availableUnit getDiskDrive emptyUnits
  rw [List.getElem?_replicate]
  split_ifs
  · rfl
  · rfl

/-- The search for an available unit goes round for ever. -/
theorem unit_walk_stuck : ¬∀ s : Disks 4096,∃ as,Walked s.units.length s.isAvailableUnit as := by
  intro h
  obtain ⟨as,hasks,-,⟨front,a,rfl,-,-⟩,-⟩ := h emptyUnits
  have hcount : 0x10000≤emptyUnits.units.length := Nat.le_of_eq length_replicate.symm
  generalize hfront : front++[a]=as at hasks
  cases hasks with
  | nil => simp at hfront
  | cons h hs => exact not_answers hcount (fun u _ => emptyUnits_unavailable u) _ h

end Disks

end QUniLator.Mscp
