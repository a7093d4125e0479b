import Mathlib.Data.Fintype.EquivFin
import Mathlib.Data.List.GetD
import QUniLator.Framework.Attempt
import QUniLator.Framework.Turn

/-! A partition of a disk image: the sectors of a track in another order, the blocks of a filesystem on them, and the
flags of the blocks that the drive changes. -/

namespace QUniLator.Shared

open Nat (div_add_mod dvd_of_mod_eq_zero mod_lt succ_mul)

open List Option

/-- `storagedrive_geometry_c` -/
structure Geometry where
  cylinderCount : Nat
  headCount : Nat
  sectorCount : Nat
  sectorSizeBytes : Nat
  mscpBlockCount : Nat

/-- A cylinder, a head in it, a sector of the track and a byte of the sector -/
structure Chs where
  cylinder : Nat
  head : Nat
  sector : Nat
  sectorOffset : Nat

namespace Geometry
variable (g : Geometry)

def getRawCapacity : Nat :=
  if 0<g.mscpBlockCount then g.mscpBlockCount*g.sectorSizeBytes%2^32
  else g.cylinderCount*g.headCount*g.sectorCount*g.sectorSizeBytes%2^32

def getTrackNr (cylinder head : Nat) : Nat := cylinder*g.headCount+head

def getChs (imageOffset : Nat) : Chs :=
  let imageSectorNr := imageOffset/g.sectorSizeBytes
  let imageTrackNr := imageSectorNr/g.sectorCount
  ⟨imageTrackNr/g.headCount,imageTrackNr%g.headCount,imageSectorNr%g.sectorCount,
    imageOffset%g.sectorSizeBytes⟩

end Geometry

/-- `storageimage_partition_c`, with what its constructor and `init` assert. All of it lies below the raw
capacity, so that no product of 32 bits in it wraps. -/
structure Partition where
  geometry : Geometry
  imagePosition : Nat
  size : Nat
  blockSize : Nat
  sectorSize_pos : 0<geometry.sectorSizeBytes
  size_pos : 0<size
  atSector : imagePosition%geometry.sectorSizeBytes=0
  fits : imagePosition+size≤geometry.getRawCapacity
  wholeBlocks : size%blockSize=0
  wholeSectors : blockSize%geometry.sectorSizeBytes=0

/-- The two tables. They are empty where the sectors have the order of the drive. -/
structure SectorTables where
  logSectorNrToPhy : List Nat
  phySectorNrToLog : List Nat

/-- `v.at(i) = x` -/
def putAt (v : List Nat) (i x : Nat) : Option (List Nat) := if i<v.length then some (v.set i x) else none

namespace Partition
variable (p : Partition)

abbrev sectorSize : Nat := p.geometry.sectorSizeBytes

abbrev sectorsPerTrack : Nat := p.geometry.sectorCount

def sectorCount : Nat := p.size/p.sectorSize

def blockCount : Nat := p.size/p.blockSize

def sectorsPerBlock : Nat := p.blockSize/p.sectorSize

/-- What `build_interleave_table` is given: the order of the sectors of a track, and by how much a track is turned
against the one before it. -/
structure Interleave where
  pattern : List Nat
  cylinderSkew : Nat
  headSkew : Nat
  permutes : pattern.Perm (List.range p.sectorsPerTrack)
  heads : 0<p.geometry.headCount
  sectors : 0<p.sectorsPerTrack
  atTrack : (p.geometry.getChs p.imagePosition).sector=0

/-- The variables of the loop over the tracks -/
structure TrackLoop where
  cylImage : Nat
  headImage : Nat
  trackSkew : Nat
  tables : SectorTables

section
variable {p} (l : p.Interleave)

def buildSector (trackNr trackSkew : Nat) (t : SectorTables) (i : Nat) : Option SectorTables := do
  let n := p.sectorsPerTrack
  let log := trackNr*n+i
  let phy := trackNr*n+(l.pattern.getD i 0+trackSkew)%2^32%n
  let toPhy ← putAt t.logSectorNrToPhy log phy
  let toLog ← putAt t.phySectorNrToLog phy log
  return ⟨toPhy,toLog⟩

def buildTrack (s : TrackLoop) : Option TrackLoop := do
  let first := p.geometry.getChs p.imagePosition
  let trackNr := (s.cylImage-first.cylinder)*p.geometry.headCount+s.headImage-first.head
  let tables ← (List.range p.sectorsPerTrack).foldlM (buildSector l trackNr s.trackSkew) s.tables
  let wraps := s.headImage+1 ≥ p.geometry.headCount
  let head := if wraps then 0 else s.headImage+1
  return ⟨if wraps then s.cylImage+1 else s.cylImage,head,
    (s.trackSkew+(if head=0 then l.cylinderSkew else l.headSkew))%2^32,tables⟩

def buildTracks (last : Nat) : Nat → TrackLoop → Option SectorTables
  | 0,s => if p.geometry.getTrackNr s.cylImage s.headImage≤last then none else some s.tables
  | fuel+1,s =>
    if p.geometry.getTrackNr s.cylImage s.headImage≤last then buildTrack l s >>= buildTracks last fuel
    else some s.tables

def buildInterleaveTable : Option SectorTables :=
  let g := p.geometry
  let first := g.getChs p.imagePosition
  let last := g.getChs (p.imagePosition+p.size-1)
  let lastTrack := g.getTrackNr last.cylinder last.head
  buildTracks l lastTrack (lastTrack+1)
    ⟨first.cylinder,first.head,0,⟨replicate p.sectorCount 0,replicate p.sectorCount 0⟩⟩

end

/-- The inverted table, as `init` ends with it -/
def invert (t : SectorTables) : SectorTables :=
  ⟨(List.range t.phySectorNrToLog.length).foldl
    (fun toPhy phy => toPhy.set (t.phySectorNrToLog.getD phy 0) phy) t.logSectorNrToPhy,t.phySectorNrToLog⟩

/-- The tables after `init`. Nothing is interleaved but RT-11 on a floppy. -/
def init : Option p.Interleave → Option SectorTables
  | none => some ⟨[],[]⟩
  | some l => (buildInterleaveTable l).map invert

end Partition

namespace Partition
variable {p : Partition}

theorem blockSize_pos : 0<p.blockSize :=
  Nat.pos_of_ne_zero fun h => by
    have hs := p.size_pos
    have hw := p.wholeBlocks
    rw [h,Nat.mod_zero] at hw
    omega

theorem blockSize_eq : p.blockSize=p.sectorsPerBlock*p.sectorSize :=
  (Nat.div_mul_cancel (dvd_of_mod_eq_zero p.wholeSectors)).symm

theorem size_blocks : p.size=p.blockCount*p.blockSize :=
  (Nat.div_mul_cancel (dvd_of_mod_eq_zero p.wholeBlocks)).symm

theorem sectorCount_eq : p.sectorCount=p.blockCount*p.sectorsPerBlock := by
  rw [sectorCount,size_blocks,blockSize_eq,← Nat.mul_assoc,Nat.mul_div_cancel _ p.sectorSize_pos]

theorem size_eq : p.size=p.sectorCount*p.sectorSize := by
  rw [sectorCount_eq,Nat.mul_assoc,← blockSize_eq,← size_blocks]

theorem sectorsPerBlock_pos : 0<p.sectorsPerBlock :=
  Nat.pos_of_ne_zero fun h => by
    have := p.blockSize_pos
    rw [blockSize_eq,h] at this
    omega

theorem sectorCount_pos : 0<p.sectorCount :=
  Nat.pos_of_ne_zero fun h => by
    have := p.size_pos
    rw [size_eq,h] at this
    omega

def firstSector (p : Partition) : Nat := p.imagePosition/p.sectorSize

theorem imagePosition_eq : p.imagePosition=p.firstSector*p.sectorSize :=
  (Nat.div_mul_cancel (dvd_of_mod_eq_zero p.atSector)).symm

theorem end_lt : p.imagePosition+p.size<2^32 := by
  refine Nat.lt_of_le_of_lt p.fits ?_
  unfold Geometry.getRawCapacity
  split_ifs <;> omega

namespace Interleave
variable (l : p.Interleave)

def firstTrack (_ : p.Interleave) : Nat := p.firstSector/p.sectorsPerTrack

/-- By how much track `k` of the partition is turned -/
def trackSkew : Nat → Nat
  | 0 => 0
  | k+1 => (trackSkew k+ (if (l.firstTrack+(k+1))%p.geometry.headCount=0 then l.cylinderSkew else l.headSkew))%2^32

/-- The place of a sector of the partition: in its own track, at its turned place in the pattern. -/
def place (a : Nat) : Nat :=
  a/p.sectorsPerTrack*p.sectorsPerTrack+
    (l.pattern.getD (a%p.sectorsPerTrack) 0+l.trackSkew (a/p.sectorsPerTrack))%2^32%
      p.sectorsPerTrack

theorem trackSkew_lt (k : Nat) : l.trackSkew k<2^32 := by
  cases k with
  | zero => exact Nat.two_pow_pos 32
  | succ k => exact mod_lt _ (Nat.two_pow_pos 32)

theorem place_div (a : Nat) : l.place a/p.sectorsPerTrack=a/p.sectorsPerTrack := by
  rw [place,Nat.add_comm,Nat.add_mul_div_right _ _ l.sectors,Nat.div_eq_of_lt (mod_lt _ l.sectors),Nat.zero_add]

def Whole (_ : p.Interleave) : Prop := p.sectorCount%p.sectorsPerTrack=0

def Apart : Prop := ∀ a b,a<p.sectorCount → b<p.sectorCount → l.place a=l.place b → a=b

theorem place_lt (hw : l.Whole) {a : Nat} (ha : a<p.sectorCount) : l.place a<p.sectorCount := by
  obtain ⟨m,hm⟩ := dvd_of_mod_eq_zero hw
  rw [hm,Nat.mul_comm] at ha ⊢
  rw [← Nat.div_lt_iff_lt_mul l.sectors] at ha ⊢
  rwa [place_div]

theorem pattern_getD {i : Nat} (hi : i<p.sectorsPerTrack) : l.pattern.getD i 0<p.sectorsPerTrack := by
  have hl : l.pattern.length=p.sectorsPerTrack := by simpa using l.permutes.length_eq
  have hm : l.pattern.getD i 0∈l.pattern := by
    rw [getD_eq_getElem _ _ (by omega)]
    exact getElem_mem _
  exact mem_range.mp (l.permutes.mem_iff.mp hm)

theorem pattern_inj {i j : Nat} (hi : i<p.sectorsPerTrack) (hj : j<p.sectorsPerTrack)
    (h : l.pattern.getD i 0=l.pattern.getD j 0) : i=j := by
  have hl : l.pattern.length=p.sectorsPerTrack := by simpa using l.permutes.length_eq
  rw [getD_eq_getElem _ _ (by omega),getD_eq_getElem _ _ (by omega)] at h
  exact (l.permutes.nodup_iff.mpr nodup_range).getElem_inj_iff.mp h

theorem pattern_onto {x : Nat} (hx : x<p.sectorsPerTrack) : ∃ i<p.sectorsPerTrack,l.pattern.getD i 0=x := by
  have hl : l.pattern.length=p.sectorsPerTrack := by simpa using l.permutes.length_eq
  obtain ⟨i,hi,he⟩ := getElem_of_mem (l.permutes.mem_iff.mpr (mem_range.mpr hx))
  exact ⟨i,by omega,by rw [getD_eq_getElem _ _ hi,he]⟩

def Fits : Prop :=
  l.Whole ∧ ∀ k<p.sectorCount/p.sectorsPerTrack,Turns p.sectorsPerTrack (l.trackSkew k)

theorem place_inj (hw : l.Whole) : l.Apart ↔
      ∀ k<p.sectorCount/p.sectorsPerTrack,Turns p.sectorsPerTrack (l.trackSkew k) := by
  have hn := l.sectors
  constructor
  · intro h k hk
    refine turns_of_inj (l.trackSkew_lt k) fun x y hx hy hxy => ?_
    obtain ⟨i,hi,rfl⟩ := l.pattern_onto hx
    obtain ⟨j,hj,rfl⟩ := l.pattern_onto hy
    have hlt : ∀ i<p.sectorsPerTrack,k*p.sectorsPerTrack+i<p.sectorCount := by
      intro i hi
      have := Nat.mul_le_mul_right p.sectorsPerTrack hk
      have := Nat.div_mul_le_self p.sectorCount p.sectorsPerTrack
      have := succ_mul k p.sectorsPerTrack
      omega
    have hplace : ∀ i<p.sectorsPerTrack,l.place (k*p.sectorsPerTrack+i) =
        k*p.sectorsPerTrack+(l.pattern.getD i 0+l.trackSkew k)%2^32%p.sectorsPerTrack := by
      intro i hi
      have hd : (k*p.sectorsPerTrack+i)/p.sectorsPerTrack=k := by
        rw [Nat.add_comm,Nat.add_mul_div_right _ _ hn,Nat.div_eq_of_lt hi,Nat.zero_add]
      have hm : (k*p.sectorsPerTrack+i)%p.sectorsPerTrack=i := by
        rw [Nat.add_comm,Nat.add_mul_mod_self_right,Nat.mod_eq_of_lt hi]
      rw [place,hd,hm]
    have he := h _ _ (hlt i hi) (hlt j hj) (by rw [hplace i hi,hplace j hj,hxy])
    rw [Nat.add_left_cancel he]
  · intro h a b ha hb hab
    have hd : a/p.sectorsPerTrack=b/p.sectorsPerTrack := by
      rw [← l.place_div,hab,l.place_div]
    have hk : b/p.sectorsPerTrack<p.sectorCount/p.sectorsPerTrack := by
      rw [Nat.div_lt_iff_lt_mul hn,Nat.div_mul_cancel (dvd_of_mod_eq_zero hw)]
      exact hb
    unfold place at hab
    rw [hd] at hab
    have hi := l.pattern_inj (mod_lt a hn) (mod_lt b hn) (turned_inj (h _ hk)
      (l.pattern_getD (mod_lt a hn)) (l.pattern_getD (mod_lt b hn)) (Nat.add_left_cancel hab))
    rw [← div_add_mod a p.sectorsPerTrack,← div_add_mod b p.sectorsPerTrack,hd,hi]

def enter (t : SectorTables) (a : Nat) : Option SectorTables := do
  let toPhy ← putAt t.logSectorNrToPhy a (l.place a)
  let toLog ← putAt t.phySectorNrToLog (l.place a) a
  return ⟨toPhy,toLog⟩

/-- The loop before track `k` -/
def before (k : Nat) (t : SectorTables) : TrackLoop :=
  ⟨(l.firstTrack+k)/p.geometry.headCount,(l.firstTrack+k)%p.geometry.headCount,l.trackSkew k,t⟩

theorem buildSector_eq (k : Nat) (t : SectorTables) {i : Nat} (hi : i<p.sectorsPerTrack) :
    buildSector l k (l.trackSkew k) t i=l.enter t (k*p.sectorsPerTrack+i) := by
  have hd : (k*p.sectorsPerTrack+i)/p.sectorsPerTrack=k := by
    rw [Nat.add_comm,Nat.add_mul_div_right _ _ l.sectors,Nat.div_eq_of_lt hi,Nat.zero_add]
  have hm : (k*p.sectorsPerTrack+i)%p.sectorsPerTrack=i := by
    rw [Nat.add_comm,Nat.add_mul_mod_self_right,Nat.mod_eq_of_lt hi]
  unfold buildSector enter place
  rw [hd,hm]

theorem foldlM_track (k : Nat) (t : SectorTables) :
    (List.range p.sectorsPerTrack).foldlM (buildSector l k (l.trackSkew k)) t =
      (List.range' (k*p.sectorsPerTrack) p.sectorsPerTrack).foldlM l.enter t := by
  rw [range'_eq_map_range,foldlM_map]
  exact foldlM_congr t fun u i hi => l.buildSector_eq k u (mem_range.mp hi)

theorem buildTrack_eq (k : Nat) (t : SectorTables) : buildTrack l (l.before k t) =
      (List.range' (k*p.sectorsPerTrack) p.sectorsPerTrack).foldlM l.enter t >>=
        fun t => some (l.before (k+1) t) := by
  have hh := l.heads
  have hA := div_add_mod (l.firstTrack+k) p.geometry.headCount
  have hB := div_add_mod l.firstTrack p.geometry.headCount
  have hle : p.geometry.headCount*(l.firstTrack/p.geometry.headCount) ≤
      p.geometry.headCount*((l.firstTrack+k)/p.geometry.headCount) :=
    Nat.mul_le_mul_left _ (Nat.div_le_div_right (Nat.le_add_right _ _))
  have hnr : ((l.firstTrack+k)/p.geometry.headCount-l.firstTrack/p.geometry.headCount)*
      p.geometry.headCount+(l.firstTrack+k)%p.geometry.headCount-l.firstTrack%p.geometry.headCount=k := by
    rw [Nat.mul_comm,Nat.mul_sub]
    omega
  have hnext : (l.firstTrack+(k+1))/p.geometry.headCount =
        (if (l.firstTrack+k)%p.geometry.headCount+1 ≥ p.geometry.headCount then
          (l.firstTrack+k)/p.geometry.headCount+1 else (l.firstTrack+k)/p.geometry.headCount) ∧
      (l.firstTrack+(k+1))%p.geometry.headCount =
        if (l.firstTrack+k)%p.geometry.headCount+1 ≥ p.geometry.headCount then 0
        else (l.firstTrack+k)%p.geometry.headCount+1 := by
    have hlt := mod_lt (l.firstTrack+k) hh
    have hms := Nat.mul_succ p.geometry.headCount ((l.firstTrack+k)/p.geometry.headCount)
    refine (Nat.div_mod_unique hh).mpr ?_
    split_ifs with hw
    · exact ⟨by rw [hms]; omega,hh⟩
    · exact ⟨by omega,by omega⟩
  unfold buildTrack before
  dsimp only
  have hfirst : (p.geometry.getChs p.imagePosition).cylinder=l.firstTrack/p.geometry.headCount := rfl
  have hhead : (p.geometry.getChs p.imagePosition).head=l.firstTrack%p.geometry.headCount := rfl
  rw [hfirst,hhead,hnr,foldlM_track]
  congr 1
  funext u
  rw [← hnext.2,← hnext.1]
  rfl

end Interleave

/-- The tables are inverse to each other on the sectors of the partition. -/
structure Inverse (p : Partition) (t : SectorTables) : Prop where
  logs : t.logSectorNrToPhy.length=p.sectorCount
  phys : t.phySectorNrToLog.length=p.sectorCount
  log : ∀ a<p.sectorCount,∃ b<p.sectorCount,
    t.logSectorNrToPhy[a]? = some b ∧ t.phySectorNrToLog[b]? = some a
  phy : ∀ b<p.sectorCount,∃ a<p.sectorCount,
    t.phySectorNrToLog[b]? = some a ∧ t.logSectorNrToPhy[a]? = some b

namespace Interleave
variable (l : p.Interleave)

theorem buildTracks_eq (d : Nat) : ∀ (k fuel last : Nat) (t : SectorTables),d≤fuel →
    l.firstTrack+k+d=last+1 → buildTracks l last fuel (l.before k t) =
      (List.range' (k*p.sectorsPerTrack) (d*p.sectorsPerTrack)).foldlM l.enter t := by
  have hnr : ∀ k t,p.geometry.getTrackNr (l.before k t).cylImage (l.before k t).headImage=l.firstTrack+k := by
    intro k t
    exact Nat.div_add_mod' _ _
  induction d with
  | zero =>
    intro k fuel last t _ hl
    rw [Nat.zero_mul]
    cases fuel <;> rw [buildTracks,hnr,if_neg (by omega)] <;> rfl
  | succ d ih =>
    intro k fuel last t hf hl
    obtain ⟨fuel,rfl⟩ := Nat.exists_eq_succ_of_ne_zero (show fuel≠0 by omega)
    rw [buildTracks,hnr,if_pos (by omega),buildTrack_eq,succ_mul,Nat.add_comm (d*_),
      ← range'_append_1,foldlM_append,← succ_mul]
    simp only [bind_eq_bind,bind_some,bind_assoc]
    congr 1
    funext u
    exact ih (k+1) fuel last u (by omega) (by omega)

def cleared (_ : p.Interleave) : SectorTables :=
  ⟨replicate p.sectorCount 0,replicate p.sectorCount 0⟩

theorem buildInterleaveTable_eq : buildInterleaveTable l =
    (List.range (((p.sectorCount-1)/p.sectorsPerTrack+1)*p.sectorsPerTrack)).foldlM l.enter l.cleared := by
  have hs : 0<p.sectorSize := p.sectorSize_pos
  have hN := p.sectorCount_pos
  have hfirst : p.firstSector=l.firstTrack*p.sectorsPerTrack :=
    (Nat.div_mul_cancel (dvd_of_mod_eq_zero l.atTrack)).symm
  have hlast : (p.imagePosition+p.size-1)/p.sectorSize/p.sectorsPerTrack =
      l.firstTrack+(p.sectorCount-1)/p.sectorsPerTrack := by
    have hsec : (p.imagePosition+p.size-1)/p.sectorSize=p.firstSector+(p.sectorCount-1) := by
      refine (Nat.div_eq_iff hs).mpr ?_
      rw [imagePosition_eq,size_eq,← Nat.add_mul]
      have hm : p.firstSector+p.sectorCount=p.firstSector+(p.sectorCount-1)+1 := by omega
      rw [hm,succ_mul]
      omega
    rw [hsec,hfirst,Nat.mul_comm,Nat.mul_add_div l.sectors]
  have hnr : p.geometry.getTrackNr (p.geometry.getChs (p.imagePosition+p.size-1)).cylinder
      (p.geometry.getChs (p.imagePosition+p.size-1)).head=l.firstTrack+(p.sectorCount-1)/p.sectorsPerTrack :=
    (Nat.div_add_mod' _ _).trans hlast
  have hb := l.buildTracks_eq ((p.sectorCount-1)/p.sectorsPerTrack+1) 0
    (l.firstTrack+(p.sectorCount-1)/p.sectorsPerTrack+1) _ l.cleared (by omega) rfl
  rw [Nat.zero_mul,← range_eq_range'] at hb
  unfold buildInterleaveTable
  dsimp only
  rw [hnr]
  exact hb

/-- What the tables say after the first `m` sectors. Where several lie in one place, the last counts. -/
structure Entered (m : Nat) (t : SectorTables) : Prop where
  logs : t.logSectorNrToPhy.length=p.sectorCount
  phys : t.phySectorNrToLog.length=p.sectorCount
  log : ∀ a < m,t.logSectorNrToPhy[a]? = some (l.place a)
  phy : ∀ a < m,(∀ b,a<b → b < m → l.place b≠l.place a) → t.phySectorNrToLog[l.place a]? = some a

theorem enter_lt {a : Nat} {t : SectorTables} (h : t.logSectorNrToPhy.length=p.sectorCount)
    (hp : t.phySectorNrToLog.length=p.sectorCount) (ha : a<p.sectorCount) (hl : l.place a<p.sectorCount) :
    l.enter t a=some ⟨t.logSectorNrToPhy.set a (l.place a),t.phySectorNrToLog.set (l.place a) a⟩ := by
  simp [enter,putAt,h,hp,ha,hl]

theorem Entered.fold (hw : l.Whole) (m : Nat) (hm : m≤p.sectorCount) :
    ∃ t,(List.range m).foldlM l.enter l.cleared=some t ∧ l.Entered m t := by
  induction m with
  | zero =>
    refine ⟨l.cleared,rfl,length_replicate,length_replicate,?_,?_⟩
    all_goals
      intro a ha
      omega
  | succ m ih =>
    obtain ⟨t,ht,he⟩ := ih (by omega)
    have hl := l.place_lt hw (show m<p.sectorCount by omega)
    rw [range_succ,foldlM_append,ht]
    refine ⟨_,(bind_pure (l.enter t m)).trans (l.enter_lt he.logs he.phys (by omega) hl),(length_set ..).trans he.logs,
      (length_set ..).trans he.phys,?_,?_⟩
    · intro a ha
      obtain ha | rfl := Nat.lt_succ_iff_lt_or_eq.mp ha
      · rw [List.getElem?_set_ne (by omega)]
        exact he.log a ha
      · exact List.getElem?_set_self (by rw [he.logs]; omega)
    · intro a ha hlast
      obtain ha | rfl := Nat.lt_succ_iff_lt_or_eq.mp ha
      · rw [List.getElem?_set_ne (hlast m ha (by omega))]
        exact he.phy a ha fun b hb hbm => hlast b hb (by omega)
      · exact List.getElem?_set_self (by rw [he.phys]; exact hl)

theorem enter_past (as : List Nat) (t : SectorTables) (h : t.logSectorNrToPhy.length=p.sectorCount)
    (ha : ∃ a∈as,p.sectorCount≤a) : as.foldlM l.enter t=none := by
  induction as generalizing t with
  | nil => simp at ha
  | cons b as ih =>
    rw [foldlM_cons]
    by_cases hb : b<p.sectorCount
    · by_cases hl : l.place b<t.phySectorNrToLog.length
      · have he : l.enter t b=some ⟨t.logSectorNrToPhy.set b (l.place b),t.phySectorNrToLog.set (l.place b) b⟩ := by
          simp [enter,putAt,h,hb,hl]
        rw [he]
        refine ih _ ((length_set ..).trans h) ?_
        obtain ⟨a,ha,hle⟩ := ha
        obtain rfl | ha := mem_cons.mp ha
        · omega
        · exact ⟨a,ha,hle⟩
      · simp [enter,putAt,hl]
    · simp [enter,putAt,h,hb]

theorem build_ragged (h : ¬l.Whole) : buildInterleaveTable l=none := by
  rw [buildInterleaveTable_eq]
  refine l.enter_past _ _ length_replicate ⟨p.sectorCount,mem_range.mpr ?_,Nat.le_refl _⟩
  have hd := div_add_mod (p.sectorCount-1) p.sectorsPerTrack
  have hlt := mod_lt (p.sectorCount-1) l.sectors
  rw [succ_mul,Nat.mul_comm]
  rcases Nat.lt_or_ge ((p.sectorCount-1)%p.sectorsPerTrack+1) p.sectorsPerTrack with hx | hx
  · have := p.sectorCount_pos
    omega
  · refine absurd (Nat.mod_eq_zero_of_dvd ⟨(p.sectorCount-1)/p.sectorsPerTrack+1,?_⟩) h
    have := p.sectorCount_pos
    rw [Nat.mul_succ]
    omega

theorem build_whole (h : l.Whole) : ∃ t,buildInterleaveTable l=some t ∧ l.Entered p.sectorCount t := by
  rw [buildInterleaveTable_eq]
  obtain ⟨m,hm⟩ := dvd_of_mod_eq_zero h
  have hN := p.sectorCount_pos
  have hcount : ((p.sectorCount-1)/p.sectorsPerTrack+1)*p.sectorsPerTrack=p.sectorCount := by
    have hn := l.sectors
    have hm0 : 0 < m := Nat.pos_of_ne_zero fun hx => by rw [hm,hx,Nat.mul_zero] at hN; omega
    have hd : (p.sectorCount-1)/p.sectorsPerTrack=m-1 := by
      refine (Nat.div_eq_iff hn).mpr ?_
      have hs : (m-1)*p.sectorsPerTrack+p.sectorsPerTrack=p.sectorCount := by
        rw [← succ_mul,show (m-1).succ=m by omega,hm,Nat.mul_comm]
      omega
    rw [hd,show m-1+1=m by omega,Nat.mul_comm,← hm]
  rw [hcount]
  exact Entered.fold l h p.sectorCount (Nat.le_refl _)

theorem place_onto (hw : l.Whole) (hinj : l.Apart) {b : Nat}
    (hb : b<p.sectorCount) : ∃ a<p.sectorCount,l.place a=b := by
  have hf : Function.Injective fun a : Fin p.sectorCount =>
      (⟨l.place a,l.place_lt hw a.isLt⟩ : Fin p.sectorCount) :=
    fun a b h => Fin.ext (hinj a b a.isLt b.isLt (Fin.mk.inj h))
  obtain ⟨a,ha⟩ := Finite.surjective_of_injective hf ⟨b,hb⟩
  exact ⟨a,a.isLt,Fin.mk.inj ha⟩

theorem build_inverse : (∃ t,buildInterleaveTable l=some t ∧ p.Inverse t) ↔ l.Fits := by
  constructor
  · rintro ⟨t,ht,hi⟩
    by_cases hw : l.Whole
    · refine ⟨hw,(l.place_inj hw).mp fun a b ha hb hab => ?_⟩
      obtain ⟨u,hu,he⟩ := l.build_whole hw
      obtain rfl := some.inj (ht.symm.trans hu)
      obtain ⟨x,-,hx,hxa⟩ := hi.log a ha
      obtain ⟨y,-,hy,hyb⟩ := hi.log b hb
      rw [he.log a ha] at hx
      rw [he.log b hb,← hab,hx] at hy
      obtain rfl := some.inj hy
      exact some.inj (hxa.symm.trans hyb)
    · rw [l.build_ragged hw] at ht
      cases ht
  · rintro ⟨hw,hk⟩
    have hinj := (l.place_inj hw).mpr hk
    obtain ⟨t,ht,he⟩ := l.build_whole hw
    have hphy : ∀ a<p.sectorCount,t.phySectorNrToLog[l.place a]? = some a := fun a ha =>
      he.phy a ha fun b hab hb hx => by
        have := hinj b a hb ha hx
        omega
    refine ⟨t,ht,he.logs,he.phys,fun a ha => ⟨l.place a,l.place_lt hw ha,he.log a ha,hphy a ha⟩,fun b hb => ?_⟩
    obtain ⟨a,ha,rfl⟩ := l.place_onto hw hinj hb
    exact ⟨a,ha,hphy a ha,he.log a ha⟩

end Interleave

theorem Inverse.invert {t : SectorTables} (h : p.Inverse t) : invert t=t := by
  have hfix : ∀ bs : List Nat,(∀ b∈bs,b<p.sectorCount) → bs.foldl
      (fun toPhy phy => toPhy.set (t.phySectorNrToLog.getD phy 0) phy) t.logSectorNrToPhy=t.logSectorNrToPhy := by
    intro bs hbs
    induction bs with
    | nil => rfl
    | cons b bs ih =>
      obtain ⟨a,-,hl,hp⟩ := h.phy b (hbs b mem_cons_self)
      have hset : t.logSectorNrToPhy.set (t.phySectorNrToLog.getD b 0) b=t.logSectorNrToPhy := by
        rw [getD_eq_getElem?_getD,hl,getD_some]
        obtain ⟨ha,hb⟩ := List.getElem?_eq_some_iff.mp hp
        rw [← hb]
        exact set_getElem_self ha
      rw [foldl_cons,hset]
      exact ih fun c hc => hbs c (mem_cons_of_mem b hc)
  unfold Partition.invert
  rw [hfix _ fun b hb => by rw [← h.phys]; exact mem_range.mp hb]

end Partition

end QUniLator.Shared
