import QUniLator.Framework.Loop
import QUniLator.Framework.Splice
import QUniLator.Shared.Partition

namespace QUniLator.Shared

open List Option Function
open Nat (mod_lt succ_mul)

namespace Partition

variable (p : Partition)

section
variable (t : SectorTables)

def isInterleaved : Bool := 0<t.logSectorNrToPhy.length

def getPhysicalSectorNrsFromBlocks (startBlockNr blockCount : Nat) : List Nat :=
  (List.range (blockCount*p.sectorsPerBlock)).map fun i =>
    let logSectorNr := startBlockNr*p.sectorsPerBlock+i
    if t.logSectorNrToPhy.length=0 then logSectorNr else t.logSectorNrToPhy.getD logSectorNr 0

def getImagePositionFromPhysicalSectorNr (phySectorNr : Nat) : Nat :=
  p.imagePosition+phySectorNr*p.sectorSize

def getBlocks (image : Nat → UInt8) (startBlockNr blockCount : Nat) : List UInt8 :=
  if isInterleaved t then
    (p.getPhysicalSectorNrsFromBlocks t startBlockNr blockCount).flatMap fun phy =>
      slice image (p.getImagePositionFromPhysicalSectorNr phy) p.sectorSize
  else slice image (p.imagePosition+startBlockNr*p.blockSize) (blockCount*p.blockSize)

def setBlocks (image : Nat → UInt8) (buffer : List UInt8) (startBlockNr : Nat) : Nat → UInt8 :=
  if isInterleaved t then
    let phySectorNrs := p.getPhysicalSectorNrsFromBlocks t startBlockNr (buffer.length/p.blockSize)
    let n := p.sectorSize
    (List.range phySectorNrs.length).foldl (fun image i =>
      patch image (p.getImagePositionFromPhysicalSectorNr (phySectorNrs.getD i 0))
        ((buffer.drop (i*n)).take n)) image
  else patch image (p.imagePosition+startBlockNr*p.blockSize) buffer

def blockOf (phySectorNr : Nat) : Nat :=
  if t.phySectorNrToLog.length=0 then phySectorNr/p.sectorsPerBlock
  else t.phySectorNrToLog.getD phySectorNr 0/p.sectorsPerBlock

def onImageSectorWrite (changedPosition : Nat) (changedBlocks : Nat → Bool) : Nat → Bool :=
  if changedPosition<p.imagePosition ∨ changedPosition ≥ p.imagePosition+p.blockCount*p.blockSize then
    changedBlocks
  else update changedBlocks
    (p.blockOf t ((changedPosition-p.imagePosition)/p.sectorSize)) true

/-- The variables of the loop in `storageimage_shared_c::write` -/
structure MarkLoop where
  blknr : Nat
  changedBlocks : Nat → Bool

def marking (position len : Nat) (s : MarkLoop) : Bool :=
  s.blknr<(position+len)/p.sectorSize

/-- `blknr` has 32 bits. -/
def mark (s : MarkLoop) : MarkLoop :=
  ⟨(s.blknr+1)%2^32,p.onImageSectorWrite t (s.blknr*p.sectorSize%2^32) s.changedBlocks⟩

/-- `write` returns, with these flags. -/
def Marks (position len : Nat) (changed changed' : Nat → Bool) : Prop :=
  ∃ fuel blknr,runWhile (p.marking position len) (p.mark t) fuel
    ⟨position/p.sectorSize%2^32,changed⟩=some ⟨blknr,changed'⟩

end

end Partition

namespace Partition
variable {p : Partition}

/-- Where the sectors of the partition lie in the image, and which block a place belongs to -/
structure Lays (p : Partition) (t : SectorTables) (place : Nat → Nat) : Prop where
  phy : ∀ a<p.sectorCount,
    (if t.logSectorNrToPhy.length=0 then a else t.logSectorNrToPhy.getD a 0)=place a
  lt : ∀ a<p.sectorCount,place a<p.sectorCount
  inj : ∀ a b,a<p.sectorCount → b<p.sectorCount → place a=place b → a=b
  onto : ∀ b<p.sectorCount,∃ a<p.sectorCount,place a=b
  block : ∀ a<p.sectorCount,p.blockOf t (place a)=a/p.sectorsPerBlock

def place : Option p.Interleave → Nat → Nat
  | none => id
  | some l => l.place

theorem lays_plain : p.Lays ⟨[],[]⟩ id where
  phy _ _ := rfl
  lt _ h := h
  inj _ _ _ _ h := h
  onto b h := ⟨b,h,rfl⟩
  block _ _ := rfl

variable {t : SectorTables}

theorem Inverse.lays (h : p.Inverse t) (l : p.Interleave)
    (hp : ∀ a<p.sectorCount,t.logSectorNrToPhy[a]? = some (l.place a)) : p.Lays t l.place := by
  have hN := p.sectorCount_pos
  have hlog : ∀ a<p.sectorCount,l.place a<p.sectorCount ∧ t.phySectorNrToLog[l.place a]? = some a := by
    intro a ha
    obtain ⟨b,hb,hab,hba⟩ := h.log a ha
    obtain rfl := some.inj ((hp a ha).symm.trans hab)
    exact ⟨hb,hba⟩
  constructor
  case phy =>
    intro a ha
    rw [h.logs,if_neg (by omega),getD_eq_getElem?_getD,hp a ha,getD_some]
  case lt => exact fun a ha => (hlog a ha).1
  case inj =>
    intro a b ha hb hab
    have hb' := (hlog b hb).2
    rw [← hab,(hlog a ha).2] at hb'
    exact some.inj hb'
  case onto =>
    intro b hb
    obtain ⟨a,ha,-,hab⟩ := h.phy b hb
    exact ⟨a,ha,some.inj ((hp a ha).symm.trans hab)⟩
  case block =>
    intro a ha
    rw [blockOf,h.phys,if_neg (by omega),getD_eq_getElem?_getD,(hlog a ha).2,getD_some]

/-- Written blocks read back as what was written, and no other block and nothing outside the partition
changes. -/
def Keeps (p : Partition) (t : SectorTables) : Prop :=
  ∀ (image : Nat → UInt8) (start count : Nat) (buffer : List UInt8),start+count≤p.blockCount →
    buffer.length=count*p.blockSize →
      p.getBlocks t (p.setBlocks t image buffer start) start count=buffer ∧
      (∀ b<p.blockCount,¬(start≤b ∧ b<start+count) →
        p.getBlocks t (p.setBlocks t image buffer start) b 1=p.getBlocks t image b 1) ∧
      ∀ i,i<p.imagePosition ∨ p.imagePosition+p.size ≤ i → p.setBlocks t image buffer start i=image i

theorem keeps_plain : p.Keeps ⟨[],[]⟩ := by
  intro image start count buffer hs hb
  have hset : p.setBlocks ⟨[],[]⟩ image buffer start =
      patch image (p.imagePosition+start*p.blockSize) buffer := rfl
  have hmul : ∀ {a b},a≤b → a*p.blockSize≤b*p.blockSize := fun h => Nat.mul_le_mul_right _ h
  have hend := hmul hs
  rw [Nat.add_mul,← size_blocks] at hend
  rw [hset]
  refine ⟨?_,fun b hbc hout => ?_,fun i hi => patch_outside _ _ _ _ (by omega)⟩
  · show slice _ _ (count*p.blockSize)=buffer
    rw [← hb]
    exact slice_patch _ _ _
  · show slice _ (p.imagePosition+b*p.blockSize) (1*p.blockSize)=slice image _ _
    refine slice_patch_other _ _ _ _ _ ?_
    rw [hb,Nat.one_mul]
    rcases Nat.lt_or_ge b start with h | h
    · have := hmul (show b+1 ≤ start by omega)
      rw [succ_mul] at this
      omega
    · have := hmul (show start+count≤b by omega)
      rw [Nat.add_mul] at this
      omega

theorem Lays.sectors {place : Nat → Nat} (h : p.Lays t place) {start count : Nat}
    (hs : start+count≤p.blockCount) : p.getPhysicalSectorNrsFromBlocks t start count =
      (List.range (count*p.sectorsPerBlock)).map fun i => place (start*p.sectorsPerBlock+i) := by
  refine map_congr_left fun i hi => h.phy _ ?_
  have := Nat.mul_le_mul_right p.sectorsPerBlock hs
  rw [Nat.add_mul,← sectorCount_eq] at this
  have := mem_range.mp hi
  omega

theorem Lays.keeps {place : Nat → Nat} (h : p.Lays t place) (hi : isInterleaved t) : p.Keeps t := by
  intro image start count buffer hs hb
  have hk := p.sectorsPerBlock_pos
  have hin : ∀ {start count i : Nat},start+count≤p.blockCount → i<count*p.sectorsPerBlock →
      start*p.sectorsPerBlock+i<p.sectorCount := by
    intro start count i hs hi
    have := Nat.mul_le_mul_right p.sectorsPerBlock hs
    rw [Nat.add_mul,← sectorCount_eq] at this
    omega
  rw [blockSize_eq,← Nat.mul_assoc] at hb
  have hset : p.setBlocks t image buffer start=(List.range (count*p.sectorsPerBlock)).foldl (fun f i =>
      patch f (p.imagePosition+place (start*p.sectorsPerBlock+i)*p.sectorSize)
        ((buffer.drop (i*p.sectorSize)).take p.sectorSize)) image := by
    have hc : buffer.length/p.blockSize=count := by
      rw [hb,Nat.mul_assoc,← blockSize_eq,Nat.mul_div_cancel _ p.blockSize_pos]
    rw [setBlocks,if_pos hi,hc,h.sectors hs]
    simp only [length_map,length_range]
    refine foldl_ext _ _ _ fun f i hi => ?_
    have hi := mem_range.mp hi
    rw [getD_eq_getElem _ _ (by simpa using hi),getElem_map,getElem_range]
    rfl
  obtain ⟨hread,hout⟩ := scatter p.imagePosition p.sectorSize (fun i => place (start*p.sectorsPerBlock+i))
    (fun i => (buffer.drop (i*p.sectorSize)).take p.sectorSize) image
    (count*p.sectorsPerBlock)
    (fun i hi => by
      have := Nat.mul_le_mul_right p.sectorSize hi
      rw [succ_mul] at this
      rw [length_take,length_drop]
      omega)
    fun i j hi hj hij => Nat.add_left_cancel (h.inj _ _ (hin hs hi) (hin hs hj) hij)
  have hget : ∀ {image start count},start+count≤p.blockCount → p.getBlocks t image start count =
      (List.range (count*p.sectorsPerBlock)).flatMap fun i => slice image
        (p.imagePosition+place (start*p.sectorsPerBlock+i)*p.sectorSize)
        p.sectorSize := by
    intro image start count hs
    rw [getBlocks,if_pos hi,h.sectors hs,flatMap_map]
    rfl
  rw [hset]
  refine ⟨?_,fun b hbc hno => ?_,fun x hx => hout x fun i hi => ?_⟩
  · rw [hget hs,flatMap_congr fun i hi => hread i (mem_range.mp hi),flatMap_chunks,← hb,take_length]
  · rw [hget (by omega),hget (by omega)]
    refine flatMap_congr fun j hj => slice_congr _ _ _ _ fun x h1 h2 => hout x fun i hi hx => ?_
    have hj := mem_range.mp hj
    have hne : place (b*p.sectorsPerBlock+j)≠place (start*p.sectorsPerBlock+i) := by
      intro he
      have he := h.inj _ _ (hin (by omega) hj) (hin hs hi) he
      rcases Nat.lt_or_ge b start with hlt | hge
      · have := Nat.mul_le_mul_right p.sectorsPerBlock (show b+1 ≤ start by omega)
        rw [succ_mul] at this
        omega
      · have := Nat.mul_le_mul_right p.sectorsPerBlock (show start+count≤b by omega)
        rw [Nat.add_mul] at this
        omega
    have := apart_of_ne p.imagePosition p.sectorSize hne
    omega
  · have := Nat.mul_le_mul_right p.sectorSize (h.lt _ (hin hs hi))
    rw [succ_mul,← size_eq] at this
    omega

section
variable {t : SectorTables} {place : Nat → Nat} {position len : Nat}

def Written (p : Partition) (t : SectorTables) (position len b : Nat) : Prop :=
  ∃ i,position ≤ i ∧ i<position+len ∧ ∃ phy∈p.getPhysicalSectorNrsFromBlocks t b 1,
    p.getImagePositionFromPhysicalSectorNr phy ≤ i ∧
      i<p.getImagePositionFromPhysicalSectorNr phy+p.sectorSize

/-- Sector `s` of the image marks block `b`. -/
def Hits (p : Partition) (t : SectorTables) (s b : Nat) : Prop :=
  ¬(s*p.sectorSize%2^32<p.imagePosition ∨
      s*p.sectorSize%2^32 ≥ p.imagePosition+p.blockCount*p.blockSize) ∧
    p.blockOf t ((s*p.sectorSize%2^32-p.imagePosition)/p.sectorSize)=b

theorem onImageSectorWrite_true (s : Nat) (changed : Nat → Bool) (b : Nat) :
    p.onImageSectorWrite t (s*p.sectorSize%2^32) changed b=true ↔ changed b ∨ p.Hits t s b := by
  unfold onImageSectorWrite Hits
  split_ifs with h
  · exact ⟨.inl,fun hx => hx.resolve_right fun hh => hh.1 h⟩
  · by_cases hb : b=p.blockOf t
        ((s*p.sectorSize%2^32-p.imagePosition)/p.sectorSize)
    · rw [hb,update_self]
      exact ⟨fun _ => .inr ⟨h,rfl⟩,fun _ => rfl⟩
    · rw [update_of_ne hb]
      exact ⟨.inl,fun hx => hx.resolve_right fun hh => hb hh.2.symm⟩

/-- The loop comes to its bound, with the sectors before it marked. By induction on what is left. -/
theorem marks_leads (hend : (position+len)/p.sectorSize<2^32) (d : Nat) : ∀ (s : Nat)
    (changed : Nat → Bool),s+d=(position+len)/p.sectorSize → ∃ changed',
      Leads (p.marking position len) (p.mark t) ⟨s,changed⟩ ⟨s+d,changed'⟩ ∧
        ∀ b,changed' b ↔ changed b ∨ ∃ x,s≤x ∧ x<s+d ∧ p.Hits t x b := by
  induction d with
  | zero =>
    intro s changed _
    refine ⟨changed,.refl _,fun b => ⟨.inl,fun h => h.resolve_right ?_⟩⟩
    rintro ⟨x,h1,h2,-⟩
    omega
  | succ d ih =>
    intro s changed hs
    obtain ⟨changed',hl,hc⟩ := ih (s+1)
      (p.onImageSectorWrite t (s*p.sectorSize%2^32) changed) (by omega)
    have hstep : p.mark t ⟨s,changed⟩ =
        ⟨s+1,p.onImageSectorWrite t (s*p.sectorSize%2^32) changed⟩ := by
      rw [mark,Nat.mod_eq_of_lt (by dsimp only; omega)]
    have hone : Leads (p.marking position len) (p.mark t) ⟨s,changed⟩ (p.mark t ⟨s,changed⟩) :=
      Leads.one (by simp only [marking,decide_eq_true_eq]; omega)
    refine ⟨changed',?_,fun b => ?_⟩
    · rw [hstep] at hone
      rw [show s+(d+1)=s+1+d by omega]
      exact hone.trans hl
    · rw [hc b,onImageSectorWrite_true]
      constructor
      · rintro ((h | h) | ⟨x,h1,h2,h⟩)
        · exact .inl h
        · exact .inr ⟨s,by omega,by omega,h⟩
        · exact .inr ⟨x,by omega,by omega,h⟩
      · rintro (h | ⟨x,h1,h2,h⟩)
        · exact .inl (.inl h)
        · obtain rfl | hx := Nat.eq_or_lt_of_le h1
          · exact .inl (.inr h)
          · exact .inr ⟨x,hx,by omega,h⟩

theorem marks_endless (hend : 2^32≤(position+len)/p.sectorSize) (fuel : Nat) (s : MarkLoop)
    (hs : s.blknr<2^32) : runWhile (p.marking position len) (p.mark t) fuel s=none := by
  have hb : p.marking position len s=true := by simp only [marking,decide_eq_true_eq]; omega
  induction fuel generalizing s with
  | zero => rw [runWhile,if_pos hb]
  | succ fuel ih =>
    have hm : (p.mark t s).blknr<2^32 := mod_lt _ (Nat.two_pow_pos 32)
    rw [runWhile,if_pos hb]
    exact ih _ hm (by simp only [marking,decide_eq_true_eq]; omega)

theorem marks_spec (hend : (position+len)/p.sectorSize<2^32) (changed : Nat → Bool) :
    ∃ changed',p.Marks t position len changed changed' ∧ ∀ b,changed' b ↔ changed b ∨
      ∃ x,position/p.sectorSize≤x ∧ x<(position+len)/p.sectorSize ∧ p.Hits t x b := by
  have hle : position/p.sectorSize≤(position+len)/p.sectorSize :=
    Nat.div_le_div_right (Nat.le_add_right _ _)
  obtain ⟨final,hl,hc⟩ := marks_leads (p := p) (t := t) hend
    ((position+len)/p.sectorSize-position/p.sectorSize)
    (position/p.sectorSize) changed (by omega)
  rw [Nat.add_sub_cancel' hle] at hl hc
  obtain ⟨fuel,hf⟩ := hl.ends (by simp [marking])
  exact ⟨final,⟨fuel,_,by rw [Nat.mod_eq_of_lt (by omega)]; exact hf⟩,hc⟩

theorem marks_unique {changed final final' : Nat → Bool} (h : p.Marks t position len changed final)
    (h' : p.Marks t position len changed final') : (position+len)/p.sectorSize<2^32 ∧ final=final' := by
  obtain ⟨fuel,blknr,hf⟩ := h
  obtain ⟨fuel',blknr',hf'⟩ := h'
  refine ⟨Nat.lt_of_not_le fun hend => ?_,(MarkLoop.mk.inj (runWhile_unique hf hf')).2⟩
  rw [marks_endless hend fuel _ (mod_lt _ (Nat.two_pow_pos 32))] at hf
  cases hf

/-- The first byte of sector `a` of the partition -/
def start (p : Partition) (place : Nat → Nat) (a : Nat) : Nat :=
  p.imagePosition+place a*p.sectorSize

/-- The write ends below sector 2^32 of the image. If it ends inside a sector of the partition, the block of that
sector has its flag already or a sector that the write reaches and does not end in. -/
def WholeBlocks (p : Partition) (place : Nat → Nat) (changed : Nat → Bool) (position len : Nat) : Prop :=
  (position+len)/p.sectorSize<2^32 ∧ ∀ a<p.sectorCount,0<len →
    p.start place a<position+len → position+len<p.start place a+p.sectorSize →
      changed (a/p.sectorsPerBlock)=true ∨
        ∃ a'<p.sectorCount,a'/p.sectorsPerBlock=a/p.sectorsPerBlock ∧
          position<p.start place a'+p.sectorSize ∧
          p.start place a'+p.sectorSize≤position+len

namespace Lays
variable (h : p.Lays t place)
include h

theorem written_iff {b : Nat} (hb : b<p.blockCount) : p.Written t position len b ↔
    ∃ i,position ≤ i ∧ i<position+len ∧ ∃ a<p.sectorCount,a/p.sectorsPerBlock=b ∧
      p.start place a ≤ i ∧ i<p.start place a+p.sectorSize := by
  have hk := p.sectorsPerBlock_pos
  unfold Written
  rw [h.sectors (show b+1≤p.blockCount by omega)]
  constructor
  · rintro ⟨i,h1,h2,phy,hphy,h3,h4⟩
    obtain ⟨j,hj,rfl⟩ := List.mem_map.mp hphy
    have hj := mem_range.mp hj
    have hlt := Nat.mul_le_mul_right p.sectorsPerBlock hb
    rw [succ_mul,← sectorCount_eq] at hlt
    refine ⟨i,h1,h2,_,by omega,?_,h3,h4⟩
    rw [Nat.mul_comm,Nat.mul_add_div hk,Nat.div_eq_of_lt (by omega),Nat.add_zero]
  · rintro ⟨i,h1,h2,a,ha,rfl,h3,h4⟩
    refine ⟨i,h1,h2,place a,List.mem_map.mpr ⟨a%p.sectorsPerBlock,mem_range.mpr ?_,?_⟩,h3,h4⟩
    · rw [Nat.one_mul]
      exact mod_lt _ hk
    · rw [Nat.div_add_mod']

theorem start_lt {a : Nat} (ha : a<p.sectorCount) : p.start place a+p.sectorSize≤p.imagePosition+p.size := by
  have := Nat.mul_le_mul_right p.sectorSize (h.lt a ha)
  rw [succ_mul,← size_eq] at this
  unfold Partition.start
  omega

theorem hits_iff {s b : Nat} (hs : s*p.sectorSize<2^32) : p.Hits t s b ↔
    ∃ a<p.sectorCount,a/p.sectorsPerBlock=b ∧ p.start place a=s*p.sectorSize := by
  have hn : 0<p.sectorSize := p.sectorSize_pos
  unfold Hits
  rw [Nat.mod_eq_of_lt hs,← size_blocks,size_eq,imagePosition_eq,← Nat.add_mul,← Nat.sub_mul,Nat.mul_div_cancel _ hn]
  constructor
  · rintro ⟨hin,rfl⟩
    have h1 : p.firstSector ≤ s := by
      by_contra hx
      exact hin (.inl (Nat.mul_lt_mul_of_pos_right (by omega) hn))
    have h2 : s<p.firstSector+p.sectorCount := by
      by_contra hx
      exact hin (.inr (Nat.mul_le_mul_right _ (by omega)))
    obtain ⟨a,ha,he⟩ := h.onto (s-p.firstSector) (by omega)
    refine ⟨a,ha,by rw [← he,h.block a ha],?_⟩
    rw [Partition.start,imagePosition_eq,he,← Nat.add_mul,Nat.add_sub_cancel' h1]
  · rintro ⟨a,ha,rfl,he⟩
    rw [Partition.start,imagePosition_eq,← Nat.add_mul] at he
    have he := Nat.eq_of_mul_eq_mul_right hn he
    have hlt := h.lt a ha
    refine ⟨?_,by rw [← he,Nat.add_sub_cancel_left,h.block a ha]⟩
    have h1 := Nat.mul_le_mul_right p.sectorSize (show p.firstSector ≤ s by omega)
    have h2 := Nat.mul_lt_mul_of_pos_right (show s<p.firstSector+p.sectorCount by omega) hn
    omega

/-- The flags are complete after exactly the writes that end with a sector, or inside one that its block
does not need. -/
theorem flags_iff (changed : Nat → Bool) : (∃ changed',p.Marks t position len changed changed' ∧
      ∀ b<p.blockCount,p.Written t position len b → changed' b) ↔ p.WholeBlocks place changed position len := by
  have hn : 0<p.sectorSize := p.sectorSize_pos
  have hend := p.end_lt
  have hblock : ∀ {a},a<p.sectorCount → a/p.sectorsPerBlock<p.blockCount := fun ha =>
    (Nat.div_lt_iff_lt_mul p.sectorsPerBlock_pos).mpr (by rw [← sectorCount_eq]; exact ha)
  -- A sector between two multiples, as the loop counts them
  have hlow : ∀ s,position/p.sectorSize ≤ s ↔
      position<s*p.sectorSize+p.sectorSize := fun s => by
    rw [← succ_mul,← Nat.div_lt_iff_lt_mul hn,Nat.lt_succ_iff]
  have hhigh : ∀ s,s<(position+len)/p.sectorSize ↔
      s*p.sectorSize+p.sectorSize≤position+len := fun s => by
    rw [← succ_mul,← Nat.le_div_iff_mul_le hn,Nat.succ_le_iff]
  constructor
  · rintro ⟨changed',hm,hall⟩
    have hlt := (marks_unique hm hm).1
    obtain ⟨final,hf,hc⟩ := marks_spec (p := p) (t := t) hlt changed
    obtain rfl := (marks_unique hm hf).2
    refine ⟨hlt,fun a ha hlen h1 h2 => ?_⟩
    have hw : p.Written t position len (a/p.sectorsPerBlock) := (h.written_iff (hblock ha)).mpr
      ⟨position+len-1,by omega,by omega,a,ha,rfl,by omega,by omega⟩
    refine ((hc _).mp (hall _ (hblock ha) hw)).imp_right fun ⟨s,hs1,hs2,hit⟩ => ?_
    have hs1 := (hlow s).mp hs1
    have hs2 := (hhigh s).mp hs2
    have hin := h.start_lt ha
    obtain ⟨a',ha',hb,he⟩ := (h.hits_iff (by omega)).mp hit
    exact ⟨a',ha',hb,by omega,by omega⟩
  · rintro ⟨hlt,hlast⟩
    obtain ⟨final,hf,hc⟩ := marks_spec (p := p) (t := t) hlt changed
    refine ⟨final,hf,fun b hb hw => (hc b).mpr ?_⟩
    -- A sector that the range reaches and does not end in is marked.
    have hreach : ∀ a<p.sectorCount,position<p.start place a+p.sectorSize →
        p.start place a+p.sectorSize≤position+len →
        ∃ x,position/p.sectorSize≤x ∧ x<(position+len)/p.sectorSize ∧
          p.Hits t x (a/p.sectorsPerBlock) := by
      intro a ha h1 h2
      have hin := h.start_lt ha
      have hs : p.start place a=(p.firstSector+place a)*p.sectorSize := by
        rw [Partition.start,imagePosition_eq,Nat.add_mul]
      refine ⟨p.firstSector+place a,(hlow _).mpr (by omega),(hhigh _).mpr (by omega),
        (h.hits_iff (by omega)).mpr ⟨a,ha,rfl,hs⟩⟩
    obtain ⟨i,h1,h2,a,ha,rfl,h3,h4⟩ := (h.written_iff hb).mp hw
    rcases Nat.lt_or_ge (position+len) (p.start place a+p.sectorSize) with hx | hx
    · obtain hx | ⟨a',ha',he,h5,h6⟩ := hlast a ha (by omega) (by omega) hx
      · exact .inl hx
      · exact .inr (he ▸ hreach a' ha' h5 h6)
    · exact .inr (hreach a ha (by omega) hx)

end Lays

end

/-- The partition comes up with tables inverse to each other, its blocks are kept apart, and a write to the image
returns with the flags of all blocks it wrote to. -/
def Sound (layout : Option p.Interleave) (changed : Nat → Bool) (position len : Nat) : Prop :=
  ∃ t,p.init layout=some t ∧ (∀ l∈layout,buildInterleaveTable l=some t ∧ p.Inverse t) ∧ p.Keeps t ∧
    ∃ changed',p.Marks t position len changed changed' ∧
      ∀ b<p.blockCount,p.Written t position len b → changed' b=true

/-- All of it holds for exactly the layouts of whole tracks that are turned within 32 bits, and the writes
that end with a sector or inside one that its block does not need. -/
theorem interleave_sound (p : Partition) (layout : Option p.Interleave) (changed : Nat → Bool)
    (position len : Nat) : Sound layout changed position len ↔
      (∀ l∈layout,l.Fits) ∧ p.WholeBlocks (place layout) changed position len := by
  cases layout with
  | none =>
    constructor
    · rintro ⟨t,ht,-,-,hf⟩
      obtain rfl := some.inj ht
      exact ⟨fun l hl => (by cases hl),(lays_plain.flags_iff changed).mp hf⟩
    · rintro ⟨-,hw⟩
      exact ⟨_,rfl,fun l hl => by (cases hl),keeps_plain,(lays_plain.flags_iff changed).mpr hw⟩
  | some l =>
    have hlays : ∀ {t},buildInterleaveTable l=some t → p.Inverse t → l.Fits → p.Lays t l.place := by
      intro t ht hi hf
      obtain ⟨u,hu,he⟩ := l.build_whole hf.1
      obtain rfl := some.inj (ht.symm.trans hu)
      exact hi.lays l he.log
    constructor
    · rintro ⟨t,-,hb,-,hf⟩
      obtain ⟨ht,hi⟩ := hb l rfl
      have hfit := l.build_inverse.mp ⟨t,ht,hi⟩
      refine ⟨fun l' hl => ?_,((hlays ht hi hfit).flags_iff changed).mp hf⟩
      obtain rfl := some.inj hl
      exact hfit
    · rintro ⟨hfit,hw⟩
      have hfit := hfit l rfl
      obtain ⟨t,ht,hi⟩ := l.build_inverse.mpr hfit
      have hl := hlays ht hi hfit
      refine ⟨t,?_,fun l' hl' => ?_,hl.keeps ?_,(hl.flags_iff changed).mpr hw⟩
      · show (buildInterleaveTable l).map invert=some t
        rw [ht,map_some,hi.invert]
      · obtain rfl := some.inj hl'
        exact ⟨ht,hi⟩
      · rw [isInterleaved,hi.logs]
        exact decide_eq_true p.sectorCount_pos

def ra80 : Partition where
  geometry := ⟨0,0,0,512,237212⟩
  imagePosition := 0
  size := 237212*512
  blockSize := 512
  sectorSize_pos := by decide
  size_pos := by decide
  atSector := rfl
  fits := by decide
  wholeBlocks := rfl
  wholeSectors := rfl

/-- A hundred bytes at the start of block 0 leave its flag clear. -/
theorem write_unmarked : ¬Sound (p := ra80) none (fun _ => false) 0 100 := by
  rintro ⟨t,ht,-,-,hf⟩
  obtain rfl := some.inj ht
  obtain h | ⟨a,-,-,-,h⟩ := ((lays_plain.flags_iff _).mp hf).2 0 (by decide) (by decide) (by decide) (by decide)
  · cases h
  · have hn : ra80.sectorSize=512 := rfl
    omega

end Partition

end QUniLator.Shared
