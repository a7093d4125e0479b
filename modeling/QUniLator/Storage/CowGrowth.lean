import QUniLator.Storage.CowLifecycle
import QUniLator.Storage.StorageImage

/-!
A copy-on-write image beside a plain one: how long the writes make either, and what a copy of it holds.
-/

namespace QUniLator

open List Option File

namespace Binfile

def ofFile (f : File) : Binfile := ⟨f,true,false,false⟩

/-- `save_to_file`: what the copy holds -/
def saveToFile (b : Binfile) : File := b.f

def size (b : Binfile) : Nat := if b.isOpen then b.f.size else 0

end Binfile

namespace Cow.Image
variable {blk : Nat}

/-- `save_to_file`: the blocks one after the other, then the exact length -/
def saveToFile (s : Image blk) : File :=
  ((List.range s.blockCount).foldl (fun f b => f.pwrite (s.cowReadBlock b) (b*blockSize)) File.empty).ftruncate
    s.imageSizeBytes

def size (s : Image blk) : Nat := s.imageSizeBytes

theorem copied_byte (s : Image blk) (n i : Nat) :
    ((List.range n).foldl (fun f b => f.pwrite (s.cowReadBlock b) (b*blockSize)) empty).byte i =
      if i<n*blockSize then s.view i else 0 := by
  induction n with
  | zero => simp [empty]
  | succ n ih =>
    rw [range_succ,foldl_append,foldl_cons,foldl_nil,pwrite_byte]
    have hl : (s.cowReadBlock n).length=blockSize := cowReadBlock_length s n
    by_cases hi : n*blockSize ≤ i ∧ i<n*blockSize+(s.cowReadBlock n).length
    · apply some.inj
      rw [patch_inside _ _ _ _ hi.1 hi.2,cowReadBlock_eq,if_pos (by rw [Nat.succ_mul]; omega)]
      rw [slice_getElem? _ _ _ _ (by omega)]
      congr 2
      omega
    · rw [patch_outside _ _ _ _ hi,ih]
      rw [hl] at hi
      by_cases hlt : i<n*blockSize
      · rw [if_pos hlt,if_pos (by rw [Nat.succ_mul]; omega)]
      · rw [if_neg hlt,if_neg (by rw [Nat.succ_mul]; omega)]

theorem fromBase_size (base : File) : (fromBase blk base).size=base.size := by
  obtain ⟨-,h2,h3,h4⟩ := openSized_sizes (⟨base,.empty,none⟩ : Files blk)
  obtain ⟨k1,k2,-,-,k5⟩ := openSized_files (⟨base,.empty,none⟩ : Files blk)
  have hl : (openSized (⟨base,.empty,none⟩ : Files blk)).loadBitmapSidecar=none := by
    simp [loadBitmapSidecar,k2]
  have hr := rebuild_spec h3 h4 (k5.trans h2.symm) (by rw [k1,h2]; exact le_max_left _ _)
  have hk := (completePages_spec hr.1).2.2
  have he : (fromBase blk base).imageSizeBytes =
      (openSized (⟨base,.empty,none⟩ : Files blk)).rebuildBitmapFromOverlay.completePages.imageSizeBytes := by
    rw [fromBase,open_,openFiles_eq,hl]
    rfl
  rw [size,he,hk.imageSizeBytes,hr.2.2.imageSizeBytes,h2]
  exact max_eq_left (Nat.zero_le _)

theorem Inv.saveToFile {s : Image blk} (h : s.Inv) : s.saveToFile.size=s.size ∧ s.saveToFile.byte=s.view := by
  refine ⟨rfl,?_⟩
  funext i
  rw [Image.saveToFile,ftruncate_byte,copied_byte]
  by_cases hi : i<s.imageSizeBytes
  · have hc := h.count
    have hb : i<s.blockCount*blockSize := by
      rw [hc]
      unfold blockSize
      omega
    rw [if_pos hi,if_pos hb]
  · rw [if_neg hi,h.zeroPast i (by omega)]

/-- Where a write up to `end_` leaves a disk of `size` bytes: a block that was not there comes whole. -/
def grown (size end_ : Nat) : Nat :=
  if (end_-1)/blockSize<(size+blockSize-1)/blockSize then max size end_ else ((end_-1)/blockSize+1)*blockSize

theorem ensureBlocks_size (s : Image blk) (hc : s.blockCount=(s.imageSizeBytes+blockSize-1)/blockSize) (n : Nat) :
    (s.ensureBlocks n).blockCount=((s.ensureBlocks n).imageSizeBytes+blockSize-1)/blockSize ∧
    (s.ensureBlocks n).imageSizeBytes=if n ≤ s.blockCount then s.imageSizeBytes else n*blockSize := by
  unfold ensureBlocks
  by_cases hn : n ≤ s.blockCount
  · rw [if_pos hn,if_pos hn]
    exact ⟨hc,rfl⟩
  · rw [if_neg hn,if_neg hn]
    unfold blockSize at hc ⊢
    dsimp only
    rw [if_pos (by omega)]
    exact ⟨by omega,rfl⟩

/-- Where the rounds of a write are: the blocks up to `pos` are there. -/
structure Grows (s : Image blk) (position : Nat) (t : Image blk) (pos : Nat) : Prop where
  count : t.blockCount=(t.imageSizeBytes+blockSize-1)/blockSize
  past : position≤pos
  size : t.imageSizeBytes=if position<pos ∧ s.blockCount≤(pos-1)/blockSize then ((pos-1)/blockSize+1)*blockSize
    else s.imageSizeBytes

theorem Grows.step {s t : Image blk} {position pos len : Nat}
    (hc : s.blockCount=(s.imageSizeBytes+blockSize-1)/blockSize) (h : Grows s position t pos) (hl : 0<len)
    (off : Nat) (src : List UInt8) :
    Grows s position (t.writeBlock (pos/blockSize) off src) (pos+min (blockSize-pos%blockSize) len) := by
  have hk := writeBlock_kept t (pos/blockSize) off src
  obtain ⟨hcount,himage⟩ := ensureBlocks_size t h.count (pos/blockSize+1)
  have hpast := h.past
  have hsize := h.size
  have htc := h.count
  refine ⟨?_,by omega,?_⟩
  · rw [hk.blockCount,hk.imageSizeBytes]
    exact hcount
  · have hm := Nat.mod_lt pos (show 0<blockSize by decide)
    have hend : (pos+min (blockSize-pos%blockSize) len-1)/blockSize=pos/blockSize := by
      unfold blockSize at hm ⊢
      omega
    have hnew : position<pos+min (blockSize-pos%blockSize) len := by omega
    have hlast : (pos-1)/blockSize≤pos/blockSize := Nat.div_le_div_right (by omega)
    rw [hk.imageSizeBytes,himage,hend]
    clear hk hcount himage hend
    unfold blockSize at hsize htc hc hlast ⊢
    by_cases hB : s.blockCount≤pos/512
    · have hright : position<pos+min (512-pos%512) len ∧ s.blockCount≤pos/512 := ⟨hnew,hB⟩
      rw [if_pos hright]
      clear hnew hright hm
      by_cases hbranch : position<pos ∧ s.blockCount≤(pos-1)/512
      · rw [if_pos hbranch] at hsize
        by_cases hin : pos/512+1≤t.blockCount
        · rw [if_pos hin]
          have hend : pos/512≤(pos-1)/512 := by
            rw [htc,hsize] at hin
            generalize (pos-1)/512=a at hin ⊢
            omega
          rw [hsize,le_antisymm hlast hend]
        · rw [if_neg hin]
      · rw [if_neg hbranch] at hsize
        have hout : ¬pos/512+1≤t.blockCount := by
          rw [htc,hsize,← hc]
          omega
        rw [if_neg hout]
    · have hright : ¬(position<pos+min (512-pos%512) len ∧ s.blockCount≤pos/512) := fun h => hB h.2
      have hbranch : ¬(position<pos ∧ s.blockCount≤(pos-1)/512) := fun h => hB (h.2.trans hlast)
      rw [if_neg hbranch] at hsize
      have hin : pos/512+1≤t.blockCount := by
        rw [htc,hsize,← hc]
        omega
      rw [if_neg hright,if_pos hin]
      exact hsize

theorem write_size {s : Image blk} (hc : s.blockCount=(s.imageSizeBytes+blockSize-1)/blockSize)
    (buffer : List UInt8) (position : Nat) (hb : buffer≠[]) :
    (s.write buffer position).size=grown s.size (position+buffer.length) := by
  have hlen : 0<buffer.length := length_pos_of_ne_nil hb
  have hg := foldl_pieces_induct (B := blockSize) (by decide) (writeStep buffer position)
    (fun t pos _ => Grows s position t pos) (fun t pos len hl ht => ht.step hc hl _ _) s position buffer.length
    ⟨hc,le_rfl,by rw [if_neg (by omega)]⟩
  rw [size,size,write_eq]
  generalize (pieces blockSize position buffer.length).foldl (writeStep buffer position) s=t at hg ⊢
  have hsize := hg.size
  dsimp only
  unfold grown
  by_cases hB : s.blockCount≤(position+buffer.length-1)/blockSize
  · rw [if_pos ⟨by omega,hB⟩] at hsize
    rw [hc] at hB
    have hnot : ¬t.imageSizeBytes<position+buffer.length := by
      unfold blockSize at hsize
      omega
    rw [if_neg (not_lt.mpr hB),if_neg hnot]
    exact hsize
  · rw [if_neg (fun h => hB h.2)] at hsize
    rw [hc] at hB
    rw [if_pos (not_le.mp hB)]
    clear hB
    by_cases hlt : t.imageSizeBytes<position+buffer.length
    · rw [if_pos hlt]
      dsimp only
      omega
    · rw [if_neg hlt]
      omega

end Cow.Image

namespace Binfile

theorem enlarge_far (fuel : Nat) (f : File) (writePos : Nat) (h : f.size+2^31≤writePos)
    (hfuel : writePos≤fuel+f.size) : enlarge fuel f writePos=none := by
  induction fuel generalizing f with
  | zero => omega
  | succ fuel ih =>
    rw [enlarge,if_pos (by omega)]
    dsimp only
    split_ifs with hm
    · rfl
    · generalize hz : replicate (min maxChunkSize ((writePos-f.size)%2^32)) (0 : UInt8)=zeros
      have hl : zeros.length=min maxChunkSize ((writePos-f.size)%2^32) := by rw [← hz,length_replicate]
      unfold maxChunkSize at hl
      have hne : zeros≠[] := ne_nil_of_length_pos (by omega)
      have hsize := f.pwrite_size zeros f.size hne
      exact ih (f.pwrite zeros f.size) (by omega) (by omega)

end Binfile

/-- Two images and a write that goes to both -/
structure Both (blk : Nat) where
  plain : Binfile
  cow : Cow.Image blk

namespace Both
variable {blk : Nat}

def start (blk : Nat) (base : File) : Both blk := ⟨.ofFile base,.fromBase blk base⟩

def write (p : Both blk) (buffer : List UInt8) (position : Nat) : Option (Both blk) := do
  let plain ← p.plain.write buffer position
  let cow ← p.cow.writeAsserted buffer position
  return ⟨plain,cow⟩

def Same (p : Both blk) : Prop := p.plain.size=p.cow.size ∧ p.plain.saveToFile=p.cow.saveToFile

def Agree (p : Both blk) : List (List UInt8 × Nat) → Prop
  | [] => True
  | w::ws => ∃ q,p.write w.1 w.2=some q ∧ q.Same ∧ q.Agree ws

/-- What a write has to be for that: it has bytes, the file is not a gap of 2^31 away, and it ends in the last block of
the disk or with a block. -/
def Even (size : Nat) (buffer : List UInt8) (position : Nat) : Prop :=
  buffer≠[] ∧ position<size+2^31 ∧
    (position+buffer.length≤(size+511)/512*512 ∨ (position+buffer.length)%512=0)

def AllEven (size : Nat) : List (List UInt8 × Nat) → Prop
  | [] => True
  | w::ws => Even size w.1 w.2 ∧ AllEven (max size (w.2+w.1.length)) ws

structure Inv (p : Both blk) : Prop where
  isOpen : p.plain.isOpen=true
  writable : p.plain.readonly=false
  cow : p.cow.Inv
  content : p.cow.view=p.plain.f.byte
  size : p.cow.size=p.plain.f.size

variable {p : Both blk}

theorem Inv.same_iff (hc : p.cow.Inv) (ho : p.plain.isOpen)
    (hv : p.cow.view=p.plain.f.byte) : p.Same ↔ p.cow.size=p.plain.f.size := by
  have hsize : p.plain.size=p.plain.f.size := if_pos ho
  obtain ⟨hs,hb⟩ := Cow.Image.Inv.saveToFile hc
  unfold Same
  rw [hsize]
  constructor
  · exact fun h => h.1.symm
  · intro h
    refine ⟨h.symm,?_⟩
    apply File.ext
    · rw [hs,h]
      rfl
    · rw [hb,hv]
      rfl

theorem grown_eq_iff (size end_ : Nat) (h : 0<end_) : Cow.Image.grown size end_=max size end_ ↔
    (end_≤(size+511)/512*512 ∨ end_%512=0) := by
  unfold Cow.Image.grown Cow.blockSize
  by_cases hlt : (end_-1)/512<(size+512-1)/512
  · rw [if_pos hlt]
    exact ⟨fun _ => .inl (by omega),fun _ => rfl⟩
  · rw [if_neg hlt]
    omega

theorem Inv.start (base : File) : (start blk base).Inv := by
  have hs := Cow.Image.fromBase_shows blk base
  refine ⟨rfl,rfl,hs.inv,hs.disk,?_⟩
  exact Cow.Image.fromBase_size base

theorem Inv.write (h : p.Inv) {buffer : List UInt8} {position : Nat} (hb : buffer≠[])
    (hp : position<p.plain.f.size+2^31) : ∃ q,p.write buffer position=some q ∧ q.plain.isOpen ∧
      q.plain.readonly=false ∧ q.cow.Inv ∧ q.cow.view=q.plain.f.byte ∧
      q.plain.f.size=max p.plain.f.size (position+buffer.length) ∧
      q.cow.size=Cow.Image.grown p.plain.f.size (position+buffer.length) := by
  obtain ⟨g,hbyte,hsize,hw⟩ := StorageImage.Binfile.write_passes p.plain buffer position h.isOpen h.writable hp
  have hcow : p.cow.writeAsserted buffer position=some (p.cow.write buffer position) := by
    rw [Cow.Image.writeAsserted_eq,if_pos ⟨h.cow.isOpen,hb⟩]
  obtain ⟨hi,hv,-,-⟩ := Cow.Image.write_inv h.cow buffer position
  refine ⟨⟨{ p.plain with f := g.pwrite buffer position },p.cow.write buffer position⟩,?_,h.isOpen,h.writable,hi,?_,?_,?_⟩
  · rw [Both.write,hw,hcow]
    rfl
  · rw [hv,h.content]
    dsimp only
    rw [pwrite_byte,hbyte]
  · dsimp only
    rw [pwrite_size _ _ _ hb]
    omega
  · dsimp only
    rw [Cow.Image.write_size h.cow.count _ _ hb,h.size]

theorem write_none_of_far {buffer : List UInt8} {position : Nat}
    (hp : p.plain.f.size+2^31≤position) : p.write buffer position=none := by
  have hw : p.plain.write buffer position=none := by
    unfold Binfile.write
    rw [Binfile.enlarge_far position p.plain.f position hp (by omega)]
    cases p.plain.isOpen <;> cases p.plain.readonly <;> rfl
  rw [write,hw]
  rfl

theorem agree_iff (h : p.Inv) (ws : List (List UInt8 × Nat)) : p.Agree ws ↔ AllEven p.plain.f.size ws := by
  induction ws generalizing p with
  | nil => exact Iff.rfl
  | cons w ws ih =>
    constructor
    · rintro ⟨q,hq,hsame,hrest⟩
      have hb : w.1≠[] := by
        intro hb
        rw [Both.write,hb,Cow.Image.writeAsserted_eq,if_neg (by simp)] at hq
        cases hpl : p.plain.write [] w.2 with
        | none | some b => rw [hpl] at hq; cases hq
      have hp : w.2<p.plain.f.size+2^31 := by
        by_contra hp
        rw [write_none_of_far (by omega)] at hq
        cases hq
      obtain ⟨q',hq',ho,hr,hi,hv,hps,hcs⟩ := h.write hb hp
      obtain rfl := some.inj (hq'.symm.trans hq)
      have hsize := (Inv.same_iff hi ho hv).mp hsame
      have hlen : 0<w.1.length := length_pos_of_ne_nil hb
      have heven := (grown_eq_iff p.plain.f.size (w.2+w.1.length) (by omega)).mp (by omega)
      refine ⟨⟨hb,hp,heven⟩,?_⟩
      rw [← hps]
      exact (ih ⟨ho,hr,hi,hv,hsize⟩).mp hrest
    · rintro ⟨⟨hb,hp,heven⟩,hrest⟩
      obtain ⟨q,hq,ho,hr,hi,hv,hps,hcs⟩ := h.write hb hp
      have hlen : 0<w.1.length := length_pos_of_ne_nil hb
      have hsize : q.cow.size=q.plain.f.size := by
        rw [hcs,hps]
        exact (grown_eq_iff p.plain.f.size (w.2+w.1.length) (by omega)).mpr heven
      refine ⟨q,hq,(Inv.same_iff hi ho hv).mpr hsize,(ih ⟨ho,hr,hi,hv,hsize⟩).mpr ?_⟩
      rw [hps]
      exact hrest

theorem cow_growth (base : File) (ws : List (List UInt8 × Nat)) : (start blk base).Agree ws ↔ AllEven base.size ws :=
  agree_iff (Inv.start base) ws

/-- One byte on an empty image makes it a block long, and a plain one a byte. -/
theorem grows_a_block : ∃ q : Both 4096,(start 4096 File.empty).write [7] 0=some q ∧
    q.plain.size=1 ∧ q.cow.size=512 ∧ ¬(start 4096 File.empty).Agree [([7],0)] := by
  have hs : (start 4096 File.empty).Inv := Inv.start File.empty
  have hb : ([7] : List UInt8)≠[] := cons_ne_nil 7 []
  have hp : 0<(start 4096 File.empty).plain.f.size+2^31 := Nat.add_pos_right _ (by norm_num)
  obtain ⟨q,hq,ho,hr,hi,hv,hps,hcs⟩ := hs.write hb hp
  have hempty : (start 4096 File.empty).plain.f.size=0 := rfl
  rw [hempty] at hps hcs
  have hplain : q.plain.f.size=1 := hps.trans (by decide)
  have hcow : q.cow.size=512 := hcs.trans (by decide)
  refine ⟨q,hq,(if_pos ho).trans hplain,hcow,?_⟩
  rintro ⟨q',hq',hsame,-⟩
  obtain rfl := some.inj (hq.symm.trans hq')
  have hsize := (Inv.same_iff hi ho hv).mp hsame
  omega

end Both

end QUniLator
