import QUniLator.Storage.Cow

namespace QUniLator.Cow

theorem pageBlocks_pos (blk : Nat) : 0<pageBlocks blk := by
  unfold pageBlocks blockSize
  split_ifs with h
  · have : 1≤blk/512 := (Nat.le_div_iff_mul_le (by decide)).mpr (by omega)
    omega
  · decide

theorem pageSize_eq (blk : Nat) : pageSize blk=pageBlocks blk*blockSize := by
  unfold pageSize
  rfl

theorem div_pageSize (blk i : Nat) : i/pageSize blk=i/blockSize/pageBlocks blk := by
  rw [pageSize_eq,Nat.mul_comm,Nat.div_div_eq_div_mul]

theorem div_blockSize (b i : Nat) (h1 : b*blockSize ≤ i) (h2 : i<b*blockSize+blockSize) : i/blockSize=b := by
  unfold blockSize at *
  omega

theorem block_mul (b j : Nat) : b*blockSize/pageSize j=b/pageBlocks j := by
  rw [div_pageSize,Nat.mul_div_cancel b (by decide)]

/-- What the disk reads as after a crash: whatever page the overlay holds, it holds whole. -/
def Files.recovered {blk : Nat} (f : Files blk) (i : Nat) : UInt8 :=
  if f.overlay.held (i/pageSize blk) then f.overlay.byte i else f.base.byte i

namespace Image
variable {blk : Nat}

/-- The disk's bytes, by position: a written block is the overlay's, any other the base's. -/
def view (s : Image blk) (i : Nat) : UInt8 :=
  if s.bitGet (i/blockSize) then s.files.overlay.byte i else s.files.base.byte i

theorem preadBlock_eq (f : File) (b : Nat) : preadBlock f b=slice f.byte (b*blockSize) blockSize :=
  f.preadCleared_eq blockSize (b*blockSize)

theorem cowReadBlock_eq (s : Image blk) (b : Nat) : s.cowReadBlock b=slice s.view (b*blockSize) blockSize := by
  rw [cowReadBlock,preadBlock_eq]
  apply slice_congr
  intro i h1 h2
  rw [view,div_blockSize b i h1 h2]
  split_ifs <;> rfl

theorem read_eq (s : Image blk) (position len : Nat) : s.read position len=slice s.view position len := by
  rw [read,← flatMap_pieces (show 0<blockSize by decide) s.view position len]
  suffices h : ∀ p∈pieces blockSize position len,p.off+p.n≤blockSize by
    have hc : ∀ p∈pieces blockSize position len,
        ((s.cowReadBlock p.block).drop p.off).take p.n=slice s.view (p.pos blockSize) p.n := by
      intro p hp
      rw [cowReadBlock_eq,slice_drop_take _ _ _ _ _ (h p hp),Piece.pos]
    simp only [List.flatMap]
    rw [List.map_congr_left hc]
  exact fun p hp => pieces_fit (by decide) position len p hp

/-- What holds of an image at every moment. -/
structure Loose (s : Image blk) : Prop where
  count : s.blockCount=(s.imageSizeBytes+blockSize-1)/blockSize
  bits : s.occupancy.length=(s.blockCount+7)/8
  spareBits : ∀ b,s.blockCount≤b → getBit .lsb s.occupancy b=false
  held : ∀ b,s.bitGet b=true → s.files.overlay.held (b/pageBlocks blk)=true
  overlayZero : ∀ i,s.bitGet (i/blockSize)=false → s.files.overlay.byte i=0
  baseFits : s.files.base.size ≤ s.blockCount*blockSize

/-- What holds outside `fillPage`. A page the overlay holds lacks only blocks that are zero in the
base too: they were past the end of the disk when the page was filled. -/
structure Sound (s : Image blk) : Prop extends Loose s where
  baseZero : ∀ i,s.bitGet (i/blockSize)=false →
    s.files.overlay.held (i/pageSize blk)=true → s.files.base.byte i=0

/-- What holds of an open image between two calls. -/
structure Inv (s : Image blk) : Prop extends Sound s where
  zeroPast : ∀ i,s.imageSizeBytes ≤ i → s.view i=0
  noMap : s.files.map=none
  isOpen : s.opened=true

/-- `base_size_bytes` is the length the base has. A commit that failed half way can leave it behind:
the base has grown then, and the counter has not. -/
def Fresh (s : Image blk) : Prop := s.baseSizeBytes=s.files.base.size

theorem bitGet_past (s : Image blk) (b : Nat) (h : s.blockCount≤b) : s.bitGet b=false := by
  simp [bitGet,h]

variable {s : Image blk}

theorem Loose.bitGet_eq (h : Loose s) (b : Nat) : s.bitGet b=getBit .lsb s.occupancy b := by
  unfold bitGet
  split_ifs with hb
  · exact (h.spareBits b hb).symm
  · rfl

theorem Loose.size_le (h : Loose s) : s.imageSizeBytes ≤ s.blockCount*blockSize := by
  have hc := h.count
  unfold blockSize at *
  omega

theorem Loose.view_past (h : Loose s) (i : Nat) (hi : s.blockCount*blockSize ≤ i) : s.view i=0 := by
  have hb : s.blockCount ≤ i/blockSize := (Nat.le_div_iff_mul_le (by decide)).mpr hi
  rw [view,bitGet_past s _ hb]
  exact s.files.base.pastEnd i (h.baseFits.trans hi)

theorem Loose.recovered_eq (h : Loose s) (i : Nat)
    (hz : s.bitGet (i/blockSize)=false → s.files.overlay.held (i/pageSize blk) →
      s.files.base.byte i=0) : s.files.recovered i=s.view i := by
  unfold Files.recovered view
  cases hb : s.bitGet (i/blockSize) with
  | true =>
    have hh := h.held _ hb
    rw [← div_pageSize] at hh
    simp [hh]
  | false =>
    cases hh : s.files.overlay.held (i/pageSize blk) with
    | true => simp [h.overlayZero i hb,hz hb hh]
    | false => simp

theorem Sound.recovered_eq (h : Sound s) : s.files.recovered=s.view := by
  funext i
  exact h.toLoose.recovered_eq i (h.baseZero i)

/-- What filling a page and storing a block leave alone. -/
structure Kept (s t : Image blk) : Prop where
  blockCount : t.blockCount=s.blockCount
  imageSizeBytes : t.imageSizeBytes=s.imageSizeBytes
  baseSizeBytes : t.baseSizeBytes=s.baseSizeBytes
  base : t.files.base=s.files.base
  map : t.files.map=s.files.map
  opened : t.opened=s.opened
  held : ∀ k,s.files.overlay.held k=true → t.files.overlay.held k=true

theorem Kept.refl (s : Image blk) : Kept s s := ⟨rfl,rfl,rfl,rfl,rfl,rfl,fun _ h => h⟩

theorem Kept.trans {s t u : Image blk} (h : Kept s t) (k : Kept t u) : Kept s u :=
  ⟨k.1.trans h.1,k.2.trans h.2,k.3.trans h.3,k.4.trans h.4,k.5.trans h.5,k.6.trans h.6,
    fun p hp => k.7 p (h.7 p hp)⟩

section
variable (s : Image blk) (b : Nat) (bs : List UInt8)

theorem storeBlock_files : (s.storeBlock b bs).files=s.files.apply (.overlayPwrite bs (b*blockSize)) := rfl

theorem storeBlock_log : (s.storeBlock b bs).log=s.log++[.overlayPwrite bs (b*blockSize)] := rfl

theorem storeBlock_kept : Kept s (s.storeBlock b bs) :=
  ⟨rfl,rfl,rfl,rfl,rfl,rfl,fun k hk => by
    change (s.files.overlay.held k || decide _)=true
    rw [hk,Bool.true_or]⟩

theorem storeBlock_byte : (s.storeBlock b bs).files.overlay.byte=patch s.files.overlay.byte (b*blockSize) bs :=
  File.pwrite_byte _ _ _

end

theorem storeBlock_bitGet (h : Loose s) (b : Nat) (bs : List UInt8) (j : Nat)
    (hb : b<s.blockCount) : (s.storeBlock b bs).bitGet j=(decide (j=b) || s.bitGet j) := by
  have hc := (storeBlock_kept s b bs).blockCount
  by_cases hj : s.blockCount≤j
  · have hne : j≠b := by omega
    simp [bitGet,hc,hj,hne]
  · have hlen : b/8<s.occupancy.length := by rw [h.bits]; omega
    have hs : (s.storeBlock b bs).occupancy=setBit .lsb s.occupancy b := rfl
    simp [bitGet,hc,hj,hs,getBit_setBit _ _ _ _ hlen]

theorem storeBlock_held (s : Image blk) (b : Nat) (bs : List UInt8) (k : Nat)
    (hl : bs.length=blockSize) : (s.storeBlock b bs).files.overlay.held k =
      (decide (k=b/pageBlocks blk) || s.files.overlay.held k) := by
  have hne : bs≠[] := by
    rintro rfl
    simp [blockSize] at hl
  have hp := pageBlocks_pos blk
  have he : (b*blockSize/pageSize blk≤k ∧ k*pageSize blk<b*blockSize+bs.length ∧ bs≠[]) ↔
      k=b/pageBlocks blk := by
    rw [block_mul,pageSize_eq,hl,← Nat.mul_assoc]
    have hlt : k*pageBlocks blk*blockSize<b*blockSize+blockSize ↔ k*pageBlocks blk≤b := by
      unfold blockSize
      omega
    rw [hlt,← Nat.le_div_iff_mul_le hp]
    constructor
    · rintro ⟨h1,h2,-⟩
      omega
    · rintro rfl
      exact ⟨le_refl _,le_refl _,hne⟩
  change (s.files.overlay.held k || decide _)=_
  rw [Bool.or_comm]
  congr 1
  exact decide_eq_decide.mpr he

theorem storeBlock_view (h : Loose s) (b : Nat) (bs : List UInt8) (hb : b<s.blockCount) (hl : bs.length=blockSize) :
    (s.storeBlock b bs).view=patch s.view (b*blockSize) bs := by
  funext i
  rw [view,storeBlock_bitGet h b bs _ hb,storeBlock_byte,(storeBlock_kept s b bs).base]
  by_cases hi : i/blockSize=b
  · have hin : b*blockSize ≤ i ∧ i<b*blockSize+bs.length := by
      rw [hl]
      unfold blockSize at *
      omega
    rw [patch_congr _ s.view _ _ _ (fun hn => absurd hin hn)]
    simp [hi]
  · have hout : ¬(b*blockSize ≤ i ∧ i<b*blockSize+bs.length) := by
      rw [hl]
      intro hc
      exact hi (div_blockSize b i hc.1 hc.2)
    rw [patch_outside _ _ _ _ hout,patch_outside _ _ _ _ hout]
    simp [hi,view]

theorem storeBlock_loose (h : Loose s) (b : Nat) (bs : List UInt8)
    (hb : b<s.blockCount) (hl : bs.length=blockSize) : Loose (s.storeBlock b bs) where
  count := h.count
  bits := by
    change (setBit .lsb s.occupancy b).length=(s.blockCount+7)/8
    simpa using h.bits
  spareBits j hj := by
    have hlen : b/8<s.occupancy.length := by rw [h.bits]; omega
    have hne : j≠b := by
      rintro rfl
      exact absurd hj (Nat.not_le.mpr hb)
    change getBit .lsb (setBit .lsb s.occupancy b) j=false
    simpa [getBit_setBit _ _ _ _ hlen,hne] using h.spareBits j hj
  held j hj := by
    rw [storeBlock_bitGet h b bs j hb,Bool.or_eq_true,decide_eq_true_eq] at hj
    rw [storeBlock_held s b bs _ hl]
    rcases hj with rfl | hj
    · simp
    · simp [h.held j hj]
  overlayZero i hi := by
    rw [storeBlock_bitGet h b bs _ hb,Bool.or_eq_false_iff,decide_eq_false_iff_not] at hi
    have hout : ¬(b*blockSize ≤ i ∧ i<b*blockSize+bs.length) := by
      rw [hl]
      intro hc
      exact hi.1 (div_blockSize b i hc.1 hc.2)
    rw [storeBlock_byte,patch_outside _ _ _ _ hout]
    exact h.overlayZero i hi.2
  baseFits := h.baseFits

end Image

end QUniLator.Cow
