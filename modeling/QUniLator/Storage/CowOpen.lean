import QUniLator.Storage.CowWrite

namespace QUniLator.Cow.Image

open List Bool
variable {blk : Nat}

theorem bitSet_kept (s : Image blk) (b : Nat) : Kept s (s.bitSet b) :=
  ⟨rfl,rfl,rfl,rfl,rfl,rfl,fun _ h => h⟩

/-- What a run of `bit_set` calls does to the bitmap. -/
structure Marked (s t : Image blk) (mark : Nat → Prop) : Prop where
  kept : Kept s t
  overlay : t.files.overlay=s.files.overlay
  bits : t.occupancy.length=s.occupancy.length
  get : ∀ b,getBit .lsb t.occupancy b=true ↔ mark b ∨ getBit .lsb s.occupancy b=true

theorem Marked.none (s : Image blk) : Marked s s (fun _ => False) :=
  ⟨Kept.refl s,rfl,rfl,fun b => by simp⟩

theorem Marked.trans {s t u : Image blk} {p q : Nat → Prop} (h : Marked s t p)
    (k : Marked t u q) : Marked s u (fun b => p b ∨ q b) where
  kept := h.kept.trans k.kept
  overlay := k.overlay.trans h.overlay
  bits := k.bits.trans h.bits
  get b := by
    rw [k.get,h.get]
    tauto

theorem Marked.congr {s t : Image blk} {p q : Nat → Prop} (h : Marked s t p) (he : ∀ b,p b ↔ q b) : Marked s t q :=
  ⟨h.kept,h.overlay,h.bits,fun b => by rw [h.get,he]⟩

def Roomy (s : Image blk) : Prop := s.occupancy.length=(s.blockCount+7)/8

theorem bitSet_marked (s : Image blk) (h : Roomy s) (b : Nat) (hb : b<s.blockCount) :
    Marked s (s.bitSet b) (fun j => j=b) where
  kept := bitSet_kept s b
  overlay := rfl
  bits := setBit_length _ _ _
  get j := by
    have hlen : b/8<s.occupancy.length := by
      rw [Roomy] at h
      omega
    change getBit .lsb (setBit .lsb s.occupancy b) j=true ↔ _
    rw [getBit_setBit _ _ _ _ hlen,or_eq_true,decide_eq_true_eq]

theorem foldl_bitSet_marked (s : Image blk) (h : Roomy s) (first n : Nat) (hn : n≠0 → first+n ≤ s.blockCount) :
    Marked s ((List.range' first n).foldl bitSet s) (fun b => first≤b ∧ b<first+n) := by
  induction n generalizing s first with
  | zero => exact (Marked.none s).congr (fun b => by simp)
  | succ n ih =>
    rw [range'_succ,foldl_cons]
    have hb := bitSet_marked s h first (by omega)
    have hroom : Roomy (s.bitSet first) := by
      unfold Roomy
      rw [hb.bits,hb.kept.blockCount]
      exact h
    refine (hb.trans (ih (s.bitSet first) hroom (first+1) ?_)).congr ?_
    · intro hz
      have hle := hn (by omega)
      rw [hb.kept.blockCount]
      omega
    · intro b
      omega

theorem markBlocks_marked (s : Image blk) (h : Roomy s) (first last : Nat) :
    Marked s (s.markBlocks first last) (fun b => first≤b ∧ b≤last ∧ b<s.blockCount) := by
  refine (foldl_bitSet_marked s h first _ ?_).congr ?_
  · omega
  · intro b
    omega

theorem rebuildFrom_marked (fuel : Nat) (s : Image blk) (h : Roomy s) (pos : Nat)
    (hcount : s.blockCount=(s.imageSizeBytes+blockSize-1)/blockSize)
    (hsize : s.files.overlay.size=s.imageSizeBytes) (hfuel : s.imageSizeBytes≤pos+fuel) :
    ∃ mark,Marked s (rebuildFrom fuel s pos) mark ∧
      (∀ b,mark b → b<s.blockCount ∧ s.files.overlay.held (b/pageBlocks blk)) ∧
      ∀ b,b<s.blockCount → s.files.overlay.held (b/pageBlocks blk) → pos≤b*blockSize → mark b := by
  have hin (b : Nat) (hb : b<s.blockCount) : b*blockSize<s.imageSizeBytes := by
    rw [hcount] at hb
    unfold blockSize at *
    omega
  induction fuel generalizing s pos with
  | zero =>
    refine ⟨_,Marked.none s,fun _ hm => hm.elim,?_⟩
    intro b hb hh hp
    have := hin b hb
    omega
  | succ fuel ih =>
    unfold rebuildFrom
    by_cases hpos : pos<s.imageSizeBytes
    swap
    · rw [if_neg hpos]
      refine ⟨_,Marked.none s,fun _ hm => hm.elim,?_⟩
      intro b hb hh hp
      have := hin b hb
      omega
    rw [if_pos hpos]
    cases hd : s.files.overlay.seekData pos with
    | none =>
      refine ⟨_,Marked.none s,fun _ hm => hm.elim,?_⟩
      intro b hb hh hp
      have hn := s.files.overlay.seekData_none pos hd (b*blockSize) hp (by
        rw [hsize]
        exact hin b hb)
      rw [block_mul,hh] at hn
      exact absurd hn (by decide)
    | some data =>
      obtain ⟨hd1,hd2,hd3,hd4⟩ := s.files.overlay.seekData_some pos data hd
      obtain ⟨hole,hh,hh1⟩ := s.files.overlay.seekHole_data data hd2 hd3
      obtain ⟨-,hh2,-,hh3⟩ := s.files.overlay.seekHole_some data hole hh
      simp only [hh,Option.getD_some]
      rw [show min hole s.imageSizeBytes=hole by omega]
      have hm := markBlocks_marked s h (data/blockSize) ((hole-1)/blockSize)
      generalize s.markBlocks (data/blockSize) ((hole-1)/blockSize)=t at hm
      have hroom : Roomy t := by
        unfold Roomy
        rw [hm.bits,hm.kept.blockCount]
        exact h
      obtain ⟨mark,ht,hm1,hm2⟩ := ih t hroom hole
        (by rw [hm.kept.blockCount,hm.kept.imageSizeBytes]; exact hcount)
        (by rw [hm.overlay,hm.kept.imageSizeBytes]; exact hsize)
        (by rw [hm.kept.imageSizeBytes]; omega)
        (by
          intro b hb
          rw [hm.kept.blockCount] at hb
          rw [hm.kept.imageSizeBytes]
          exact hin b hb)
      rw [hm.overlay,hm.kept.blockCount] at hm1 hm2
      refine ⟨_,hm.trans ht,?_,?_⟩
      · rintro b (⟨h1,h2,h3⟩ | hb)
        · refine ⟨h3,?_⟩
          -- the block holds a byte of the data that was found
          by_cases hc : data≤b*blockSize
          · rw [← block_mul]
            refine hh3 _ hc ?_
            unfold blockSize at *
            omega
          · have hb : data/blockSize=b := by
              unfold blockSize at *
              omega
            rw [div_pageSize,hb] at hd3
            exact hd3
        · exact hm1 b hb
      · intro b hb hheld hp
        by_cases hc : hole≤b*blockSize
        · exact Or.inr (hm2 b hb hheld hc)
        · refine Or.inl ⟨?_,?_,hb⟩
          · have hge : data≤b*blockSize := by
              by_contra hlt
              have hn := hd4 (b*blockSize) hp (by omega)
              rw [block_mul,hheld] at hn
              exact absurd hn (by decide)
            unfold blockSize at *
            omega
          · unfold blockSize at *
            omega

variable {s : Image blk}

/-- The rebuilt bitmap marks every block of every held page, and the disk is what the files show a
reader who has no bitmap. -/
theorem rebuild_spec (hcount : s.blockCount=(s.imageSizeBytes+blockSize-1)/blockSize)
    (hroom : Roomy s) (hsize : s.files.overlay.size=s.imageSizeBytes) (hbase : s.files.base.size ≤ s.imageSizeBytes) :
    Sound s.rebuildBitmapFromOverlay ∧ s.rebuildBitmapFromOverlay.view=s.files.recovered ∧
      Kept s s.rebuildBitmapFromOverlay := by
  unfold Roomy at hroom
  have hclear : replicate ((s.blockCount+7)/8) 0++s.occupancy.drop ((s.blockCount+7)/8) =
      replicate ((s.blockCount+7)/8) (0 : UInt8) := by
    rw [drop_eq_nil_of_le (by omega),append_nil]
  obtain ⟨mark,hm,hm1,hm2⟩ := rebuildFrom_marked s.imageSizeBytes
    { s with occupancy := replicate ((s.blockCount+7)/8) 0 } (by simp [Roomy]) 0
    hcount hsize (by simp)
  have he : s.rebuildBitmapFromOverlay=rebuildFrom s.imageSizeBytes
      { s with occupancy := replicate ((s.blockCount+7)/8) 0 } 0 := by
    unfold rebuildBitmapFromOverlay
    simp only [hclear]
  rw [he]
  generalize rebuildFrom s.imageSizeBytes
    { s with occupancy := replicate ((s.blockCount+7)/8) 0 } 0=t at hm
  have hget (b : Nat) : getBit .lsb t.occupancy b=true ↔
      b<s.blockCount ∧ s.files.overlay.held (b/pageBlocks blk)=true := by
    rw [hm.get,getBit_replicate_zero]
    constructor
    · rintro (hb | hb)
      · exact hm1 b hb
      · exact absurd hb (by decide)
    · rintro ⟨h1,h2⟩
      exact Or.inl (hm2 b h1 h2 (Nat.zero_le _))
  have hcnt : t.blockCount=s.blockCount := hm.kept.blockCount
  have hov : t.files.overlay=s.files.overlay := hm.overlay
  have hba : t.files.base=s.files.base := hm.kept.base
  have hbit (b : Nat) : t.bitGet b=true ↔
      b<s.blockCount ∧ s.files.overlay.held (b/pageBlocks blk)=true := by
    unfold bitGet
    rw [hcnt]
    split_ifs with hb
    · simp
      omega
    · exact hget b
  have hle : s.imageSizeBytes ≤ s.blockCount*blockSize := by
    unfold blockSize at *
    omega
  have hpast (i : Nat) (hb : s.blockCount ≤ i/blockSize) : s.imageSizeBytes ≤ i :=
    hle.trans ((Nat.le_div_iff_mul_le (by decide)).mp hb)
  have hloose : Loose t := by
    refine ⟨?_,?_,?_,?_,?_,?_⟩
    · rw [hcnt,hm.kept.imageSizeBytes]
      exact hcount
    · rw [hm.bits,hcnt]
      simp
    · intro b hb
      rw [hcnt] at hb
      rw [← not_eq_true,hget]
      omega
    · intro b hb
      rw [hov]
      exact ((hbit b).mp hb).2
    · intro i hb
      rw [hov]
      rw [← not_eq_true,hbit,not_and_or,not_eq_true,← div_pageSize] at hb
      rcases hb with hb | hb
      · exact s.files.overlay.pastEnd i (hsize.le.trans (hpast i (by omega)))
      · exact s.files.overlay.hole i hb
    · rw [hba,hcnt]
      exact hbase.trans hle
  have hsound : Sound t := by
    refine ⟨hloose,?_⟩
    intro i hb hheld
    rw [hov] at hheld
    rw [hba]
    rw [← not_eq_true,hbit,not_and_or,← div_pageSize] at hb
    rcases hb with hb | hb
    · exact s.files.base.pastEnd i (hbase.trans (hpast i (by omega)))
    · exact absurd hheld hb
  refine ⟨hsound,?_,⟨hm.kept.1,hm.kept.2,hm.kept.3,hm.kept.4,hm.kept.5,hm.kept.6,hm.kept.7⟩⟩
  rw [← hsound.recovered_eq]
  funext i
  simp only [Files.recovered,hov,hba]

theorem completePage_spec (h : Sound s) (page : Nat) (hp : page<s.blockCount) :
    Sound (s.completePage page) ∧ (s.completePage page).view=s.view ∧ Kept s (s.completePage page) := by
  unfold completePage
  simp only
  split_ifs
  · have hf := fillPage_spec (R := fun _ => True) h.toLoose page hp trivial
      (fun _ _ _ _ _ => trivial)
    exact ⟨hf.1.sound h,hf.1.view,hf.1.kept⟩
  · exact ⟨h,rfl,Kept.refl s⟩

theorem completePages_spec (h : Sound s) :
    Sound s.completePages ∧ s.completePages.view=s.view ∧ Kept s s.completePages := by
  have hP := pageBlocks_pos blk
  have hall : ∀ ps : List Nat,(∀ p∈ps,p<s.blockCount) → ∀ t,Sound t → t.view=s.view →
      Kept s t → Sound (ps.foldl completePage t) ∧ (ps.foldl completePage t).view=s.view ∧
        Kept s (ps.foldl completePage t) := by
    intro ps
    induction ps with
    | nil => exact fun _ t ht hv hk => ⟨ht,hv,hk⟩
    | cons p ps ih =>
      intro hps t ht hv hk
      have hp := hps p (mem_cons_self)
      have hc := completePage_spec ht p (by rw [hk.blockCount]; exact hp)
      exact ih (fun q hq => hps q (mem_cons_of_mem p hq)) _ hc.1 (hc.2.1.trans hv)
        (hk.trans hc.2.2)
  refine hall _ ?_ s h rfl (Kept.refl s)
  intro p hp
  obtain ⟨k,hk,rfl⟩ := List.mem_map.mp hp
  have hlt := mem_range.mp hk
  have := (Nat.lt_div_iff_mul_lt hP).mp hlt
  omega

/-- `open_files` up to the bitmap: the sizes, and an overlay no shorter than the base. -/
def openSized (f : Files blk) : Image blk :=
  let imageSizeBytes := max f.base.size f.overlay.size
  let blockCount := (imageSizeBytes+blockSize-1)/blockSize
  let s : Image blk :=
    ⟨f,[],f.base.size,imageSizeBytes,blockCount,replicate ((blockCount+7)/8) 0,false⟩
  if true && decide (f.overlay.size<f.base.size) then
    s.sys (.overlayFtruncate f.base.size)
  else s

theorem openFiles_eq (f : Files blk) : openFiles f true =
    ((openSized f).loadBitmapSidecar).getD (openSized f).rebuildBitmapFromOverlay := by
  cases h : (openSized f).loadBitmapSidecar <;>
    simp only [openFiles,openSized] at h ⊢ <;> simp only [h,Option.getD]

theorem openSized_sizes (f : Files blk) : (openSized f).baseSizeBytes=f.base.size ∧
      (openSized f).imageSizeBytes=max f.base.size f.overlay.size ∧
      (openSized f).blockCount=((openSized f).imageSizeBytes+blockSize-1)/blockSize ∧ Roomy (openSized f) := by
  unfold openSized Roomy
  simp only
  split_ifs <;> simp [sys]

theorem openSized_files (f : Files blk) : (openSized f).files.base=f.base ∧ (openSized f).files.map=f.map ∧
      (openSized f).files.overlay.byte=f.overlay.byte ∧ (openSized f).files.overlay.held=f.overlay.held ∧
      (openSized f).files.overlay.size=max f.base.size f.overlay.size := by
  unfold openSized
  simp only [Bool.true_and,decide_eq_true_eq]
  by_cases h : f.overlay.size<f.base.size
  · rw [if_pos h]
    refine ⟨rfl,rfl,File.ftruncate_grow _ _ h.le,SparseFile.ftruncate_grow_held _ _ h.le,?_⟩
    change f.base.size=_
    omega
  · rw [if_neg h]
    refine ⟨rfl,rfl,rfl,rfl,?_⟩
    change f.overlay.size=_
    omega

theorem openSized_recovered (f : Files blk) : (openSized f).files.recovered=f.recovered := by
  obtain ⟨h1,-,h3,h4,-⟩ := openSized_files f
  funext i
  simp only [Files.recovered,h1,h3,h4]

theorem open_sound (f : Files blk) (s : Image blk) (he : openFiles f true=s) (h : Sound s)
    (hz : ∀ i,s.imageSizeBytes ≤ i → s.view i=0) :
    Inv (open_ f) ∧ (open_ f).view=s.view ∧ (open_ f).files.base=s.files.base ∧
      (open_ f).baseSizeBytes=s.baseSizeBytes := by
  have hc := completePages_spec h
  have ho : open_ f={ s.completePages.sys .mapUnlink with opened := true } := by
    rw [← he]
    rfl
  rw [ho]
  generalize s.completePages=t at hc
  obtain ⟨ht,hv,hk⟩ := hc
  refine ⟨⟨⟨⟨ht.count,ht.bits,ht.spareBits,ht.held,ht.overlayZero,ht.baseFits⟩,ht.baseZero⟩,?_,
    rfl,rfl⟩,hv,hk.base,hk.baseSizeBytes⟩
  intro i hi
  change t.imageSizeBytes ≤ i at hi
  rw [hk.imageSizeBytes] at hi
  change t.view i=0
  rw [hv]
  exact hz i hi

theorem open_rebuilt (f : Files blk) (hl : (openSized f).loadBitmapSidecar=none) :
    Inv (open_ f) ∧ (open_ f).view=f.recovered ∧ (open_ f).files.base=f.base ∧ Fresh (open_ f) := by
  obtain ⟨h1,h2,h3,h4⟩ := openSized_sizes f
  obtain ⟨k1,-,k3,k4,k5⟩ := openSized_files f
  have hr := rebuild_spec h3 h4 (k5.trans h2.symm) (by rw [k1,h2]; omega)
  have he : openFiles f true=(openSized f).rebuildBitmapFromOverlay := by
    rw [openFiles_eq,hl]
    rfl
  have ho := open_sound f _ he hr.1 (by
    intro i hi
    rw [hr.2.2.imageSizeBytes,h2] at hi
    rw [hr.2.1,openSized_recovered]
    unfold Files.recovered
    split_ifs
    · exact f.overlay.pastEnd i (by omega)
    · exact f.base.pastEnd i (by omega))
  refine ⟨ho.1,?_,?_,?_⟩
  · rw [ho.2.1,hr.2.1,openSized_recovered]
  · rw [ho.2.2.1,hr.2.2.base,k1]
  · unfold Fresh
    rw [ho.2.2.2,ho.2.2.1,hr.2.2.base,hr.2.2.baseSizeBytes,h1,k1]

theorem open_crashed (f : Files blk) (hm : f.map=none) :
    Inv (open_ f) ∧ (open_ f).view=f.recovered ∧ (open_ f).files.base=f.base ∧ Fresh (open_ f) := by
  apply open_rebuilt
  have h := (openSized_files f).2.1
  rw [hm] at h
  simp [loadBitmapSidecar,h]

/-- Closing and opening again shows the same disk, whether the sidecar is taken or, for a disk
without blocks or a base that has outgrown it, is not. -/
theorem open_closed (h : Inv s) : Inv (open_ s.close.files) ∧ (open_ s.close.files).view=s.view ∧
      (open_ s.close.files).files.base=s.files.base ∧ Fresh (open_ s.close.files) := by
  have hrec : s.close.files.recovered=s.view := by
    rw [← h.toSound.recovered_eq]
    rfl
  cases hl : (openSized s.close.files).loadBitmapSidecar with
  | none =>
    have ho := open_rebuilt s.close.files hl
    rw [hrec] at ho
    exact ho
  | some t =>
    obtain ⟨h1,-,-,-⟩ := openSized_sizes s.close.files
    obtain ⟨k1,k2,k3,k4,-⟩ := openSized_files s.close.files
    have hmap : s.close.files.map=some ⟨cowMapMagic,s.blockCount,s.imageSizeBytes,
        s.occupancy.take ((s.blockCount+7)/8)⟩ := rfl
    rw [hmap] at k2
    have hbits : (s.occupancy.take ((s.blockCount+7)/8)).take ((s.blockCount+7)/8) =
        s.occupancy := by
      rw [take_of_length_le (by simp),take_of_length_le (by rw [h.bits])]
    unfold loadBitmapSidecar at hl
    simp only [k2,hbits] at hl
    split_ifs at hl with hc
    obtain rfl := Option.some.inj hl
    generalize hu : ({ openSized s.close.files with
      imageSizeBytes := s.imageSizeBytes
      blockCount := s.blockCount
      occupancy := s.occupancy } : Image blk)=u at *
    have hcnt : u.blockCount=s.blockCount := by rw [← hu]
    have himg : u.imageSizeBytes=s.imageSizeBytes := by rw [← hu]
    have hocc : u.occupancy=s.occupancy := by rw [← hu]
    have hfiles : u.files=(openSized s.close.files).files := by rw [← hu]
    have hbit (b : Nat) : u.bitGet b=s.bitGet b := by
      unfold bitGet
      rw [hcnt,hocc]
    have hbase : u.files.base=s.files.base := by rw [hfiles,k1]; rfl
    have hbyte : u.files.overlay.byte=s.files.overlay.byte := by rw [hfiles,k3]; rfl
    have hheld : u.files.overlay.held=s.files.overlay.held := by rw [hfiles,k4]; rfl
    have hview : u.view=s.view := by
      funext i
      simp only [view,hbit,hbase,hbyte]
    have hsound : Sound u := by
      refine ⟨⟨by rw [hcnt,himg]; exact h.count,by rw [hcnt,hocc]; exact h.bits,?_,?_,?_,
        by rw [hcnt,hbase]; exact h.baseFits⟩,?_⟩
      · rw [hcnt,hocc]
        exact h.spareBits
      · intro b
        rw [hbit,hheld]
        exact h.held b
      · intro i
        rw [hbit,hbyte]
        exact h.overlayZero i
      · intro i
        rw [hbit,hheld,hbase]
        exact h.baseZero i
    have he : openFiles s.close.files true=u := by
      rw [openFiles_eq]
      unfold loadBitmapSidecar
      simp only [k2,hbits,if_pos hc,Option.getD_some]
      exact hu
    have ho := open_sound _ u he hsound (by
      rw [hview,himg]
      exact h.zeroPast)
    refine ⟨ho.1,ho.2.1.trans hview,ho.2.2.1.trans hbase,?_⟩
    have hsz : u.baseSizeBytes=s.files.base.size := by
      rw [← hu]
      exact h1
    unfold Fresh
    rw [ho.2.2.2,ho.2.2.1,hsz,hbase]

end QUniLator.Cow.Image
