import QUniLator.Storage.CowInvariant

namespace QUniLator.Cow.Image

open List
variable {blk : Nat}

/-- The operations from `s` to `t`, with `R` holding of the files wherever they are cut short. -/
def Trail (R : Files blk → Prop) (s t : Image blk) : Prop :=
  QUniLator.Trail Files.apply R s.files s.log t.files t.log

/-- One round of the loop in `fillPage`. -/
def fillStep (s : Image blk) (b : Nat) : Image blk :=
  if s.bitGet b then s else s.storeBlock b (s.cowReadBlock b)

theorem cowReadBlock_length (s : Image blk) (b : Nat) : (s.cowReadBlock b).length=blockSize := by
  rw [cowReadBlock_eq,slice_length]

section
variable {s : Image blk} (h : Loose s) (b : Nat) (hb : b<s.blockCount)
include h hb

theorem fillStep_loose : Loose (s.fillStep b) := by
  unfold fillStep
  split_ifs
  · exact h
  · exact storeBlock_loose h b _ hb (cowReadBlock_length s b)

theorem fillStep_view : (s.fillStep b).view=s.view := by
  unfold fillStep
  split_ifs
  · rfl
  · rw [storeBlock_view h b _ hb (cowReadBlock_length s b),cowReadBlock_eq]
    funext i
    rw [patch_slice]
    split_ifs <;> rfl

theorem fillStep_bitGet (j : Nat) : (s.fillStep b).bitGet j=(decide (j=b) || s.bitGet j) := by
  unfold fillStep
  split_ifs with hs
  · by_cases hj : j=b
    · simp [hj,hs]
    · simp [hj]
  · exact storeBlock_bitGet h b _ j hb

end

theorem fillStep_kept (s : Image blk) (b : Nat) : Kept s (s.fillStep b) := by
  unfold fillStep
  split_ifs
  · exact Kept.refl s
  · exact storeBlock_kept s b _

theorem fillStep_held (s : Image blk) (b k : Nat) (hk : (s.fillStep b).files.overlay.held k) :
    s.files.overlay.held k=true ∨ k=b/pageBlocks blk := by
  unfold fillStep at hk
  split_ifs at hk
  · exact Or.inl hk
  · rw [storeBlock_held s b _ k (cowReadBlock_length s b),Bool.or_eq_true,decide_eq_true_eq] at hk
    exact hk.symm

/-- What filling the blocks from `first` to `last` has done. -/
structure Filled (s t : Image blk) (first last : Nat) : Prop where
  loose : Loose t
  kept : Kept s t
  view : t.view=s.view
  bitGet : ∀ j,t.bitGet j=(decide (first≤j ∧ j<last) || s.bitGet j)
  held : ∀ k,t.files.overlay.held k=true →
    s.files.overlay.held k=true ∨ ∃ b,first≤b ∧ b<last ∧ k=b/pageBlocks blk

variable {s : Image blk}

theorem Filled.none (h : Loose s) (first : Nat) : Filled s s first first :=
  ⟨h,Kept.refl s,rfl,fun j => by simp,fun _ hk => Or.inl hk⟩

theorem Filled.step {s t : Image blk} {first last : Nat} (h : Filled s t first last)
    (hf : first≤last) (hl : last<s.blockCount) : Filled s (t.fillStep last) first (last+1) where
  loose := fillStep_loose h.loose last (by rw [h.kept.blockCount]; exact hl)
  kept := h.kept.trans (fillStep_kept t last)
  view := (fillStep_view h.loose last (by rw [h.kept.blockCount]; exact hl)).trans h.view
  bitGet j := by
    rw [fillStep_bitGet h.loose last (by rw [h.kept.blockCount]; exact hl),h.bitGet,← Bool.or_assoc]
    congr 1
    rw [← Bool.decide_or]
    apply decide_eq_decide.mpr
    omega
  held k hk := by
    rcases fillStep_held t last k hk with hk | hk
    · rcases h.held k hk with hk | ⟨b,h1,h2,rfl⟩
      · exact Or.inl hk
      · exact Or.inr ⟨b,h1,by omega,rfl⟩
    · exact Or.inr ⟨last,hf,by omega,hk⟩

/-- Filling on from `last`, by induction on the blocks still to go: the files satisfy `R` wherever
it is cut short, when they do after each block. -/
theorem Filled.fold {R : Files blk → Prop} {s t : Image blk} {first last : Nat} (n : Nat)
    (h : Filled s t first last) (hf : first≤last) (hl : last+n ≤ s.blockCount)
    (hR : ∀ u m,last ≤ m → m≤last+n → Filled s u first m → (∀ j,t.bitGet j → u.bitGet j) → R u.files) :
    Filled s ((List.range' last n).foldl fillStep t) first (last+n) ∧
      Trail R t ((List.range' last n).foldl fillStep t) := by
  induction n generalizing t last with
  | zero => exact ⟨h,Trail.quiet (hR t last (le_refl _) (by omega) h (fun _ hj => hj)) rfl rfl⟩
  | succ n ih =>
    have hs := h.step hf (by omega)
    have hbits (j : Nat) (hj : t.bitGet j=true) : (t.fillStep last).bitGet j=true := by
      rw [fillStep_bitGet h.loose last (by rw [h.kept.blockCount]; omega),hj,Bool.or_true]
    have ht : R t.files := hR t last (le_refl _) (by omega) h (fun _ hj => hj)
    have hone : Trail R t (t.fillStep last) := by
      unfold fillStep
      split_ifs with hb
      · exact Trail.quiet ht rfl rfl
      · refine Trail.op _ ht ?_ (storeBlock_log _ _ _) (storeBlock_files _ _ _)
        have hu := hR _ (last+1) (by omega) (by omega) hs hbits
        simpa [fillStep,hb] using hu
    have hr := ih hs (by omega) (by omega) (fun u m h1 h2 hu hm =>
      hR u m (by omega) (by omega) hu (fun j hj => hm j (hbits j hj)))
    rw [range'_succ,foldl_cons]
    rw [show last+(n+1)=last+1+n by omega]
    exact ⟨hr.1,hone.trans hr.2⟩

theorem page_first (block P : Nat) (hP : 0<P) (b : Nat) : (block-block%P≤b ∧ b<block-block%P+P) ↔ b/P=block/P := by
  have hd : block-block%P=block/P*P := by
    have := Nat.div_add_mod block P
    rw [Nat.mul_comm] at this
    omega
  rw [hd,← Nat.le_div_iff_mul_le hP]
  constructor
  · rintro ⟨h1,h2⟩
    have : b/P<block/P+1 := (Nat.div_lt_iff_lt_mul hP).mpr (by rw [Nat.add_mul]; omega)
    omega
  · intro h
    refine ⟨h.ge,?_⟩
    have := (Nat.div_lt_iff_lt_mul (x := b) (y := block/P+1) hP).mp (by omega)
    rw [Nat.add_mul] at this
    omega

theorem fillPage_eq (s : Image blk) (block : Nat) : s.fillPage block=(List.range' (block-block%pageBlocks blk)
      (min (block-block%pageBlocks blk+pageBlocks blk) s.blockCount-
        (block-block%pageBlocks blk))).foldl fillStep s := rfl

theorem fillPage_steps (s : Image blk) (block first last : Nat) (hb : block<s.blockCount)
    (hf : block-block%pageBlocks blk=first) (hl : min (first+pageBlocks blk) s.blockCount=last) :
    first<last ∧ s.fillPage block = (List.range' (first+1) (last-(first+1))).foldl fillStep (s.fillStep first) := by
  have hP := pageBlocks_pos blk
  have hm := Nat.mod_le block (pageBlocks blk)
  have hlt : first<last := by omega
  refine ⟨hlt,?_⟩
  rw [fillPage_eq,hf,hl,show last-first=last-(first+1)+1 by omega,range'_succ,foldl_cons]

/-- A filled page holds every block of it the disk has, with its content. The files satisfy `R` wherever the filling
is cut short, if they do before it and once the first block is there. -/
theorem fillPage_spec {R : Files blk → Prop} (h : Loose s) (block : Nat) (hb : block<s.blockCount) (h0 : R s.files)
    (hR : ∀ u m,Filled s u (block-block%pageBlocks blk) m →
      m ≤ min (block-block%pageBlocks blk+pageBlocks blk) s.blockCount →
      u.bitGet (block-block%pageBlocks blk)=true → R u.files) :
    Filled s (s.fillPage block) (block-block%pageBlocks blk)
        (min (block-block%pageBlocks blk+pageBlocks blk) s.blockCount) ∧ Trail R s (s.fillPage block) := by
  generalize hf : block-block%pageBlocks blk=first at *
  generalize he : min (first+pageBlocks blk) s.blockCount=last at *
  obtain ⟨hlt,hsteps⟩ := fillPage_steps s block first last hb hf he
  have hone := (Filled.none h first).step (le_refl _) (show first<s.blockCount by omega)
  have hbit : (s.fillStep first).bitGet first=true := by
    rw [fillStep_bitGet h first (by omega)]
    simp
  have htrail : Trail R s (s.fillStep first) := by
    have h1 : R (s.fillStep first).files := hR _ _ hone (by omega) hbit
    unfold fillStep at h1 ⊢
    split_ifs with hc
    · exact Trail.quiet h0 rfl rfl
    · rw [if_neg hc] at h1
      exact Trail.op _ h0 h1 (storeBlock_log _ _ _) (storeBlock_files _ _ _)
  have hrest := hone.fold (R := R) (last-(first+1)) (by omega) (by omega)
    (fun u m h1 h2 hu hmono => hR u m hu (by omega) (hmono first hbit))
  rw [show first+1+(last-(first+1))=last by omega] at hrest
  rw [hsteps]
  exact ⟨hrest.1,htrail.trans hrest.2⟩

/-- Where crash recovery may see a half filled page: nowhere but in the page being filled, and there
only in blocks that are not in yet. -/
theorem Filled.recovered_eq {s u : Image blk} {block m : Nat}
    (h : Filled s u (block-block%pageBlocks blk) m) (hs : Sound s)
    (hm : m≤block-block%pageBlocks blk+pageBlocks blk) (i : Nat)
    (hz : i/pageSize blk=block/pageBlocks blk → s.files.overlay.held (i/pageSize blk)=false →
      u.bitGet (i/blockSize)=false → s.files.base.byte i=0) : u.files.recovered i=s.view i := by
  rw [h.loose.recovered_eq i ?_,h.view]
  intro hbit hheld
  rw [h.kept.base]
  have hbs : s.bitGet (i/blockSize)=false := by
    rw [h.bitGet,Bool.or_eq_false_iff] at hbit
    exact hbit.2
  cases hh : s.files.overlay.held (i/pageSize blk) with
  | true => exact hs.baseZero i hbs hh
  | false =>
    rcases h.held _ hheld with hc | ⟨b,h1,h2,he⟩
    · rw [hc] at hh
      exact absurd hh (by decide)
    · refine hz ?_ hh hbit
      rw [he]
      exact (page_first block _ (pageBlocks_pos blk) b).mp ⟨h1,by omega⟩

theorem Filled.sound {s t : Image blk} {block : Nat} (h : Filled s t (block-block%pageBlocks blk)
      (min (block-block%pageBlocks blk+pageBlocks blk) s.blockCount)) (hs : Sound s) : Sound t where
  toLoose := h.loose
  baseZero i hbit hheld := by
    rw [h.kept.base]
    rw [h.bitGet,Bool.or_eq_false_iff,decide_eq_false_iff_not] at hbit
    cases hh : s.files.overlay.held (i/pageSize blk) with
    | true => exact hs.baseZero i hbit.2 hh
    | false =>
      rcases h.held _ hheld with hc | ⟨b,h1,h2,he⟩
      · rw [hc] at hh
        exact absurd hh (by decide)
      · have hpage : i/blockSize/pageBlocks blk=block/pageBlocks blk := by
          rw [← div_pageSize,he]
          exact (page_first block _ (pageBlocks_pos blk) b).mp ⟨h1,by omega⟩
        have hin := (page_first block _ (pageBlocks_pos blk) (i/blockSize)).mpr hpage
        have hpast : s.blockCount ≤ i/blockSize := by omega
        apply s.files.base.pastEnd
        refine hs.baseFits.trans ?_
        exact (Nat.le_div_iff_mul_le (by decide)).mp hpast

theorem grow_loose (h : Loose s) (bits : List UInt8) (image blocks : Nat)
    (hbits : bits=if s.occupancy.length<(blocks+7)/8 then
      s.occupancy++replicate ((blocks+7)/8-s.occupancy.length) 0 else s.occupancy)
    (hc : blocks=(image+blockSize-1)/blockSize) (hi : s.imageSizeBytes ≤ image) : let t : Image blk :=
      { s with imageSizeBytes := image,blockCount := blocks,occupancy := bits }
    Loose t ∧ (∀ b,t.bitGet b=s.bitGet b) ∧ t.view=s.view := by
  intro t
  have hge : s.blockCount≤blocks := by
    rw [h.count,hc]
    exact Nat.div_le_div_right (by omega)
  have hget (b : Nat) : getBit .lsb bits b=getBit .lsb s.occupancy b := by
    rw [hbits]
    split_ifs
    · exact getBit_append_zero _ _ _ _
    · rfl
  have hlen : bits.length=(blocks+7)/8 := by
    have hb := h.bits
    rw [hbits]
    split_ifs
    · simp
      omega
    · omega
  have hbit (b : Nat) : t.bitGet b=s.bitGet b := by
    rw [h.bitGet_eq,← hget]
    change (if blocks≤b then false else getBit .lsb bits b)=_
    split_ifs with hb
    · rw [hget,h.spareBits b (by omega)]
    · rfl
  refine ⟨⟨hc,hlen,?_,?_,?_,h.baseFits.trans (Nat.mul_le_mul_right _ hge)⟩,hbit,?_⟩
  · intro b hb
    change getBit .lsb bits b=false
    rw [hget]
    exact h.spareBits b (hge.trans hb)
  · intro b hb
    exact h.held b ((hbit b).symm.trans hb)
  · intro i hb
    exact h.overlayZero i ((hbit _).symm.trans hb)
  · funext i
    simp only [view,hbit]
    rfl

/-- What growing the disk leaves alone and what it does. -/
structure Grown (s t : Image blk) (blocks : Nat) : Prop where
  sound : Sound t
  files : t.files=s.files
  log : t.log=s.log
  opened : t.opened=s.opened
  baseSizeBytes : t.baseSizeBytes=s.baseSizeBytes
  bitGet : ∀ b,t.bitGet b=s.bitGet b
  view : t.view=s.view
  blockCount : t.blockCount=max s.blockCount blocks
  image : s.imageSizeBytes≤t.imageSizeBytes

theorem ensureBlocks_grown (h : Sound s) (n : Nat) : Grown s (s.ensureBlocks n) n := by
  by_cases hn : n ≤ s.blockCount
  · rw [ensureBlocks,if_pos hn]
    exact ⟨h,rfl,rfl,rfl,rfl,fun _ => rfl,rfl,by omega,le_refl _⟩
  · have hle := h.size_le
    have hlt : s.imageSizeBytes<n*blockSize :=
      hle.trans_lt (Nat.mul_lt_mul_of_pos_right (by omega) (by decide))
    have hg := grow_loose h.toLoose _ (n*blockSize) n rfl
      (by unfold blockSize; omega) hlt.le
    simp only [ensureBlocks,if_neg hn,if_pos hlt]
    refine ⟨⟨hg.1,?_⟩,rfl,rfl,rfl,rfl,hg.2.1,hg.2.2,by simp; omega,hlt.le⟩
    intro i hb hh
    exact h.baseZero i ((hg.2.1 _).symm.trans hb) hh

theorem storeBlock_sound (h : Sound s) (b : Nat) (bs : List UInt8)
    (hl : bs.length=blockSize) (hset : s.bitGet b) : Sound (s.storeBlock b bs) := by
  have hb : b<s.blockCount := by
    by_contra hn
    rw [bitGet_past s b (by omega)] at hset
    exact absurd hset (by decide)
  refine ⟨storeBlock_loose h.toLoose b bs hb hl,?_⟩
  intro i hbit hh
  rw [storeBlock_bitGet h.toLoose b bs _ hb,Bool.or_eq_false_iff] at hbit
  rw [storeBlock_held s b bs _ hl,Bool.or_eq_true,decide_eq_true_eq] at hh
  rcases hh with hh | hh
  · refine h.baseZero i hbit.2 ?_
    rw [hh]
    exact h.held b hset
  · exact h.baseZero i hbit.2 hh

/-- The files read back as `v` wherever `out` holds, and there is no sidecar to say otherwise. -/
def ReadsBack (out : Nat → Prop) (v : Nat → UInt8) (f : Files blk) : Prop :=
  f.map=none ∧ ∀ i,out i → f.recovered i=v i

def Touched (blk pos len k : Nat) : Prop :=
  pos/pageSize blk≤k ∧ k*pageSize blk<pos+len ∧ 0<len

theorem touched_append (pos m n k : Nat) :
    Touched blk pos (m+n) k ↔ Touched blk pos m k ∨ Touched blk (pos+m) n k := by
  have hp : 0<pageSize blk := by
    rw [pageSize_eq]
    exact Nat.mul_pos (pageBlocks_pos blk) (by decide)
  have hdiv (a : Nat) : a/pageSize blk≤k ↔ a<k*pageSize blk+pageSize blk := by
    rw [← Nat.lt_succ_iff,Nat.div_lt_iff_lt_mul hp,Nat.succ_mul]
  unfold Touched
  rw [hdiv,hdiv]
  omega

theorem touched_block (blk block off n k : Nat) (hn : 0<n) (hfit : off+n≤blockSize) :
    Touched blk (block*blockSize+off) n k ↔ k=block/pageBlocks blk := by
  have hP := pageBlocks_pos blk
  have hoff : (block*blockSize+off)/blockSize=block := div_blockSize _ _ (by omega) (by omega)
  have hlt : k*pageBlocks blk*blockSize<block*blockSize+off+n ↔ k*pageBlocks blk≤block := by
    unfold blockSize at *
    omega
  unfold Touched
  rw [div_pageSize,hoff,pageSize_eq,← Nat.mul_assoc,hlt,← Nat.le_div_iff_mul_le hP]
  omega

/-- What `write` has done: `src` is at `pos`, the rest is as it was. -/
structure Wrote (s t : Image blk) (pos : Nat) (src : List UInt8) : Prop where
  sound : Sound t
  view : t.view=patch s.view pos src
  base : t.files.base=s.files.base
  map : t.files.map=s.files.map
  opened : t.opened=s.opened
  baseSizeBytes : t.baseSizeBytes=s.baseSizeBytes
  image : s.imageSizeBytes≤t.imageSizeBytes
  held : ∀ k,t.files.overlay.held k=true ↔
    s.files.overlay.held k=true ∨ Touched blk pos src.length k

theorem Wrote.none (h : Sound s) (pos : Nat) : Wrote s s pos [] :=
  ⟨h,by simp,rfl,rfl,rfl,rfl,le_refl _,fun k => by simp [Touched]⟩

theorem Wrote.trans {s t u : Image blk} {pos : Nat} {as bs : List UInt8} (h : Wrote s t pos as)
    (k : Wrote t u (pos+as.length) bs) : Wrote s u pos (as++bs) where
  sound := k.sound
  view := by rw [k.view,h.view,patch_append]
  base := k.base.trans h.base
  map := k.map.trans h.map
  opened := k.opened.trans h.opened
  baseSizeBytes := k.baseSizeBytes.trans h.baseSizeBytes
  image := h.image.trans k.image
  held p := by rw [k.held,h.held,length_append,touched_append,or_assoc]

/-- No byte to be kept stands in a page still to be filled, except in its first block. -/
def FillClear (s : Image blk) (out : Nat → Prop) (page : Nat) : Prop :=
  s.files.overlay.held page=false → ∀ i,out i → i/pageSize blk=page →
    i/blockSize%pageBlocks blk≠0 → s.files.base.byte i=0

theorem Wrote.fillClear {s t : Image blk} {pos : Nat} {src : List UInt8} (h : Wrote s t pos src)
    (out : Nat → Prop) (page : Nat) (hc : FillClear s out page) : FillClear t out page := by
  intro hh i hi hp hb
  rw [h.base]
  refine hc ?_ i hi hp hb
  rw [← Bool.not_eq_true] at hh ⊢
  exact fun hs => hh ((h.held page).mpr (Or.inl hs))

theorem fillFirst_spec (h : Sound s) (block : Nat) (hb : block<s.blockCount)
    (out : Nat → Prop) (hmap : s.files.map=none) (hclear : FillClear s out (block/pageBlocks blk)) :
    let t := if s.bitGet block then s else s.fillPage block
    Sound t ∧ t.view=s.view ∧ Kept s t ∧ t.bitGet block=true ∧ (∀ k,t.files.overlay.held k=true →
        s.files.overlay.held k=true ∨ k=block/pageBlocks blk) ∧
      Trail (ReadsBack out s.view) s t := by
  intro t
  have h0 : ReadsBack out s.view s.files := ⟨hmap,fun i _ => congrFun h.recovered_eq i⟩
  have hP := pageBlocks_pos blk
  by_cases hc : s.bitGet block=true
  · rw [show t=s by simp [t,hc]]
    exact ⟨h,rfl,Kept.refl s,hc,fun _ hk => Or.inl hk,Trail.quiet h0 rfl rfl⟩
  · rw [show t=s.fillPage block by simp [t,hc]]
    have hf := fillPage_spec (R := ReadsBack out s.view) h.toLoose block hb h0 (by
      intro u m hu hm hfirst
      refine ⟨by rw [hu.kept.map]; exact hmap,fun i hi => ?_⟩
      refine hu.recovered_eq h (by omega) i ?_
      intro hpage hheld hbit
      refine hclear (hpage ▸ hheld) i hi hpage ?_
      -- the first block of the page is in, so a byte not in yet is not of it
      intro hzero
      have hfb : i/blockSize=block-block%pageBlocks blk := by
        have hd := Nat.div_add_mod (i/blockSize) (pageBlocks blk)
        have hd' := Nat.div_add_mod block (pageBlocks blk)
        rw [← div_pageSize,hpage,hzero] at hd
        omega
      rw [hfb,hfirst] at hbit
      exact absurd hbit (by decide))
    refine ⟨hf.1.sound h,hf.1.view,hf.1.kept,?_,?_,hf.2⟩
    · have hin := (page_first block _ hP block).mpr rfl
      rw [hf.1.bitGet]
      simp
      omega
    · intro k hk
      rcases hf.1.held k hk with hk | ⟨b,h1,h2,rfl⟩
      · exact Or.inl hk
      · exact Or.inr ((page_first block _ hP b).mp ⟨h1,by omega⟩)

theorem writeBlock_stores (s : Image blk) (block off : Nat) (src : List UInt8)
    (hfit : off+src.length≤blockSize) (s2 : Image blk) (hs2 : s2=(let s := s.ensureBlocks (block+1)
      if s.bitGet block then s else s.fillPage block)) :
    ∃ bs,s.writeBlock block off src=s2.storeBlock block bs ∧ bs.length=blockSize ∧
      patch s2.view (block*blockSize) bs=patch s2.view (block*blockSize+off) src := by
  by_cases hw : off=0 ∧ src.length=blockSize
  · refine ⟨src,?_,hw.2,by rw [hw.1,Nat.add_zero]⟩
    simp only [writeBlock,hs2,if_pos hw]
  · refine ⟨overwrite (s2.cowReadBlock block) off src,?_,?_,?_⟩
    · simp only [writeBlock,hs2,if_neg hw]
    · rw [overwrite_length _ _ _ (by rw [cowReadBlock_length]; exact hfit),cowReadBlock_length]
    · rw [cowReadBlock_eq]
      exact patch_overwrite _ _ _ _ _ hfit

theorem writeBlock_spec (h : Sound s) (block off : Nat) (src : List UInt8)
    (hfit : off+src.length≤blockSize) (hne : 0<src.length) (out : Nat → Prop)
    (hmap : s.files.map=none) (hclear : FillClear s out (block/pageBlocks blk))
    (hout : ∀ i,out i → ¬(block*blockSize+off ≤ i ∧ i<block*blockSize+off+src.length)) :
    Wrote s (s.writeBlock block off src) (block*blockSize+off) src ∧
      Trail (ReadsBack out s.view) s (s.writeBlock block off src) := by
  have hg := ensureBlocks_grown h (block+1)
  obtain ⟨bs,hbs,hlen,hpatch⟩ := writeBlock_stores s block off src hfit _ rfl
  simp only at hbs hpatch
  generalize s.ensureBlocks (block+1)=s1 at hg hbs hpatch
  have hb1 : block<s1.blockCount := by rw [hg.blockCount]; omega
  have hclear1 : FillClear s1 out (block/pageBlocks blk) := by
    unfold FillClear
    rw [hg.files]
    exact hclear
  obtain ⟨hsound,hview,hkept,hset,hheld,htrail⟩ :=
    fillFirst_spec hg.sound block hb1 out (by rw [hg.files]; exact hmap) hclear1
  generalize (if s1.bitGet block=true then s1 else s1.fillPage block)=s2 at *
  rw [hg.view] at hview htrail
  have hb2 : block<s2.blockCount := by rw [hkept.blockCount]; exact hb1
  have hk := hkept.trans (storeBlock_kept s2 block bs)
  have hsnd := storeBlock_sound hsound block bs hlen hset
  have hvw : (s2.storeBlock block bs).view=patch s.view (block*blockSize+off) src := by
    rw [storeBlock_view hsound.toLoose block bs hb2 hlen,hpatch,hview]
  have hmap2 : s2.files.map=none := by rw [hkept.map,hg.files]; exact hmap
  have hlast : Trail (ReadsBack out s.view) s2 (s2.storeBlock block bs) := by
    have h2 : ReadsBack out s.view s2.files := ⟨hmap2,fun i _ => by rw [hsound.recovered_eq,hview]⟩
    refine Trail.op _ h2 ?_ (storeBlock_log _ _ _) (storeBlock_files _ _ _)
    refine ⟨hmap2,fun i hi => ?_⟩
    rw [hsnd.recovered_eq,hvw,patch_outside _ _ _ _ (hout i hi)]
  rw [hbs]
  refine ⟨⟨hsnd,hvw,by rw [hk.base,hg.files],by rw [hk.map,hg.files],
    hk.opened.trans hg.opened,hk.baseSizeBytes.trans hg.baseSizeBytes,
    by rw [hk.imageSizeBytes]; exact hg.image,?_⟩,?_⟩
  · intro k
    rw [storeBlock_held s2 block bs k hlen,touched_block blk block off _ k hne hfit,Bool.or_eq_true,
      decide_eq_true_eq,← hg.files]
    constructor
    · rintro (hk | hk)
      · exact Or.inr hk
      · exact hheld k hk
    · rintro (hk | hk)
      · exact Or.inr (hkept.held k hk)
      · exact Or.inl hk
  · have h0 : ReadsBack out s.view s.files := ⟨hmap,fun i _ => congrFun h.recovered_eq i⟩
    exact ((Trail.quiet h0 hg.log hg.files).trans htrail).trans hlast

/-- One round of the loop in `write`, for the bytes `buffer` going to `position`. -/
def writeStep (buffer : List UInt8) (position : Nat) (s : Image blk) (p : Piece) : Image blk :=
  s.writeBlock p.block p.off ((buffer.drop (p.pos blockSize-position)).take p.n)

theorem writeStep_eq (t : Image blk) (buffer : List UInt8) (position pos len : Nat)
    (hp : position≤pos) (he : pos+len=position+buffer.length) (n : Nat)
    (hn : min (blockSize-pos%blockSize) len=n) : ∃ src,src.length=n ∧
      buffer.take (pos+n-position)=buffer.take (pos-position)++src ∧
      writeStep buffer position t ⟨pos/blockSize,pos%blockSize,n⟩ =
        t.writeBlock (pos/blockSize) (pos%blockSize) src := by
  refine ⟨(buffer.drop (pos-position)).take n,?_,?_,?_⟩
  · simp
    omega
  · rw [show pos+n-position=(pos-position)+n by omega,take_add]
  · simp only [writeStep,piece_pos]

theorem div_mul_mod (pos : Nat) : pos/blockSize*blockSize+pos%blockSize=pos := by
  rw [Nat.mul_comm]
  exact Nat.div_add_mod pos blockSize

/-- Where the loop of `write` is, with `len` bytes to go from `pos` on. -/
structure Writing (s : Image blk) (buffer : List UInt8) (position : Nat) (out : Nat → Prop)
    (t : Image blk) (pos len : Nat) : Prop where
  start : position≤pos
  left : pos+len=position+buffer.length
  wrote : Wrote s t position (buffer.take (pos-position))
  trail : Trail (ReadsBack out s.view) s t

theorem Writing.touches {s t : Image blk} {buffer : List UInt8} {position pos len : Nat}
    {out : Nat → Prop} (h : Writing s buffer position out t pos len) (hl : 0<len) :
    Touched blk position buffer.length (pos/blockSize/pageBlocks blk) := by
  have hp := h.start
  have he := h.left
  have hm := Nat.mod_lt pos (show 0<blockSize by decide)
  have hb : Touched blk (pos/blockSize*blockSize+pos%blockSize) 1 (pos/blockSize/pageBlocks blk) :=
    (touched_block _ _ _ _ _ (by decide) (by omega)).mpr rfl
  rw [div_mul_mod] at hb
  rw [show buffer.length=pos-position+(1+(len-1)) by omega,touched_append,
    Nat.add_sub_cancel' hp,touched_append]
  exact Or.inr (Or.inl hb)

/-- One round of `write` puts the next piece on the disk; cut short anywhere, it leaves every byte
in `out` readable when no page to be filled keeps it. -/
theorem Writing.step {s t : Image blk} {buffer : List UInt8} {position pos len : Nat}
    {out : Nat → Prop} (h : Writing s buffer position out t pos len) (hl : 0<len) (hmap : s.files.map=none)
    (hclear : ∀ k,Touched blk position buffer.length k → FillClear s out k)
    (hout : ∀ i,out i → ¬(position ≤ i ∧ i<position+buffer.length)) (n : Nat)
    (hn : min (blockSize-pos%blockSize) len=n) : Writing s buffer position out
      (writeStep buffer position t ⟨pos/blockSize,pos%blockSize,n⟩) (pos+n) (len-n) := by
  have hp := h.start
  have he := h.left
  have hm := Nat.mod_lt pos (show 0<blockSize by decide)
  have htk : (buffer.take (pos-position)).length=pos-position := by
    simp
    omega
  obtain ⟨src,hsrc,htake,hstep⟩ := writeStep_eq t buffer position pos len hp he n hn
  have hb := writeBlock_spec h.wrote.sound (pos/blockSize) (pos%blockSize) src (by omega)
    (by omega) out (h.wrote.map.trans hmap)
    (h.wrote.fillClear out _ (hclear _ (h.touches hl)))
    (by
      intro i hi
      have := hout i hi
      rw [div_mul_mod]
      omega)
  rw [div_mul_mod] at hb
  have hread : ∀ f : Files blk,ReadsBack out t.view f → ReadsBack out s.view f := by
    rintro f ⟨hf,hv⟩
    refine ⟨hf,fun i hi => ?_⟩
    rw [hv i hi,h.wrote.view,patch_outside]
    have := hout i hi
    rw [htk]
    omega
  rw [hstep]
  refine ⟨by omega,by omega,?_,h.trail.trans (hb.2.mono hread)⟩
  rw [htake]
  refine h.wrote.trans ?_
  rw [htk,Nat.add_sub_cancel' hp]
  exact hb.1

theorem Writing.begin (h : Sound s) (hmap : s.files.map=none)
    (buffer : List UInt8) (position : Nat) (out : Nat → Prop) :
    Writing s buffer position out s position buffer.length :=
  ⟨le_refl _,rfl,by simpa using Wrote.none h position,
    Trail.quiet ⟨hmap,fun i _ => congrFun h.recovered_eq i⟩ rfl rfl⟩

theorem writeSteps_spec (h : Sound s) (hmap : s.files.map=none)
    (buffer : List UInt8) (position : Nat) (out : Nat → Prop)
    (hclear : ∀ k,Touched blk position buffer.length k → FillClear s out k)
    (hout : ∀ i,out i → ¬(position ≤ i ∧ i<position+buffer.length)) :
    Wrote s ((pieces blockSize position buffer.length).foldl (writeStep buffer position) s)
        position buffer ∧ Trail (ReadsBack out s.view) s
        ((pieces blockSize position buffer.length).foldl (writeStep buffer position) s) := by
  have hr := foldl_pieces_induct (by decide) (writeStep buffer position)
    (Writing s buffer position out)
    (fun _ _ _ hl ht => ht.step hl hmap hclear hout _ rfl) s position buffer.length
    (.begin h hmap buffer position out)
  exact ⟨by simpa using hr.wrote,hr.trail⟩

theorem write_eq (s : Image blk) (buffer : List UInt8) (position : Nat) : s.write buffer position =
      (let t := (pieces blockSize position buffer.length).foldl (writeStep buffer position) s
      if t.imageSizeBytes<position+buffer.length then
        let imageSizeBytes := position+buffer.length
        let blockCount := (imageSizeBytes+blockSize-1)/blockSize
        let needBytes := (blockCount+7)/8
        { t with
          imageSizeBytes := imageSizeBytes
          blockCount := blockCount
          occupancy :=
            if t.occupancy.length<needBytes then
              t.occupancy++replicate (needBytes-t.occupancy.length) 0
            else t.occupancy }
      else t) := rfl

theorem write_spec (h : Sound s) (hmap : s.files.map=none) (buffer : List UInt8) (position : Nat) (out : Nat → Prop)
    (hclear : ∀ k,Touched blk position buffer.length k → FillClear s out k)
    (hout : ∀ i,out i → ¬(position ≤ i ∧ i<position+buffer.length)) :
    Wrote s (s.write buffer position) position buffer ∧
      position+buffer.length≤(s.write buffer position).imageSizeBytes ∧
      Trail (ReadsBack out s.view) s (s.write buffer position) := by
  have hw := writeSteps_spec h hmap buffer position out hclear hout
  rw [write_eq]
  generalize (pieces blockSize position buffer.length).foldl (writeStep buffer position) s=t
    at hw
  simp only
  by_cases hlt : t.imageSizeBytes<position+buffer.length
  · rw [if_pos hlt]
    have hg := grow_loose hw.1.sound.toLoose _ (position+buffer.length) _ rfl rfl hlt.le
    refine ⟨⟨⟨hg.1,?_⟩,hg.2.2.trans hw.1.view,hw.1.base,hw.1.map,hw.1.opened,hw.1.baseSizeBytes,
      hw.1.image.trans hlt.le,hw.1.held⟩,le_refl _,?_⟩
    · intro i hb hh
      exact hw.1.sound.baseZero i ((hg.2.1 _).symm.trans hb) hh
    · obtain ⟨ops,hl,hf,hc⟩ := hw.2
      exact ⟨ops,hl,hf,hc⟩
  · rw [if_neg hlt]
    exact ⟨hw.1,by omega,hw.2⟩

theorem write_inv (h : Inv s) (buffer : List UInt8) (position : Nat) :
    Inv (s.write buffer position) ∧ (s.write buffer position).view=patch s.view position buffer ∧
      (s.write buffer position).files.base=s.files.base ∧
      (s.write buffer position).baseSizeBytes=s.baseSizeBytes := by
  have hw := write_spec h.toSound h.noMap buffer position (fun _ => False)
    (fun _ _ _ _ hi => hi.elim) (fun _ hi => hi.elim)
  refine ⟨⟨hw.1.sound,?_,hw.1.map.trans h.noMap,hw.1.opened.trans h.isOpen⟩,hw.1.view,
    hw.1.base,hw.1.baseSizeBytes⟩
  intro i hi
  rw [hw.1.view,patch_after _ _ _ _ (hw.2.1.trans hi)]
  exact h.zeroPast i (hw.1.image.trans hi)

end QUniLator.Cow.Image
