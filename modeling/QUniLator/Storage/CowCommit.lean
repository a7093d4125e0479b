import QUniLator.Storage.CowOpen

namespace QUniLator.Cow.Image

open List
variable {blk : Nat}

theorem overlay_empty (o : SparseFile (pageSize blk)) (h : ∀ k,o.held k=false) (i : Nat) : o.byte i=0 :=
  o.hole i (h _)

theorem discard_overlay (s : Image blk) (k : Nat) : (s.files.overlay.ftruncate 0).held k=false ∧
      ((s.files.overlay.ftruncate 0).ftruncate s.baseSizeBytes).held k=false := by
  constructor
  · change (s.files.overlay.held k && decide (k*pageSize blk<0))=false
    simp
  · change (s.files.overlay.held k && decide (k*pageSize blk<0) && decide _)=false
    simp

variable {s : Image blk}

theorem discard_spec (hf : Fresh s) (ho : s.opened) : Inv s.discard ∧ s.discard.view=s.files.base.byte ∧
      s.discard.files.base=s.files.base ∧ Fresh s.discard := by
  have hheld (k : Nat) : s.discard.files.overlay.held k=false := (discard_overlay s k).2
  have hbit (b : Nat) : s.discard.bitGet b=false := by
    change (if (s.baseSizeBytes+blockSize-1)/blockSize≤b then false
      else getBit .lsb (replicate _ 0) b)=false
    simp
  have hview : s.discard.view=s.files.base.byte := by
    funext i
    simp only [view,hbit]
    rfl
  have hloose : Loose s.discard := by
    refine ⟨rfl,by simp [discard,sys],?_,?_,?_,?_⟩
    · intro b hb
      change getBit .lsb (replicate _ 0) b=false
      simp
    · intro b hb
      rw [hbit] at hb
      exact absurd hb (by decide)
    · intro i _
      exact overlay_empty _ hheld i
    · change s.files.base.size≤(s.baseSizeBytes+blockSize-1)/blockSize*blockSize
      rw [hf]
      unfold blockSize
      omega
  refine ⟨⟨⟨hloose,?_⟩,?_,rfl,ho⟩,hview,rfl,hf⟩
  · intro i _ hh
    rw [hheld] at hh
    exact absurd hh (by decide)
  · intro i hi
    rw [hview]
    change s.baseSizeBytes ≤ i at hi
    exact s.files.base.pastEnd i (hf ▸ hi)

theorem discard_trail (hm : s.files.map=none) (hr : s.files.recovered=s.files.base.byte) :
    Trail (ReadsBack (fun _ => True) s.files.base.byte) s s.discard := by
  have hempty (o : SparseFile (pageSize blk)) (h : ∀ k,o.held k=false) (i : Nat) :
      (⟨s.files.base,o,none⟩ : Files blk).recovered i=s.files.base.byte i := by
    simp [Files.recovered,h]
  have h0 := fun k => (discard_overlay s k).1
  have h1 := fun k => (discard_overlay s k).2
  refine ⟨[.overlayFtruncate 0,.overlayFtruncate s.baseSizeBytes,.mapUnlink],by
    simp [discard,sys],rfl,?_⟩
  refine .cons ⟨hm,fun i _ => by rw [hr]⟩ (.cons ⟨hm,fun i _ => ?_⟩
    (.cons ⟨hm,fun i _ => ?_⟩ (.nil ⟨rfl,fun i _ => ?_⟩)))
  · exact (congrArg (fun m => (⟨_,_,m⟩ : Files blk).recovered i) hm).trans (hempty _ h0 i)
  · exact (congrArg (fun m => (⟨_,_,m⟩ : Files blk).recovered i) hm).trans (hempty _ h1 i)
  · exact hempty _ h1 i

/-- Where the copying loop of `commit` has got to: the base has taken some of the blocks the overlay
shadows, and nothing else has changed. -/
structure Folding (s t : Image blk) : Prop where
  blockCount : t.blockCount=s.blockCount
  imageSizeBytes : t.imageSizeBytes=s.imageSizeBytes
  baseSizeBytes : t.baseSizeBytes=s.baseSizeBytes
  occupancy : t.occupancy=s.occupancy
  overlay : t.files.overlay=s.files.overlay
  map : t.files.map=s.files.map
  opened : t.opened=s.opened
  clear : ∀ i,s.bitGet (i/blockSize)=false → t.files.base.byte i=s.files.base.byte i
  fits : t.files.base.size ≤ s.blockCount*blockSize

section
variable {s t : Image blk}

theorem Folding.start (h : Sound s) : Folding s s :=
  ⟨rfl,rfl,rfl,rfl,rfl,rfl,rfl,fun _ _ => rfl,h.baseFits⟩

theorem Folding.bitGet (h : Folding s t) (b : Nat) : t.bitGet b=s.bitGet b := by
  unfold Image.bitGet
  rw [h.blockCount,h.occupancy]

theorem Folding.view (h : Folding s t) : t.view=s.view := by
  funext i
  unfold Image.view
  rw [h.bitGet,h.overlay]
  split_ifs with hb
  · rfl
  · exact h.clear i (by simpa using hb)

theorem Folding.sound (h : Folding s t) (hs : Sound s) : Sound t := by
  refine ⟨⟨?_,?_,?_,?_,?_,?_⟩,?_⟩
  · rw [h.blockCount,h.imageSizeBytes]
    exact hs.count
  · rw [h.occupancy,h.blockCount]
    exact hs.bits
  · rw [h.blockCount,h.occupancy]
    exact hs.spareBits
  · intro b
    rw [h.bitGet,h.overlay]
    exact hs.held b
  · intro i
    rw [h.bitGet,h.overlay]
    exact hs.overlayZero i
  · rw [h.blockCount]
    exact h.fits
  · intro i hb hh
    rw [h.bitGet] at hb
    rw [h.overlay] at hh
    rw [h.clear i hb]
    exact hs.baseZero i hb hh

theorem Folding.inv (h : Folding s t) (hs : Inv s) : Inv t :=
  ⟨h.sound hs.toSound,by rw [h.imageSizeBytes,h.view]; exact hs.zeroPast,h.map.trans hs.noMap,
    h.opened.trans hs.isOpen⟩

theorem Folding.readsBack (h : Folding s t) (hs : Inv s) : ReadsBack (fun _ => True) s.view t.files :=
  ⟨h.map.trans hs.noMap,fun i _ => by rw [(h.sound hs.toSound).recovered_eq,h.view]⟩

theorem Folding.step (h : Folding s t) (b n : Nat) (hb : s.bitGet b) (hn : n≤blockSize) :
    let u := t.sys (.basePwrite ((preadBlock t.files.overlay.toFile b).take n) (b*blockSize))
    Folding s u ∧ ∀ i,u.files.base.byte i =
      if b*blockSize ≤ i ∧ i<b*blockSize+n then s.files.overlay.byte i
      else t.files.base.byte i := by
  intro u
  have hlt : b<s.blockCount := by
    by_contra hc
    rw [bitGet_past s b (by omega)] at hb
    exact absurd hb (by decide)
  have hbyte (i : Nat) : u.files.base.byte i =
      if b*blockSize ≤ i ∧ i<b*blockSize+n then s.files.overlay.byte i
      else t.files.base.byte i := by
    change (t.files.base.pwrite _ _).byte i=_
    rw [File.pwrite_byte,preadBlock_eq,slice_take _ _ _ _ hn,patch_slice,h.overlay]
  refine ⟨⟨h.blockCount,h.imageSizeBytes,h.baseSizeBytes,h.occupancy,h.overlay,h.map,h.opened,?_,
    ?_⟩,hbyte⟩
  · intro i hi
    rw [hbyte,if_neg]
    · exact h.clear i hi
    · intro hc
      rw [div_blockSize b i hc.1 (by omega),hb] at hi
      exact absurd hi (by decide)
  · change (t.files.base.pwrite _ _).size ≤ _
    by_cases hz : (preadBlock t.files.overlay.toFile b).take n=[]
    · rw [hz]
      exact h.fits
    · rw [File.pwrite_size _ _ _ hz,preadBlock_eq]
      have hfit := h.fits
      have hle : b*blockSize+blockSize ≤ s.blockCount*blockSize := by
        unfold blockSize
        omega
      simp
      omega

end

theorem commitBlocks_spec (h : Inv s) (fault : Nat → Option (Fin blockSize))
    (bs : List Nat) {t : Image blk} (ht : Folding s t) : Folding s (commitBlocks fault bs t).1 ∧
      Trail (ReadsBack (fun _ => True) s.view) t (commitBlocks fault bs t).1 ∧
      ((commitBlocks fault bs t).2 → ∀ i, i/blockSize∈bs ∨ t.files.base.byte i=s.view i →
          (commitBlocks fault bs t).1.files.base.byte i=s.view i) := by
  induction bs generalizing t with
  | nil =>
    refine ⟨ht,.quiet (ht.readsBack h) rfl rfl,fun _ i hi => ?_⟩
    rcases hi with hi | hi
    · exact absurd hi (by simp)
    · exact hi
  | cons b bs ih =>
    by_cases hb : t.bitGet b=true
    · have hbs : s.bitGet b=true := (ht.bitGet b).symm.trans hb
      cases hf : fault b with
      | some n =>
        have hu := (ht.step b n hbs n.isLt.le).1
        simp only [commitBlocks,if_pos hb,hf]
        refine ⟨hu,.op _ (ht.readsBack h) (hu.readsBack h) rfl rfl,?_⟩
        exact fun hc => absurd hc (by decide)
      | none =>
        have hlen : (preadBlock t.files.overlay.toFile b).take blockSize =
            preadBlock t.files.overlay.toFile b := by
          rw [preadBlock_eq]
          exact take_of_length_le (by simp)
        obtain ⟨hu,hbyte⟩ := ht.step b blockSize hbs (le_refl _)
        rw [hlen] at hu hbyte
        simp only [commitBlocks,if_pos hb,hf]
        have hr := ih hu
        refine ⟨hr.1,(Trail.op _ (ht.readsBack h) (hu.readsBack h) rfl rfl).trans hr.2.1,?_⟩
        intro hok i hi
        refine hr.2.2 hok i ?_
        by_cases hin : b*blockSize ≤ i ∧ i<b*blockSize+blockSize
        · right
          rw [hbyte,if_pos hin,view,div_blockSize b i hin.1 hin.2,if_pos hbs]
        · rw [hbyte,if_neg hin]
          refine hi.imp_left ?_
          intro hm
          rcases mem_cons.mp hm with he | hm
          · exfalso
            apply hin
            unfold blockSize at *
            omega
          · exact hm
    · simp only [commitBlocks,if_neg hb]
      have hr := ih ht
      refine ⟨hr.1,hr.2.1,?_⟩
      intro hok i hi
      refine hr.2.2 hok i ?_
      rcases hi with hm | hi
      · rcases mem_cons.mp hm with he | hm
        · right
          have hbs : s.bitGet (i/blockSize)=false := by
            rw [he,← ht.bitGet]
            simpa using hb
          rw [ht.clear i hbs,view,hbs]
          rfl
        · exact Or.inl hm
      · exact Or.inr hi

theorem commit_done {s t : Image blk} (h : Inv s) (ht : Folding s t) (hbase : t.files.base.byte=s.view) :
    let u := (t.sys (.baseFtruncate t.imageSizeBytes)).sys .baseFsync
    let v := ({ u with baseSizeBytes := u.imageSizeBytes } : Image blk).discard
    Inv v ∧ v.view=s.view ∧ v.files.base.byte=s.view ∧ Fresh v ∧
      Trail (ReadsBack (fun _ => True) s.view) t v := by
  intro u v
  have hub : u.files.base.byte=s.view := by
    funext i
    change (t.files.base.ftruncate t.imageSizeBytes).byte i=s.view i
    rw [File.ftruncate_byte,ht.imageSizeBytes,hbase]
    split_ifs with hi
    · rfl
    · exact (h.zeroPast i (by omega)).symm
  have hrec : u.files.recovered=s.view := by
    rw [← ht.view,← (ht.sound h.toSound).recovered_eq]
    funext i
    change (if t.files.overlay.held (i/pageSize blk) then t.files.overlay.byte i
      else u.files.base.byte i)=t.files.recovered i
    rw [hub,Files.recovered,hbase]
  have hmap : u.files.map=none := ht.map.trans h.noMap
  have hd := discard_spec (s := { u with baseSizeBytes := u.imageSizeBytes }) rfl
    (ht.opened.trans h.isOpen)
  have htrail : Trail (ReadsBack (fun _ => True) s.view) t u := by
    refine ⟨[.baseFtruncate t.imageSizeBytes,.baseFsync],by simp [u,sys],rfl,?_⟩
    exact .cons (ht.readsBack h) (.cons ⟨hmap,fun i _ => congrFun hrec i⟩
      (.nil ⟨hmap,fun i _ => congrFun hrec i⟩))
  have hdt := discard_trail (s := { u with baseSizeBytes := u.imageSizeBytes }) hmap
    (hrec.trans hub.symm)
  simp only [hub] at hd hdt
  obtain ⟨ops,hl,hf,hc⟩ := hdt
  exact ⟨hd.1,hd.2.1,by rw [hd.2.2.1]; exact hub,hd.2.2.2,htrail.trans ⟨ops,hl,hf,hc⟩⟩

/-- A commit reads the same wherever it is cut short and whether it succeeds, fails or is refused.
Once it has succeeded the base holds the disk. -/
theorem commit_spec (h : Inv s) (refused : Bool) (fault : Nat → Option (Fin blockSize)) :
    Inv (s.commit refused fault).1 ∧ (s.commit refused fault).1.view=s.view ∧
      Trail (ReadsBack (fun _ => True) s.view) s (s.commit refused fault).1 ∧
      ((s.commit refused fault).2 → (s.commit refused fault).1.files.base.byte=s.view ∧
          Fresh (s.commit refused fault).1) := by
  have hs := Folding.start h.toSound
  cases refused with
  | true =>
    exact ⟨h,rfl,.quiet (hs.readsBack h) rfl rfl,fun hc => Bool.noConfusion hc⟩
  | false =>
    have hl := commitBlocks_spec h fault (range s.blockCount) hs
    unfold commit
    simp only [Bool.false_eq_true,if_false]
    generalize commitBlocks fault (range s.blockCount) s=r at hl
    obtain ⟨t,ok⟩ := r
    obtain ⟨ht,htrail,hdone⟩ := hl
    simp only at ht htrail hdone ⊢
    cases ok with
    | false =>
      simp only [Bool.false_eq_true,if_false]
      have hu : Folding s (t.sys .baseFsync) := ⟨ht.1,ht.2,ht.3,ht.4,ht.5,ht.6,ht.7,ht.8,ht.9⟩
      refine ⟨hu.inv h,hu.view,
        htrail.trans (.op .baseFsync (ht.readsBack h) (hu.readsBack h) rfl rfl),?_⟩
      exact fun hc => hc.elim
    | true =>
      simp only [if_true]
      have hbase : t.files.base.byte=s.view := by
        funext i
        refine hdone rfl i ?_
        by_cases hi : i/blockSize<s.blockCount
        · exact Or.inl (mem_range.mpr hi)
        · right
          have hpast : s.blockCount*blockSize ≤ i :=
            (Nat.le_div_iff_mul_le (by decide)).mp (by omega)
          rw [h.view_past i hpast]
          exact s.files.base.pastEnd i (h.baseFits.trans hpast)
      obtain ⟨hv,hview,hb,hfr,htr⟩ := commit_done h ht hbase
      exact ⟨hv,hview,htrail.trans htr,fun _ => ⟨hb,hfr⟩⟩

end QUniLator.Cow.Image
