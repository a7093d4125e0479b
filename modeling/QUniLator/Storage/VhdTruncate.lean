import QUniLator.Storage.VhdRange

namespace QUniLator.Vhd

open List Option File List

def Layout.emptied (l : Layout) : Layout :=
  { l with bat := replicate l.bat.length batUnused }

theorem Layout.emptied_entry {l l' : Layout} (h : l'.bat=l.emptied.bat) (b : Nat) : l'.entry b=batUnused := by
  rw [Layout.entry,h,Layout.emptied]
  by_cases hb : b<l.bat.length <;> simp [hb]

theorem Layout.emptied_mem {l : Layout} {e : Nat} (h : e∈l.emptied.bat) : e=batUnused :=
  eq_of_mem_replicate h

theorem Layout.emptied_ne {l : Layout} (h : l.emptied.bat≠[]) : l.bat≠[] := by
  intro hn
  simp [Layout.emptied,hn] at h

theorem Layout.emptied_same (l : Layout) : Same l l.emptied :=
  ⟨rfl,rfl,rfl,rfl,rfl,rfl,rfl,rfl,by simp [Layout.emptied]⟩

/-- The table `truncate` writes. -/
def emptyTable (l : Layout) : List UInt8 := replicate (l.bat.length*4) 0xFF

theorem emptyTable_entry (f : Nat → UInt8) (l : Layout) (b : Nat) (hb : b<l.bat.length) :
    beGet (slice (patch f l.tableAt (emptyTable l)) (l.tableAt+b*4) 4)=batUnused := by
  have he : slice (patch f l.tableAt (emptyTable l)) (l.tableAt+b*4) 4 =
      slice (fun _ => (0xFF : UInt8)) (l.tableAt+b*4) 4 := by
    apply slice_congr
    intro i h1 h2
    apply some.inj
    rw [patch_inside _ _ _ _ (by omega) (by simp [emptyTable]; omega),emptyTable,
      getElem?_replicate,if_pos (by omega)]
  rw [he]
  exact beGet_replicate_ff

section
variable {f : File} {l : Layout}

theorem diskByte_unused (ht : l.type≠typeFixed) (hu : ∀ b,l.entry b=batUnused) : diskByte f l=fun _ => 0 := by
  funext i
  unfold diskByte
  split_ifs with h1
  · rfl
  · rw [contentByte,if_pos (hu _)]

theorem Sane.clearTable (h : Sane f l) : Sane (f.pwrite (emptyTable l) l.tableAt) l.emptied := by
  have hlen : (emptyTable l).length=l.bat.length*4 := by simp [emptyTable]
  have hbyte (i : Nat) (hi : ¬(l.tableAt ≤ i ∧ i<l.tableAt+l.bat.length*4)) :
      (f.pwrite (emptyTable l) l.tableAt).byte i=f.byte i := by
    rw [pwrite_byte,patch_outside _ _ _ _ (by rwa [hlen])]
  have hne (hb : 0<l.bat.length) : l.bat≠[] := ne_nil_of_length_pos hb
  have hsize : (f.pwrite (emptyTable l) l.tableAt).size=f.size := by
    by_cases hb : emptyTable l=[]
    · simp [File.pwrite,hb]
    · rw [pwrite_size _ _ _ hb,hlen]
      exact max_eq_left h.tableIn
  have hf (hb : 0<l.bat.length) := h.tableFooter (hne hb)
  have ht (hb : 0<l.bat.length) := h.headerTable (hne hb)
  refine ⟨h.toLaid.move l.emptied_same h.atEnd (hsize.trans h.size) ?_ ?_ ?_ ?_ ?_ ?_,
    ⟨?_,h.headerFooter,?_,?_,?_,?_⟩,h.atEnd⟩
  · intro i hi
    rw [hbyte _ ?_]
    · exact h.footer_byte i hi
    · dsimp only [Layout.emptied]
      intro hc
      have := hf (by omega)
      omega
  · intro i h1 h2
    refine hbyte i (fun hc => ?_)
    have := ht (by omega)
    omega
  · rw [hsize]
    exact h.headerIn
  · rw [hsize]
    exact h.tableIn
  · intro b hb
    rw [pwrite_byte,emptyTable_entry _ _ _ hb]
    simp [Layout.emptied,hb]
  · intro e he hu
    exact absurd (Layout.emptied_mem he) hu
  · intro hb
    rw [l.emptied_same.entries]
    exact h.headerTable (Layout.emptied_ne hb)
  · intro hb
    rw [l.emptied_same.entries]
    exact h.tableFooter (Layout.emptied_ne hb)
  · intro e he hu
    exact absurd (Layout.emptied_mem he) hu
  · intro e he hu
    exact absurd (Layout.emptied_mem he) hu
  · intro b c _ hb
    exact absurd (Layout.emptied_entry rfl b) hb

theorem Layout.emptyEnd_spec (l : Layout) : l.headerAt+1024≤l.emptyEnd ∧
    l.tableAt+l.bat.length*4≤l.emptyEnd ∧ sector≤l.emptyEnd := by
  have := (roundUp_spec (l.tableAt+l.bat.length*4)).1
  unfold Layout.emptyEnd
  omega

theorem Sane.footer_length (h : Sane f l) : l.footer.length=sector := by
  rw [h.closing h.atEnd,slice_length]

theorem Sane.closeEmpty (h : Sane f l) (hu : ∀ e∈l.bat,e=batUnused) :
    Sane ((f.pwrite l.footer l.emptyEnd).ftruncate (l.emptyEnd+sector)) { l with footerAt := l.emptyEnd } := by
  obtain ⟨e1,e2,-⟩ := l.emptyEnd_spec
  generalize l.emptyEnd=end_ at *
  have hlen := h.footer_length
  have hs : Same l { l with footerAt := end_ } := ⟨rfl,rfl,rfl,rfl,rfl,rfl,rfl,rfl,rfl⟩
  have hbyte (i : Nat) (hi : i<end_) :
      ((f.pwrite l.footer end_).ftruncate (end_+sector)).byte i=f.byte i := by
    rw [ftruncate_byte,if_pos (by omega),pwrite_byte,patch_before _ _ _ _ hi]
  refine ⟨h.toLaid.move hs h.atEnd rfl ?_ ?_ ?_ ?_ ?_ ?_,
    ⟨h.headerTable,e1,fun _ => e2,h.headerBlock,h.tableBlock,h.blocks⟩,h.atEnd⟩
  · intro i hi
    dsimp only
    rw [ftruncate_byte,if_pos (by omega)]
    apply some.inj
    rw [pwrite_byte,patch_inside _ _ _ _ (by omega) (by rw [hlen]; omega),
      Nat.add_sub_cancel_left,getD_eq_getElem?_getD,getElem?_eq_getElem (by omega)]
    rfl
  · intro i _ hi
    exact hbyte i (by omega)
  · rw [ftruncate_size]
    omega
  · rw [ftruncate_size]
    omega
  · intro b hb
    rw [h.toTabled.entry b hb]
    congr 2
    apply slice_congr
    intro i _ hi
    exact (hbyte i (by omega)).symm
  · intro e he hn
    exact absurd (hu e he) hn

theorem Sane.footerPut (h : Sane f l) (hu : ∀ e∈l.bat,e=batUnused) (hr : Recoverable f l) :
    ∃ l',Laid (f.pwrite l.footer l.emptyEnd) l' ∧ l'.bat=l.bat := by
  obtain ⟨e1,e2,e3⟩ := l.emptyEnd_spec
  have hlen := h.footer_length
  have hne : l.footer≠[] := by
    intro hn
    rw [hn] at hlen
    exact absurd hlen (by decide)
  have hsize := pwrite_size f l.footer l.emptyEnd hne
  rw [h.size,hlen] at hsize
  by_cases hlate : l.footerAt≤l.emptyEnd
  · have hcut : (f.pwrite l.footer l.emptyEnd).ftruncate (l.emptyEnd+sector) =
        f.pwrite l.footer l.emptyEnd := by
      apply File.ext
      · rw [ftruncate_size,hsize]
        omega
      · exact ftruncate_grow _ _ (by omega)
    have hs := h.closeEmpty hu
    rw [hcut] at hs
    exact ⟨_,hs.toLaid,rfl⟩
  by_cases hearly : l.emptyEnd+sector≤l.footerAt
  · exact ⟨l,(h.pwrite l.footer l.emptyEnd (Or.inr e1) (fun _ => Or.inr e2)
      (by rw [hlen]; exact hearly)).toLaid,rfl⟩
  rcases hr with ht | hm
  · rcases ht with ht | ht
    · exact absurd ht hlate
    · exact absurd ht hearly
  have hkeep := hm.torn
  generalize l.emptyEnd=end_ at *
  have hbyte (i : Nat) (hi : i<end_) : (f.pwrite l.footer end_).byte i=f.byte i := by
    rw [pwrite_byte,patch_before _ _ _ _ hi]
  have hfoot (i : Nat) (hi : i<sector) : f.byte (l.footerAt+i)=l.footer.getD i 0 :=
    h.footer_byte i hi
  have htorn : slice (f.pwrite l.footer end_).byte l.footerAt sector =
      l.footer.drop (l.footerAt-end_) ++ l.footer.drop (sector-(l.footerAt-end_)) := by
    apply ext_getElem?
    intro i
    by_cases hi : i<sector
    · rw [slice_getElem? _ _ _ _ hi,getElem?_append,length_drop,hlen,getElem?_drop,getElem?_drop]
      split_ifs with hk
      · rw [pwrite_byte,patch_inside _ _ _ _ (by omega) (by rw [hlen]; omega)]
        rw [show l.footerAt+i-end_=l.footerAt-end_+i by omega]
      · rw [pwrite_byte,patch_after _ _ _ _ (by rw [hlen]; omega),hfoot i hi,
          getD_eq_getElem?_getD,getElem?_eq_getElem (by omega)]
        rw [show sector-(l.footerAt-end_)+(i-(sector-(l.footerAt-end_)))=i by omega,
          getElem?_eq_getElem (by omega),Option.getD_some]
    · rw [getElem?_eq_none (by rw [slice_length]; omega),getElem?_eq_none]
      rw [length_append,length_drop,length_drop,hlen]
      omega
  have hcopy : slice (f.pwrite l.footer end_).byte 0 sector=l.footer := by
    refine (slice_congr _ f.byte _ _ ?_).trans hm.copy
    intro i _ hi
    exact hbyte i (by omega)
  have hhead : slice (f.pwrite l.footer end_).byte l.headerAt 1024 =
      slice f.byte l.headerAt 1024 := by
    apply slice_congr
    intro i _ hi
    exact hbyte i (by omega)
  refine ⟨{ l with footerAtEnd := false },⟨⟨?_,h.valid,fun hc => Bool.noConfusion hc,
    fun _ => ⟨?_,hcopy.symm,h.dynamic⟩,h.toFooted.type,h.diskSize⟩,⟨h.headerAt,?_,?_,
    ⟨h.sized.small,h.sized.whole,h.sized.large,h.sized.covers,h.sized.bitmapBytes⟩,?_,?_,?_⟩,
    h.dynamic,h.wholeDisk⟩,rfl⟩
  · rw [hsize]
    dsimp only
    omega
  · dsimp only
    rw [htorn]
    exact hkeep
  · rw [hsize]
    dsimp only
    omega
  · dsimp only
    rw [hhead]
    exact ⟨h.headed.cookie,h.headed.checksum,h.headed.tableAt,h.headed.entries,h.headed.blockSize⟩
  · rw [hsize]
    dsimp only
    omega
  · intro b hb
    dsimp only at hb ⊢
    rw [h.toTabled.entry b hb]
    rw [slice_congr (f.pwrite l.footer end_).byte f.byte _ _ (fun i _ hi => hbyte i (by omega))]
  · intro e he hn
    exact absurd (hu e he) hn

end

/-- A file `parse` takes, whose table names no block that is not there. -/
def Whole (f : File) : Prop := ∃ l,Laid f l

namespace Image

theorem truncate_eq {s : Image} (h : s.vhd.type≠typeFixed) :
    s.truncate.file=((s.file.pwrite (emptyTable s.vhd) s.vhd.tableAt).pwrite s.vhd.footer
        s.vhd.emptyEnd).ftruncate (s.vhd.emptyEnd+sector) ∧
    s.truncate.vhd={ s.vhd.emptied with footerAt := s.vhd.emptyEnd } ∧
    s.truncate.bitmaps=replicate s.vhd.bat.length [] ∧
    s.truncate.readonly=s.readonly ∧
    s.truncate.log=(if emptyTable s.vhd=[] then s.log
      else s.log++[.pwrite (emptyTable s.vhd) s.vhd.tableAt]) ++
        [.pwrite s.vhd.footer s.vhd.emptyEnd]++[.ftruncate (s.vhd.emptyEnd+sector)] := by
  have hend : max (max sector (s.vhd.headerAt+1024))
      (roundUp (s.vhd.tableAt+(emptyTable s.vhd).length) sector)=s.vhd.emptyEnd := by
    rw [emptyTable,length_replicate,Layout.emptyEnd]
  unfold truncate
  rw [if_neg h]
  change _ ∧ _
  by_cases ht : emptyTable s.vhd=[]
  · have ht' : replicate (s.vhd.bat.length*4) (0xFF : UInt8)=[] := ht
    have hp (f : File) (n : Nat) : f.pwrite (emptyTable s.vhd) n=f := by simp [File.pwrite,ht]
    rw [hp,if_pos ht]
    simp only [if_pos ht']
    simp only [← hend]
    exact ⟨rfl,rfl,rfl,rfl,rfl⟩
  · have ht' : ¬replicate (s.vhd.bat.length*4) (0xFF : UInt8)=[] := ht
    rw [if_neg ht]
    simp only [if_neg ht']
    simp only [← hend]
    exact ⟨rfl,rfl,rfl,rfl,rfl⟩

/-- An emptied disk is a disk that reads as zeros, with its footer where the next `truncate` puts it. -/
theorem truncate_spec {s : Image} (h : Writable s) : Writable s.truncate ∧
    Same s.vhd s.truncate.vhd ∧ s.truncate.readonly=s.readonly ∧
    diskByte s.truncate.file s.truncate.vhd=(fun _ => 0) ∧ Tidy s.truncate.vhd := by
  obtain ⟨hf,hv,hb,hr,-⟩ := truncate_eq h.sane.toLaid.not_fixed
  have hsame : Same s.vhd { s.vhd.emptied with footerAt := s.vhd.emptyEnd } :=
    s.vhd.emptied_same.trans ⟨rfl,rfl,rfl,rfl,rfl,rfl,rfl,rfl,rfl⟩
  have hs := h.sane.clearTable.closeEmpty (fun e he => Layout.emptied_mem he)
  rw [s.vhd.emptied_same.emptyEnd,s.vhd.emptied_same.footer] at hs
  refine ⟨⟨?_,?_⟩,by rw [hv]; exact hsame,hr,?_,?_⟩
  · rw [hf,hv]
    exact hs
  · refine ⟨?_,?_⟩
    · rw [hb,hv]
      simp [Layout.emptied]
    intro b bm hm hn
    rw [hb] at hm
    exact absurd (eq_of_mem_replicate (mem_of_getElem? hm)) hn
  · rw [hv]
    exact diskByte_unused h.sane.toLaid.not_fixed (Layout.emptied_entry (l := s.vhd) rfl)
  · rw [hv]
    exact Or.inl (le_of_eq hsame.emptyEnd.symm)

theorem truncate_trail {s : Image} (h : Writable s) (hr : Recoverable s.file s.vhd) : Trail Whole s s.truncate := by
  obtain ⟨hf,-,-,-,hl⟩ := truncate_eq h.sane.toLaid.not_fixed
  have h0 : Whole s.file := ⟨_,h.sane.toLaid⟩
  have hs := h.sane.clearTable
  have h1 : Whole (s.file.pwrite (emptyTable s.vhd) s.vhd.tableAt) := ⟨_,hs.toLaid⟩
  have hrec : Recoverable (s.file.pwrite (emptyTable s.vhd) s.vhd.tableAt) s.vhd.emptied := by
    rcases hr with ht | hm
    · refine Or.inl ?_
      unfold Tidy
      rw [s.vhd.emptied_same.emptyEnd]
      exact ht
    · refine Or.inr ⟨?_,hm.header,fun hb => hm.table (Layout.emptied_ne hb),?_⟩
      · refine (slice_congr _ s.file.byte _ _ ?_).trans hm.copy
        intro i _ hi
        rw [pwrite_byte]
        by_cases hb : s.vhd.bat=[]
        · rw [emptyTable,hb]
          simp
        · have := hm.table hb
          exact patch_before _ _ _ _ (by omega)
      · rw [s.vhd.emptied_same.emptyEnd]
        exact hm.torn
  obtain ⟨l2,hl2,-⟩ := hs.footerPut (fun e he => Layout.emptied_mem he) hrec
  rw [s.vhd.emptied_same.emptyEnd,s.vhd.emptied_same.footer] at hl2
  have h3 : Whole s.truncate.file := ⟨_,(truncate_spec h).1.sane.toLaid⟩
  have t1 : QUniLator.Trail applyOp Whole s.file s.log
      (s.file.pwrite (emptyTable s.vhd) s.vhd.tableAt)
      (if emptyTable s.vhd=[] then s.log
        else s.log++[.pwrite (emptyTable s.vhd) s.vhd.tableAt]) := by
    split_ifs with ht
    · exact .quiet h0 rfl (by simp [File.pwrite,ht])
    · exact .op _ h0 h1 rfl rfl
  have t2 := t1.trans (.op (.pwrite s.vhd.footer s.vhd.emptyEnd) h1 ⟨l2,hl2⟩ rfl rfl)
  exact t2.trans (.op (.ftruncate (s.vhd.emptyEnd+sector)) ⟨l2,hl2⟩ h3 hl hf)

end Image

section
variable {f : File} {l : Layout}

theorem LaidFixed.pwrite (h : LaidFixed f l) (bs : List UInt8) (pos : Nat)
    (hin : pos+bs.length≤l.diskSize) : LaidFixed (f.pwrite bs pos) l ∧
      diskByte (f.pwrite bs pos) l=patch (diskByte f l) pos bs := by
  have hfit := h.fits
  have hsize : (f.pwrite bs pos).size=f.size := by
    by_cases hb : bs=[]
    · simp [File.pwrite,hb]
    · rw [pwrite_size _ _ _ hb,h.size]
      omega
  have hfoot : slice (f.pwrite bs pos).byte l.footerAt sector=slice f.byte l.footerAt sector := by
    apply slice_congr
    intro i hi _
    rw [pwrite_byte,patch_after _ _ _ _ (by omega)]
  constructor
  · refine ⟨⟨hsize.trans h.size,h.valid,fun he => by rw [hfoot]; exact h.closing he,fun hn => ?_,
      h.type,h.diskSize⟩,h.fixed,h.wholeDisk,h.atEnd,h.fits,h.bare⟩
    rw [h.atEnd] at hn
    exact absurd hn (by decide)
  · funext i
    unfold diskByte
    by_cases hi : l.diskSize ≤ i
    · rw [if_pos hi,patch_after _ _ _ _ (by omega),if_pos hi]
    · rw [if_neg hi,if_pos h.fixed,pwrite_byte]
      apply patch_congr
      intro _
      rw [if_neg hi,if_pos h.fixed]

end

namespace Image

variable {s : Image}

theorem pwriteFixed_spec (h : LaidFixed s.file s.vhd) (bs : List UInt8) (pos : Nat)
    (hin : pos+bs.length ≤ s.vhd.diskSize) : let t := s.sys (.pwrite bs pos)
    LaidFixed t.file t.vhd ∧ t.vhd=s.vhd ∧ t.bitmaps=s.bitmaps ∧ t.readonly=s.readonly ∧
      diskByte t.file t.vhd=patch (diskByte s.file s.vhd) pos bs := by
  obtain ⟨hl,hd⟩ := h.pwrite bs pos hin
  exact ⟨hl,rfl,rfl,rfl,hd⟩

theorem writeFixed_spec (h : LaidFixed s.file s.vhd) (buffer : List UInt8)
    (position : Nat) (hw : position+buffer.length<2^64) : let t := s.write buffer position
    LaidFixed t.file t.vhd ∧ t.vhd=s.vhd ∧ t.bitmaps=s.bitmaps ∧ t.readonly=s.readonly ∧
      diskByte t.file t.vhd =
        patch (diskByte s.file s.vhd) position (s.clipped buffer position) := by
  intro t
  rcases write_clipped s buffer position hw with hc | hc
  · have ht : t=s := hc.2
    rw [ht,hc.1,patch_nil]
    exact ⟨h,rfl,rfl,rfl,rfl⟩
  · rw [if_pos h.fixed] at hc
    have ht : t=s.sys (.pwrite (s.clipped buffer position) position) := hc.2
    rw [ht]
    exact pwriteFixed_spec h _ _ hc.1

theorem clearPiece_spec (h : LaidFixed s.file s.vhd) (k : Nat) (hk : k*zeros<s.vhd.diskSize) :
    let t := s.clearPiece k
    LaidFixed t.file t.vhd ∧ t.vhd=s.vhd ∧ t.bitmaps=s.bitmaps ∧ t.readonly=s.readonly ∧
      ∀ i,diskByte t.file t.vhd i =
        if k*zeros ≤ i ∧ i<(k+1)*zeros then 0 else diskByte s.file s.vhd i := by
  unfold clearPiece
  generalize zeros=z at *
  obtain ⟨hl,hv,hb,hr,hd⟩ := pwriteFixed_spec h (replicate (min z (s.vhd.diskSize-k*z)) 0)
    (k*z) (by rw [length_replicate]; omega)
  refine ⟨hl,hv,hb,hr,?_⟩
  intro i
  rw [hd,Nat.add_mul,Nat.one_mul]
  by_cases hi : k*z ≤ i ∧ i<k*z+z
  · rw [if_pos hi]
    by_cases he : s.vhd.diskSize ≤ i
    · rw [patch_after _ _ _ _ (by rw [length_replicate]; omega)]
      exact if_pos he
    · apply some.inj
      rw [patch_inside _ _ _ _ hi.1 (by rw [length_replicate]; omega),
        getElem?_replicate,if_pos (by omega)]
  · rw [if_neg hi,patch_outside]
    rw [length_replicate]
    omega

theorem clearPieces_spec (h : LaidFixed s.file s.vhd) (n : Nat) (hn : n≤(s.vhd.diskSize+zeros-1)/zeros) :
    let t := (range n).foldl clearPiece s
    LaidFixed t.file t.vhd ∧ t.vhd=s.vhd ∧ t.bitmaps=s.bitmaps ∧ t.readonly=s.readonly ∧
      ∀ i,i<n*zeros → diskByte t.file t.vhd i=0 := by
  induction n with
  | zero => exact ⟨h,rfl,rfl,rfl,fun i hi => absurd hi (by omega)⟩
  | succ n ih =>
    intro t
    obtain ⟨hl,hv,hb,hr,hz⟩ := ih (by omega)
    have ht : t=((range n).foldl clearPiece s).clearPiece n := by
      simp only [t,range_succ,foldl_append,foldl_cons,foldl_nil]
    generalize (range n).foldl clearPiece s=u at *
    have hpos : 0<zeros := by
      unfold zeros
      omega
    have hlt : n*zeros<u.vhd.diskSize := by
      rw [Nat.le_div_iff_mul_le hpos,Nat.add_mul,Nat.one_mul] at hn
      rw [hv]
      omega
    obtain ⟨hl',hv',hb',hr',hz'⟩ := clearPiece_spec hl n hlt
    rw [ht]
    refine ⟨hl',hv'.trans hv,hb'.trans hb,hr'.trans hr,?_⟩
    intro i hi
    rw [hz']
    split_ifs with hk
    · rfl
    · exact hz i (by omega)

theorem truncateFixed_spec (h : LaidFixed s.file s.vhd) :
    LaidFixed s.truncate.file s.truncate.vhd ∧ s.truncate.vhd=s.vhd ∧
      s.truncate.bitmaps=s.bitmaps ∧ s.truncate.readonly=s.readonly ∧
      diskByte s.truncate.file s.truncate.vhd=(fun _ => 0) := by
  have ht : s.truncate =
      (range ((s.vhd.diskSize+zeros-1)/zeros)).foldl clearPiece s := by
    unfold truncate
    exact if_pos h.fixed
  obtain ⟨hl,hv,hb,hr,hz⟩ := clearPieces_spec h _ (le_refl _)
  rw [ht]
  refine ⟨hl,hv,hb,hr,?_⟩
  funext i
  by_cases hi : s.vhd.diskSize ≤ i
  · rw [diskByte,hv,if_pos hi]
  · refine hz i ?_
    unfold zeros
    omega

end Image

end QUniLator.Vhd
