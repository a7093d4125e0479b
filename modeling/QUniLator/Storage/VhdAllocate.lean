import QUniLator.Storage.VhdWrite

namespace QUniLator.Vhd

open File Layout List

theorem fullBitmap_length (n sectors : Nat) (h : sectors≤8*n) : (fullBitmap n sectors).length=n := by
  have hl : (overwrite (replicate n (0 : UInt8)) 0
      (replicate (sectors/8) 0xFF)).length=n := by
    rw [overwrite_length _ _ _ (by simp; omega)]
    simp
  unfold fullBitmap
  simp only
  split_ifs
  · rw [length_set,hl]
  · exact hl

private theorem full_mask (j : Nat) (hj : j<8) : ((0xFF : UInt8) &&& BitOrder.msb.mask j != 0)=true := by
  have h : ∀ j : Fin 8,((0xFF : UInt8) &&& BitOrder.msb.mask j != 0)=true := by decide
  exact h ⟨j,hj⟩

private theorem tail_mask (k j : Nat) (hk : k<8) (hj : j<k) :
    (UInt8.ofNat (0xFF00 >>> k) &&& BitOrder.msb.mask j != 0)=true := by
  have h : ∀ k j : Fin 8,j<k →
      (UInt8.ofNat (0xFF00 >>> k.val) &&& BitOrder.msb.mask j != 0)=true := by decide
  exact h ⟨k,hk⟩ ⟨j,by omega⟩ hj

theorem getBit_fullBitmap (n sectors k : Nat) (h : sectors≤8*n) (hk : k<sectors) :
    getBit .msb (fullBitmap n sectors) k=true := by
  have hmod := Nat.mod_lt k (show 0<8 by decide)
  have hbytes : overwrite (replicate n (0 : UInt8)) 0 (replicate (sectors/8) 0xFF) =
      replicate (sectors/8) 0xFF++replicate (n-sectors/8) 0 := by
    simp [overwrite]
  unfold getBit fullBitmap
  simp only [hbytes]
  by_cases hb : k/8<sectors/8
  · have hbyte : (replicate (sectors/8) (0xFF : UInt8) ++
        replicate (n-sectors/8) 0)[k/8]? = some 0xFF := by
      rw [getElem?_append_left (by simpa using hb),getElem?_replicate,if_pos hb]
    have hne : sectors/8≠k/8 := by omega
    split_ifs
    · rw [getElem?_set_ne hne,hbyte]
      exact full_mask _ hmod
    · rw [hbyte]
      exact full_mask _ hmod
  · have he : k/8=sectors/8 := by omega
    rw [if_pos (by omega),he,getElem?_set_self (by simp; omega)]
    exact tail_mask _ _ (by omega) (by omega)

theorem roundUp_spec (v : Nat) : v ≤ roundUp v sector ∧ roundUp v sector<v+sector ∧
    roundUp v sector/sector*sector=roundUp v sector := by
  unfold roundUp sector
  omega

section
variable {f : File} {l : Layout}

theorem Sane.emptyEnd_le (h : Sane f l) (hne : l.bat≠[]) : l.emptyEnd ≤ roundUp l.footerAt sector := by
  have hh := h.headerFooter
  have ht := h.tableFooter hne
  unfold emptyEnd roundUp sector at *
  omega

theorem Sane.moveFooter (h : Sane f l) (newAt : Nat) (hn : l.footerAt≤newAt) :
    Sane (f.pwrite l.footer newAt) { l with footerAt := newAt } := by
  have hlen : l.footer.length=sector := by rw [h.closing h.atEnd,slice_length]
  have hsize : (f.pwrite l.footer newAt).size=newAt+sector := by
    rw [pwrite_size _ _ _ (by rintro hf; rw [hf] at hlen; exact absurd hlen (by decide)),
      h.size,hlen]
    omega
  have hbyte (i : Nat) (hi : i<newAt) : (f.pwrite l.footer newAt).byte i=f.byte i := by
    rw [pwrite_byte,patch_before _ _ _ _ hi]
  have hh := h.headerFooter
  have hs : Same l { l with footerAt := newAt } := ⟨rfl,rfl,rfl,rfl,rfl,rfl,rfl,rfl,rfl⟩
  refine ⟨h.toLaid.move hs h.atEnd hsize ?_ ?_ ?_ ?_ ?_ ?_,
    ⟨h.headerTable,h.headerFooter.trans hn,fun ht => (h.tableFooter ht).trans hn,h.headerBlock,
      h.tableBlock,h.blocks⟩,h.atEnd⟩
  · intro i hi
    dsimp only
    apply Option.some.inj
    rw [pwrite_byte,patch_inside _ _ _ _ (by omega) (by rw [hlen]; omega),
      Nat.add_sub_cancel_left,getD_eq_getElem?_getD,getElem?_eq_getElem (by omega)]
    rfl
  · intro i _ hi
    exact hbyte i (by omega)
  · rw [hsize]
    omega
  · rw [hsize]
    have := h.tableIn
    rw [h.size] at this
    omega
  · intro b hb
    have ht := h.tableFooter (by intro hc; simp [hc] at hb)
    rw [h.toTabled.entry b hb]
    congr 2
    apply slice_congr
    intro i _ hi
    exact (hbyte i (by omega)).symm
  · intro e he hu
    have hf := h.fits e he hu
    rw [dataEnd,h.atEnd,if_pos rfl] at hf
    exact hf.trans hn

theorem Sane.setEntry (h : Sane f l) (b e : Nat) (hb : b<l.bat.length) (he : e<batUnused)
    (hheader : l.headerAt+1024≤e*sector) (htable : l.tableAt+l.bat.length*4≤e*sector)
    (hroom : ∀ c,c≠b → l.entry c≠batUnused → l.entry c*sector+l.bitmapBytes+l.blockSize≤e*sector)
    (hfits : e*sector+l.bitmapBytes+l.blockSize≤l.footerAt) :
    Sane (f.pwrite (bePut 4 e) (l.tableAt+b*4)) { l with bat := l.bat.set b e } := by
  have hne : l.bat≠[] := by
    intro hn
    simp [hn] at hb
  have ht := h.tableFooter hne
  have hht := h.headerTable hne
  have hbyte (i : Nat) (hi : ¬(l.tableAt+b*4 ≤ i ∧ i<l.tableAt+b*4+4)) :
      (f.pwrite (bePut 4 e) (l.tableAt+b*4)).byte i=f.byte i := by
    rw [pwrite_byte,patch_outside _ _ _ _ (by rwa [bePut_length])]
  have hsize : (f.pwrite (bePut 4 e) (l.tableAt+b*4)).size=f.size := by
    rw [pwrite_size _ _ _ (by simp [bePut]),h.size,bePut_length]
    omega
  have hs : Same l { l with bat := l.bat.set b e } := ⟨rfl,rfl,rfl,rfl,rfl,rfl,rfl,rfl,by simp⟩
  have hset (c : Nat) : ({ l with bat := l.bat.set b e } : Layout).entry c =
      if c=b then e else l.entry c := by
    unfold entry
    simp only [getElem?_set]
    by_cases hc : c=b
    · simp [hc,hb]
    · simp [hc,Ne.symm hc]
  have hmem (x : Nat) (hx : x∈l.bat.set b e) : x=e ∨ x∈l.bat := by
    rcases mem_or_eq_of_mem_set hx with hx | hx
    · exact Or.inr hx
    · exact Or.inl hx
  refine ⟨h.toLaid.move hs h.atEnd (hsize.trans h.size) ?_ ?_ ?_ ?_ ?_ ?_,⟨?_,h.headerFooter,?_,?_,?_,
    ?_⟩,h.atEnd⟩
  · intro i hi
    rw [hbyte _ (by dsimp only; omega)]
    exact h.footer_byte i hi
  · intro i h1 h2
    exact hbyte i (by omega)
  · rw [hsize]
    exact h.headerIn
  · rw [hsize]
    exact h.tableIn
  · intro c hc
    by_cases hcb : c=b
    · subst hcb
      rw [getElem?_set_self hc,pwrite_byte]
      have hsl := slice_patch f.byte (l.tableAt+c*4) (bePut 4 e)
      rw [bePut_length] at hsl
      rw [hsl,beGet_bePut,Nat.mod_eq_of_lt]
      unfold batUnused at he
      omega
    · rw [getElem?_set_ne (Ne.symm hcb),h.toTabled.entry c hc]
      congr 2
      apply slice_congr
      intro i h1 h2
      exact (hbyte i (by omega)).symm
  · intro x hx hu
    rcases hmem x hx with rfl | hx
    · exact hfits
    · have hf := h.fits x hx hu
      rwa [dataEnd,h.atEnd,if_pos rfl] at hf
  · intro _
    simpa using hht
  · intro _
    simpa using ht
  · intro x hx hu
    rcases hmem x hx with rfl | hx
    · exact hheader
    · exact h.headerBlock x hx hu
  · intro x hx hu
    rw [hs.entries]
    rcases hmem x hx with rfl | hx
    · exact htable
    · exact h.tableBlock x hx hu
  · intro c d hcd hc hd
    rw [hset] at hc hd ⊢
    rw [hset d]
    by_cases hcb : c=b
    · rw [if_pos hcb]
      rw [if_neg (by omega)] at hd ⊢
      exact Or.inr (hroom d (by omega) hd)
    · rw [if_neg hcb] at hc ⊢
      by_cases hdb : d=b
      · rw [if_pos hdb]
        exact Or.inl (hroom c hcb hc)
      · rw [if_neg hdb] at hd ⊢
        exact h.blocks c d hcd hc hd

end

/-- The files `allocate_block` goes through, for a block that is to lie at `at_`. -/
structure Steps (s : Image) (b off : Nat) (src : List UInt8) (at_ newAt : Nat) (bm : List UInt8)
    (f1 f2 f3 f4 : File) : Prop where
  footer : f1=s.file.pwrite s.vhd.footer newAt
  bitmap : f2=f1.pwrite bm at_
  data : f3=f2.pwrite src (at_+s.vhd.bitmapBytes+off)
  table : f4=f3.pwrite (bePut 4 (at_/sector)) (s.vhd.tableAt+b*4)

namespace Image

theorem allocateBlock_full (s : Image) (b off : Nat) (src : List UInt8) (hf : Full s.vhd) :
    s.allocateBlock b off src=s :=
  if_pos hf

theorem allocateBlock_eq (s : Image) (b off : Nat) (src : List UInt8) (hf : ¬Full s.vhd)
    (at_ newAt : Nat) (bm : List UInt8) (hat : at_=roundUp s.vhd.footerAt sector)
    (hnew : newAt=at_+s.vhd.bitmapBytes+s.vhd.blockSize)
    (hbm : bm=fullBitmap s.vhd.bitmapBytes (s.vhd.blockSize/sector)) :
    ∃ f1 f2 f3 f4,Steps s b off src at_ newAt bm f1 f2 f3 f4 ∧
      s.allocateBlock b off src=⟨f4,s.log++[.pwrite s.vhd.footer newAt]++[.pwrite bm at_] ++
        [.pwrite src (at_+s.vhd.bitmapBytes+off)]++[.fdatasync] ++
        [.pwrite (bePut 4 (at_/sector)) (s.vhd.tableAt+b*4)],
        { s.vhd with footerAt := newAt,bat := s.vhd.bat.set b (at_/sector) }, s.bitmaps.set b bm,s.readonly⟩ := by
  subst hat hnew hbm
  exact ⟨_,_,_,_,⟨rfl,rfl,rfl,rfl⟩,if_neg hf⟩

section
variable {s : Image} (h : Writable s) (b off : Nat) (src : List UInt8)
  (hfit : off+src.length ≤ s.vhd.blockSize) (at_ newAt : Nat) (bm : List UInt8)
  (hat : at_=roundUp s.vhd.footerAt sector)
  (hnew : newAt=at_+s.vhd.bitmapBytes+s.vhd.blockSize)
  (hbm : bm=fullBitmap s.vhd.bitmapBytes (s.vhd.blockSize/sector))
  {f1 f2 f3 f4 : File} (hst : Steps s b off src at_ newAt bm f1 f2 f3 f4)
include h hfit hat hnew hbm hst

theorem allocate_sane : Sane f1 { s.vhd with footerAt := newAt } ∧
    Sane f2 { s.vhd with footerAt := newAt } ∧ Sane f3 { s.vhd with footerAt := newAt } := by
  obtain ⟨h1,h2,h3⟩ := roundUp_spec s.vhd.footerAt
  obtain ⟨-,hbits,-⟩ := h.sane.toLaid.sectors
  have hlen : bm.length=s.vhd.bitmapBytes := by
    rw [hbm]
    exact fullBitmap_length _ _ hbits
  have hh := h.sane.headerFooter
  have ht := h.sane.tableFooter
  have hs1 := h.sane.moveFooter newAt (by omega)
  have hs2 := hs1.pwrite bm at_ (Or.inr (by dsimp only; omega))
    (fun hne => Or.inr (by have := ht hne; dsimp only; omega)) (by dsimp only; omega)
  have hs3 := hs2.pwrite src (at_+s.vhd.bitmapBytes+off) (Or.inr (by dsimp only; omega))
    (fun hne => Or.inr (by have := ht hne; dsimp only; omega)) (by dsimp only; omega)
  rw [hst.data,hst.bitmap,hst.footer]
  exact ⟨hs1,hs2,hs3⟩

omit h hfit hbm in
theorem allocate_before (i : Nat) (hi : i<at_) :
    f1.byte i=s.file.byte i ∧ f2.byte i=s.file.byte i ∧ f3.byte i=s.file.byte i := by
  have h1 : f1.byte i=s.file.byte i := by
    rw [hst.footer,pwrite_byte,patch_before _ _ _ _ (by omega)]
  have h2 : f2.byte i=s.file.byte i := by
    rw [hst.bitmap,pwrite_byte,patch_before _ _ _ _ hi,h1]
  refine ⟨h1,h2,?_⟩
  rw [hst.data,pwrite_byte,patch_before _ _ _ _ (by omega),h2]

omit hfit in
theorem allocate_room : slice f3.byte at_ s.vhd.bitmapBytes=bm ∧ ∀ o,o<s.vhd.blockSize →
      f3.byte (at_+s.vhd.bitmapBytes+o)=patch (fun _ => 0) off src o := by
  obtain ⟨h1,h2,h3⟩ := roundUp_spec s.vhd.footerAt
  obtain ⟨-,hbits,hsec⟩ := h.sane.toLaid.sectors
  have hlen : bm.length=s.vhd.bitmapBytes := by
    rw [hbm]
    exact fullBitmap_length _ _ hbits
  constructor
  · have hsl := slice_patch f1.byte at_ bm
    rw [hlen] at hsl
    rw [hst.data,pwrite_byte]
    refine (slice_congr _ f2.byte _ _ ?_).trans ?_
    · intro i _ hi
      exact patch_before _ _ _ _ (by omega)
    · rw [hst.bitmap,pwrite_byte,hsl]
  · intro o ho
    rw [hst.data,pwrite_byte,patch_shift]
    apply patch_congr
    intro _
    rw [hst.bitmap,pwrite_byte,patch_after _ _ _ _ (by omega),hst.footer,pwrite_byte,
      patch_before _ _ _ _ (by omega)]
    apply s.file.pastEnd
    rw [h.sane.size]
    omega

end

section
variable {s : Image} (h : Writable s) (b off : Nat) (src : List UInt8) (out : Nat → Prop)
  (hout : ∀ i,out i → ¬InSectors (b*s.vhd.blockSize+off) src.length i)
  (hfit : off+src.length ≤ s.vhd.blockSize)
  (hin : b*s.vhd.blockSize+off+src.length ≤ s.vhd.diskSize)
  (hu : s.vhd.entry b=batUnused) (hlt : b<s.vhd.bat.length)
include h hout hfit hin hu hlt

theorem allocateBlock_spec : Wrote s (s.allocateBlock b off src) b off src ∧
      Trail (Shows out (diskByte s.file s.vhd)) s (s.allocateBlock b off src) := by
  have hstart : Shows out (diskByte s.file s.vhd) s.file := ⟨s.vhd,h.sane,fun _ _ => rfl⟩
  by_cases hf : Full s.vhd
  · rw [allocateBlock_full s b off src hf]
    exact ⟨⟨h,.refl _,rfl,fun _ _ => rfl,fun _ _ => rfl,le_refl _,id,by rw [if_pos hu],
      fun _ => hf⟩,.quiet hstart rfl rfl⟩
  generalize hat : roundUp s.vhd.footerAt sector=at_ at *
  generalize hnew : at_+s.vhd.bitmapBytes+s.vhd.blockSize=newAt
  generalize hbm : fullBitmap s.vhd.bitmapBytes (s.vhd.blockSize/sector)=bm
  obtain ⟨f1,f2,f3,f4,hst,he⟩ := allocateBlock_eq s b off src hf at_ newAt bm hat.symm hnew.symm
    hbm.symm
  obtain ⟨hs1,hs2,hs3⟩ := allocate_sane h b off src hfit at_ newAt bm hat.symm hnew.symm hbm.symm hst
  have hbefore := allocate_before b off src at_ newAt bm hat.symm hnew.symm hst
  obtain ⟨hbits,hdata⟩ := allocate_room h b off src at_ newAt bm hat.symm hnew.symm hbm.symm hst
  obtain ⟨r1,r2,r3⟩ := roundUp_spec s.vhd.footerAt
  rw [hat] at r1 r2 r3
  have hh := h.sane.headerFooter
  have hne : s.vhd.bat≠[] := by
    intro hn
    simp [hn] at hlt
  have ht := h.sane.tableFooter hne
  have hroom (c : Nat) (hc : s.vhd.entry c≠batUnused) :
      s.vhd.entry c*sector+s.vhd.bitmapBytes+s.vhd.blockSize≤at_ :=
    (h.sane.fits' hc).trans r1
  have hent : at_/sector<batUnused := by
    unfold Full at hf
    rw [hat] at hf
    omega
  have hs4 : Sane f4 { s.vhd with footerAt := newAt,bat := s.vhd.bat.set b (at_/sector) } := by
    rw [hst.table]
    exact hs3.setEntry b (at_/sector) hlt hent (by dsimp only; omega) (by dsimp only; omega)
      (fun c _ hc => by rw [r3]; exact hroom c hc) (by dsimp only; omega)
  have hsame1 : Same s.vhd { s.vhd with footerAt := newAt } := ⟨rfl,rfl,rfl,rfl,rfl,rfl,rfl,rfl,rfl⟩
  have hsame4 : Same s.vhd
      { s.vhd with footerAt := newAt,bat := s.vhd.bat.set b (at_/sector) } :=
    ⟨rfl,rfl,rfl,rfl,rfl,rfl,rfl,rfl,by simp⟩
  -- as long as the table does not name it, the new block shows nowhere
  have hquiet (f : File) (hs : Sane f { s.vhd with footerAt := newAt })
      (hb : ∀ i,i<at_ → f.byte i=s.file.byte i) :
      Shows out (diskByte s.file s.vhd) f := by
    refine ⟨_,hs,fun i _ => diskByte_congr h.sane.toLaid hsame1 i ?_⟩
    refine contentByte_congr hsame1 _ _ rfl (Nat.mod_lt i h.sane.blockSize_pos) ?_
    intro hc j _ hj
    have := hroom _ hc
    exact hb j (by omega)
  have hf4 (i : Nat) (hi : s.vhd.tableAt+s.vhd.bat.length*4 ≤ i) : f4.byte i=f3.byte i := by
    rw [hst.table,pwrite_byte,patch_after _ _ _ _ (by rw [bePut_length]; omega)]
  have hset (c : Nat) : ({ s.vhd with footerAt := newAt,bat := s.vhd.bat.set b (at_/sector) } :
      Layout).entry c=if c=b then at_/sector else s.vhd.entry c := by
    unfold entry
    simp only [getElem?_set]
    by_cases hc : c=b
    · simp [hc,hlt]
    · simp [hc,Ne.symm hc]
  have hother (c o : Nat) (hc : c≠b) (ho : o<s.vhd.blockSize) :
      contentByte f4 { s.vhd with footerAt := newAt,bat := s.vhd.bat.set b (at_/sector) } c o =
        contentByte s.file s.vhd c o := by
    refine contentByte_congr hsame4 c o (by rw [hset,if_neg hc]) ho ?_
    intro hcu j hj1 hj2
    have h1 := h.sane.tableBlock _ (entry_mem hcu).2 hcu
    have h2 := hroom c hcu
    rw [hf4 j (by omega),(hbefore j (by omega)).2.2]
  have hbits4 : slice f4.byte at_ s.vhd.bitmapBytes=bm := by
    refine (slice_congr _ f3.byte _ _ ?_).trans hbits
    intro i hi _
    exact hf4 i (by omega)
  have hnewblock (o : Nat) (ho : o<s.vhd.blockSize) :
      contentByte f4 { s.vhd with footerAt := newAt,bat := s.vhd.bat.set b (at_/sector) } b o =
        patch (contentByte s.file s.vhd b) off src o := by
    have hpres : getBit .msb bm (o/sector)=true := by
      obtain ⟨hk,hbits,-⟩ := h.sane.toLaid.sectors
      rw [← hbm]
      refine getBit_fullBitmap _ _ _ hbits ?_
      unfold sector at *
      omega
    rw [contentByte,hset,if_pos rfl,if_neg (by omega),blockByte,r3]
    dsimp only
    rw [hbits4,if_pos hpres,hf4 _ (by omega),hdata o ho]
    apply patch_congr
    intro _
    rw [contentByte,if_pos hu]
  have hcache : Cached (s.allocateBlock b off src) := by
    rw [he]
    refine ⟨by simp [h.cached.length],?_⟩
    intro c x hx hn
    change (s.bitmaps.set b bm)[c]? = some x at hx
    dsimp only
    rw [getElem?_set] at hx
    split_ifs at hx with hc hl
    · obtain rfl := Option.some.inj hx
      subst hc
      rw [hset,if_pos rfl,r3]
      exact ⟨by omega,hbits4.symm⟩
    · obtain ⟨hcu,hxe⟩ := h.cached.eq c x hx hn
      rw [hset,if_neg (Ne.symm hc)]
      refine ⟨hcu,hxe.trans (slice_congr _ _ _ _ ?_)⟩
      intro j hj1 hj2
      have h1 := h.sane.tableBlock _ (entry_mem hcu).2 hcu
      have h2 := hroom c hcu
      rw [hf4 j (by omega),(hbefore j (by omega)).2.2]
  have hdisk := diskByte_patch h.sane.toLaid hsame4 b off src hfit hin hother hnewblock
  refine ⟨⟨⟨by rw [he]; exact hs4,hcache⟩,by rw [he]; exact hsame4,by rw [he],?_,?_,?_,?_,?_,?_⟩,?_⟩
  · intro c hc
    rw [he]
    dsimp only
    rw [hset,if_neg]
    rintro rfl
    exact hc hu
  · intro c hc
    rw [he]
    dsimp only
    rw [hset,if_neg hc]
  · rw [he]
    dsimp only
    omega
  · intro _
    have hend := h.sane.emptyEnd_le hne
    rw [hat] at hend
    obtain ⟨-,-,hsec⟩ := h.sane.toLaid.sectors
    refine Or.inl (Or.inr ?_)
    rw [he,hsame4.emptyEnd]
    dsimp only
    omega
  · rw [he]
    dsimp only
    rw [hset,if_pos rfl,if_neg (by omega)]
    exact hdisk
  · rw [he]
    dsimp only
    rw [hset,if_pos rfl]
    intro hc
    omega
  · have h1 := hquiet f1 hs1 (fun i hi => (hbefore i hi).1)
    have h2 := hquiet f2 hs2 (fun i hi => (hbefore i hi).2.1)
    have h3 := hquiet f3 hs3 (fun i hi => (hbefore i hi).2.2)
    have h4 : Shows out (diskByte s.file s.vhd) f4 := by
      refine shows_of_block h b off src out hout f4 _ hs4 hsame4 hother ?_
      intro o ho hn
      rw [hnewblock o ho,patch_outside]
      unfold sector at hn
      omega
    rw [he]
    have t1 : QUniLator.Trail applyOp (Shows out (diskByte s.file s.vhd)) s.file s.log f1 _ :=
      .op (.pwrite s.vhd.footer newAt) hstart h1 rfl hst.footer
    have t2 := t1.trans (.op (.pwrite bm at_) h1 h2 rfl hst.bitmap)
    have t3 := t2.trans (.op (.pwrite src (at_+s.vhd.bitmapBytes+off)) h2 h3 rfl hst.data)
    have t4 := t3.trans (.op .fdatasync h3 h3 rfl rfl)
    exact t4.trans (.op _ h3 h4 rfl hst.table)

end

end Image

end QUniLator.Vhd
