import QUniLator.Storage.VhdBlock

namespace QUniLator.Vhd

open File

section
variable {f : File} {l : Layout}

theorem contentByte_data (b : Nat) (hb : l.entry b≠batUnused) (off : Nat) (bs : List UInt8) (o : Nat) :
    contentByte (f.pwrite bs (l.entry b*sector+l.bitmapBytes+off)) l b o =
      if getBit .msb (slice f.byte (l.entry b*sector) l.bitmapBytes) (o/sector) then
        patch (fun o => f.byte (l.entry b*sector+l.bitmapBytes+o)) off bs o else 0 := by
  have hbits : slice (f.pwrite bs (l.entry b*sector+l.bitmapBytes+off)).byte (l.entry b*sector)
      l.bitmapBytes=slice f.byte (l.entry b*sector) l.bitmapBytes := by
    apply slice_congr
    intro i _ hi
    rw [pwrite_byte,patch_before _ _ _ _ (by omega)]
  rw [contentByte,if_neg hb,blockByte,hbits,pwrite_byte,patch_shift]

theorem contentByte_bitmap (b : Nat) (hb : l.entry b≠batUnused) (bm : List UInt8)
    (hlen : bm.length=l.bitmapBytes) (o : Nat) : contentByte (f.pwrite bm (l.entry b*sector)) l b o =
      if getBit .msb bm (o/sector) then f.byte (l.entry b*sector+l.bitmapBytes+o) else 0 := by
  have hbits : slice (f.pwrite bm (l.entry b*sector)).byte (l.entry b*sector) l.bitmapBytes =
      bm := by
    rw [pwrite_byte,← hlen,slice_patch]
  rw [contentByte,if_neg hb,blockByte,hbits,pwrite_byte,patch_after _ _ _ _ (by omega)]

theorem Sane.pwrite_block (h : Sane f l) (b : Nat) (hb : l.entry b≠batUnused) (bs : List UInt8)
    (pos : Nat) (h1 : l.entry b*sector≤pos)
    (h2 : pos+bs.length≤l.entry b*sector+l.bitmapBytes+l.blockSize) : Sane (f.pwrite bs pos) l := by
  have hm := (Layout.entry_mem hb).2
  have hh := h.headerBlock _ hm hb
  have ht := h.tableBlock _ hm hb
  have hf := h.fits' hb
  exact h.pwrite bs pos (Or.inr (by omega)) (fun _ => Or.inr (by omega)) (by omega)

end

def InSectors (pos len i : Nat) : Prop := pos/sector ≤ i/sector ∧ i/sector*sector<pos+len

theorem inSectors_block {f : File} {l : Layout} (h : Laid f l) (b off len i : Nat)
    (hi : i/l.blockSize=b) : InSectors (b*l.blockSize+off) len i ↔
      off/sector ≤ i%l.blockSize/sector ∧ i%l.blockSize/sector<(off+len+sector-1)/sector := by
  have hd := Nat.div_add_mod' i l.blockSize
  rw [hi] at hd
  obtain ⟨hk,-,-⟩ := h.sectors
  generalize i%l.blockSize=o at *
  have hb : b*l.blockSize=b*(l.blockSize/sector)*sector := by
    rw [Nat.mul_assoc,← hk]
  rw [hb] at hd ⊢
  generalize b*(l.blockSize/sector)=m at *
  unfold InSectors sector at *
  omega

/-- A table that has no room for another block: the file has grown past what it can address. -/
def Full (l : Layout) : Prop := batUnused ≤ roundUp l.footerAt sector/sector

namespace Image

/-- What holds of an open dynamic disk that is not read-only. -/
structure Writable (s : Image) : Prop where
  sane : Sane s.file s.vhd
  cached : Cached s

/-- The operations from `s` to `t`, with `R` holding of the file wherever they are cut short. -/
def Trail (R : File → Prop) (s t : Image) : Prop :=
  QUniLator.Trail applyOp R s.file s.log t.file t.log

/-- The file holds a disk that shows `v` wherever `out` holds. -/
def Shows (out : Nat → Prop) (v : Nat → UInt8) (f : File) : Prop :=
  ∃ l,Sane f l ∧ ∀ i,out i → diskByte f l i=v i

/-- What a write into one block has done. -/
structure Wrote (s t : Image) (b off : Nat) (src : List UInt8) : Prop extends Writable t where
  same : Same s.vhd t.vhd
  readonly : t.readonly=s.readonly
  kept : ∀ c,s.vhd.entry c≠batUnused → t.vhd.entry c=s.vhd.entry c
  others : ∀ c,c≠b → t.vhd.entry c=s.vhd.entry c
  grows : s.vhd.footerAt≤t.vhd.footerAt
  lead : Recoverable s.file s.vhd → Recoverable t.file t.vhd
  disk : diskByte t.file t.vhd =
    if t.vhd.entry b=batUnused then diskByte s.file s.vhd
    else patch (diskByte s.file s.vhd) (b*s.vhd.blockSize+off) src
  full : t.vhd.entry b=batUnused → Full t.vhd

theorem cached_of_bitmaps {s t : Image} (h : Cached s) (hb : t.bitmaps=s.bitmaps)
    (hv : t.vhd=s.vhd) (hs : ∀ c,s.vhd.entry c≠batUnused →
      slice t.file.byte (s.vhd.entry c*sector) s.vhd.bitmapBytes =
        slice s.file.byte (s.vhd.entry c*sector) s.vhd.bitmapBytes) : Cached t := by
  refine ⟨by rw [hb,hv]; exact h.length,?_⟩
  intro c bm hc hn
  rw [hb] at hc
  obtain ⟨hu,he⟩ := h.eq c bm hc hn
  rw [hv]
  exact ⟨hu,he.trans (hs c hu).symm⟩

theorem bitmap_other {f : File} {l : Layout} (h : Sane f l) (b : Nat)
    (hb : l.entry b≠batUnused) (bs : List UInt8) (pos : Nat) (h1 : l.entry b*sector≤pos)
    (h2 : pos+bs.length≤l.entry b*sector+l.bitmapBytes+l.blockSize) (c : Nat) (hc : c≠b)
    (hu : l.entry c≠batUnused) : slice (f.pwrite bs pos).byte (l.entry c*sector) l.bitmapBytes =
      slice f.byte (l.entry c*sector) l.bitmapBytes := by
  have hd := h.blocks b c (Ne.symm hc) hb hu
  apply slice_congr
  intro i hi1 hi2
  rw [pwrite_byte,patch_outside _ _ _ _ (by omega)]

theorem bitmap_data {f : File} {l : Layout} (h : Sane f l) (b : Nat)
    (hb : l.entry b≠batUnused) (off : Nat) (bs : List UInt8)
    (hfit : off+bs.length≤l.blockSize) (c : Nat) (hu : l.entry c≠batUnused) :
    slice (f.pwrite bs (l.entry b*sector+l.bitmapBytes+off)).byte (l.entry c*sector)
      l.bitmapBytes=slice f.byte (l.entry c*sector) l.bitmapBytes := by
  by_cases hc : c=b
  · subst hc
    apply slice_congr
    intro i _ hi
    rw [pwrite_byte,patch_before _ _ _ _ (by omega)]
  · exact bitmap_other h b hb bs _ (by omega) (by omega) c hc hu

section
variable {s : Image} (h : Writable s) (b off : Nat) (src : List UInt8) (out : Nat → Prop)
  (hout : ∀ i,out i → ¬InSectors (b*s.vhd.blockSize+off) src.length i)
include h hout

theorem shows_of_block (f : File) (l : Layout) (hs : Sane f l) (hsame : Same s.vhd l)
    (hother : ∀ c o,c≠b → o<s.vhd.blockSize → contentByte f l c o=contentByte s.file s.vhd c o)
    (hblock : ∀ o,o<s.vhd.blockSize → ¬(off/sector≤o/sector ∧ o/sector<(off+src.length+sector-1)/sector) →
      contentByte f l b o=contentByte s.file s.vhd b o) : Shows out (diskByte s.file s.vhd) f := by
  refine ⟨l,hs,?_⟩
  intro i hi
  have hm := Nat.mod_lt i h.sane.blockSize_pos
  refine diskByte_congr h.sane.toLaid hsame i ?_
  by_cases hb : i/s.vhd.blockSize=b
  · have hn := hout i hi
    rw [inSectors_block h.sane.toLaid b off src.length i hb] at hn
    rw [hb]
    exact hblock _ hm hn
  · exact hother _ _ hb hm

end

theorem wrote_of_block {s : Image} (h : Writable s) (b off : Nat) (src : List UInt8)
    (hfit : off+src.length ≤ s.vhd.blockSize) (hin : b*s.vhd.blockSize+off+src.length ≤ s.vhd.diskSize)
    (hb : s.vhd.entry b≠batUnused) (t : Image) (hv : t.vhd=s.vhd)
    (hr : t.readonly=s.readonly) (hs : Sane t.file s.vhd) (hc : Cached t)
    (hlow : ∀ i,i<s.vhd.entry b*sector → t.file.byte i=s.file.byte i) (hother : ∀ c o,c≠b → o<s.vhd.blockSize →
      contentByte t.file s.vhd c o=contentByte s.file s.vhd c o) (hblock : ∀ o,o<s.vhd.blockSize →
      contentByte t.file s.vhd b o=patch (contentByte s.file s.vhd b) off src o) : Wrote s t b off src := by
  refine ⟨⟨hv ▸ hs,hc⟩,by rw [hv]; exact .refl _,hr,fun _ _ => by rw [hv],fun _ _ => by rw [hv],
    by rw [hv],?_,?_,fun hn => absurd (by rw [← hv]; exact hn) hb⟩
  · intro hr
    rw [hv]
    refine hr.congr (fun i hi => hlow i ?_)
    have := h.sane.headerBlock _ (Layout.entry_mem hb).2 hb
    omega
  · rw [hv,if_neg hb]
    exact diskByte_patch h.sane.toLaid (.refl _) b off src hfit hin hother hblock

theorem contentByte_used {f : File} {l : Layout} (b : Nat) (hb : l.entry b≠batUnused) (o : Nat) :
    contentByte f l b o = if getBit .msb (slice f.byte (l.entry b*sector) l.bitmapBytes) (o/sector) then
        f.byte (l.entry b*sector+l.bitmapBytes+o) else 0 := by
  rw [contentByte,if_neg hb,blockByte]

section
variable {s : Image} (h : Writable s) (b off : Nat) (src : List UInt8) (out : Nat → Prop)
  (hout : ∀ i,out i → ¬InSectors (b*s.vhd.blockSize+off) src.length i)
  (hfit : off+src.length ≤ s.vhd.blockSize)
  (hin : b*s.vhd.blockSize+off+src.length ≤ s.vhd.diskSize)
  (hb : s.vhd.entry b≠batUnused)
include h hout hfit hin hb

theorem writePresent_spec (hpres : ∀ o,off≤o → o<off+src.length →
      getBit .msb (slice s.file.byte (s.vhd.entry b*sector) s.vhd.bitmapBytes) (o/sector)=true) :
    Wrote s ((s.load b).sys (.pwrite src (s.vhd.entry b*sector+s.vhd.bitmapBytes+off))) b off src ∧
      Trail (Shows out (diskByte s.file s.vhd)) s
        ((s.load b).sys (.pwrite src (s.vhd.entry b*sector+s.vhd.bitmapBytes+off))) := by
  have hs := h.sane.pwrite_block b hb src (s.vhd.entry b*sector+s.vhd.bitmapBytes+off) (by omega)
    (by omega)
  have hother := h.sane.contentByte_other b hb src (s.vhd.entry b*sector+s.vhd.bitmapBytes+off)
    (by omega) (by omega)
  have hblock (o : Nat) :
      contentByte (s.file.pwrite src (s.vhd.entry b*sector+s.vhd.bitmapBytes+off)) s.vhd b o =
        patch (contentByte s.file s.vhd b) off src o := by
    rw [contentByte_data b hb off src o]
    by_cases hi : off≤o ∧ o<off+src.length
    · rw [if_pos (hpres o hi.1 hi.2)]
      apply Option.some.inj
      rw [patch_inside _ _ _ _ hi.1 hi.2,patch_inside _ _ _ _ hi.1 hi.2]
    · rw [patch_outside _ _ _ _ hi,patch_outside _ _ _ _ hi,contentByte_used b hb]
  have hshow : Shows out (diskByte s.file s.vhd)
      (s.file.pwrite src (s.vhd.entry b*sector+s.vhd.bitmapBytes+off)) := by
    refine shows_of_block h b off src out hout _ _ hs (.refl _) hother ?_
    intro o ho hn
    rw [hblock o,patch_outside]
    unfold sector at hn
    omega
  have hcache := cached_of_bitmaps (load_cached h.cached b hb)
    (t := (s.load b).sys (.pwrite src (s.vhd.entry b*sector+s.vhd.bitmapBytes+off))) rfl rfl
    (bitmap_data h.sane b hb off src hfit)
  have hlow (i : Nat) (hi : i<s.vhd.entry b*sector) :
      (s.file.pwrite src (s.vhd.entry b*sector+s.vhd.bitmapBytes+off)).byte i=s.file.byte i := by
    rw [pwrite_byte,patch_before _ _ _ _ (by omega)]
  refine ⟨wrote_of_block h b off src hfit hin hb _ rfl rfl hs hcache hlow hother
    (fun o _ => hblock o),?_⟩
  exact .op _ ⟨s.vhd,h.sane,fun _ _ => rfl⟩ hshow rfl rfl

theorem writeAbsent_spec (first end_ : Nat) (hf : first=off/sector)
    (he : end_=(off+src.length+sector-1)/sector) (hlt : first<end_) (whole bm : List UInt8)
    (hwhole : whole=slice (patch (contentByte s.file s.vhd b) off src) (first*sector)
      ((end_-first)*sector)) (hbm : bm=(List.range' first (end_-first)).foldl (setBit .msb)
      (slice s.file.byte (s.vhd.entry b*sector) s.vhd.bitmapBytes)) : let t := (s.load b).sys (.pwrite whole
      (s.vhd.entry b*sector+s.vhd.bitmapBytes+first*sector))
    let u := { t with bitmaps := t.bitmaps.set b bm }.sys (.pwrite bm (s.vhd.entry b*sector))
    Wrote s u b off src ∧ Trail (Shows out (diskByte s.file s.vhd)) s u := by
  intro t u
  obtain ⟨hk,hbits,hbmb⟩ := h.sane.toLaid.sectors
  have hend : off+src.length≤end_*sector ∧ end_ ≤ s.vhd.blockSize/sector ∧
      first*sector≤off ∧ first*sector+(end_-first)*sector=end_*sector ∧
      end_*sector ≤ s.vhd.blockSize := by
    subst hf he
    unfold sector at *
    omega
  have hwlen : whole.length=(end_-first)*sector := by rw [hwhole,slice_length]
  have hblen : bm.length=s.vhd.bitmapBytes := by rw [hbm,foldl_setBit_length,slice_length]
  have hts := h.sane.pwrite_block b hb whole
    (s.vhd.entry b*sector+s.vhd.bitmapBytes+first*sector) (by omega) (by omega)
  have hto := h.sane.contentByte_other b hb whole
    (s.vhd.entry b*sector+s.vhd.bitmapBytes+first*sector) (by omega) (by omega)
  have hus : Sane u.file s.vhd := hts.pwrite_block b hb bm (s.vhd.entry b*sector) (le_refl _)
    (by omega)
  have huo (c o : Nat) (hc : c≠b) (ho : o<s.vhd.blockSize) :
      contentByte u.file s.vhd c o=contentByte s.file s.vhd c o :=
    (hts.contentByte_other b hb bm (s.vhd.entry b*sector) (le_refl _) (by omega) c o hc ho).trans
      (hto c o hc ho)
  have hraw (o : Nat) : patch (fun o => s.file.byte (s.vhd.entry b*sector+s.vhd.bitmapBytes+o))
      (first*sector) whole o =
        if first≤o/sector ∧ o/sector<end_ then patch (contentByte s.file s.vhd b) off src o
        else s.file.byte (s.vhd.entry b*sector+s.vhd.bitmapBytes+o) := by
    rw [hwhole,patch_slice]
    have hiff : (first*sector≤o ∧ o<first*sector+(end_-first)*sector) ↔
        (first≤o/sector ∧ o/sector<end_) := by
      rw [hend.2.2.2.1]
      unfold sector
      omega
    simp only [hiff]
  have hout' (o : Nat) (hn : ¬(first≤o/sector ∧ o/sector<end_)) :
      ¬(off≤o ∧ o<off+src.length) := by
    subst hf he
    unfold sector at *
    omega
  have htb (o : Nat) (hn : ¬(first≤o/sector ∧ o/sector<end_)) :
      contentByte t.file s.vhd b o=contentByte s.file s.vhd b o := by
    change contentByte (s.file.pwrite whole _) s.vhd b o=_
    rw [contentByte_data b hb,hraw,if_neg hn,contentByte_used b hb]
  have hub (o : Nat) (ho : o<s.vhd.blockSize) : contentByte u.file s.vhd b o =
      patch (contentByte s.file s.vhd b) off src o := by
    have hbit : getBit .msb bm (o/sector)=(decide (first≤o/sector ∧ o/sector<end_) ||
        getBit .msb (slice s.file.byte (s.vhd.entry b*sector) s.vhd.bitmapBytes) (o/sector)) := by
      rw [hbm,getBit_foldl_setBit _ _ _ _ _ (by rw [slice_length]; omega),
        show first+(end_-first)=end_ by omega]
    have hbyte : (s.file.pwrite whole (s.vhd.entry b*sector+s.vhd.bitmapBytes+first*sector)).byte
        (s.vhd.entry b*sector+s.vhd.bitmapBytes+o) =
          patch (fun o => s.file.byte (s.vhd.entry b*sector+s.vhd.bitmapBytes+o))
            (first*sector) whole o := by
      rw [pwrite_byte,patch_shift]
    change contentByte ((s.file.pwrite whole _).pwrite bm _) s.vhd b o=_
    rw [contentByte_bitmap b hb bm hblen,hbyte,hraw,hbit]
    by_cases hi : first≤o/sector ∧ o/sector<end_
    · simp [hi]
    · rw [patch_outside _ _ _ _ (hout' o hi),contentByte_used b hb]
      simp [hi]
  have htc : Cached t := cached_of_bitmaps (load_cached h.cached b hb) rfl rfl
    (bitmap_data h.sane b hb _ whole (by omega))
  have hcache : Cached u := by
    refine ⟨by simp [u,sys,htc.length],?_⟩
    intro c x hx hn
    change (t.bitmaps.set b bm)[c]? = some x at hx
    rw [List.getElem?_set] at hx
    split_ifs at hx with hc hlt
    · obtain rfl := Option.some.inj hx
      subst hc
      refine ⟨hb,?_⟩
      change bm=slice (t.file.pwrite bm (s.vhd.entry b*sector)).byte (s.vhd.entry b*sector)
        s.vhd.bitmapBytes
      rw [pwrite_byte,← hblen,slice_patch]
    · obtain ⟨hu,hxe⟩ := htc.eq c x hx hn
      refine ⟨hu,hxe.trans (bitmap_other hts b hb bm _ (le_refl _) ?_ c (Ne.symm hc) hu).symm⟩
      omega
  have hlow (i : Nat) (hi : i<s.vhd.entry b*sector) : u.file.byte i=s.file.byte i := by
    change ((s.file.pwrite whole _).pwrite bm _).byte i=_
    rw [pwrite_byte,patch_before _ _ _ _ hi,pwrite_byte,patch_before _ _ _ _ (by omega)]
  refine ⟨wrote_of_block h b off src hfit hin hb u rfl rfl hus hcache hlow huo hub,?_⟩
  have h1 : Shows out (diskByte s.file s.vhd) t.file := by
    refine shows_of_block h b off src out hout _ _ hts (.refl _) hto ?_
    intro o _ hn
    rw [← hf,← he] at hn
    exact htb o hn
  have h2 : Shows out (diskByte s.file s.vhd) u.file := by
    refine shows_of_block h b off src out hout _ _ hus (.refl _) huo ?_
    intro o ho hn
    rw [← hf,← he] at hn
    rw [hub o ho,patch_outside _ _ _ _ (hout' o hn)]
  have hst : Trail (Shows out (diskByte s.file s.vhd)) s t :=
    .op _ ⟨s.vhd,h.sane,fun _ _ => rfl⟩ h1 rfl rfl
  exact hst.trans (.op _ h1 h2 rfl rfl)

theorem writeInBlock_spec (hne : 0<src.length) : Wrote s (s.writeInBlock b off src) b off src ∧
      Trail (Shows out (diskByte s.file s.vhd)) s (s.writeInBlock b off src) := by
  have hload := load_cached h.cached b hb
  obtain ⟨hk,-,-⟩ := h.sane.toLaid.sectors
  have hlt : off/sector<(off+src.length+sector-1)/sector := by
    unfold sector
    omega
  have hend : off/sector*sector+((off+src.length+sector-1)/sector-off/sector)*sector ≤
      s.vhd.blockSize ∧ off/sector*sector≤off ∧
      off-off/sector*sector+src.length ≤
        ((off+src.length+sector-1)/sector-off/sector)*sector := by
    unfold sector at *
    omega
  unfold writeInBlock
  simp only
  split_ifs with hall
  · refine writePresent_spec h b off src out hout hfit hin hb ?_
    intro o h1 h2
    rw [List.all_eq_true] at hall
    have hp := hall (o/sector) (by
      rw [List.mem_range'_1]
      unfold sector
      omega)
    rwa [sectorPresent,bitmap_eq hload] at hp
  · have hread := readInBlock_eq (s := s.load b) h.sane.toLaid hload b (off/sector*sector)
      (((off+src.length+sector-1)/sector-off/sector)*sector) hb hend.1
    rw [hread]
    refine writeAbsent_spec h b off src out hout hfit hin hb _ _ rfl rfl hlt _ _ ?_ ?_
    · rw [overwrite_slice _ _ _ _ _ hend.2.2,Nat.add_sub_cancel' hend.2.1]
      rfl
    · have hc := cached_of_bitmaps hload (t := (s.load b).sys (.pwrite
        (overwrite (slice (contentByte s.file s.vhd b) (off/sector*sector)
          (((off+src.length+sector-1)/sector-off/sector)*sector)) (off-off/sector*sector) src)
        (s.vhd.entry b*sector+s.vhd.bitmapBytes+off/sector*sector))) rfl rfl
        (bitmap_data h.sane b hb _ _ (by
          rw [overwrite_length _ _ _ (by rw [slice_length]; exact hend.2.2),slice_length]
          omega))
      congr 1
      refine (bitmap_eq hc b).trans ?_
      exact bitmap_data h.sane b hb _ _ (by
          rw [overwrite_length _ _ _ (by rw [slice_length]; exact hend.2.2),slice_length]
          omega) b hb

end

end Image

end QUniLator.Vhd
