import QUniLator.Storage.VhdDisk

namespace QUniLator.Vhd

section
variable {f f' : File} {l l' : Layout}

theorem Laid.blockSize_pos (h : Laid f l) : 0<l.blockSize := by
  have := h.sized.small
  unfold sector at this
  omega

theorem Laid.not_fixed (h : Laid f l) : l.type≠typeFixed := by
  rw [h.dynamic]
  decide

theorem Laid.sectors (h : Laid f l) : l.blockSize=l.blockSize/sector*sector ∧
    l.blockSize/sector≤8*l.bitmapBytes ∧ sector≤l.bitmapBytes := by
  have hs := h.sized.small
  have hw := h.sized.whole
  have hb := h.sized.bitmapBytes
  unfold sector roundUp at *
  omega

theorem diskByte_patch (h : Laid f l) (hs : Same l l') (b off : Nat) (src : List UInt8)
    (hfit : off+src.length≤l.blockSize) (hin : b*l.blockSize+off+src.length≤l.diskSize)
    (hother : ∀ c o,c≠b → o<l.blockSize → contentByte f' l' c o=contentByte f l c o)
    (hblock : ∀ o,o<l.blockSize → contentByte f' l' b o=patch (contentByte f l b) off src o) :
    diskByte f' l'=patch (diskByte f l) (b*l.blockSize+off) src := by
  funext i
  have hm := Nat.mod_lt i h.blockSize_pos
  have hd := Nat.div_add_mod' i l.blockSize
  have hbyte : diskByte f' l' i=if l.diskSize ≤ i then 0
      else contentByte f' l' (i/l.blockSize) (i%l.blockSize) := by
    rw [diskByte,hs.diskSize,hs.type,hs.blockSize,if_neg h.not_fixed]
  by_cases hz : l.diskSize ≤ i
  · rw [hbyte,if_pos hz,patch_after _ _ _ _ (by omega),diskByte,if_pos hz]
  have hold : diskByte f l i=contentByte f l (i/l.blockSize) (i%l.blockSize) := by
    rw [diskByte,if_neg hz,if_neg h.not_fixed]
  rw [hbyte,if_neg hz]
  by_cases hb : i/l.blockSize=b
  · rw [hb] at hd hold ⊢
    rw [hblock _ hm]
    by_cases hi : off ≤ i%l.blockSize ∧ i%l.blockSize<off+src.length
    · apply Option.some.inj
      rw [patch_inside _ _ _ _ hi.1 hi.2,patch_inside _ _ _ _ (by omega) (by omega)]
      congr 1
      omega
    · rw [patch_outside _ _ _ _ hi,patch_outside _ _ _ _ (by omega),hold]
  · rw [hother _ _ hb hm,← hold,patch_outside]
    intro hi
    apply hb
    apply Nat.div_eq_of_lt_le
    · omega
    · rw [Nat.add_mul]
      omega

theorem diskByte_congr (h : Laid f l) (hs : Same l l') (i : Nat)
    (hc : contentByte f' l' (i/l.blockSize) (i%l.blockSize) =
      contentByte f l (i/l.blockSize) (i%l.blockSize)) : diskByte f' l' i=diskByte f l i := by
  unfold diskByte
  rw [hs.diskSize,hs.type,hs.blockSize,hc,if_neg h.not_fixed,if_neg h.not_fixed]

theorem contentByte_congr (hs : Same l l') (c o : Nat) (hc : l'.entry c=l.entry c)
    (ho : o<l.blockSize) (hb : l.entry c≠batUnused → ∀ i,l.entry c*sector ≤ i →
      i<l.entry c*sector+l.bitmapBytes+l.blockSize → f'.byte i=f.byte i) :
    contentByte f' l' c o=contentByte f l c o := by
  unfold contentByte
  rw [hc]
  split_ifs with hu
  · rfl
  · unfold blockByte
    rw [hs.bitmapBytes,hb hu _ (by omega) (by omega)]
    rw [slice_congr f'.byte f.byte _ _ (fun i h1 h2 => hb hu i h1 (by omega))]

theorem Sane.contentByte_other (h : Sane f l) (b : Nat) (hb : l.entry b≠batUnused)
    (bs : List UInt8) (pos : Nat) (h1 : l.entry b*sector≤pos)
    (h2 : pos+bs.length≤l.entry b*sector+l.bitmapBytes+l.blockSize) (c o : Nat) (hc : c≠b)
    (ho : o<l.blockSize) : contentByte (f.pwrite bs pos) l c o=contentByte f l c o := by
  refine contentByte_congr (.refl l) c o rfl ho ?_
  intro hu i hi1 hi2
  have hd := h.blocks b c (Ne.symm hc) hb hu
  rw [File.pwrite_byte,patch_outside _ _ _ _ (by omega)]

end

/-- A bitmap in memory is the one in the file. -/
structure Cached (s : Image) : Prop where
  length : s.bitmaps.length=s.vhd.bat.length
  eq : ∀ b bm,s.bitmaps[b]? = some bm → bm≠[] → s.vhd.entry b≠batUnused ∧
    bm=slice s.file.byte (s.vhd.entry b*sector) s.vhd.bitmapBytes

namespace Image

theorem bitmap_eq {s : Image} (h : Cached s) (b : Nat) :
    s.bitmap b=slice s.file.byte (s.vhd.entry b*sector) s.vhd.bitmapBytes := by
  unfold bitmap
  simp only
  split_ifs with hn
  · exact File.preadCleared_eq _ _ _
  · cases hb : s.bitmaps[b]? with
    | none => simp [hb] at hn
    | some bm =>
      rw [hb] at hn
      exact (h.eq b bm hb hn).2

theorem load_cached {s : Image} (h : Cached s) (b : Nat) (hb : s.vhd.entry b≠batUnused) : Cached (s.load b) := by
  refine ⟨by simp [load,h.length],?_⟩
  intro c bm hc hn
  change (s.bitmaps.set b (s.bitmap b))[c]? = some bm at hc
  rw [List.getElem?_set] at hc
  split_ifs at hc with hbc hlt
  · obtain rfl := Option.some.inj hc
    subst hbc
    exact ⟨hb,bitmap_eq h b⟩
  · exact h.eq c bm hc hn

theorem blankSectors_eq (raw : Nat → UInt8) (present : Nat → Bool) (offset len n : Nat)
    (hn : offset/sector+n≤(offset+len+sector-1)/sector) : (List.range' (offset/sector) n).foldl
      (fun buffer sec => if present sec then buffer else blankSector offset len buffer sec) (slice raw offset len) =
    slice (fun o => if o/sector<offset/sector+n ∧ present (o/sector)=false then 0 else raw o) offset len := by
  induction n with
  | zero =>
    apply slice_congr
    intro o h1 _
    have hle : offset/sector≤o/sector := Nat.div_le_div_right h1
    rw [if_neg (by omega)]
  | succ n ih =>
    rw [List.range'_concat,List.foldl_append,ih (by omega),List.foldl_cons,List.foldl_nil]
    simp only [Nat.one_mul]
    generalize hsec : offset/sector+n=sec at *
    cases hp : present sec with
    | true =>
      rw [if_pos rfl]
      apply slice_congr
      intro o _ _
      have : o/sector=sec → present (o/sector)=true := fun he => by rw [he,hp]
      by_cases he : o/sector=sec
      · simp [he,hp]
      · have hlt : o/sector<sec ↔ o/sector<offset/sector+(n+1) := by omega
        simp only [hlt]
    | false =>
      simp only [Bool.false_eq_true,if_false]
      -- the sector lies inside the range that is read, in part at least
      have h1 : sec*sector<offset+len := by
        unfold sector at *
        omega
      have h2 : offset<(sec+1)*sector := by
        unfold sector at *
        omega
      have h3 : sec*sector<(sec+1)*sector := by
        unfold sector
        omega
      unfold blankSector
      simp only
      rw [overwrite_slice _ _ _ _ _ (by simp; omega)]
      rw [show offset+(max (sec*sector) offset-offset)=max (sec*sector) offset by omega]
      apply slice_congr
      intro o ho1 ho2
      have hsec' : o/sector=sec ↔ sec*sector≤o ∧ o<(sec+1)*sector := by
        unfold sector
        omega
      by_cases he : o/sector=sec
      · have hin := hsec'.mp he
        apply Option.some.inj
        rw [patch_inside _ _ _ _ (by omega) (by simp; omega)]
        rw [if_pos ⟨by omega,by rw [he,hp]⟩,List.getElem?_replicate,if_pos (by omega)]
      · have hout : ¬(sec*sector≤o ∧ o<(sec+1)*sector) := fun hc => he (hsec'.mpr hc)
        rw [patch_outside _ _ _ _ (by simp; omega)]
        have hlt : o/sector<sec ↔ o/sector<offset/sector+(n+1) := by omega
        simp only [hlt]

theorem readInBlock_eq {s : Image} (hl : Laid s.file s.vhd) (h : Cached s) (b offset len : Nat)
    (hb : s.vhd.entry b≠batUnused) (hfit : offset+len ≤ s.vhd.blockSize) :
    s.readInBlock b offset len=some (slice (contentByte s.file s.vhd b) offset len) := by
  have hin : s.vhd.entry b*sector+s.vhd.bitmapBytes+offset+len ≤ s.file.size := by
    have hf := hl.fits _ (Layout.entry_mem hb).2 hb
    have hz := hl.size
    unfold dataEnd at hf
    split_ifs at hf <;> omega
  have hr : readAt s.file len (s.vhd.entry b*sector+s.vhd.bitmapBytes+offset) =
      some (slice (fun o => s.file.byte (s.vhd.entry b*sector+s.vhd.bitmapBytes+o)) offset len) := by
    rw [readAt_eq_some]
    refine ⟨Or.inr (by omega),?_⟩
    simp [slice,Nat.add_assoc]
  unfold readInBlock
  change (readAt s.file len (s.vhd.entry b*sector+s.vhd.bitmapBytes+offset)).map _=_
  rw [hr,Option.map_some]
  congr 1
  rw [blankSectors_eq _ (s.sectorPresent b) offset len _ (by unfold sector; omega)]
  apply slice_congr
  intro o h1 h2
  have hlt : o/sector<offset/sector+((offset+len+sector-1)/sector-offset/sector) := by
    unfold sector at *
    omega
  rw [contentByte,if_neg hb,blockByte,sectorPresent,bitmap_eq h]
  cases getBit .msb (slice s.file.byte (s.vhd.entry b*sector) s.vhd.bitmapBytes) (o/sector) <;>
    simp [hlt]

end Image

end QUniLator.Vhd
