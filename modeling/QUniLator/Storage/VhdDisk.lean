import QUniLator.Storage.VhdLayout

namespace QUniLator.Vhd

def Layout.entry (l : Layout) (b : Nat) : Nat := l.bat[b]?.getD batUnused

/-- The byte at offset `o` of the block at sector `at_`. -/
def blockByte (f : File) (l : Layout) (at_ o : Nat) : UInt8 :=
  if getBit .msb (slice f.byte (at_*sector) l.bitmapBytes) (o/sector) then
    f.byte (at_*sector+l.bitmapBytes+o)
  else 0

/-- The byte at offset `o` of block `b`, which may not be there. -/
def contentByte (f : File) (l : Layout) (b o : Nat) : UInt8 :=
  if l.entry b=batUnused then 0 else blockByte f l (l.entry b) o

def diskByte (f : File) (l : Layout) (i : Nat) : UInt8 :=
  if l.diskSize ≤ i then 0
  else if l.type=typeFixed then f.byte i
  else contentByte f l (i/l.blockSize) (i%l.blockSize)

/-- The header, the table, the blocks and the closing footer do not overlap. A table without entries
lies nowhere. -/
structure Apart (l : Layout) : Prop where
  headerTable : l.bat≠[] → l.headerAt+1024≤l.tableAt ∨ l.tableAt+l.bat.length*4≤l.headerAt
  headerFooter : l.headerAt+1024≤l.footerAt
  tableFooter : l.bat≠[] → l.tableAt+l.bat.length*4≤l.footerAt
  headerBlock : ∀ e∈l.bat,e≠batUnused → l.headerAt+1024≤e*sector
  tableBlock : ∀ e∈l.bat,e≠batUnused → l.tableAt+l.bat.length*4≤e*sector
  blocks : ∀ b c,b≠c → l.entry b≠batUnused → l.entry c≠batUnused →
    l.entry b*sector+l.bitmapBytes+l.blockSize≤l.entry c*sector ∨
    l.entry c*sector+l.bitmapBytes+l.blockSize≤l.entry b*sector

/-- A dynamic disk that can be written to. -/
structure Sane (f : File) (l : Layout) : Prop extends Laid f l,Apart l where
  atEnd : l.footerAtEnd=true

/-- Where `truncate` puts the closing footer. -/
def Layout.emptyEnd (l : Layout) : Nat :=
  max (max sector (l.headerAt+1024)) (roundUp (l.tableAt+l.bat.length*4) sector)

/-- The closing footer's new place and its old one do not overlap, or the new one ends the file. -/
def Tidy (l : Layout) : Prop := l.footerAt≤l.emptyEnd ∨ l.emptyEnd+sector≤l.footerAt

/-- The file starts with a copy of its footer, and what is left of the closing one where the new one
overlaps it is not itself a footer. -/
structure Mirrored (f : File) (l : Layout) : Prop where
  copy : slice f.byte 0 sector=l.footer
  header : sector≤l.headerAt
  table : l.bat≠[] → sector≤l.tableAt
  torn : validFooter (l.footer.drop (l.footerAt-l.emptyEnd) ++
    l.footer.drop (sector-(l.footerAt-l.emptyEnd)))=false

def Recoverable (f : File) (l : Layout) : Prop := Tidy l ∨ Mirrored f l

theorem Layout.entry_mem {l : Layout} {b : Nat} (h : l.entry b≠batUnused) : b<l.bat.length ∧ l.entry b∈l.bat := by
  unfold Layout.entry at *
  by_cases hb : b<l.bat.length
  · simp [hb]
  · simp [hb] at h

section
variable {f f' : File} {l l' : Layout}

theorem Sane.fits' (h : Sane f l) {b : Nat} (hb : l.entry b≠batUnused) :
    l.entry b*sector+l.bitmapBytes+l.blockSize≤l.footerAt := by
  have hf := h.fits _ (Layout.entry_mem hb).2 hb
  rwa [dataEnd,h.atEnd,if_pos rfl] at hf

/-- What of a layout stays for as long as the disk is open. -/
structure Same (l l' : Layout) : Prop where
  footer : l'.footer=l.footer
  type : l'.type=l.type
  diskSize : l'.diskSize=l.diskSize
  footerAtEnd : l'.footerAtEnd=l.footerAtEnd
  headerAt : l'.headerAt=l.headerAt
  tableAt : l'.tableAt=l.tableAt
  blockSize : l'.blockSize=l.blockSize
  bitmapBytes : l'.bitmapBytes=l.bitmapBytes
  entries : l'.bat.length=l.bat.length

theorem Same.refl (l : Layout) : Same l l := ⟨rfl,rfl,rfl,rfl,rfl,rfl,rfl,rfl,rfl⟩

theorem Same.trans {l'' : Layout} (h : Same l l') (k : Same l' l'') : Same l l'' :=
  ⟨k.1.trans h.1,k.2.trans h.2,k.3.trans h.3,k.4.trans h.4,k.5.trans h.5,k.6.trans h.6,
    k.7.trans h.7,k.8.trans h.8,k.9.trans h.9⟩

/-- A file with the header still in place, the footer at its end and a table that says what the layout
says is a disk again. -/
theorem Laid.move (h : Laid f l) (hs : Same l l') (hend : l.footerAtEnd) (hsize : f'.size=l'.footerAt+sector)
    (hfooter : ∀ i,i<sector → f'.byte (l'.footerAt+i)=l.footer.getD i 0)
    (hheader : ∀ i,l.headerAt ≤ i → i<l.headerAt+1024 → f'.byte i=f.byte i)
    (hin : l.headerAt+1024≤f'.size) (htable : l.tableAt+l.bat.length*4≤f'.size)
    (hentry : ∀ b,b<l.bat.length → l'.bat[b]? = some (beGet (slice f'.byte (l.tableAt+b*4) 4)))
    (hfits : ∀ e∈l'.bat,e≠batUnused → e*sector+l.bitmapBytes+l.blockSize≤l'.footerAt) : Laid f' l' := by
  have hend' : l'.footerAtEnd=true := hs.footerAtEnd.trans hend
  have hlen : l.footer.length=sector := by rw [h.closing hend,slice_length]
  have hfoot : l'.footer=slice f'.byte l'.footerAt sector := by
    rw [hs.footer]
    apply List.ext_getElem?
    intro i
    by_cases hi : i<sector
    · rw [slice_getElem? _ _ _ _ hi,hfooter i hi,List.getD_eq_getElem?_getD,
        List.getElem?_eq_getElem (by omega)]
      rfl
    · rw [List.getElem?_eq_none (by omega),List.getElem?_eq_none (by rw [slice_length]; omega)]
  have hhead : slice f'.byte l'.headerAt 1024=slice f.byte l.headerAt 1024 := by
    rw [hs.headerAt]
    exact slice_congr _ _ _ _ hheader
  refine ⟨⟨hsize,?_,fun _ => hfoot,fun hn => ?_,?_,?_⟩,⟨?_,?_,?_,?_,?_,?_,?_⟩,?_,?_⟩
  · rw [hs.footer]
    exact h.valid
  · rw [hend'] at hn
    exact absurd hn (by decide)
  · rw [hs.type,hs.footer]
    exact h.type
  · rw [hs.diskSize,hs.footer]
    exact h.diskSize
  · rw [hs.headerAt,hs.footer]
    exact h.headerAt
  · rw [hs.headerAt]
    exact hin
  · rw [hhead]
    exact ⟨h.headed.cookie,h.headed.checksum,hs.tableAt.trans h.headed.tableAt,
      hs.entries.trans h.headed.entries,hs.blockSize.trans h.headed.blockSize⟩
  · refine ⟨?_,?_,?_,?_,?_⟩
    · rw [hs.blockSize]
      exact h.sized.small
    · rw [hs.blockSize]
      exact h.sized.whole
    · rw [hs.blockSize]
      exact h.sized.large
    · rw [hs.diskSize,hs.entries,hs.blockSize]
      exact h.sized.covers
    · rw [hs.bitmapBytes,hs.blockSize]
      exact h.sized.bitmapBytes
  · rw [hs.tableAt,hs.entries]
    exact htable
  · intro b hb
    rw [hs.tableAt]
    exact hentry b (by rw [← hs.entries]; exact hb)
  · intro e he hu
    rw [hs.bitmapBytes,hs.blockSize,dataEnd,hend',if_pos rfl]
    exact hfits e he hu
  · exact hs.type.trans h.dynamic
  · rw [hs.diskSize]
    exact h.wholeDisk

theorem Same.emptyEnd (h : Same l l') : l'.emptyEnd=l.emptyEnd := by
  rw [Layout.emptyEnd,h.headerAt,h.tableAt,h.entries,Layout.emptyEnd]

theorem Recoverable.congr (h : Recoverable f l)
    (hb : ∀ i,i<l.headerAt+1024 → f'.byte i=f.byte i) : Recoverable f' l := by
  rcases h with ht | hm
  · exact Or.inl ht
  · refine Or.inr ⟨?_,hm.header,hm.table,hm.torn⟩
    rw [← hm.copy]
    apply slice_congr
    intro i _ hi
    have := hm.header
    exact hb i (by omega)

theorem Sane.footer_byte (h : Sane f l) (i : Nat) (hi : i<sector) : f.byte (l.footerAt+i)=l.footer.getD i 0 := by
  rw [h.closing h.atEnd,List.getD_eq_getElem?_getD,slice_getElem? _ _ _ _ hi]
  rfl

/-- A write into room the header, the table and the footer leave: still a disk as `parse` takes it,
whatever else shares that room. -/
theorem Laid.pwrite (h : Laid f l) (he : l.footerAtEnd) (bs : List UInt8) (pos : Nat)
    (hheader : pos+bs.length≤l.headerAt ∨ l.headerAt+1024≤pos)
    (htable : l.bat≠[] → pos+bs.length≤l.tableAt ∨ l.tableAt+l.bat.length*4≤pos)
    (hfooter : pos+bs.length≤l.footerAt) : Laid (f.pwrite bs pos) l := by
  have hbyte (i : Nat) (hi : ¬(pos ≤ i ∧ i<pos+bs.length)) :
      (f.pwrite bs pos).byte i=f.byte i := by
    rw [File.pwrite_byte,patch_outside _ _ _ _ hi]
  have hsize : (f.pwrite bs pos).size=f.size := by
    by_cases hb : bs=[]
    · simp [File.pwrite,hb]
    · rw [File.pwrite_size _ _ _ hb,h.size]
      omega
  refine h.move (.refl l) he (hsize.trans h.size) ?_ ?_ ?_ ?_ ?_ ?_
  · intro i hi
    rw [hbyte _ (by omega),h.closing he,List.getD_eq_getElem?_getD,slice_getElem? _ _ _ _ hi]
    rfl
  · intro i _ hi
    exact hbyte i (by omega)
  · rw [hsize]
    exact h.headerIn
  · rw [hsize]
    exact h.tableIn
  · intro b hb
    have hne : l.bat≠[] := by
      intro hn
      simp [hn] at hb
    have ht := htable hne
    rw [h.entry b hb]
    congr 2
    apply slice_congr
    intro i _ hi
    exact (hbyte i (by omega)).symm
  · intro e hm hu
    have hf := h.fits e hm hu
    rwa [dataEnd,he,if_pos rfl] at hf

/-- A write into the room of a block, or any other room the header, the table and the footer leave,
leaves a disk. -/
theorem Sane.pwrite (h : Sane f l) (bs : List UInt8) (pos : Nat)
    (hheader : pos+bs.length≤l.headerAt ∨ l.headerAt+1024≤pos) (htable : l.bat≠[] →
      pos+bs.length≤l.tableAt ∨ l.tableAt+l.bat.length*4≤pos)
    (hfooter : pos+bs.length≤l.footerAt) : Sane (f.pwrite bs pos) l :=
  ⟨h.toLaid.pwrite h.atEnd bs pos hheader htable hfooter,h.toApart,h.atEnd⟩

end

end QUniLator.Vhd
