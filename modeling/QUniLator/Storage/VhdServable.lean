import Mathlib.Order.CompletePartialOrder
import Mathlib.Order.Interval.Set.Disjoint
import QUniLator.Storage.VhdCrash

/-! Which of the files `parse` takes can be written to without one part of the disk changing another. A block has to
end before the closing footer; nothing asks that two blocks lie apart, or that one keeps off the other structures. -/

namespace QUniLator.Vhd

open File List
open Image List

/-- The `n` bytes of a file at `at_`. -/
def span (at_ n : Nat) : Set Nat := Set.Ico at_ (at_+n)

def Layout.block (l : Layout) (b : Nat) : Set Nat := span (l.entry b*sector) (l.bitmapBytes+l.blockSize)

/-- No byte of the file belongs to two parts of the disk a write goes to or relies on. -/
structure Servable (l : Layout) : Prop where
  blocks : ∀ b c,b≠c → l.entry b≠batUnused → l.entry c≠batUnused → Disjoint (l.block b) (l.block c)
  copy : ∀ b,l.entry b≠batUnused → Disjoint (l.block b) (span 0 sector)
  header : ∀ b,l.entry b≠batUnused → Disjoint (l.block b) (span l.headerAt 1024)
  table : ∀ b,l.entry b≠batUnused → Disjoint (l.block b) (span l.tableAt (l.bat.length*4))
  footer : ∀ b,l.entry b≠batUnused → Disjoint (l.block b) (span l.footerAt sector)
  tableFooter : Disjoint (span l.tableAt (l.bat.length*4)) (span l.footerAt sector)

/-- A write changes no byte of the disk but those it is for, and leaves a file with the same layout. -/
def Confined (f : File) : Prop :=
  ∀ s,open_ f true=.ok s → ∀ buffer position,position+buffer.length<2^64 →
    (∀ pos len,(∀ i,pos ≤ i → i<pos+len → ¬(position ≤ i ∧ i<position+buffer.length)) →
      ((s.write buffer position).read pos len).1=(s.read pos len).1) ∧
    parse (s.write buffer position).file=.ok (s.write buffer position).vhd ∧
    Same s.vhd (s.write buffer position).vhd

def Layout.placed (l : Layout) : List Nat := l.bat.filter (fun e => e != batUnused)

def Layout.room (l : Layout) : Nat := (l.bitmapBytes+l.blockSize)/sector

/-- What `parse` does not ask. Entries are a block's room apart, none is zero, inside the header or the table or less
than its room before one, and the table ends before the footer. -/
def Spaced (l : Layout) : Prop :=
  l.placed.Pairwise (fun d e => d+l.room≤e ∨ e+l.room≤d) ∧ (∀ e∈l.placed,e≠0 ∧
      (e+l.room≤l.headerAt/sector ∨ l.headerAt+1024≤e*sector) ∧
      (e+l.room≤l.tableAt/sector ∨ l.tableAt+l.bat.length*4≤e*sector)) ∧
    (l.bat=[] ∨ l.tableAt+l.bat.length*4≤l.footerAt)

instance (l : Layout) : Decidable (Spaced l) := by
  unfold Spaced
  infer_instance

theorem disjoint_span {a m b n : Nat} (hm : 0 < m) (hn : 0<n) : Disjoint (span a m) (span b n) ↔ a+m≤b ∨ b+n≤a := by
  rw [span,span,Set.Ico_disjoint_Ico]
  omega

theorem disjoint_span_empty (s : Set Nat) (b : Nat) : Disjoint s (span b 0) := by
  rw [span,Nat.add_zero,Set.Ico_self]
  exact Set.disjoint_empty s

section
variable {f : File} {l : Layout} (h : Laid f l)
include h

theorem Laid.room_eq : l.bitmapBytes+l.blockSize=l.room*sector ∧ 0<l.room := by
  obtain ⟨hw,-,hb⟩ := h.sectors
  have hs := h.sized.small
  have hr := h.sized.bitmapBytes
  unfold Layout.room sector roundUp at *
  omega

theorem Laid.disjoint_blocks (b c : Nat) : Disjoint (l.block b) (l.block c) ↔
    l.entry b+l.room≤l.entry c ∨ l.entry c+l.room≤l.entry b := by
  obtain ⟨hr,hp⟩ := h.room_eq
  rw [Layout.block,Layout.block,hr,disjoint_span (Nat.mul_pos hp (by decide))
    (Nat.mul_pos hp (by decide)),← Nat.add_mul,← Nat.add_mul]
  unfold sector
  omega

theorem Laid.disjoint_block (b at_ n : Nat) (hn : 0<n) : Disjoint (l.block b) (span at_ n) ↔
    l.entry b+l.room≤at_/sector ∨ at_+n≤l.entry b*sector := by
  obtain ⟨hr,hp⟩ := h.room_eq
  rw [Layout.block,hr,disjoint_span (Nat.mul_pos hp (by decide)) hn,← Nat.add_mul]
  unfold sector
  omega

theorem Laid.block_footer (he : l.footerAtEnd) (b : Nat) (hb : l.entry b≠batUnused) :
    Disjoint (l.block b) (span l.footerAt sector) := by
  have hf := h.fits _ (Layout.entry_mem hb).2 hb
  rw [dataEnd,he,if_pos rfl,Nat.add_assoc] at hf
  have hs := h.sized.small
  rw [Layout.block,disjoint_span (by unfold sector at hs; omega) (by decide)]
  exact Or.inl hf

theorem Laid.table_footer : Disjoint (span l.tableAt (l.bat.length*4)) (span l.footerAt sector) ↔
    l.bat=[] ∨ l.tableAt+l.bat.length*4≤l.footerAt := by
  have hin := h.tableIn
  have hsize := h.size
  cases hb : l.bat with
  | nil =>
    have hd := (disjoint_span_empty (span l.footerAt sector) l.tableAt).symm
    simp [hd]
  | cons e es =>
    rw [← hb]
    have hpos : 0<l.bat.length*4 := by
      rw [hb,length_cons]
      omega
    rw [disjoint_span hpos (by decide)]
    simp only [hb,reduceCtorEq,false_or]
    rw [← hb]
    omega

end

variable {l : Layout}

theorem Layout.mem_placed {e : Nat} : e∈l.placed ↔ ∃ b,l.entry b≠batUnused ∧ l.entry b=e := by
  unfold Layout.placed
  rw [mem_filter]
  constructor
  · intro h
    obtain ⟨b,hb,rfl⟩ := getElem_of_mem h.1
    have he : l.entry b=l.bat[b] := by
      simp [Layout.entry,hb]
    exact ⟨b,by simpa [he] using h.2,he⟩
  · intro h
    obtain ⟨b,hb,rfl⟩ := h
    exact ⟨(Layout.entry_mem hb).2,by simpa using hb⟩

theorem Layout.placed_pairwise (l : Layout) (R : Nat → Nat → Prop) (hR : ∀ d e,R d e → R e d) : l.placed.Pairwise R ↔
      ∀ b c,b≠c → l.entry b≠batUnused → l.entry c≠batUnused → R (l.entry b) (l.entry c) := by
  have he (b : Nat) (hb : b<l.bat.length) : l.entry b=l.bat[b] := by
    simp [Layout.entry,hb]
  unfold Layout.placed
  rw [pairwise_filter,pairwise_iff_getElem]
  constructor
  · intro h b c hbc hb hc
    have hbl := (Layout.entry_mem hb).1
    have hcl := (Layout.entry_mem hc).1
    rw [he b hbl] at hb ⊢
    rw [he c hcl] at hc ⊢
    rcases Nat.lt_or_gt_of_ne hbc with hlt | hgt
    · exact h b c hbl hcl hlt (by simpa using hb) (by simpa using hc)
    · exact hR _ _ (h c b hcl hbl hgt (by simpa using hc) (by simpa using hb))
  · intro h b c hbl hcl hlt hb hc
    rw [← he b hbl] at hb ⊢
    rw [← he c hcl] at hc ⊢
    exact h b c hlt.ne (by simpa using hb) (by simpa using hc)

theorem Laid.servable_iff {f : File} (h : Laid f l) (he : l.footerAtEnd) : Servable l ↔ Spaced l := by
  have hlen (b : Nat) (hb : l.entry b≠batUnused) : 0<l.bat.length*4 := by
    have := (Layout.entry_mem hb).1
    omega
  unfold Spaced
  rw [l.placed_pairwise _ (fun _ _ => Or.symm)]
  constructor
  · intro hs
    refine ⟨?_,?_,h.table_footer.mp hs.tableFooter⟩
    · intro b c hbc hb hc
      exact (h.disjoint_blocks b c).mp (hs.blocks b c hbc hb hc)
    · intro e hm
      obtain ⟨b,hb,rfl⟩ := Layout.mem_placed.mp hm
      refine ⟨?_,(h.disjoint_block b _ _ (by decide)).mp (hs.header b hb),
        (h.disjoint_block b _ _ (hlen b hb)).mp (hs.table b hb)⟩
      have hc := (h.disjoint_block b _ _ (by decide)).mp (hs.copy b hb)
      have hr := h.room_eq.2
      unfold sector at hc
      omega
  · intro hs
    obtain ⟨hblocks,hparts,htable⟩ := hs
    have hpart (b : Nat) (hb : l.entry b≠batUnused) := hparts _ (Layout.mem_placed.mpr ⟨b,hb,rfl⟩)
    refine ⟨?_,?_,?_,?_,h.block_footer he,h.table_footer.mpr htable⟩
    · intro b c hbc hb hc
      exact (h.disjoint_blocks b c).mpr (hblocks b c hbc hb hc)
    · intro b hb
      refine (h.disjoint_block b _ _ (by decide)).mpr (Or.inr ?_)
      have := (hpart b hb).1
      unfold sector
      omega
    · intro b hb
      exact (h.disjoint_block b _ _ (by decide)).mpr (hpart b hb).2.1
    · intro b hb
      exact (h.disjoint_block b _ _ (hlen b hb)).mpr (hpart b hb).2.2

/-- The header keeps off the table and the closing footer, and the blocks lie behind both, as in every
file made here. -/
structure InOrder (l : Layout) : Prop where
  headerTable : l.bat≠[] → l.headerAt+1024≤l.tableAt ∨ l.tableAt+l.bat.length*4≤l.headerAt
  headerFooter : l.headerAt+1024≤l.footerAt
  blocks : ∀ e∈l.placed,l.headerAt+1024≤e*sector ∧ l.tableAt+l.bat.length*4≤e*sector

theorem Laid.apart_iff {f : File} (h : Laid f l) : Apart l ↔ Spaced l ∧ InOrder l := by
  obtain ⟨hr,hp⟩ := h.room_eq
  have hroom (d e : Nat) :
      d*sector+l.bitmapBytes+l.blockSize≤e*sector ↔ d+l.room≤e := by
    rw [Nat.add_assoc,hr,← Nat.add_mul]
    unfold sector
    omega
  unfold Spaced
  rw [l.placed_pairwise _ (fun _ _ => Or.symm)]
  constructor
  · intro ha
    have hafter (e : Nat) (he : e∈l.placed) :
        l.headerAt+1024≤e*sector ∧ l.tableAt+l.bat.length*4≤e*sector := by
      obtain ⟨b,hb,rfl⟩ := Layout.mem_placed.mp he
      have hm := (Layout.entry_mem hb).2
      exact ⟨ha.headerBlock _ hm hb,ha.tableBlock _ hm hb⟩
    refine ⟨⟨?_,?_,?_⟩,ha.headerTable,ha.headerFooter,hafter⟩
    · intro b c hbc hb hc
      exact (ha.blocks b c hbc hb hc).imp (hroom _ _).mp (hroom _ _).mp
    · intro e he
      obtain ⟨h1,h2⟩ := hafter e he
      refine ⟨?_,Or.inr h1,Or.inr h2⟩
      rintro rfl
      omega
    · by_cases hn : l.bat=[]
      · exact Or.inl hn
      · exact Or.inr (ha.tableFooter hn)
  · intro hs
    obtain ⟨⟨hblocks,-,htable⟩,ho⟩ := hs
    have hplaced (e : Nat) (he : e∈l.bat) (hu : e≠batUnused) : e∈l.placed := by
      rw [Layout.placed,mem_filter]
      exact ⟨he,by simpa using hu⟩
    refine ⟨ho.headerTable,ho.headerFooter,fun hn => htable.resolve_left hn,?_,?_,?_⟩
    · intro e he hu
      exact (ho.blocks e (hplaced e he hu)).1
    · intro e he hu
      exact (ho.blocks e (hplaced e he hu)).2
    · intro b c hbc hb hc
      exact (hblocks b c hbc hb hc).imp (hroom _ _).mpr (hroom _ _).mpr

theorem Laid.confined {f : File} (h : Laid f l) (he : l.footerAtEnd) (ha : Apart l) : Confined f := by
  have hp := (parse_dynamic_iff _ _ h.not_fixed).mpr h
  intro s ho buffer position hw
  rw [open_ok hp,he] at ho
  obtain rfl := Except.ok.inj ho
  have hop := open_opened hp (fun _ _ => ha) true
  rw [he] at hop
  have hwr := hop.writable h.not_fixed rfl
  generalize (⟨f,[],l,replicate l.bat.length [],!true || !true⟩ : Image)=s at *
  have hs := write_spec hwr buffer position hw (fun _ => False) (fun _ hi => hi.elim)
  refine ⟨?_,hs.toWritable.opened.parsed,hs.same⟩
  intro pos len hout
  rw [(read_spec (fun _ => hs.sane.toLaid) hs.cached pos len).1,
    (read_spec (fun _ => hwr.sane.toLaid) hwr.cached pos len).1]
  apply slice_congr
  intro i h1 h2
  have hi := hout i h1 h2
  have hlen : (s.clipped buffer position).length≤buffer.length := by
    rw [clipped,length_take]
    omega
  have hpatch := patch_outside (diskByte s.file s.vhd) position
    (((s.clipped buffer position).take (position+(s.clipped buffer position).length-position))) i
    (by rw [length_take]; omega)
  rw [hs.disk]
  split_ifs with hu
  · rfl
  · exact hpatch

namespace Image

theorem write_present {s : Image} (h : Laid s.file s.vhd) (b : UInt8) (hd : 0<s.vhd.diskSize)
    (hu : s.vhd.entry 0≠batUnused) (hp : (s.load 0).sectorPresent 0 0) : s.write [b] 0 =
      (s.load 0).sys (.pwrite [b] (s.vhd.entry 0*sector+s.vhd.bitmapBytes)) := by
  have hclip : s.clipped [b] 0=[b] := take_of_length_le hd
  rcases write_clipped s [b] 0 (by simp) with hc | hc
  · rw [hclip] at hc
    exact absurd hc.1 (by simp)
  have hpos := h.blockSize_pos
  have hmin : min (s.vhd.blockSize-0) 1=1 := by omega
  rw [hc.2,if_neg h.not_fixed,hclip,length_singleton,
    pieces_cons hpos 0 1 (by decide),Nat.zero_div,Nat.zero_mod,hmin,Nat.sub_self,pieces_zero,
    foldl_cons,foldl_nil]
  have hbat : s.batAt 0≠batUnused := hu
  have hall : (range' (0/sector) ((0+[b].length+sector-1)/sector-0/sector)).all
      ((s.load 0).sectorPresent 0)=true := by
    simpa [sector] using hp
  have hsrc : ([b].drop ((⟨0,0,1⟩ : Piece).pos s.vhd.blockSize-0)).take 1=[b] := by
    simp [Piece.pos]
  have hat : s.batAt 0=s.vhd.entry 0 := rfl
  unfold writePiece
  simp only
  rw [if_neg hbat,hsrc]
  unfold writeInBlock
  simp only
  rw [if_pos hall,hat,Nat.add_zero]

end Image

def twoBlocks : Nat := 2*newBlockSize

def aliasSector : Nat := 4

def aliasEnd : Nat := aliasSector*sector+sector+newBlockSize

def aliasLayout (footer : List UInt8) : Layout :=
  { newLayout footer twoBlocks 2 with
    footerAt := aliasEnd
    bat := [aliasSector,aliasSector] }

/-- The file of a new disk, with one block put behind its table and both entries naming it. -/
def aliasFile (f : File) (footer : List UInt8) : File :=
  ((f.pwrite footer aliasEnd).pwrite (replicate sector 0xFF) (aliasSector*sector)).pwrite
    (bePut 4 aliasSector++bePut 4 aliasSector) (3*sector)

theorem accepted_twoBlocks : Accepted twoBlocks :=
  ⟨by decide,by decide,by decide,by decide⟩

theorem alias_laid {f : File} {footer : List UInt8} (h : Sane f (newLayout footer twoBlocks 2)) :
    Laid (aliasFile f footer) (aliasLayout footer) := by
  have hmoved := h.moveFooter aliasEnd (show 3*sector+roundUp (2*4) sector≤aliasEnd by decide)
  have hlaid := hmoved.pwrite (replicate sector 0xFF) (aliasSector*sector)
    (Or.inr (show sector+1024≤aliasSector*sector by decide))
    (fun _ => Or.inr (show 3*sector+2*4≤aliasSector*sector by decide))
    (by rw [length_replicate]; exact (show aliasSector*sector+sector≤aliasEnd by decide))
  change Laid ((((f.pwrite footer aliasEnd).pwrite (replicate sector 0xFF)
    (aliasSector*sector)).pwrite (bePut 4 aliasSector++bePut 4 aliasSector) (3*sector))) _
  have hl : (newLayout footer twoBlocks 2).footer=footer := rfl
  rw [hl] at hlaid
  generalize ((f.pwrite footer aliasEnd).pwrite (replicate sector 0xFF)
    (aliasSector*sector))=g at hlaid
  have htlen : (bePut 4 aliasSector++bePut 4 aliasSector).length=8 := by
    rw [length_append,bePut_length]
  generalize htab : bePut 4 aliasSector++bePut 4 aliasSector=table at htlen
  have htn : table≠[] := ne_nil_of_length_pos (by omega)
  have hgs : g.size=aliasEnd+sector := hlaid.size
  have hend : 3*sector+8≤aliasEnd := by decide
  have hsize : (g.pwrite table (3*sector)).size=aliasEnd+sector := by
    rw [pwrite_size _ _ _ htn,htlen,hgs]
    omega
  have hbyte (i : Nat) (hi : ¬(3*sector ≤ i ∧ i<3*sector+8)) :
      (g.pwrite table (3*sector)).byte i=g.byte i := by
    rw [pwrite_byte,patch_outside _ _ _ _ (by rw [htlen]; exact hi)]
  have hsame : Same { newLayout footer twoBlocks 2 with footerAt := aliasEnd } (aliasLayout footer) :=
    ⟨rfl,rfl,rfl,rfl,rfl,rfl,rfl,rfl,rfl⟩
  refine hlaid.toLaid.move hsame rfl hsize ?_ ?_ ?_ ?_ ?_ ?_
  · intro i hi
    change (g.pwrite table (3*sector)).byte (aliasEnd+i)=_
    rw [hbyte _ (by omega)]
    exact hlaid.footer_byte i hi
  · intro i _ hi
    change i<sector+1024 at hi
    exact hbyte i (by unfold sector at *; omega)
  · have := hlaid.headerIn
    rw [hsize,← hgs]
    exact this
  · have := hlaid.tableIn
    rw [hsize,← hgs]
    exact this
  · intro b hb
    change b<2 at hb
    have hs := slice_patch g.byte (3*sector) table
    rw [htlen] at hs
    change [aliasSector,aliasSector][b]? =
      some (beGet (slice (g.pwrite table (3*sector)).byte (3*sector+b*4) 4))
    have hcut : slice (patch g.byte (3*sector) table) (3*sector+b*4) 4 =
        (table.drop (b*4)).take 4 := by
      rw [← slice_drop_take _ (3*sector) 8 (b*4) 4 (by omega),hs]
    rw [pwrite_byte,hcut,← htab]
    obtain rfl | rfl : b=0 ∨ b=1 := by omega
    · decide
    · decide
  · intro e he _
    have hea : e=aliasSector := by
      change e∈[aliasSector,aliasSector] at he
      simpa using he
    rw [hea]
    change aliasSector*sector+roundUp ((newBlockSize/sector+7)/8) sector+newBlockSize≤aliasEnd
    decide

theorem full_first : getBit .msb (replicate sector 0xFF) 0=true := by
  unfold getBit
  rw [Nat.zero_div,getElem?_replicate,if_pos (by decide)]
  decide

section
variable {f : File} {footer header : List UInt8} (hf : NewFooter footer twoBlocks)
  (hh : NewHeader header (3*sector) 2)
  (hbyte : f.byte=newBytes footer header (roundUp (2*4) sector))
include hf hh hbyte

theorem alias_block : slice (aliasFile f footer).byte (aliasSector*sector) sector=replicate sector 0xFF ∧
    (aliasFile f footer).byte (aliasSector*sector+sector)=0 := by
  have hlen := hf.length
  have hhlen := hh.length
  have htlen : (bePut 4 aliasSector++bePut 4 aliasSector).length=8 := by
    rw [length_append,bePut_length]
  have hblen : (replicate sector (0xFF : UInt8)).length=sector := length_replicate
  obtain ⟨k1,k2,k3,k4,k5,k6,k7⟩ : 3*sector+8≤aliasSector*sector ∧
      aliasSector*sector+sector<aliasEnd ∧ 3*sector+roundUp (2*4) sector=aliasSector*sector ∧
      3*sector+8≤aliasSector*sector+sector ∧ sector+1024≤aliasSector*sector+sector ∧
      0+sector≤aliasSector*sector+sector ∧
      3*sector+roundUp (2*4) sector≤aliasSector*sector+sector := by decide
  unfold aliasFile
  generalize bePut 4 aliasSector++bePut 4 aliasSector=table at htlen
  generalize aliasSector*sector=at_ at *
  constructor
  · have hs := slice_patch (f.pwrite footer aliasEnd).byte at_ (replicate sector 0xFF)
    rw [hblen] at hs
    rw [pwrite_byte,slice_patch_other _ _ _ _ _ (Or.inr (by rw [htlen]; exact k1)),
      pwrite_byte]
    exact hs
  · rw [pwrite_byte,patch_after _ _ _ _ (by rw [htlen]; exact k4),pwrite_byte,
      patch_after _ _ _ _ (by rw [hblen]),pwrite_byte,patch_before _ _ _ _ k2,hbyte,newBytes,
      patch_after _ _ _ _ (by rw [k3,hlen]),patch_after _ _ _ _ (by rw [length_replicate]; exact k7),
      patch_after _ _ _ _ (by rw [hhlen]; exact k5),patch_after _ _ _ _ (by rw [hlen]; exact k6)]

end

theorem alias_entry {footer : List UInt8} {b : Nat} (h : (aliasLayout footer).entry b≠batUnused) :
    (aliasLayout footer).entry b=aliasSector := by
  have hm := (Layout.entry_mem h).2
  change (aliasLayout footer).entry b∈[aliasSector,aliasSector] at hm
  simpa using hm

theorem alias_byte (g : File) (footer : List UInt8)
    (h : slice g.byte (aliasSector*sector) sector=replicate sector 0xFF) :
    diskByte g (aliasLayout footer) newBlockSize=g.byte (aliasSector*sector+sector) := by
  have hdisk : ¬(aliasLayout footer).diskSize≤newBlockSize := by
    change ¬twoBlocks≤newBlockSize
    decide
  have htype : (aliasLayout footer).type≠typeFixed := by
    change typeDynamic≠typeFixed
    decide
  have hblock : (aliasLayout footer).blockSize=newBlockSize := rfl
  have hentry : (aliasLayout footer).entry 1=aliasSector := rfl
  have hbitmap : (aliasLayout footer).bitmapBytes=sector := by
    change roundUp ((newBlockSize/sector+7)/8) sector=sector
    decide
  have hpos : 0<newBlockSize := by decide
  have hused : aliasSector≠batUnused := by decide
  rw [diskByte,if_neg hdisk,if_neg htype,hblock,Nat.div_self hpos,Nat.mod_self,contentByte,hentry,
    if_neg hused,blockByte,hbitmap,h,Nat.zero_div,if_pos full_first,Nat.add_zero]

namespace Image

end Image

end QUniLator.Vhd
