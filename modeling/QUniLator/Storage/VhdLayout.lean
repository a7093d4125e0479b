import QUniLator.Storage.Vhd

namespace QUniLator.Vhd

open List Option

theorem readAt_eq_some (f : File) (len pos : Nat) (bs : List UInt8) :
    readAt f len pos=some bs ↔ (len=0 ∨ pos+len≤f.size) ∧ bs=slice f.byte pos len := by
  unfold readAt
  split_ifs with h
  · simp [h,eq_comm]
  · simp [h]

theorem u64_le (n : Nat) : u64 n≤n := Nat.mod_le _ _

/-- What the footer says, and where it was found. -/
structure Footed (f : File) (l : Layout) : Prop where
  size : f.size=l.footerAt+sector
  valid : validFooter l.footer=true
  closing : l.footerAtEnd=true → l.footer=slice f.byte l.footerAt sector
  leading : l.footerAtEnd=false → validFooter (slice f.byte l.footerAt sector)=false ∧
    l.footer=slice f.byte 0 sector ∧ l.type=typeDynamic
  type : l.type=field l.footer 60 4
  diskSize : l.diskSize=field l.footer 48 8

def Layout.bare (l : Layout) : Layout :=
  { l with headerAt := 0,tableAt := 0,blockSize := 0,bitmapBytes := 0,bat := [] }

def Layout.ofFooter (footer : List UInt8) (footerAt : Nat) (footerAtEnd : Bool) : Layout :=
  ⟨footer,field footer 60 4,field footer 48 8,footerAt,footerAtEnd,0,0,0,0,[]⟩

theorem Footed.bare_eq {f : File} {l : Layout} (h : Footed f l) :
    l.bare=.ofFooter l.footer l.footerAt l.footerAtEnd := by
  rw [Layout.bare,Layout.ofFooter,← h.type,← h.diskSize]

theorem ofFooter_bare (footer : List UInt8) (footerAt : Nat) (footerAtEnd : Bool) :
    Layout.ofFooter footer footerAt footerAtEnd=(Layout.ofFooter footer footerAt footerAtEnd).bare :=
  rfl

theorem footed_ofFooter (f : File) (footer : List UInt8) (footerAt : Nat) (footerAtEnd : Bool)
    (hs : f.size=footerAt+sector) (hv : validFooter footer) (hc : footerAtEnd → footer=slice f.byte footerAt sector)
    (hl : footerAtEnd=false → validFooter (slice f.byte footerAt sector)=false ∧
      footer=slice f.byte 0 sector ∧ field footer 60 4=typeDynamic) :
    Footed f (.ofFooter footer footerAt footerAtEnd) :=
  ⟨hs,hv,hc,hl,rfl,rfl⟩

theorem parseFooter_eq (f : File) (hs : sector≤f.size) : parseFooter f =
    if validFooter (slice f.byte (f.size-sector) sector) then
      some (.ofFooter (slice f.byte (f.size-sector) sector) (f.size-sector) true)
    else if validFooter (slice f.byte 0 sector) ∧ field (slice f.byte 0 sector) 60 4=typeDynamic then
      some (.ofFooter (slice f.byte 0 sector) (f.size-sector) false) else none := by
  have hend : readAt f sector (f.size-sector)=some (slice f.byte (f.size-sector) sector) :=
    (readAt_eq_some _ _ _ _).mpr ⟨Or.inr (by omega),rfl⟩
  have hstart : readAt f sector 0=some (slice f.byte 0 sector) :=
    (readAt_eq_some _ _ _ _).mpr ⟨Or.inr (by omega),rfl⟩
  unfold parseFooter
  simp only [if_pos hs,hend,hstart,Option.filter_some]
  by_cases hc : validFooter (slice f.byte (f.size-sector) sector)=true
  · simp [hc,Layout.ofFooter]
  · by_cases hl : validFooter (slice f.byte 0 sector)=true ∧
        field (slice f.byte 0 sector) 60 4=typeDynamic
    · simp [hc,hl,Layout.ofFooter]
    · have hl' : ¬(validFooter (slice f.byte 0 sector) &&
          field (slice f.byte 0 sector) 60 4 == typeDynamic)=true := by simpa using hl
      simp only [hc,hl,hl']
      simp

theorem parseFooter_iff (f : File) (l : Layout) : parseFooter f=some l ↔ Footed f l ∧ l=l.bare := by
  by_cases hs : sector≤f.size
  swap
  · have hn : parseFooter f=none := by
      unfold parseFooter
      simp only [if_neg hs,Option.or,Option.map]
    constructor
    · intro h
      rw [hn] at h
      exact absurd h (by simp)
    · intro h
      have := h.1.size
      omega
  rw [parseFooter_eq f hs]
  constructor
  · intro h
    split_ifs at h with hc hl
    · obtain rfl := some.inj h
      exact ⟨footed_ofFooter f _ _ _ (Nat.sub_add_cancel hs).symm hc (fun _ => rfl)
        (fun h => absurd h (by decide)),ofFooter_bare _ _ _⟩
    · obtain rfl := some.inj h
      exact ⟨footed_ofFooter f _ _ _ (Nat.sub_add_cancel hs).symm hl.1
        (fun h => absurd h (by decide)) (fun _ => ⟨by simpa using hc,rfl,hl.2⟩),ofFooter_bare _ _ _⟩
  · intro h
    obtain ⟨h,hb⟩ := h
    rw [h.bare_eq] at hb
    have hat : f.size-sector=l.footerAt := by have := h.size; omega
    rw [hat]
    cases he : l.footerAtEnd with
    | true =>
      have hf := h.closing he
      rw [← hf,if_pos h.valid,← he,← hb]
    | false =>
      obtain ⟨hn,hf,ht⟩ := h.leading he
      rw [if_neg (by simp [hn]),← hf,if_pos ⟨h.valid,h.type ▸ ht⟩,← he,← hb]

/-- What the header says of the table and the blocks. -/
structure Headed (header : List UInt8) (l : Layout) : Prop where
  cookie : header.take 8=headerCookie
  checksum : field header 36 4=vhdChecksum header 36
  tableAt : l.tableAt=field header 16 8
  entries : l.bat.length=field header 28 4
  blockSize : l.blockSize=field header 32 4

/-- Blocks of a size the code takes, and enough of them for the disk. -/
structure Sized (l : Layout) : Prop where
  small : sector≤l.blockSize
  whole : l.blockSize%sector=0
  large : l.blockSize≤256*1024*1024
  covers : l.diskSize≤l.bat.length*l.blockSize
  bitmapBytes : l.bitmapBytes=roundUp ((l.blockSize/sector+7)/8) sector

/-- The header, the table and the blocks of a dynamic disk as `parse` takes them. -/
structure Tabled (f : File) (l : Layout) : Prop where
  headerAt : l.headerAt=field l.footer 16 8
  headerIn : l.headerAt+1024≤f.size
  headed : Headed (slice f.byte l.headerAt 1024) l
  sized : Sized l
  tableIn : l.tableAt+l.bat.length*4≤f.size
  entry : ∀ b,b<l.bat.length → l.bat[b]? = some (beGet (slice f.byte (l.tableAt+b*4) 4))
  fits : ∀ e∈l.bat,e≠batUnused → e*sector+l.bitmapBytes+l.blockSize≤dataEnd f l

/-- A dynamic disk as `parse` takes it. -/
structure Laid (f : File) (l : Layout) : Prop extends Footed f l,Tabled f l where
  dynamic : l.type=typeDynamic
  wholeDisk : l.diskSize%sector=0

/-- A fixed disk as `parse` takes it. -/
structure LaidFixed (f : File) (l : Layout) : Prop extends Footed f l where
  fixed : l.type=typeFixed
  wholeDisk : l.diskSize%sector=0
  atEnd : l.footerAtEnd=true
  fits : l.diskSize≤l.footerAt
  bare : l=l.bare

theorem field_slice (f : Nat → UInt8) (pos len at_ n : Nat) (h : at_+n≤len) :
    field (slice f pos len) at_ n=beGet (slice f (pos+at_) n) := by
  rw [field,slice_drop_take _ _ _ _ _ h]

/-- What is left of `parse` when there is a footer. -/
def parseTyped (f : File) (l : Layout) : Except String Layout :=
  if l.type=typeDifferencing then
    .error ("a differencing VHD holds only the changes to its parent disk; " ++
      "merge it into a fixed or dynamic VHD first")
  else if l.diskSize%sector≠0 then
    .error "the VHD's disk size is not a whole number of sectors"
  else if l.type=typeFixed then
    if l.footerAtEnd=false ∨ l.footerAt<l.diskSize then
      .error "the VHD is shorter than the disk it describes"
    else .ok l
  else if l.type≠typeDynamic then .error ("unknown VHD disk type " ++ toString l.type)
  else parseDynamic f l

theorem parse_ok_iff (f : File) (l : Layout) :
    parse f=.ok l ↔ ∃ l0,Footed f l0 ∧ l0=l0.bare ∧ parseTyped f l0=.ok l := by
  unfold parse
  cases hf : parseFooter f with
  | none =>
    simp only [reduceCtorEq,false_iff]
    intro h
    obtain ⟨l0,h1,h2,-⟩ := h
    rw [(parseFooter_iff f l0).mpr ⟨h1,h2⟩] at hf
    exact absurd hf (by simp)
  | some l0 =>
    have h0 := (parseFooter_iff f l0).mp hf
    constructor
    · intro h
      exact ⟨l0,h0.1,h0.2,h⟩
    · intro h
      obtain ⟨l1,h1,h2,h3⟩ := h
      rw [(parseFooter_iff f l1).mpr ⟨h1,h2⟩] at hf
      obtain rfl := some.inj hf
      exact h3

theorem table_eq (f : File) (tableAt entries : Nat) :
    (List.range entries).map (fun b => field (slice f.byte tableAt (entries*4)) (b*4) 4) =
      (List.range entries).map (fun b => beGet (slice f.byte (tableAt+b*4) 4)) := by
  apply map_congr_left
  intro b hb
  have := mem_range.mp hb
  exact field_slice _ _ _ _ _ (by omega)

theorem Tabled.bat_eq {f : File} {l : Layout} (h : Tabled f l) :
    l.bat=(List.range l.bat.length).map (fun b => beGet (slice f.byte (l.tableAt+b*4) 4)) := by
  apply ext_getElem?
  intro b
  by_cases hb : b<l.bat.length
  · rw [h.entry b hb]
    simp [hb]
  · simp [hb]

theorem field_slice_lt (f : Nat → UInt8) (pos len at_ n : Nat) (h : at_+n≤len) :
    field (slice f pos len) at_ n<256^n := by
  have hlt := beGet_lt (slice f (pos+at_) n)
  rw [slice_length] at hlt
  rwa [field_slice f pos len at_ n h]

theorem parseDynamic_ok (f : File) (l0 l : Layout) (h : parseDynamic f l0=.ok l) : l.bare=l0.bare ∧ Tabled f l := by
  unfold parseDynamic at h
  simp only at h
  split_ifs at h with h1
  cases hr : readAt f 1024 (field l0.footer 16 8) with
  | none => simp [hr] at h
  | some header =>
    simp only [hr] at h
    rw [readAt_eq_some] at hr
    have hin : field l0.footer 16 8+1024≤f.size := by omega
    rw [hr.2] at h
    split_ifs at h with h2 h3
    cases ht : readAt f (field (slice f.byte (field l0.footer 16 8) 1024) 28 4*4)
        (field (slice f.byte (field l0.footer 16 8) 1024) 16 8) with
    | none => simp [ht] at h
    | some table =>
      simp only [ht] at h
      rw [readAt_eq_some] at ht
      have htin := ht.1
      rw [ht.2,table_eq] at h
      split_ifs at h with h4
      obtain rfl := Except.ok.inj h
      simp only [not_or,not_not,Nat.not_lt] at h2 h3
      refine ⟨rfl,rfl,hin,⟨h2.1,h2.2,rfl,by simp,rfl⟩,
        ⟨h3.1,h3.2.1,h3.2.2.1,by simpa using h3.2.2.2.1,rfl⟩,?_,?_,?_⟩
      · have hlt : field (slice f.byte (field l0.footer 16 8) 1024) 16 8<2^64 := by
          exact field_slice_lt _ _ 1024 16 8 (by omega)
        simp only [length_map,length_range]
        rcases htin with hz | htin
        · have hu := h3.2.2.2.2
          rw [hz,Nat.add_zero,u64,Nat.mod_eq_of_lt hlt] at hu
          omega
        · exact htin
      · intro b hb
        simp only [length_map,length_range] at hb
        simp [hb]
      · intro e he hu
        by_contra hc
        apply h4
        rw [List.any_eq_true]
        refine ⟨e,he,?_⟩
        simp only [Bool.and_eq_true,bne_iff_ne,decide_eq_true_eq]
        exact ⟨hu,Nat.not_le.mp hc⟩

theorem parseDynamic_of (f : File) (l : Layout) (h : Tabled f l) : parseDynamic f l.bare=.ok l := by
  have hde : dataEnd f l.bare=dataEnd f l := rfl
  have hr : readAt f 1024 l.headerAt=some (slice f.byte l.headerAt 1024) :=
    (readAt_eq_some _ _ _ _).mpr ⟨Or.inr h.headerIn,rfl⟩
  have ht : readAt f (l.bat.length*4) l.tableAt=some (slice f.byte l.tableAt (l.bat.length*4)) :=
    (readAt_eq_some _ _ _ _).mpr ⟨Or.inr h.tableIn,rfl⟩
  have h1 : ¬f.size<u64 (l.headerAt+1024) := by
    have := u64_le (l.headerAt+1024)
    have := h.headerIn
    omega
  have h2 : ¬((slice f.byte l.headerAt 1024).take 8≠headerCookie ∨
      field (slice f.byte l.headerAt 1024) 36 4≠vhdChecksum (slice f.byte l.headerAt 1024) 36) := by
    simp [h.headed.cookie,h.headed.checksum]
  have h3 : ¬(l.blockSize<sector ∨ l.blockSize%sector≠0 ∨ 256*1024*1024<l.blockSize ∨
      l.bat.length*l.blockSize<l.diskSize ∨ f.size<u64 (l.tableAt+l.bat.length*4)) := by
    have := u64_le (l.tableAt+l.bat.length*4)
    have := h.tableIn
    have := h.sized.small
    have := h.sized.whole
    have := h.sized.large
    have := h.sized.covers
    omega
  have h4 : ¬l.bat.any (fun e => e != batUnused &&
      decide (dataEnd f l<e*sector+l.bitmapBytes+l.blockSize))=true := by
    intro hc
    obtain ⟨e,he,hd⟩ := List.any_eq_true.mp hc
    simp only [Bool.and_eq_true,bne_iff_ne,ne_eq,decide_eq_true_eq] at hd
    have := h.fits e he hd.1
    omega
  unfold parseDynamic
  simp only [hde]
  simp only [Layout.bare,← h.headerAt,if_neg h1,hr,if_neg h2,← h.headed.tableAt,
    ← h.headed.entries,← h.headed.blockSize,if_neg h3,ht,table_eq,← h.bat_eq,
    ← h.sized.bitmapBytes,if_neg h4]

theorem parse_fixed_iff (f : File) (l : Layout) (ht : l.type=typeFixed) : parse f=.ok l ↔ LaidFixed f l := by
  rw [parse_ok_iff]
  constructor
  · intro h
    obtain ⟨l0,h1,h2,h3⟩ := h
    unfold parseTyped at h3
    split_ifs at h3 with hd hw hf hs hn
    · obtain rfl := Except.ok.inj h3
      simp only [not_or,Bool.not_eq_false,Nat.not_lt] at hs
      exact ⟨h1,ht,by simpa using hw,hs.1,hs.2,h2⟩
    · have hk := congrArg Layout.type (parseDynamic_ok f l0 l h3).1
      exact absurd (hk.symm.trans ht) hf
  · intro h
    refine ⟨l,h.toFooted,h.bare,?_⟩
    have hd : l.type≠typeDifferencing := by
      rw [ht]
      decide
    have hs : ¬(l.footerAtEnd=false ∨ l.footerAt<l.diskSize) := by
      have := h.fits
      simp [h.atEnd]
      omega
    rw [parseTyped,if_neg hd,if_neg (by simp [h.wholeDisk]),if_pos ht,if_neg hs]

theorem Footed.of_bare {f : File} {l l0 : Layout} (h : Footed f l0) (hb : l.bare=l0.bare) : Footed f l := by
  have hf : l.footer=l0.footer := by
    simpa [Layout.bare] using congrArg Layout.footer hb
  have ht : l.type=l0.type := by
    simpa [Layout.bare] using congrArg Layout.type hb
  have hd : l.diskSize=l0.diskSize := by
    simpa [Layout.bare] using congrArg Layout.diskSize hb
  have ha : l.footerAt=l0.footerAt := by
    simpa [Layout.bare] using congrArg Layout.footerAt hb
  have he : l.footerAtEnd=l0.footerAtEnd := by
    simpa [Layout.bare] using congrArg Layout.footerAtEnd hb
  refine ⟨?_,?_,?_,?_,?_,?_⟩
  · rw [ha]
    exact h.size
  · rw [hf]
    exact h.valid
  · rw [hf,ha,he]
    exact h.closing
  · rw [hf,ha,he,ht]
    exact h.leading
  · rw [ht,hf]
    exact h.type
  · rw [hd,hf]
    exact h.diskSize

theorem parse_dynamic_iff (f : File) (l : Layout) (ht : l.type≠typeFixed) : parse f=.ok l ↔ Laid f l := by
  rw [parse_ok_iff]
  constructor
  · intro h
    obtain ⟨l0,h1,h2,h3⟩ := h
    unfold parseTyped at h3
    split_ifs at h3 with hd hw hf hs hn
    · obtain rfl := Except.ok.inj h3
      exact absurd hf ht
    · obtain ⟨hb,htab⟩ := parseDynamic_ok f l0 l h3
      have hty : l.type=l0.type := by
        simpa [Layout.bare] using congrArg Layout.type hb
      have hds : l.diskSize=l0.diskSize := by
        simpa [Layout.bare] using congrArg Layout.diskSize hb
      refine ⟨h1.of_bare hb,htab,?_,?_⟩
      · rw [hty]
        simpa using hn
      · rw [hds]
        simpa using hw
  · intro h
    refine ⟨l.bare,h.toFooted.of_bare rfl,rfl,?_⟩
    have hty : l.bare.type=typeDynamic := h.dynamic
    rw [parseTyped,if_neg (by rw [hty]; decide),
      if_neg (by simpa [Layout.bare] using h.wholeDisk),if_neg (by rw [hty]; decide),
      if_neg (by simp [hty])]
    exact parseDynamic_of f l h.toTabled

end QUniLator.Vhd
