import QUniLator.Storage.CowAsserts
import QUniLator.Storage.VhdFlat

/-!
The images a disk drive stands on, with their asserts: a plain file, a copy-on-write overlay over one,
a VHD.
-/

namespace QUniLator

open Vhd

/-- `storageimage_binfile_c`. `writeProtected` is the medium's own mode, taken as it goes in. -/
structure Binfile where
  f : File
  isOpen : Bool
  readonly : Bool
  writeProtected : Bool

namespace Binfile

def maxChunkSize : Nat := 0x40000

/-- The loop by which `write` fills the file with zeros up to `writePos`. What is missing goes through an `int`: not
positive, it stops the loop from getting on. A round adds a byte at least: `writePos` are enough. -/
def enlarge : Nat → File → Nat → Option File
  | 0,f,_ => some f
  | fuel+1,f,writePos =>
    if f.size<writePos then
      let missing := (writePos-f.size)%2^32
      if missing=0 ∨ 2^31 ≤ missing then none
      else enlarge fuel (f.pwrite (List.replicate (min maxChunkSize missing) 0) f.size) writePos
    else some f

def read (b : Binfile) (position len : Nat) : Option (List UInt8) := do
  assert b.isOpen
  assert (0<len)
  return b.f.preadCleared len position

def write (b : Binfile) (buffer : List UInt8) (position : Nat) : Option Binfile := do
  assert b.isOpen
  assert (!b.readonly)
  let f ← enlarge position b.f position
  assert (f.size≠0 || position=0)
  return { b with f := f.pwrite buffer position }

theorem enlarge_fills (fuel : Nat) (f : File) (writePos : Nat) (hf : writePos≤f.size+fuel)
    (hw : writePos<f.size+2^31) :
    ∃ g,enlarge fuel f writePos=some g ∧ g.byte=f.byte ∧ g.size=max f.size writePos := by
  induction fuel generalizing f with
  | zero => exact ⟨f,rfl,rfl,by omega⟩
  | succ fuel ih =>
    unfold enlarge
    by_cases hs : f.size<writePos
    · have hm : (writePos-f.size)%2^32=writePos-f.size := Nat.mod_eq_of_lt (by omega)
      have hn : ¬(writePos-f.size=0 ∨ 2^31≤writePos-f.size) := by omega
      generalize hz : List.replicate (min maxChunkSize (writePos-f.size)) (0 : UInt8)=zeros
      have hl : zeros.length=min maxChunkSize (writePos-f.size) := by simp [← hz]
      have hne : zeros≠[] := by
        intro he
        rw [he,maxChunkSize,List.length_nil] at hl
        omega
      have hsize := f.pwrite_size zeros f.size hne
      have hbyte : (f.pwrite zeros f.size).byte=f.byte := by
        funext i
        rw [File.pwrite_byte]
        by_cases hi : f.size ≤ i ∧ i<f.size+zeros.length
        · apply Option.some.inj
          rw [patch_inside _ _ _ _ hi.1 hi.2,← hz,List.getElem?_replicate_of_lt (by omega),
            f.pastEnd i hi.1]
        · exact patch_outside _ _ _ _ hi
      simp only [if_pos hs,hm,if_neg hn,hz]
      unfold maxChunkSize at hl
      obtain ⟨g,he,hb,hg⟩ := ih (f.pwrite zeros f.size) (by omega) (by omega)
      exact ⟨g,he,hb.trans hbyte,by omega⟩
    · exact ⟨f,if_neg hs,rfl,by omega⟩

end Binfile

/-- `storageimage_base_c` as an MSCP disk has it. -/
inductive StorageImage (blk : Nat) where
  | binfile (b : Binfile)
  | cow (s : Cow.Image blk)
  | vhd (s : Vhd.Image) (isOpen writeProtected : Bool)

namespace StorageImage
variable {blk : Nat}

def isOpen : StorageImage blk → Bool
  | binfile b => b.isOpen
  | cow s => s.opened
  | vhd _ o _ => o

def isReadonly : StorageImage blk → Bool
  | binfile b => if b.isOpen then b.readonly else b.writeProtected
  | cow _ => false
  | vhd s o p => if o then s.readonly else p

def size : StorageImage blk → Nat
  | binfile b => if b.isOpen then b.f.size else 0
  | cow s => s.imageSizeBytes
  | vhd s o _ => if o then s.size else 0

def read : StorageImage blk → Nat → Nat → Option (List UInt8 × StorageImage blk)
  | binfile b,position,len => (b.read position len).map (fun bs => (bs,binfile b))
  | cow s,position,len => (s.readAsserted position len).map (fun bs => (bs,cow s))
  | vhd s o p,position,len => do
    assert o
    return ((s.read position len).1,vhd (s.read position len).2 o p)

def write : StorageImage blk → List UInt8 → Nat → Option (StorageImage blk)
  | binfile b,buffer,position => (b.write buffer position).map binfile
  | cow s,buffer,position => (s.writeAsserted buffer position).map cow
  | vhd s o p,buffer,position => do
    assert o
    assert (!s.readonly)
    return vhd (s.write buffer position) o p

def content : StorageImage blk → Nat → UInt8
  | binfile b => b.f.byte
  | cow s => s.view
  | vhd s _ _ => Vhd.diskByte s.file s.vhd

/-- A byte the image has no room for: past the end of a VHD's disk, or in a block for which a VHD that
has grown past what its table can address finds none. -/
def drops : StorageImage blk → Nat → Bool
  | vhd s _ _,i => decide (s.vhd.diskSize ≤ i) || s.lost i
  | _,_ => false

def Sound : StorageImage blk → Prop
  | binfile b => b.isOpen=true
  | cow s => s.Inv
  | vhd s o _ => o=true ∧ s.Opened

def isVhd : StorageImage blk → Bool
  | vhd _ _ _ => true
  | _ => false

def isCow : StorageImage blk → Bool
  | cow _ => true
  | _ => false

def InReach : StorageImage blk → Nat → Prop
  | binfile b,position => position<b.f.size+2^31
  | _,_ => True

variable {i : StorageImage blk}

theorem Sound.isOpen (h : i.Sound) : i.isOpen=true := by
  cases i with
  | binfile b => exact h
  | cow s => exact Cow.Image.Inv.isOpen h
  | vhd s o p => exact h.1

structure Read (i j : StorageImage blk) : Prop where
  sound : j.Sound
  content : j.content=i.content
  size : j.size=i.size
  readonly : j.isReadonly=i.isReadonly
  vhd : j.isVhd=i.isVhd

theorem Sound.read (h : i.Sound) (position len : Nat) (hl : len≠0 ∨ i.isVhd=true) :
    ∃ j,i.read position len=some (slice i.content position len,j) ∧ Read i j := by
  cases i with
  | binfile b =>
    have h0 : 0<len := by simpa [isVhd,Nat.pos_iff_ne_zero] using hl
    have ho : b.isOpen=true := h
    refine ⟨binfile b,?_,h,rfl,rfl,rfl,rfl⟩
    simp [StorageImage.read,Binfile.read,ho,h0,File.preadCleared_eq,StorageImage.content]
  | cow s =>
    have h0 : len≠0 := by simpa [isVhd] using hl
    have hi : s.Inv := h
    refine ⟨cow s,?_,h,rfl,rfl,rfl,rfl⟩
    simp [StorageImage.read,Cow.Image.readAsserted_eq,hi.isOpen,h0,Cow.Image.read_eq,
      StorageImage.content]
  | vhd s o p =>
    obtain ⟨rfl,ho⟩ := h
    have hf : s.ShowsFlat ⟨s.vhd.diskSize,diskByte s.file s.vhd⟩ := ⟨ho,rfl,rfl⟩
    obtain ⟨hs,hb,hr⟩ := hf.read position len
    refine ⟨vhd (s.read position len).2 true p,?_,⟨rfl,hs.opened⟩,hs.disk,hs.size,hr,rfl⟩
    simp [StorageImage.read,hb,StorageImage.content]

structure Wrote (i j : StorageImage blk) (buffer : List UInt8) (position : Nat) : Prop where
  sound : j.Sound
  byte : ∀ k,j.content k=patch i.content position buffer k ∨
    j.drops k=true ∧ j.content k=i.content k
  drops : ∀ k,i.drops k=true → j.drops k=true
  grows : i.size≤j.size
  reaches : i.isVhd=false → buffer≠[] → position+buffer.length≤j.size
  ends : j.size ≤
    if i.isVhd then i.size else max i.size ((position+buffer.length+511)/512*512)
  readonly : j.isReadonly=i.isReadonly
  vhd : j.isVhd=i.isVhd

theorem writeVhd_keeps {P : Image → Prop} (hs : ∀ t o,P t → P (t.sys o))
    (hp : ∀ bs position t p,P t → P (Vhd.Image.writePiece bs position t p)) (s : Image)
    (h : P s) (buffer : List UInt8) (position : Nat) : P (s.write buffer position) := by
  have hl : ∀ (l : List Piece) (bs : List UInt8) (t : Image),P t →
      P (l.foldl (Vhd.Image.writePiece bs position) t) := by
    intro l bs
    induction l with
    | nil => exact fun t ht => ht
    | cons p l ih => exact fun t ht => ih _ (hp bs position t p ht)
  simp only [Vhd.Image.write]
  split_ifs <;> first | exact h | exact hs _ _ h | exact hl _ _ s h

theorem writeVhd_full (s : Image) (buffer : List UInt8) (position : Nat)
    (h : Full s.vhd) : (s.write buffer position).vhd=s.vhd := by
  apply writeVhd_keeps (P := fun t => t.vhd=s.vhd) (fun t o ht => ht) _ s rfl
  intro bs position t p ht
  have hfull : batUnused≤roundUp t.vhd.footerAt sector/sector := by
    rw [ht]
    exact h
  simp only [Vhd.Image.writePiece]
  split_ifs
  · simpa only [Vhd.Image.allocateBlock,if_pos hfull] using ht
  · simp only [Vhd.Image.writeInBlock]
    split_ifs
    · exact ht
    · split <;> exact ht

theorem writeVhd_readonly (s : Image) (buffer : List UInt8) (position : Nat) :
    (s.write buffer position).readonly=s.readonly := by
  apply writeVhd_keeps (P := fun t => t.readonly=s.readonly) (fun t o ht => ht) _ s rfl
  intro bs position t p ht
  simp only [Vhd.Image.writePiece,Vhd.Image.allocateBlock,Vhd.Image.writeInBlock]
  split_ifs
  · exact ht
  · exact ht
  · exact ht
  · split <;> exact ht

theorem read_passes (i : StorageImage blk) (position len : Nat) (ho : i.isOpen=true) (hl : len≠0 ∨ i.isVhd=true) :
    ∃ bs j,i.read position len=some (bs,j) ∧ j.isOpen=true := by
  cases i with
  | binfile b =>
    have h0 : 0<len := by simpa [isVhd,Nat.pos_iff_ne_zero] using hl
    have hb : b.isOpen=true := ho
    exact ⟨b.f.preadCleared len position,binfile b,by simp [read,Binfile.read,hb,h0],ho⟩
  | cow s =>
    have h0 : len≠0 := by simpa [isVhd] using hl
    have hs : s.opened=true := ho
    exact ⟨s.read position len,cow s,by simp [read,Cow.Image.readAsserted_eq,hs,h0],ho⟩
  | vhd s o p =>
    have hs : o=true := ho
    exact ⟨(s.read position len).1,vhd (s.read position len).2 o p,by simp [read,hs],ho⟩

theorem read_empty (i : StorageImage blk) (position : Nat) (h : i.isVhd=false) : i.read position 0=none := by
  cases i with
  | binfile b => cases hb : b.isOpen <;> simp [read,Binfile.read,hb]
  | cow s => simp [read,Cow.Image.readAsserted_eq]
  | vhd s o p => simp [isVhd] at h

theorem Binfile.write_passes (b : Binfile) (buffer : List UInt8) (position : Nat)
    (ho : b.isOpen=true) (hr : b.readonly=false) (hp : position<b.f.size+2^31) :
    ∃ g : File,g.byte=b.f.byte ∧ g.size=max b.f.size position ∧
      b.write buffer position=some { b with f := g.pwrite buffer position } := by
  obtain ⟨g,he,hb,hg⟩ := Binfile.enlarge_fills position b.f position (by omega) hp
  have ha : (g.size≠0 || position=0)=true := by
    simp
    omega
  refine ⟨g,hb,hg,?_⟩
  simp only [Binfile.write,ho,hr,he,ha,Bool.not_false,assert_true,Option.bind_eq_bind,
    Option.bind_some,Option.pure_def]

/-- What a write that passes leaves for the one after it. -/
structure Passed (i j : StorageImage blk) : Prop where
  isOpen : j.isOpen=true
  readonly : j.isReadonly=false
  vhd : j.isVhd=i.isVhd
  cow : j.isCow=i.isCow

theorem write_passes (i : StorageImage blk) (buffer : List UInt8) (position : Nat)
    (ho : i.isOpen=true) (hr : i.isReadonly=false) (hp : i.InReach position) (hl : buffer≠[] ∨ i.isCow=false) :
    ∃ j,i.write buffer position=some j ∧ Passed i j ∧ (buffer≠[] → j.InReach (position+buffer.length)) := by
  cases i with
  | binfile b =>
    have hb : b.isOpen=true := ho
    have hrb : b.readonly=false := by simpa [isReadonly,hb] using hr
    obtain ⟨g,-,-,hw⟩ := Binfile.write_passes b buffer position hb hrb hp
    refine ⟨binfile { b with f := g.pwrite buffer position },?_,⟨hb,?_,rfl,rfl⟩,?_⟩
    · simp [write,hw]
    · simpa [isReadonly,hb] using hrb
    · intro hn
      have hsize := g.pwrite_size buffer position hn
      simp only [InReach,hsize]
      omega
  | cow s =>
    have hs : s.opened=true := ho
    have hn : buffer≠[] := by simpa [isCow] using hl
    refine ⟨cow (s.write buffer position),?_,⟨?_,rfl,rfl,rfl⟩,fun _ => trivial⟩
    · simp [write,Cow.Image.writeAsserted_eq,hs,hn]
    · exact (s.write_opened buffer position).trans hs
  | vhd s o p =>
    have hs : o=true := ho
    have hrs : s.readonly=false := by simpa [isReadonly,hs] using hr
    refine ⟨vhd (s.write buffer position) o p,?_,⟨ho,?_,rfl,rfl⟩,fun _ => trivial⟩
    · simp [write,hs,hrs]
    · simpa [isReadonly,hs,writeVhd_readonly] using hrs

theorem write_empty (i : StorageImage blk) (position : Nat) (h : i.isCow=true) : i.write [] position=none := by
  cases i with
  | cow s => simp [write,Cow.Image.writeAsserted_eq]
  | binfile b | vhd s o p => simp [isCow] at h

theorem inReach_of_size (i : StorageImage blk) (ho : i.isOpen=true) (position : Nat)
    (h : i.isVhd=false → position < i.size+2^31) : i.InReach position := by
  cases i with
  | binfile b =>
    have hb : b.isOpen=true := ho
    have hp := h rfl
    simp only [size,hb,if_true] at hp
    exact hp
  | cow s | vhd s o p => trivial

theorem Sound.write (h : i.Sound) (hr : i.isReadonly=false)
    (buffer : List UInt8) (position : Nat) (hp : i.InReach position)
    (hl : buffer≠[] ∨ i.isCow=false) (hw : position+buffer.length<2^64) :
    ∃ j,i.write buffer position=some j ∧ Wrote i j buffer position := by
  cases i with
  | binfile b =>
    have ho : b.isOpen=true := h
    have hrb : b.readonly=false := by simpa [isReadonly,ho] using hr
    obtain ⟨g,hb,hg,he⟩ := Binfile.write_passes b buffer position ho hrb hp
    have hsize : (g.pwrite buffer position).size =
        if buffer=[] then g.size else max g.size (position+buffer.length) := by
      split_ifs with hn
      · simp [File.pwrite,hn]
      · exact g.pwrite_size buffer position hn
    refine ⟨binfile { b with f := g.pwrite buffer position },?_,ho,?_,?_,?_,?_,?_,rfl,rfl⟩
    · simp [StorageImage.write,he]
    · intro k
      left
      simp only [StorageImage.content,File.pwrite_byte,hb]
    · exact fun _ hk => hk
    · simp only [StorageImage.size,ho,if_true,hsize]
      split_ifs <;> omega
    · intro _ hn
      simp only [StorageImage.size,ho,if_true,hsize,if_neg hn]
      omega
    · simp only [StorageImage.size,ho,if_true,hsize,isVhd,Bool.false_eq_true,if_false]
      split_ifs <;> omega
  | cow s =>
    have hi : s.Inv := h
    have hn : buffer≠[] := by simpa [isCow] using hl
    obtain ⟨hj,hv,-⟩ := Cow.Image.write_inv hi buffer position
    have hwr := Cow.Image.write_spec hi.toSound hi.noMap buffer position (fun _ => False)
      (fun _ _ _ _ hk => hk.elim) (fun _ hk => hk.elim)
    refine ⟨cow (s.write buffer position),?_,hj,?_,?_,?_,?_,?_,rfl,rfl⟩
    · simp [StorageImage.write,Cow.Image.writeAsserted_eq,hi.isOpen,hn]
    · intro k
      left
      simp only [StorageImage.content,hv]
    · exact fun _ hk => hk
    · exact hwr.1.image
    · exact fun _ _ => hwr.2.1
    · have he := s.write_image buffer position
      rw [show position+buffer.length+Cow.blockSize-1=position+buffer.length+511 from rfl] at he
      exact he
  | vhd s o p =>
    obtain ⟨rfl,ho⟩ := h
    have hrs : s.readonly=false := by simpa [isReadonly] using hr
    have hf : s.ShowsFlat ⟨s.vhd.diskSize,diskByte s.file s.vhd⟩ := ⟨ho,rfl,rfl⟩
    obtain ⟨hs,hro⟩ := hf.write hrs buffer position hw
    have hds : (s.write buffer position).vhd.diskSize=s.vhd.diskSize := hs.size
    refine ⟨vhd (s.write buffer position) true p,?_,⟨rfl,hs.opened⟩,?_,?_,?_,?_,?_,?_,rfl⟩
    · simp [StorageImage.write,hrs]
    · intro k
      have hk : diskByte (s.write buffer position).file (s.write buffer position).vhd k =
          if (s.write buffer position).lost k then diskByte s.file s.vhd k
          else patch (diskByte s.file s.vhd) position
            (buffer.take (s.vhd.diskSize-position)) k := congrFun hs.disk k
      simp only [StorageImage.content,StorageImage.drops,hds]
      by_cases hd : s.vhd.diskSize≤k
      · right
        refine ⟨by simp [hd],?_⟩
        rw [hk]
        split_ifs
        · rfl
        · exact patch_outside _ _ _ _ (by simp; omega)
      · cases hlost : (s.write buffer position).lost k with
        | true => simp [hk,hlost]
        | false =>
          left
          simp only [hk,hlost,Bool.false_eq_true,if_false,patch]
          split_ifs with hpk
          · rw [List.getElem?_take_of_lt (by omega)]
          · rfl
    · intro k hk
      simp only [StorageImage.drops,hds,Bool.or_eq_true,decide_eq_true_eq] at hk ⊢
      rcases hk with hk | hk
      · exact Or.inl hk
      · right
        simp only [Vhd.Image.lost,decide_eq_true_eq] at hk ⊢
        rw [writeVhd_full s buffer position hk.2.2]
        exact hk
    · exact hds.ge
    · exact fun hv => absurd hv (by simp [isVhd])
    · exact hds.le
    · simpa [isReadonly] using hro

end StorageImage

/-! `storagedrive_c`: an image behind a drive, and whether it is there. -/

/-- `mediumPresent` is kept across `open` and `close`: it is set only while the image is open. -/
structure StorageDrive (blk : Nat) where
  image : Option (StorageImage blk)
  mediumPresent : Bool
  present : mediumPresent=true → ∃ i,image=some i ∧ i.isOpen=true

namespace StorageDrive
variable {blk : Nat}

/-- The drive with `i` in it, open. -/
def holding (i : StorageImage blk) (h : i.isOpen=true) : StorageDrive blk :=
  ⟨some i,true,fun _ => ⟨i,rfl,h⟩⟩

def imageIsOpen (d : StorageDrive blk) : Bool := d.mediumPresent

def imageIsReadonly (d : StorageDrive blk) : Bool :=
  match d.image with
  | none => false
  | some i => i.isReadonly

def imageSize (d : StorageDrive blk) : Nat :=
  match d.image with
  | none => 0
  | some i => i.size

/-- The drive after its image went from one state to another. The image stays open: no call here
closes one. -/
def become (d : StorageDrive blk) (j : StorageImage blk) : StorageDrive blk where
  image := some j
  mediumPresent := d.mediumPresent && j.isOpen
  present h := ⟨j,rfl,by simp at h; exact h.2⟩

/-- The buffer comes back as the image fills it; without an image it stays as it is. -/
def imageRead (d : StorageDrive blk) (buffer : List UInt8) (position : Nat) :
    Option (List UInt8 × StorageDrive blk) :=
  match d.image with
  | none => some (buffer,d)
  | some i =>
    if d.mediumPresent then (i.read position buffer.length).map (fun r => (r.1,d.become r.2))
    else some (List.replicate buffer.length 0,d)

def imageWrite (d : StorageDrive blk) (buffer : List UInt8) (position : Nat) :
    Option (StorageDrive blk) :=
  match d.image with
  | none => some d
  | some i =>
    if d.mediumPresent then
      if i.isReadonly then some d else (i.write buffer position).map d.become
    else some d

/-- `sizeof(zeros)` -/
def zeros : Nat := 4096

/-- The rest of the last block a write of `len` bytes at `position` touched. -/
def imageClearRemainingBlockBytes (d : StorageDrive blk) (blockSizeBytes position len : Nat) :
    Option (StorageDrive blk) := do
  let start := (position+len)%2^64
  let end_ := (start+blockSizeBytes-1)%2^64/blockSizeBytes*blockSizeBytes
  assert (start≤end_)
  let unused := (end_-start)%2^32
  if 0<unused then
    assert (unused≤zeros)
    d.imageWrite (List.replicate unused 0) start
  else some d

end StorageDrive

end QUniLator
