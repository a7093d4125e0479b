import QUniLator.Mscp.Disk

/-! Which bytes a transfer of an MSCP disk touches. -/

namespace QUniLator

open List Option

/-- How far a store of `len` bytes at `pos` stays from the end of the block it ends in. -/
def padding (pos len : Nat) : Nat := (pos+len+511)/512*512-(pos+len)

theorem padding_end (pos len : Nat) : pos+len+padding pos len=(pos+len+511)/512*512 := by
  unfold padding
  omega

theorem padding_lt (pos len : Nat) : padding pos len<512 := by
  unfold padding
  omega

theorem block_end_le {n b : Nat} (h : n≤b*512) : (n+511)/512*512≤b*512 := by
  omega

namespace StorageImage
variable {blk : Nat}

/-- What a write and the clearing of the block's rest leave. -/
structure Stored (i j : StorageImage blk) (buffer : List UInt8) (pos : Nat) : Prop where
  sound : j.Sound
  byte : ∀ k,
    j.content k=patch i.content pos (buffer++replicate (padding pos buffer.length) 0) k ∨
      j.drops k=true ∧ j.content k=i.content k
  grows : i.size≤j.size
  ends : j.size ≤ if i.isVhd then i.size else max i.size ((pos+buffer.length+511)/512*512)

theorem Wrote.stored {i j : StorageImage blk} {buffer : List UInt8} {pos : Nat}
    (h : Wrote i j buffer pos) (hp : padding pos buffer.length=0) : Stored i j buffer pos := by
  refine ⟨h.sound,?_,h.grows,h.ends⟩
  intro k
  simpa [hp] using h.byte k

theorem Wrote.clear {i j l : StorageImage blk} {buffer : List UInt8} {pos : Nat} (h : Wrote i j buffer pos)
    (k : Wrote j l (replicate (padding pos buffer.length) 0) (pos+buffer.length)) : Stored i l buffer pos := by
  have hl := padding_end pos buffer.length
  refine ⟨k.sound,?_,h.grows.trans k.grows,?_⟩
  · intro b
    rw [patch_append]
    by_cases hb : pos+buffer.length≤b ∧
        b<pos+buffer.length+(replicate (padding pos buffer.length) (0 : UInt8)).length
    · rcases k.byte b with hk | ⟨hd,hk⟩
      · left
        rw [hk]
        exact patch_congr _ _ _ _ _ (fun hn => absurd hb hn)
      · right
        refine ⟨hd,hk.trans ?_⟩
        rcases h.byte b with hj | ⟨-,hj⟩
        · rw [hj]
          exact patch_after _ _ _ _ hb.1
        · exact hj
    · have hj : l.content b=j.content b := by
        rcases k.byte b with hk | ⟨-,hk⟩
        · rw [hk]
          exact patch_outside _ _ _ _ hb
        · exact hk
      rw [hj,patch_outside _ _ _ _ hb]
      rcases h.byte b with hw | ⟨hd,hw⟩
      · exact Or.inl hw
      · exact Or.inr ⟨k.drops b hd,hw⟩
  · have he := h.ends
    have hk := k.ends
    rw [h.vhd,length_replicate,hl] at hk
    split_ifs at he hk ⊢ <;> omega

end StorageImage

namespace StorageDrive
variable {blk : Nat}

theorem imageWrite_eq {d : StorageDrive blk} {i : StorageImage blk} (hi : d.image=some i)
    (hm : d.mediumPresent) (hr : i.isReadonly=false) (buffer : List UInt8) (pos : Nat) :
    d.imageWrite buffer pos=(i.write buffer pos).map d.become := by
  simp [imageWrite,hi,hm,hr]

theorem clear_eq (d : StorageDrive blk) (pos len : Nat) (h : pos+len+512≤2^64) :
    d.imageClearRemainingBlockBytes 512 pos len = if padding pos len=0 then some d
      else d.imageWrite (replicate (padding pos len) 0) (pos+len) := by
  have hpad := padding_end pos len
  have hlt := padding_lt pos len
  have hstart : (pos+len)%2^64=pos+len := Nat.mod_eq_of_lt (by omega)
  have hend : (pos+len+512-1)%2^64/512*512=pos+len+padding pos len := by omega
  have hunused : (pos+len+padding pos len-(pos+len))%2^32=padding pos len := by omega
  have hz : padding pos len≤zeros := by
    simp only [zeros]
    omega
  simp only [imageClearRemainingBlockBytes,hstart,hend,hunused]
  by_cases h0 : padding pos len=0
  · simp [h0]
  · simp [h0,Nat.pos_of_ne_zero h0,hz]

theorem become_become (d : StorageDrive blk) (j l : StorageImage blk) (hj : j.isOpen) :
    (d.become j).become l=d.become l := by
  simp [become,hj]

end StorageDrive

namespace Mscp.MscpDrive
variable {blk : Nat}

structure Loaded (d : MscpDrive blk) (i : StorageImage blk) : Prop where
  image : d.storage.image=some i
  present : d.storage.mediumPresent=true
  sound : i.Sound

theorem Loaded.become {d : MscpDrive blk} {i j : StorageImage blk} (h : d.Loaded i)
    (hj : j.Sound) : Loaded { d with storage := d.storage.become j } j :=
  ⟨rfl,by simp [StorageDrive.become,h.present,hj.isOpen],hj⟩

theorem byteOffset_spec (n : Nat) : byteOffset n<2^32 ∧ byteOffset n%512=0 := by
  simp only [byteOffset,blockSize]
  omega

variable {p : TransferParameters} {operation cmdStatus : Nat} {host host' : HostMemory} {fresh : Nat → UInt8} {d d' : MscpDrive blk} {i : StorageImage blk}

theorem read_exact (h : d.Loaded i) (n : Nat) (buffer bs : List UInt8) (hr : d.read n buffer=some (bs,d')) :
    ∃ j,d'={ d with storage := d.storage.become j } ∧ StorageImage.Read i j ∧
      bs=slice i.content (byteOffset n) buffer.length := by
  simp only [read,StorageDrive.imageRead,h.image,h.present,if_true] at hr
  by_cases hl : buffer.length≠0 ∨ i.isVhd=true
  · obtain ⟨j,hj,hs⟩ := h.sound.read (byteOffset n) buffer.length hl
    simp only [hj,map_some,Option.some.injEq,Prod.mk.injEq] at hr
    exact ⟨j,hr.2.symm,hs,hr.1.symm⟩
  · simp only [not_or,not_not,Bool.not_eq_true] at hl
    rw [hl.1,i.read_empty _ hl.2] at hr
    simp at hr

theorem write_exact (h : d.Loaded i) (hw : d.isWriteProtected=false) (n : Nat) (buffer : List UInt8)
    (hb : buffer.length<2^32) (hp : i.InReach (byteOffset n)) (hr : d.write n buffer=some d') :
    ∃ j,d'={ d with storage := d.storage.become j } ∧ StorageImage.Stored i j buffer (byteOffset n) := by
  have hro : i.isReadonly=false := by
    simpa [isWriteProtected,StorageDrive.imageIsReadonly,h.image] using hw
  obtain ⟨hpos,hblock⟩ := byteOffset_spec n
  simp only [write,blockSize,StorageDrive.imageWrite_eq h.image h.present hro] at hr
  generalize byteOffset n=pos at *
  -- the empty write of a copy-on-write image has no result
  have hne : buffer≠[] ∨ i.isCow=false := by
    by_contra hc
    simp only [not_or,not_not,Bool.not_eq_false] at hc
    rw [hc.1,i.write_empty pos hc.2] at hr
    exact absurd hr (by simp)
  obtain ⟨j,hj,hwr⟩ := h.sound.write hro buffer pos hp hne (by omega)
  have hopen := hwr.sound.isOpen
  rw [hj,map_some,bind_eq_bind,bind_some,
    StorageDrive.clear_eq _ _ _ (by omega)] at hr
  by_cases hzero : padding pos buffer.length=0
  · simp only [if_pos hzero,bind_some,Option.pure_def,Option.some.injEq] at hr
    exact ⟨j,hr.symm,hwr.stored hzero⟩
  · have hlt := padding_lt pos buffer.length
    have hfill : replicate (padding pos buffer.length) (0 : UInt8)≠[] := by simpa using hzero
    have hbuf : buffer≠[] := by
      rintro rfl
      simp only [padding,length_nil] at hzero
      omega
    have hreach : j.InReach (pos+buffer.length) := by
      apply j.inReach_of_size hopen
      intro hv
      have := hwr.reaches (hwr.vhd ▸ hv) hbuf
      omega
    have hjr := hwr.readonly.trans hro
    obtain ⟨l,hl,hwr2⟩ := hwr.sound.write hjr _ (pos+buffer.length) hreach (Or.inl hfill)
      (by simp; omega)
    have hpres : (d.storage.become j).mediumPresent=true := by
      simp [StorageDrive.become,h.present,hopen]
    simp only [if_neg hzero,StorageDrive.imageWrite_eq rfl hpres hjr,hl,map_some,
      bind_some,Option.pure_def,Option.some.injEq,
      StorageDrive.become_become _ _ _ hopen] at hr
    exact ⟨l,hr.symm,hwr.clear hwr2⟩

def written (operation : Nat) (host : HostMemory) (p : TransferParameters) : Option (List UInt8) :=
  if operation=Opcode.erase then some (replicate p.byteCount 0)
  else if operation=Opcode.write then
    host.dmaRead (p.bufferPhysicalAddress &&& 0x00ffffff) p.byteCount
  else none

/-- What the host sees of a transfer that names the bytes `bs`: READ hands these over, COMPARE HOST DATA succeeds on
them alone, and no other command changes its memory. -/
structure Shown (operation : Nat) (p : TransferParameters) (host host' : HostMemory)
    (cmdStatus : Nat) (bs : List UInt8) : Prop where
  read : operation=Opcode.read →
    host'=(host.dmaWrite (p.bufferPhysicalAddress &&& 0x00ffffff) bs).1 ∧
    (cmdStatus=status Status.success 0 0 ↔
      (host.dmaWrite (p.bufferPhysicalAddress &&& 0x00ffffff) bs).2=true)
  compare : operation=Opcode.compareHostData → (cmdStatus=status Status.success 0 0 ↔
      host.dmaRead (p.bufferPhysicalAddress &&& 0x00ffffff) p.byteCount=some bs)
  other : operation≠Opcode.read → host'=host

theorem transfer_cases (h : d.transfer host fresh operation p=some (d',host',cmdStatus)) :
    (∃ bs,written operation host p=some bs ∧ d.writeBlocks p bs=some d' ∧
      ∀ cs,Shown operation p host host' cmdStatus cs) ∨ (written operation host p=none ∧
      ((∃ bs,d.readBlocks p (slice fresh 0 p.byteCount)=some (bs,d') ∧ Shown operation p host host' cmdStatus bs) ∨
      d'=d ∧ ∀ cs,Shown operation p host host' cmdStatus cs)) := by
  -- a command that is neither READ nor COMPARE HOST DATA shows the host nothing
  have hquiet (hr : operation≠Opcode.read) (hc : operation≠Opcode.compareHostData)
      (he : host'=host) (cs : List UInt8) : Shown operation p host host' cmdStatus cs :=
    ⟨fun h => absurd h hr,fun h => absurd h hc,fun _ => he⟩
  simp only [transfer] at h
  split_ifs at h with ha hc he hr hw
  · subst ha
    simp only [Option.some.injEq,Prod.mk.injEq] at h
    exact Or.inr ⟨rfl,Or.inr ⟨h.1.symm,hquiet (by decide) (by decide) h.2.1.symm⟩⟩
  · subst hc
    refine Or.inr ⟨rfl,Or.inl ?_⟩
    cases hb : d.readBlocks p (slice fresh 0 p.byteCount) with
    | none => simp [hb] at h
    | some r =>
      obtain ⟨bs,e⟩ := r
      simp only [hb,bind_eq_bind,bind_some] at h
      cases hm : host.dmaRead (p.bufferPhysicalAddress &&& 0x00ffffff) p.byteCount with
      | none =>
        simp only [hm,Option.pure_def,Option.some.injEq,Prod.mk.injEq] at h
        obtain ⟨rfl,rfl,rfl⟩ := h
        exact ⟨bs,rfl,by simp [Opcode.compareHostData,Opcode.read],by simp [hm]; decide,
          fun _ => rfl⟩
      | some memBuffer =>
        simp only [hm,Option.pure_def] at h
        split_ifs at h with heq <;>
          simp only [Option.some.injEq,Prod.mk.injEq] at h <;> obtain ⟨rfl,rfl,rfl⟩ := h
        · exact ⟨bs,rfl,by simp [Opcode.compareHostData,Opcode.read],by simp [hm,heq],fun _ => rfl⟩
        · refine ⟨bs,rfl,by simp [Opcode.compareHostData,Opcode.read],?_,fun _ => rfl⟩
          simp [hm,Ne.symm heq]
          decide
  · subst he
    left
    cases hb : d.writeBlocks p (replicate p.byteCount 0) with
    | none => simp [hb] at h
    | some e =>
      simp only [hb,bind_eq_bind,bind_some,Option.pure_def,Option.some.injEq,Prod.mk.injEq] at h
      exact ⟨_,rfl,h.1 ▸ hb,hquiet (by decide) (by decide) h.2.1.symm⟩
  · subst hr
    refine Or.inr ⟨rfl,Or.inl ?_⟩
    cases hb : d.readBlocks p (slice fresh 0 p.byteCount) with
    | none => simp [hb] at h
    | some r =>
      obtain ⟨bs,e⟩ := r
      simp only [hb,bind_eq_bind,bind_some,Option.pure_def,Option.some.injEq,Prod.mk.injEq] at h
      obtain ⟨rfl,rfl,rfl⟩ := h
      refine ⟨bs,rfl,fun _ => ⟨rfl,?_⟩,fun h => absurd h (by decide),fun h => absurd rfl h⟩
      split_ifs with hd
      · simp [hd]
      · simp [hd]
        decide
  · subst hw
    cases hm : host.dmaRead (p.bufferPhysicalAddress &&& 0x00ffffff) p.byteCount with
    | none =>
      simp only [hm,Option.some.injEq,Prod.mk.injEq] at h
      refine Or.inr ⟨?_,Or.inr ⟨h.1.symm,hquiet (by decide) (by decide) h.2.1.symm⟩⟩
      simpa [written,Opcode.write,Opcode.erase] using hm
    | some memBuffer =>
      simp only [hm] at h
      cases hb : d.writeBlocks p memBuffer with
      | none => simp [hb] at h
      | some e =>
        simp only [hb,bind_eq_bind,bind_some,Option.pure_def,Option.some.injEq,Prod.mk.injEq] at h
        refine Or.inl ⟨memBuffer,?_,h.1 ▸ hb,hquiet (by decide) (by decide) h.2.1.symm⟩
        simpa [written,Opcode.write,Opcode.erase] using hm

theorem written_length {operation : Nat} {host : HostMemory}
    {bs : List UInt8} (h : written operation host p=some bs) : bs.length=p.byteCount := by
  simp only [written,HostMemory.dmaRead] at h
  split_ifs at h
  all_goals simp [← some.inj h]

/-- The first byte past the last block that a transfer in the host area touches. -/
def transferEnd (p : TransferParameters) : Nat := (p.lbn*512+p.byteCount+511)/512*512

/-- A transfer in the host area touches the blocks it names: READ and COMPARE HOST DATA see the image from `lbn*512`
on, WRITE and ERASE store theirs there and clear the rest of the last block, up to whose end an image shorter than its
drive grows. -/
structure HostArea (operation : Nat) (p : TransferParameters) (host host' : HostMemory)
    (cmdStatus : Nat) (d d' : MscpDrive blk) (i j : StorageImage blk) : Prop where
  loaded : d'.Loaded j
  rct : d'.rctData=d.rctData
  shown : Shown operation p host host' cmdStatus (slice i.content (p.lbn*512) p.byteCount)
  kept : written operation host p=none → j.content=i.content
  stored : ∀ bs,written operation host p=some bs → ∀ k,j.content k=patch i.content (p.lbn*512)
      (bs++replicate (padding (p.lbn*512) p.byteCount) 0) k ∨
    j.drops k=true ∧ j.content k=i.content k
  inside : ∀ k,j.content k≠i.content k → p.lbn*512≤k ∧ k<transferEnd p ∧ k<d.getBlockCount*512
  blockCount : d'.getBlockCount=d.getBlockCount
  size : j.size=i.size ∨ d.useImageSize=false ∧ i.size<j.size ∧ j.size≤transferEnd p

/-- A transfer past the host area touches the one replacement block it names. -/
structure ReplacementArea (operation : Nat) (p : TransferParameters) (host host' : HostMemory)
    (cmdStatus : Nat) (d d' : MscpDrive blk) : Prop where
  storage : d'.storage=d.storage
  shown : Shown operation p host host' cmdStatus (d.rctBlock (p.lbn-d.getBlockCount))
  kept : written operation host p=none → d'.rctData=d.rctData
  stored : ∀ bs,written operation host p=some bs → d'.rctBlock (p.lbn-d.getBlockCount)=bs ∧
      ∀ b,b≠p.lbn-d.getBlockCount → d'.rctBlock b=d.rctBlock b
  blockCount : d'.getBlockCount=d.getBlockCount

/-- The checks a transfer has passed. -/
structure Accepted (d : MscpDrive blk) (operation : Nat) (p : TransferParameters) : Prop where
  available : d.isAvailable=true
  online : d.online=true
  lbn : p.lbn<(d.getBlockCount+d.getRCTBlockCount)%2^32
  byteCount : p.byteCount≤((d.getBlockCount+d.getRCTBlockCount)%2^32-p.lbn)*blockSize%2^32
  rct : d.getBlockCount≤p.lbn → p.byteCount=blockSize
  writable : operation=Opcode.write ∨ operation=Opcode.erase → d.isWriteProtected=false

theorem refusal_none {d : MscpDrive blk} {operation : Nat} : d.refusal operation p=none ↔ Accepted d operation p := by
  constructor
  · intro h
    simp only [refusal] at h
    split_ifs at h with h1 h2 h3 h4 h5 h6
    simp only [not_and,not_not] at h5
    refine ⟨by simpa using h1,by simpa using h2,by omega,by omega,h5,?_⟩
    intro ho
    simpa [ho] using h6
  · intro h
    have hb : ¬(d.getBlockCount≤p.lbn ∧ p.byteCount≠blockSize) := fun hc => hc.2 (h.rct hc.1)
    have hw : ¬((operation=Opcode.write ∨ operation=Opcode.erase) ∧
        d.isWriteProtected=true) := by
      rintro ⟨ho,hp⟩
      rw [h.writable ho] at hp
      exact absurd hp (by decide)
    simp only [refusal,h.available,h.online,Bool.not_true,Bool.false_eq_true,if_false,
      if_neg (Nat.not_le.mpr h.lbn),if_neg (Nat.not_lt.mpr h.byteCount),if_neg hb,if_neg hw]

theorem inReach_of_lbn {d : MscpDrive blk} (hi : d.storage.image=some i)
    (ho : i.isOpen) (lbn : Nat) (hl : lbn<d.getBlockCount) : i.InReach (byteOffset lbn) := by
  apply i.inReach_of_size ho
  intro _
  have hle : byteOffset lbn≤lbn*512 := Nat.mod_le _ _
  simp only [getBlockCount,StorageDrive.imageSize,hi,blockSize] at hl
  split_ifs at hl
  · omega
  · have ht := driveTable_size _ d.inTable
    omega

theorem hostArea_exact (h : d.Loaded i) (ha : Accepted d operation p)
    (ht : d.transfer host fresh operation p=some (d',host',cmdStatus))
    (hl : p.lbn<d.getBlockCount) (h32 : p.lbn*512<2^32) (hfit : p.lbn*512+p.byteCount≤d.getBlockCount*512) :
    ∃ j,HostArea operation p host host' cmdStatus d d' i j := by
  have hoff : byteOffset p.lbn=p.lbn*512 := Nat.mod_eq_of_lt h32
  have hrct : d.rctAccess p=false := by simpa [rctAccess] using hl
  have hcount (j : StorageImage blk) (hj : j.size=i.size) :
      getBlockCount { d with storage := d.storage.become j }=d.getBlockCount := by
    simp only [getBlockCount,StorageDrive.imageSize,StorageDrive.become,h.image,hj]
  rcases transfer_cases ht with ⟨bs,hbs,hw,hs⟩ | ⟨hnone,⟨bs,hr,hs⟩ | ⟨rfl,hs⟩⟩
  · have hlen := written_length hbs
    have hwp : d.isWriteProtected=false := by
      apply ha.writable
      simp only [written] at hbs
      split_ifs at hbs with he hwr
      · exact Or.inr he
      · exact Or.inl hwr
    have hn : p.byteCount<2^32 := ha.byteCount.trans_lt (Nat.mod_lt _ (by decide))
    simp only [writeBlocks,hrct,Bool.false_eq_true,if_false] at hw
    obtain ⟨j,rfl,hst⟩ := write_exact h hwp p.lbn bs (by omega)
      (inReach_of_lbn h.image h.sound.isOpen _ hl) hw
    rw [hoff] at hst
    have hend : p.lbn*512+bs.length+padding (p.lbn*512) bs.length=transferEnd p := by
      rw [padding_end,hlen,transferEnd]
    have hfits : transferEnd p≤d.getBlockCount*512 := block_end_le hfit
    have hsize : j.size=i.size ∨
        d.useImageSize=false ∧ i.size<j.size ∧ j.size≤transferEnd p := by
      have he := hst.ends
      have hg := hst.grows
      rw [hlen,← transferEnd] at he
      cases hv : i.isVhd with
      | true =>
        rw [if_pos hv] at he
        exact Or.inl (by omega)
      | false =>
        rw [if_neg (by simp [hv])] at he
        cases hu : d.useImageSize with
        | true =>
          simp only [getBlockCount,hu,if_true,StorageDrive.imageSize,h.image,blockSize]
            at hfits
          exact Or.inl (by omega)
        | false =>
          by_cases hj : j.size=i.size
          · exact Or.inl hj
          · exact Or.inr ⟨rfl,by omega,by omega⟩
    refine ⟨j,h.become hst.sound,rfl,hs _,fun hn => absurd (hbs.symm.trans hn) (by simp),?_,?_,?_,
      hsize⟩
    · intro cs hcs
      obtain rfl : bs=cs := some.inj (hbs.symm.trans hcs)
      rw [← hlen]
      exact hst.byte
    · intro k hk
      have hin : p.lbn*512≤k ∧
          k<p.lbn*512+(bs++replicate (padding (p.lbn*512) bs.length) 0).length := by
        by_contra hout
        rcases hst.byte k with hb | ⟨-,hb⟩
        · exact hk (hb.trans (patch_outside _ _ _ _ hout))
        · exact hk hb
      rw [length_append,length_replicate,← Nat.add_assoc,hend] at hin
      exact ⟨hin.1,hin.2,hin.2.trans_le hfits⟩
    · rcases hsize with hj | ⟨hu,-⟩
      · exact hcount j hj
      · simp [getBlockCount,hu]
  · simp only [readBlocks,hrct,Bool.false_eq_true,if_false] at hr
    obtain ⟨j,rfl,hj,rfl⟩ := read_exact h p.lbn _ bs hr
    rw [hoff,slice_length] at hs
    exact ⟨j,h.become hj.sound,rfl,hs,fun _ => hj.content,
      fun cs hcs => absurd (hnone.symm.trans hcs) (by simp),
      fun k hk => absurd (congrFun hj.content k) hk,hcount j hj.size,Or.inl hj.size⟩
  · exact ⟨i,h,rfl,hs _,fun _ => rfl,fun cs hcs => absurd (hnone.symm.trans hcs) (by simp),
      fun k hk => absurd rfl hk,rfl,Or.inl rfl⟩

theorem replacementArea_exact (ha : Accepted d operation p)
    (ht : d.transfer host fresh operation p=some (d',host',cmdStatus))
    (hl : d.getBlockCount≤p.lbn) : ReplacementArea operation p host host' cmdStatus d d' := by
  have hrct : d.rctAccess p=true := by simpa [rctAccess] using hl
  rcases transfer_cases ht with ⟨bs,hbs,hw,hs⟩ | ⟨hnone,⟨bs,hr,hs⟩ | ⟨rfl,hs⟩⟩
  · have hlen : bs.length=blockSize := (written_length hbs).trans (ha.rct hl)
    simp only [writeBlocks,hrct,if_true,writeRCTBlock,assert_bind] at hw
    split_ifs at hw with hin
    obtain rfl := some.inj hw
    have htake : bs.take blockSize=bs := take_of_length_le hlen.le
    refine ⟨rfl,hs _,fun hn => absurd (hbs.symm.trans hn) (by simp),?_,rfl⟩
    intro cs hcs
    obtain rfl : bs=cs := some.inj (hbs.symm.trans hcs)
    refine ⟨?_,?_⟩
    · simp only [rctBlock,htake]
      rw [← hlen]
      exact slice_patch _ _ _
    · intro b hb
      simp only [rctBlock,htake]
      apply slice_patch_other
      rw [hlen]
      simp only [blockSize]
      omega
  · simp only [readBlocks,hrct,if_true,readRCTBlock,assert_bind] at hr
    split_ifs at hr with hin
    · simp only [Option.pure_def,map_some,Option.some.injEq,Prod.mk.injEq] at hr
      obtain ⟨rfl,rfl⟩ := hr
      exact ⟨rfl,hs,fun _ => rfl,fun cs hcs => absurd (hnone.symm.trans hcs) (by simp),rfl⟩
    · simp at hr
  · exact ⟨rfl,hs _,fun _ => rfl,fun cs hcs => absurd (hnone.symm.trans hcs) (by simp),rfl⟩

/-- A transfer that is accepted, starts below 4 GiB and stays in the host area. -/
structure InArea (d : MscpDrive blk) (operation : Nat) (p : TransferParameters) : Prop where
  accepted : Accepted d operation p
  lbn : p.lbn<d.getBlockCount
  low : p.lbn*512<2^32
  fits : p.lbn*512+p.byteCount≤d.getBlockCount*512

/-- What a transfer does to a flat disk. -/
def store (operation : Nat) (host : HostMemory) (p : TransferParameters) (c : Nat → UInt8) : Nat → UInt8 :=
  match written operation host p with
  | none => c
  | some bs => patch c (p.lbn*512) (bs++replicate (padding (p.lbn*512) p.byteCount) 0)

/-- Transfers of a drive, beside a flat disk. The host's memory is any at each; the image drops no byte. -/
inductive Transfers (d : MscpDrive blk) (c : Nat → UInt8) : MscpDrive blk → (Nat → UInt8) → Prop
  | start : Transfers d c d c
  | transfer {e e' b host host' fresh operation cmdStatus p} (h : Transfers d c e b) (ha : e.InArea operation p)
      (ht : e.transfer host fresh operation p=some (e',host',cmdStatus))
      (hr : ∀ j,e'.storage.image=some j → ∀ k,j.drops k=false) : Transfers d c e' (store operation host p b)

variable {e : MscpDrive blk} {c : Nat → UInt8}

theorem Transfers.shows (h : Transfers d i.content e c) (hi : d.Loaded i) :
    ∃ j,e.Loaded j ∧ j.content=c ∧ e.getBlockCount=d.getBlockCount := by
  induction h with
  | start => exact ⟨i,hi,rfl,rfl⟩
  | @transfer _ _ _ host _ _ operation _ p _ ha ht hr ih =>
    obtain ⟨j,hj,rfl,hcount⟩ := ih
    obtain ⟨l,hl⟩ := hostArea_exact hj ha.accepted ht ha.lbn ha.low ha.fits
    refine ⟨l,hl.loaded,?_,hl.blockCount.trans hcount⟩
    unfold store
    cases hw : written operation host p with
    | none => exact hl.kept hw
    | some bs =>
      funext k
      exact (hl.stored bs hw k).resolve_right fun hk => by simp [hr l hl.loaded.image k] at hk

end Mscp.MscpDrive

namespace Mscp.Disks
variable {blk : Nat}

/-- A unit on line with the plain image `f` in it. -/
def plainUnit (f : File) (info : DriveInfo) (h : info∈driveTable) (useImageSize : Bool) : MscpDrive 4096 :=
  ⟨.holding (.binfile ⟨f,true,false,false⟩) rfl,info,true,1,useImageSize,fun _ => 0,h⟩

theorem plainUnit_loaded (f : File) (info : DriveInfo) (h : info∈driveTable) (useImageSize : Bool) :
    (plainUnit f info h useImageSize).Loaded (.binfile ⟨f,true,false,false⟩) :=
  ⟨rfl,rfl,rfl⟩

def single (d : MscpDrive 4096) : Disks 4096 :=
  ⟨[d],⟨2^18,fun _ => 0,fun _ => true⟩,fun _ => 0,0,0,0,0⟩

def transferCommand (opcode byteCount lbn : Nat) : Message :=
  ⟨32,0,sequential,0,0,0,0,opcode,0,0,lePut 4 byteCount++lePut 4 0++lePut 8 0++lePut 4 lbn⟩

theorem rd51_inTable : ⟨"RD51",21600,18,4,1,0x25644033,6,36,false⟩∈driveTable := by decide

def oneBlock : File := File.empty.ftruncate 512
def oneBlockUnit : MscpDrive 4096 := plainUnit oneBlock _ rd51_inTable true

def bigFile : File where
  size := 2^32+512
  byte k := if k=2^32 then 1 else 0
  pastEnd k hk := if_neg (by omega)
def bigUnit : MscpDrive 4096 := plainUnit bigFile _ rd51_inTable true

def newUnit : MscpDrive 4096 := plainUnit File.empty _ rd51_inTable false

open MscpDrive

def twoBytes (opcode : Nat) : TransferParameters := (transferCommand opcode 2 0).transferParameters
def noHost : HostMemory := ⟨2^18,fun _ => 0,fun _ => true⟩

end Mscp.Disks

end QUniLator
