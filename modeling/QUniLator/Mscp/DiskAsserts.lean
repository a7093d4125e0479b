import QUniLator.Mscp.Transfer

/-!
The asserts under an MSCP disk command. They sit three layers below the command's checks: in the port,
the drive and the image.
-/

namespace QUniLator.Mscp

open List Option

namespace MscpDrive
variable {blk : Nat}
variable {p : TransferParameters} {d : MscpDrive blk} {operation : Nat}

theorem Accepted.image (h : Accepted d operation p) : ∃ i,d.storage.image=some i ∧ i.isOpen=true :=
  d.storage.present h.available

theorem getBlockCount_lt (d : MscpDrive blk) : d.getBlockCount<2^32 := by
  have ht := driveTable_size _ d.inTable
  simp only [getBlockCount]
  split_ifs
  · exact Nat.mod_lt _ (by decide)
  · omega

/-- The check of the LBN is the assert on the replacement block, whether its sum wraps or not. -/
theorem Accepted.rctBlock_lt (h : Accepted d operation p) (hl : d.getBlockCount≤p.lbn) :
    p.lbn-d.getBlockCount<d.getRCTBlockCount := by
  have hn := d.getBlockCount_lt
  have hlt := h.lbn
  have ht := driveTable_size _ d.inTable
  have hr : d.getRCTBlockCount=d.info.rctSize := Nat.mul_one _
  rw [hr] at hlt ⊢
  generalize d.getBlockCount=n at *
  by_cases hw : n+d.info.rctSize<2^32
  · rw [Nat.mod_eq_of_lt hw] at hlt
    omega
  · omega

section
variable {d : MscpDrive blk} {i : StorageImage blk} (hi : d.storage.image=some i)
  (ho : i.isOpen=true) (hm : d.storage.mediumPresent=true)
include hi ho hm

theorem read_isSome (n : Nat) (buffer : List UInt8) : (d.read n buffer).isSome ↔ buffer≠[] ∨ i.isVhd=true := by
  simp only [read,StorageDrive.imageRead,hi,hm,if_true]
  by_cases hl : buffer≠[] ∨ i.isVhd=true
  · obtain ⟨bs,j,hj,-⟩ := i.read_passes (byteOffset n) buffer.length ho (by simpa using hl)
    simp [hj,hl]
  · simp only [not_or,not_not,Bool.not_eq_true] at hl
    simp [hl.1,hl.2,i.read_empty _ hl.2]

theorem write_isSome (hw : d.isWriteProtected=false) (n : Nat) (hn : n<d.getBlockCount)
    (buffer : List UInt8) (hb : buffer.length<2^32) : (d.write n buffer).isSome ↔ buffer≠[] ∨ i.isCow=false := by
  have hro : i.isReadonly=false := by
    simpa [isWriteProtected,StorageDrive.imageIsReadonly,hi] using hw
  have hreach := inReach_of_lbn hi ho n hn
  obtain ⟨hpos,hblock⟩ := byteOffset_spec n
  simp only [write,blockSize,StorageDrive.imageWrite_eq hi hm hro]
  generalize byteOffset n=pos at *
  by_cases hne : buffer≠[] ∨ i.isCow=false
  · obtain ⟨j,hj,hp,hnext⟩ := i.write_passes buffer pos ho hro hreach hne
    simp only [hj,map_some,bind_eq_bind,bind_some,hne,iff_true]
    rw [StorageDrive.clear_eq _ _ _ (by omega)]
    by_cases hzero : padding pos buffer.length=0
    · simp [hzero]
    · have hbuf : buffer≠[] := by
        rintro rfl
        simp only [padding,length_nil] at hzero
        omega
      have hfill : replicate (padding pos buffer.length) (0 : UInt8)≠[] := by
        simpa using hzero
      obtain ⟨l,hl,-⟩ := j.write_passes _ (pos+buffer.length) hp.isOpen hp.readonly (hnext hbuf)
        (Or.inl hfill)
      have hpres : (d.storage.become j).mediumPresent=true := by
        simp [StorageDrive.become,hm,hp.isOpen]
      simp [hzero,StorageDrive.imageWrite_eq rfl hpres hp.readonly,hl]
  · simp only [not_or,not_not,Bool.not_eq_false] at hne
    simp [hne.1,hne.2,i.write_empty pos hne.2]

end

section
variable {d : MscpDrive blk} {i : StorageImage blk} (hi : d.storage.image=some i)
  {operation : Nat} {p : TransferParameters} (h : Accepted d operation p)
include hi h

theorem Accepted.isOpen : i.isOpen=true := by
  obtain ⟨j,hj,ho⟩ := h.image
  obtain rfl : i=j := some.inj (hi.symm.trans hj)
  exact ho

theorem readBlocks_isSome (buffer : List UInt8) (hb : buffer.length=p.byteCount) :
    (d.readBlocks p buffer).isSome=true ↔ p.byteCount≠0 ∨ i.isVhd=true := by
  by_cases hl : d.getBlockCount≤p.lbn
  · have hrct : d.rctAccess p=true := by simpa [rctAccess] using hl
    have hn : p.byteCount=blockSize := h.rct hl
    simp [readBlocks,hrct,readRCTBlock,h.rctBlock_lt hl,hn,blockSize]
  · have hrct : d.rctAccess p=false := by simpa [rctAccess] using hl
    simp only [readBlocks,hrct,Bool.false_eq_true,if_false,read_isSome hi (h.isOpen hi) h.available]
    rw [← hb,ne_eq,ne_eq,length_eq_zero_iff]

theorem writeBlocks_isSome (ho : operation=Opcode.write ∨ operation=Opcode.erase)
    (buffer : List UInt8) (hb : buffer.length=p.byteCount) :
    (d.writeBlocks p buffer).isSome=true ↔ p.byteCount≠0 ∨ i.isCow=false := by
  by_cases hl : d.getBlockCount≤p.lbn
  · have hrct : d.rctAccess p=true := by simpa [rctAccess] using hl
    have hn : p.byteCount=blockSize := h.rct hl
    simp [writeBlocks,hrct,writeRCTBlock,h.rctBlock_lt hl,hn,blockSize]
  · have hrct : d.rctAccess p=false := by simpa [rctAccess] using hl
    have hlt : p.byteCount<2^32 := h.byteCount.trans_lt (Nat.mod_lt _ (by decide))
    simp only [writeBlocks,hrct,Bool.false_eq_true,if_false,
      write_isSome hi (h.isOpen hi) h.available (h.writable ho) p.lbn (by omega) buffer (by omega)]
    rw [← hb,ne_eq,ne_eq,length_eq_zero_iff]

end

/-- A transfer of no bytes that the image does not stand: a read unless it is a VHD, an erase if it is
a copy-on-write image. -/
def refusesEmpty (d : MscpDrive blk) (operation : Nat) : Bool :=
  match d.storage.image with
  | none => false
  | some i =>
    (operation=Opcode.read || operation=Opcode.compareHostData) && !i.isVhd ||
      operation=Opcode.erase && i.isCow

def isTransfer (operation : Nat) : Bool :=
  operation∈[Opcode.access,Opcode.compareHostData,Opcode.erase,Opcode.read,Opcode.write]

theorem dmaRead_length {host : HostMemory} {address len : Nat} {bs : List UInt8}
    (h : host.dmaRead address len=some bs) : bs.length=len ∧ 0<len := by
  simp only [HostMemory.dmaRead,HostMemory.reaches,Bool.and_eq_true,decide_eq_true_eq,
    ite_none_right_eq_some,Option.some.injEq] at h
  obtain ⟨⟨⟨-,h0⟩,-⟩,rfl⟩ := h
  exact ⟨slice_length _ _ _,h0⟩

section
variable (d : MscpDrive blk) (host : HostMemory) (fresh : Nat → UInt8) (p : TransferParameters)

theorem transfer_access : (d.transfer host fresh Opcode.access p).isSome=true := rfl

theorem transfer_compare : (d.transfer host fresh Opcode.compareHostData p).isSome =
    (d.readBlocks p (slice fresh 0 p.byteCount)).isSome := by
  change (d.readBlocks p (slice fresh 0 p.byteCount) >>= _).isSome=_
  cases d.readBlocks p (slice fresh 0 p.byteCount) with
  | none => rfl
  | some r =>
    simp only [bind_eq_bind,bind_some,isSome_some]
    split
    · rfl
    · split_ifs <;> rfl

theorem transfer_erase : (d.transfer host fresh Opcode.erase p).isSome =
    (d.writeBlocks p (replicate p.byteCount 0)).isSome := by
  change (d.writeBlocks p (replicate p.byteCount 0) >>= _).isSome=_
  cases d.writeBlocks p (replicate p.byteCount 0) <;> rfl

theorem transfer_read : (d.transfer host fresh Opcode.read p).isSome =
    (d.readBlocks p (slice fresh 0 p.byteCount)).isSome := by
  change (d.readBlocks p (slice fresh 0 p.byteCount) >>= _).isSome=_
  cases d.readBlocks p (slice fresh 0 p.byteCount) <;> rfl

theorem transfer_write (h : ∀ bs : List UInt8,bs.length=p.byteCount → bs≠[] →
    (d.writeBlocks p bs).isSome=true) : (d.transfer host fresh Opcode.write p).isSome=true := by
  simp only [transfer]
  rw [if_neg (by decide),if_neg (by decide),if_neg (by decide),if_neg (by decide),if_pos trivial]
  cases hm : host.dmaRead (p.bufferPhysicalAddress &&& 0x00ffffff) p.byteCount with
  | none => rfl
  | some bs =>
    obtain ⟨hl,h0⟩ := dmaRead_length hm
    obtain ⟨e,he⟩ := isSome_iff_exists.mp (h bs hl (by rintro rfl; simp at hl; omega))
    simp [he]

end

theorem transfer_isSome (host : HostMemory) (fresh : Nat → UInt8) (h : Accepted d operation p)
    (ht : isTransfer operation) : (d.transfer host fresh operation p).isSome ↔
      ¬(p.byteCount=0 ∧ d.refusesEmpty operation) := by
  obtain ⟨i,hi,-⟩ := h.image
  have hread := readBlocks_isSome hi h (slice fresh 0 p.byteCount) (slice_length _ _ _)
  have hwrite := writeBlocks_isSome hi h
  simp only [isTransfer,mem_cons,not_mem_nil,or_false,decide_eq_true_eq] at ht
  simp only [refusesEmpty,hi]
  rcases ht with rfl | rfl | rfl | rfl | rfl
  · rw [transfer_access]
    simp [Opcode.access,Opcode.read,Opcode.compareHostData,Opcode.erase]
  · rw [transfer_compare,hread]
    simp [Opcode.compareHostData,Opcode.read,Opcode.erase,imp_iff_not_or]
  · rw [transfer_erase,hwrite (Or.inr rfl) _ length_replicate]
    simp [Opcode.compareHostData,Opcode.read,Opcode.erase,imp_iff_not_or]
  · rw [transfer_read,hread]
    simp [Opcode.compareHostData,Opcode.read,Opcode.erase,imp_iff_not_or]
  · have hsome : (d.transfer host fresh Opcode.write p).isSome=true := by
      apply transfer_write
      intro bs hl hne
      refine (hwrite (Or.inl rfl) bs hl).mpr (Or.inl ?_)
      rwa [← hl,ne_eq,length_eq_zero_iff]
    rw [hsome]
    simp [Opcode.compareHostData,Opcode.read,Opcode.erase,Opcode.write]

end MscpDrive

namespace Disks
variable {blk : Nat} (s : Disks blk) (m : Message)

/-- The command is a transfer of no bytes that passes its checks and reaches an image that does not
stand it. -/
def emptyTransfer : Bool :=
  MscpDrive.isTransfer m.opcode && m.transferParameters.byteCount=0 &&
    (s.getDiskDrive m.unitNumber).any (fun d =>
      d.refusal m.opcode m.transferParameters=none && d.refusesEmpty m.opcode)

theorem doDiskTransfer_isSome (ht : MscpDrive.isTransfer m.opcode) :
    (s.doDiskTransfer m.opcode m m.unitNumber).isSome=true ↔ s.emptyTransfer m=false := by
  simp only [doDiskTransfer,emptyTransfer,ht,Bool.true_and]
  cases hd : s.getDiskDrive m.unitNumber with
  | none => simp
  | some d =>
    cases hr : d.refusal m.opcode m.transferParameters with
    | some cmdStatus => simp [hr]
    | none =>
      have hacc := MscpDrive.refusal_none.mp hr
      have h := MscpDrive.transfer_isSome s.host s.fresh hacc ht
      cases hx : d.transfer s.host s.fresh m.opcode m.transferParameters with
      | none | some r => simpa [hr,hx] using h

def keepsLength (opcode : Nat) : Bool :=
  opcode∉[Opcode.getCommandStatus,Opcode.setControllerCharacteristics,Opcode.access,
    Opcode.compareHostData,Opcode.erase,Opcode.read,Opcode.write,Opcode.getUnitStatus,
    Opcode.online,Opcode.replace,Opcode.setUnitCharacteristics]

/-- What the host gets back of a packet's frame: how long it is, and which command it answers. -/
def frame (o : Outcome blk) : Nat × Nat := (o.message.messageLength,o.message.referenceNumber)

theorem doDiskTransfer_frame {o : Outcome blk} {operation unit : Nat} (h : s.doDiskTransfer operation m unit=some o) :
    frame o=(transferParametersSize+headerSize,m.referenceNumber) := by
  simp only [doDiskTransfer] at h
  cases hd : s.getDiskDrive unit with
  | none =>
    simp only [hd,Option.some.injEq] at h
    rw [← h,frame]
  | some d =>
    cases hr : d.refusal operation m.transferParameters with
    | some cmdStatus =>
      simp only [hd,hr,Option.some.injEq] at h
      rw [← h,frame]
    | none =>
      simp only [hd,hr,bind_eq_bind,bind_eq_some_iff,Option.pure_def,Option.some.injEq] at h
      obtain ⟨r,-,rfl⟩ := h
      simp only [frame]
      split_ifs <;> rfl

theorem available_frame (unit : Nat) : frame (s.available m unit)=(m.messageLength,m.referenceNumber) := by
  simp only [available]
  cases s.availableUnit unit <;> rfl

theorem determineAccessPaths_frame (unit : Nat) :
    frame (s.determineAccessPaths m unit)=(m.messageLength,m.referenceNumber) := by
  simp only [determineAccessPaths]
  cases s.availableUnit unit <;> rfl

theorem getUnitStatus_frame (unit modifiers : Nat) : frame (s.getUnitStatus m unit modifiers) =
      (unitStatusSize+headerSize,m.referenceNumber) := by
  simp only [getUnitStatus]
  by_cases hn : modifiers%2=1
  · simp only [if_pos hn]
    cases s.availableUnit (s.nextUnit unit) <;> rfl
  · simp only [if_neg hn]
    cases s.availableUnit unit <;> rfl

theorem setUnitCharacteristicsInternal_frame (unit : Nat) (bringOnline : Bool) :
    frame (s.setUnitCharacteristicsInternal m unit bringOnline) =
      (unitCharacteristicsSize+headerSize,m.referenceNumber) := by
  simp only [setUnitCharacteristicsInternal]
  cases s.availableUnit unit with
  | none => rfl
  | some d => cases bringOnline <;> rfl

theorem setControllerCharacteristics_frame : frame (s.setControllerCharacteristics m) =
      (controllerCharacteristicsSize+headerSize,m.referenceNumber) := by
  simp only [setControllerCharacteristics]
  split_ifs <;> rfl

theorem dispatch_transfer (ht : MscpDrive.isTransfer m.opcode) :
    s.dispatch m=(s.doDiskTransfer m.opcode m m.unitNumber).map (fun o => (o,true)) := by
  have hm : m.opcode∈[Opcode.access,Opcode.compareHostData,Opcode.erase,Opcode.read,
    Opcode.write] := of_decide_eq_true ht
  have hne : m.opcode≠Opcode.abort ∧ m.opcode≠Opcode.getCommandStatus ∧
      m.opcode≠Opcode.setControllerCharacteristics := by
    generalize m.opcode=n at hm
    revert n
    decide
  unfold dispatch
  rw [if_neg hne.1,if_neg hne.2.1,if_neg hne.2.2,if_pos hm]

theorem dispatch_other (ht : MscpDrive.isTransfer m.opcode=false) : ∃ o handled n,s.dispatch m=some (o,handled) ∧
      frame o=(if keepsLength m.opcode then m.messageLength else n+1,m.referenceNumber) := by
  have hm : m.opcode∉[Opcode.access,Opcode.compareHostData,Opcode.erase,Opcode.read,
    Opcode.write] := of_decide_eq_false ht
  unfold dispatch
  by_cases h1 : m.opcode=Opcode.abort
  · exact ⟨_,true,0,by rw [if_pos h1]; rfl,by rw [h1]; rfl⟩
  by_cases h2 : m.opcode=Opcode.getCommandStatus
  · exact ⟨_,true,_,by rw [if_neg h1,if_pos h2]; rfl,by rw [h2]; rfl⟩
  by_cases h3 : m.opcode=Opcode.setControllerCharacteristics
  · refine ⟨_,true,27,by rw [if_neg h1,if_neg h2,if_pos h3]; rfl,?_⟩
    rw [setControllerCharacteristics_frame,h3]
    rfl
  rw [if_neg h1,if_neg h2,if_neg h3,if_neg hm]
  by_cases h4 : m.opcode=Opcode.available
  · exact ⟨_,true,0,by rw [if_pos h4]; rfl,by rw [available_frame,h4]; rfl⟩
  by_cases h5 : m.opcode=Opcode.determineAccessPaths
  · refine ⟨_,true,0,by rw [if_neg h4,if_pos h5]; rfl,?_⟩
    rw [determineAccessPaths_frame,h5]
    rfl
  rw [if_neg h4,if_neg h5]
  by_cases h6 : m.opcode=Opcode.getUnitStatus
  · exact ⟨_,true,_,by rw [if_pos h6]; rfl,by rw [getUnitStatus_frame,h6]; rfl⟩
  by_cases h7 : m.opcode=Opcode.online
  · refine ⟨_,true,43,by rw [if_neg h6,if_pos h7]; rfl,?_⟩
    rw [setUnitCharacteristicsInternal_frame,h7]
    rfl
  rw [if_neg h6,if_neg h7]
  by_cases h8 : m.opcode=Opcode.replace
  · exact ⟨_,true,_,by rw [if_pos h8]; rfl,by rw [replace,determineAccessPaths_frame,h8]; rfl⟩
  by_cases h9 : m.opcode=Opcode.setUnitCharacteristics
  · refine ⟨_,true,43,by rw [if_neg h8,if_pos h9]; rfl,?_⟩
    rw [setUnitCharacteristicsInternal_frame,h9]
    rfl
  · refine ⟨_,false,0,by rw [if_neg h8,if_neg h9],?_⟩
    have hk : keepsLength m.opcode=true := by
      simp only [mem_cons,not_mem_nil,or_false,not_or] at hm
      simp [keepsLength,h2,h3,h6,h7,h8,h9,hm]
    rw [hk]
    rfl

theorem dispatch_frame {o : Outcome blk} {handled : Bool} (h : s.dispatch m=some (o,handled)) :
    ∃ n,frame o=(if keepsLength m.opcode then m.messageLength else n+1,m.referenceNumber) := by
  cases ht : MscpDrive.isTransfer m.opcode with
  | true =>
    rw [dispatch_transfer s m ht,map_eq_some_iff] at h
    obtain ⟨o',ho,he⟩ := h
    obtain ⟨rfl,-⟩ := Prod.mk.inj he
    have hk : keepsLength m.opcode=false := by
      generalize m.opcode=n at ht
      simp only [MscpDrive.isTransfer,decide_eq_true_eq] at ht
      revert n
      decide
    exact ⟨31,by simp [doDiskTransfer_frame s m ho,hk,transferParametersSize,headerSize]⟩
  | false =>
    obtain ⟨o',b,n,ho,hf⟩ := s.dispatch_other m ht
    obtain ⟨rfl,-⟩ := Prod.mk.inj (some.inj (ho.symm.trans h))
    exact ⟨n,hf⟩

theorem dispatch_isSome : (s.dispatch m).isSome ↔ s.emptyTransfer m=false := by
  cases ht : MscpDrive.isTransfer m.opcode with
  | true => rw [dispatch_transfer s m ht,isSome_map,s.doDiskTransfer_isSome m ht]
  | false =>
    obtain ⟨o,b,n,ho,-⟩ := s.dispatch_other m ht
    simp [ho,emptyTransfer,ht]

theorem execute_frame {flags id : Nat} {wide : Bool} {u : Server (Disks blk)} {o : Outcome blk}
    {handled : Bool} (h : u.drives.dispatch m=some (o,handled)) :
    (execute (controller flags id wide) u m).2.messageLength=o.message.messageLength ∧
      (execute (controller flags id wide) u m).2.referenceNumber=o.message.referenceNumber ∧
      (execute (controller flags id wide) u m).2.opcode &&& endCode=endCode := by
  have hd : (controller flags id wide).dispatch u.drives m =
      (o.disks,o.message,o.cmdStatus,handled) := by simp [controller,h]
  have hend (n : Nat) : (n ||| endCode) &&& endCode=endCode := by
    apply Nat.eq_of_testBit_eq
    intro b
    rw [Nat.testBit_and,Nat.testBit_or]
    cases n.testBit b <;> cases endCode.testBit b <;> rfl
  simp only [execute,hd]
  cases handled <;> split_ifs <;> simp [hend]

/-- A response without a length: `PostResponse` has an assert on it. -/
def emptyResponse : Bool := keepsLength m.opcode && m.messageLength=0

/-- A command ends in a response, whatever the state of the units, unless it is a transfer of no bytes
that its image does not stand, or a packet whose length word became zero after the port had checked
it and whose handler leaves it. -/
theorem command_responds_iff (flags id : Nat) (wide : Bool) (u : Server (Disks blk)) :
    (∃ u' r,serve (controller flags id wide) u m=some (u',r) ∧
      r.referenceNumber=m.referenceNumber ∧ r.opcode &&& endCode=endCode) ↔
    ¬(u.drives.emptyTransfer m ∨ emptyResponse m) := by
  simp only [serve,assert_bind,not_or,Bool.not_eq_true]
  rw [← u.drives.dispatch_isSome m]
  cases hd : u.drives.dispatch m with
  | none => simp
  | some x =>
    obtain ⟨o,handled⟩ := x
    obtain ⟨n,hf⟩ := u.drives.dispatch_frame m hd
    obtain ⟨hl,href,hend⟩ := @execute_frame _ m flags id wide u o handled hd
    obtain ⟨hfl,hfr⟩ := Prod.mk.inj hf
    have hzero : 0<o.message.messageLength ↔ emptyResponse m=false := by
      rw [hfl,emptyResponse]
      cases keepsLength m.opcode <;> simp [Nat.pos_iff_ne_zero]
    simp only [isSome_some,if_true,hl,true_and,decide_eq_true_eq,hzero]
    constructor
    · rintro ⟨u',r,hs,-⟩
      by_contra hn
      rw [if_neg hn] at hs
      exact absurd hs (by simp)
    · intro hp
      exact ⟨_,_,if_pos hp,href.trans hfr,hend⟩

/-- READ of no bytes from a plain image ends the process. -/
theorem command_aborts : ¬∃ u' r,serve (controller 0 0 false) ⟨1,single oneBlockUnit⟩
      (transferCommand Opcode.read 0 0)=some (u',r) := by
  rintro ⟨u',r,h⟩
  have hn : (serve (controller 0 0 false) ⟨1,single oneBlockUnit⟩
    (transferCommand Opcode.read 0 0)).isNone=true := by decide +kernel
  simp [h] at hn

end Disks

end QUniLator.Mscp
