import QUniLator.Shared.Rt11Space

namespace QUniLator.Shared.Rt11

open List

variable {v : Rt11}

variable (v) in
/-- The assertions of `set_blocks` hold. -/
def Writes (size start : Nat) : Prop :=
  if v.drive.isRX then size%512=0 else 512*start<v.dataSize

variable {u : Unit} {size start : Nat}

theorem setBlocks_ok : v.setBlocks size start=.ok u ↔ v.Writes size start := by
  unfold setBlocks Writes
  split
  · exact ensure_ok
  · exact ensure_ok

theorem setBlocks_bind {α : Type} {f : Unit → Except Failure α} {r : α} :
    (v.setBlocks size start >>= f)=.ok r ↔ v.Writes size start ∧ f ()=.ok r := by
  rw [bind_eq_ok]
  exact ⟨fun ⟨_,hw,hr⟩ => ⟨setBlocks_ok.mp hw,hr⟩,fun ⟨hw,hr⟩ => ⟨(),setBlocks_ok.mpr hw,hr⟩⟩

theorem writes_whole (hs : size%512=0) (hv : start<v.blockcount) : v.Writes size start := by
  have := v.inside
  unfold Writes
  split
  · exact hs
  · omega

theorem Room.available (h : v.Room) :
    6+2*v.neededSegments v.fileCount≤v.blockcount ∧ v.availableBlocks+6=v.blockcount := by
  have hu := v.usable
  have hn := h.needed
  unfold availableBlocks at hn ⊢
  omega

variable (v) in
def EntryOk (f : RtFile) : Prop :=
  (72≤f.year ∧ f.year≤99) ∧ ∀ size,f.streamDirExt=some size → size≤v.dirEntryExtraBytes

theorem entry_inside {deNr : Nat} (hd : deNr<v.entriesPerSegment) :
    10+deNr*2*(7+v.dirEntryExtraBytes/2)+2*(7+v.dirEntryExtraBytes/2)<2*512 ∧
      10+deNr*2*(7+v.dirEntryExtraBytes/2)+14+v.dirEntryExtraBytes<2*512 := by
  have hn : v.entriesPerSegment*(14+v.dirEntryExtraBytes)≤1012 := Nat.div_mul_le_self _ _
  have hm : (deNr+1)*(14+v.dirEntryExtraBytes)≤1012 := Nat.le_trans (Nat.mul_le_mul_right _ hd) hn
  have hw : deNr*(2*(7+v.dirEntryExtraBytes/2))≤deNr*(14+v.dirEntryExtraBytes) :=
    Nat.mul_le_mul_left _ (by omega)
  rw [Nat.add_mul,Nat.one_mul] at hm
  rw [Nat.mul_assoc]
  omega

theorem entry_free {deNr : Nat} (hd : deNr<v.entriesPerSegment) : v.renderDirectoryEntry none deNr=.ok () :=
  ensure_ok.mpr (entry_inside hd).1

theorem entry_ok {deNr : Nat} (hd : deNr<v.entriesPerSegment)
    {f : RtFile} : v.renderDirectoryEntry (some f) deNr=.ok u ↔ v.EntryOk f := by
  obtain ⟨hmark,hext⟩ := entry_inside hd
  cases hs : f.streamDirExt with
  | none =>
    simp only [renderDirectoryEntry,hs,ensure_bind,EntryOk]
    exact and_congr_right fun _ =>
      ⟨fun _ => by rintro _ ⟨⟩,fun _ => ensure_ok.mpr hmark⟩
  | some size =>
    simp only [renderDirectoryEntry,hs,ensure_bind,EntryOk]
    refine and_congr_right fun _ => ⟨?_,fun h => ?_⟩
    · rintro ⟨hsize,_⟩ _ ⟨⟩
      exact hsize
    · have hsize := h size rfl
      exact ⟨hsize,by omega,ensure_ok.mpr hmark⟩

theorem moveTo_eq (room : v.Room) {next : Nat} {d : Directory} (hd : 1≤d.dsNr)
    (lo : d.dsNr≤next) (hi : next≤d.dsNr+1) (hn : next≤v.neededSegments v.fileCount) :
    v.moveTo next d = .ok ⟨next,d.written++List.range' d.dsNr (next-d.dsNr),d.entries⟩ := by
  obtain ⟨hb,_⟩ := room.available
  rw [moveTo]
  by_cases h : next=d.dsNr
  · rw [if_pos h,h,Nat.sub_self,range'_zero,append_nil]
    rfl
  · have hw : v.Writes (2*512) (segmentBlock d.dsNr) :=
      writes_whole rfl (by unfold segmentBlock; omega)
    have hs : next-d.dsNr=1 := by omega
    rw [if_neg h,hs,setBlocks_bind]
    exact ⟨hw,rfl⟩

variable (v) in
def filled (fs : List RtFile) (dirFileNo : Nat) (d : Directory) : Directory :=
  let last := (dirFileNo+fs.length)/v.entriesPerSegment+1
  ⟨last,d.written++List.range' d.dsNr (last-d.dsNr+1),
    d.entries++(fs.zipIdx dirFileNo).map fun x => (x.1,x.2/v.entriesPerSegment+1)⟩

theorem segment_next (h : v.dirEntryExtraBytes≤16) (n : Nat) : n/v.entriesPerSegment≤(n+1)/v.entriesPerSegment ∧
      (n+1)/v.entriesPerSegment≤n/v.entriesPerSegment+1 := by
  have hp := entriesPerSegment_pos h
  refine ⟨Nat.div_le_div_right (by omega),?_⟩
  calc (n+1)/v.entriesPerSegment≤(n+v.entriesPerSegment)/v.entriesPerSegment :=
        Nat.div_le_div_right (by omega)
    _=n/v.entriesPerSegment+1 := Nat.add_div_right n (by omega)

theorem range_next {a b c : Nat} (hab : a≤b) (hbc : b ≤ c) :
    List.range' a (b-a)++List.range' b (c-b+1)=List.range' a (c-a+1) := by
  obtain ⟨k,rfl⟩ := Nat.exists_eq_add_of_le hab
  obtain ⟨l,rfl⟩ := Nat.exists_eq_add_of_le hbc
  have hk : a+k-a=k := by omega
  have hl : a+k+l-(a+k)=l := by omega
  have hs : a+k+l-a+1=k+(l+1) := by omega
  rw [hk,hl,hs,range'_append_1]

theorem renderEntries_ok (room : v.Room) {fs : List RtFile} {no : Nat} {d d' : Directory}
    (hd : 1≤d.dsNr) (lo : d.dsNr≤no/v.entriesPerSegment+1)
    (hi : no/v.entriesPerSegment+1≤d.dsNr+1) (hn : no+fs.length=v.fileCount) :
    v.renderEntries fs no d=.ok d' ↔ (∀ f∈fs,v.EntryOk f) ∧ d'=v.filled fs no d := by
  have hp := entriesPerSegment_pos room.extra
  have hmod (n : Nat) : n%v.entriesPerSegment<v.entriesPerSegment := Nat.mod_lt n (by omega)
  induction fs generalizing no d with
  | nil =>
    obtain ⟨hb,_⟩ := room.available
    have hle : no/v.entriesPerSegment+1≤v.neededSegments v.fileCount := by
      rw [neededSegments_eq room.extra,← hn]
      exact Nat.le_refl _
    have hw : v.Writes (2*512) (segmentBlock (no/v.entriesPerSegment+1)) :=
      writes_whole rfl (by unfold segmentBlock; omega)
    have hfree := entry_free (hmod no)
    have hr := range_next lo (Nat.le_refl _)
    rw [Nat.sub_self] at hr
    rw [renderEntries,moveTo_eq room hd lo hi hle,filled]
    change (v.renderDirectoryEntry none _ >>= _)=_ ↔ _
    rw [hfree]
    change (v.setBlocks _ _ >>= _)=_ ↔ _
    rw [setBlocks_bind]
    simp [hw,← hr,pure,Except.pure,eq_comm]
  | cons f fs ih =>
    rw [length_cons] at hn
    have hle : no/v.entriesPerSegment+1≤v.neededSegments v.fileCount := by
      rw [neededSegments_eq room.extra]
      exact Nat.succ_le_succ (Nat.div_le_div_right (by omega))
    obtain ⟨hs,hs'⟩ := segment_next room.extra no
    have hlast : (no+1)/v.entriesPerSegment≤(no+1+fs.length)/v.entriesPerSegment :=
      Nat.div_le_div_right (by omega)
    have hent (u : Unit) : v.renderDirectoryEntry (some f) (no%v.entriesPerSegment)=.ok u ↔
        v.EntryOk f := entry_ok (hmod no)
    have hlen : no+(f::fs).length=no+1+fs.length := by simp; omega
    rw [renderEntries,moveTo_eq room hd lo hi hle,forall_mem_cons]
    change (v.renderDirectoryEntry (some f) _ >>= _)=_ ↔ _
    rw [bind_eq_ok]
    simp only [hent,exists_const]
    rw [and_assoc]
    refine and_congr_right fun _ => (ih ?_ ?_ ?_ ?_).trans (and_congr_right fun _ => ?_)
    · exact Nat.succ_pos _
    · exact Nat.succ_le_succ hs
    · exact Nat.succ_le_succ hs'
    · omega
    have hr := range_next lo (c := (no+1+fs.length)/v.entriesPerSegment+1) (by omega)
    simp only [filled,hlen,List.append_assoc,hr,zipIdx_cons,map_cons,singleton_append]

variable (v) in
/-- The prefix can be written: its number of blocks is a byte, and interleaved it fills whole blocks. -/
def HeadOk (f : RtFile) : Prop :=
  ∀ size,f.streamPrefix=some size → neededBlocks (size+2)≤255 ∧ (v.drive.isRX=true → (size+2)%512=0)

variable (v) in
def TailOk (p : Placed) : Prop :=
  p.file.streamData=some 0 → v.drive.isRX=true ∨ 512*p.dataNr<v.dataSize

structure Inside (v : Rt11) (p : Placed) : Prop where
  blocks : p.file.blockCount=p.file.prefixBlocks+p.file.dataBlocks
  first : 0<p.blockNr
  last : p.blockNr+p.file.blockCount≤v.blockcount
  head : p.prefixNr=p.blockNr
  data : p.dataNr=(p.blockNr+p.file.prefixBlocks)%0x10000

theorem Inside.prefix_ok {p : Placed} (h : v.Inside p) : v.renderPrefix p=.ok u ↔ v.HeadOk p.file := by
  unfold renderPrefix HeadOk
  cases hs : p.file.streamPrefix with
  | none => exact ⟨fun _ => by rintro _ ⟨⟩,fun _ => rfl⟩
  | some size =>
    have hb : p.file.prefixBlocks=neededBlocks (size+2) := by rw [RtFile.prefixBlocks,hs]; rfl
    have hpos : 1≤neededBlocks (size+2) := by unfold neededBlocks; omega
    have hblocks := h.blocks
    have hfirst := h.first
    have hlast := h.last
    have hmax := v.addressed
    have hin := v.inside
    simp only [ensure_bind,setBlocks_ok,Option.some.injEq,forall_eq']
    rw [Nat.mod_eq_of_lt (by omega),h.head,Writes]
    refine and_congr_right fun _ => ?_
    cases hx : v.drive.isRX with
    | true => simp
    | false =>
      simp only [Bool.false_eq_true,if_false,false_implies,iff_true]
      omega

theorem Inside.data_ok {p : Placed} (h : v.Inside p) : v.renderData p=.ok u ↔ v.TailOk p := by
  unfold renderData TailOk
  cases hs : p.file.streamData with
  | none => exact ⟨fun _ => by rintro ⟨⟩,fun _ => rfl⟩
  | some size =>
    have hb : p.file.dataBlocks=neededBlocks size := by rw [RtFile.dataBlocks,hs]; rfl
    have hblocks := h.blocks
    have hlast := h.last
    have hmax := v.addressed
    have hin := v.inside
    simp only [setBlocks_ok,Option.some.injEq,Writes]
    cases hx : v.drive.isRX with
    | true => simp
    | false =>
      simp only [Bool.false_eq_true,if_false,false_or]
      refine ⟨fun hw _ => hw,fun hw => ?_⟩
      by_cases hz : size=0
      · exact hw hz
      · have hpos : 1≤neededBlocks size := by unfold neededBlocks; omega
        rw [h.data,Nat.mod_eq_of_lt (by omega)]
        omega

theorem renderFileData_ok {ps : List Placed} (h : ∀ p∈ps,v.Inside p) :
    v.renderFileData ps=.ok u ↔ ∀ p∈ps,v.HeadOk p.file ∧ v.TailOk p := by
  induction ps with
  | nil => simp [renderFileData,pure,Except.pure]
  | cons p ps ih =>
    obtain ⟨hp,hps⟩ := forall_mem_cons.mp h
    simp only [renderFileData,bind_eq_ok,hp.prefix_ok,hp.data_ok,exists_const,ih hps,forall_mem_cons,and_assoc]

variable (v) in
def InternalOk (n : Name) (fits : Nat → Bool) : Prop :=
  ∀ f,v.fileByPath n=some f → ∃ size,f.streamData=some size ∧ fits size=true ∧
    (v.drive.isRX=true → size%512=0)

theorem renderInternal_ok {n : Name} {fits : Nat → Bool} {start blocks : Nat} (h : start<v.blockcount) :
    v.renderInternal n fits start blocks=.ok u ↔ v.InternalOk n fits := by
  have hin := v.inside
  unfold renderInternal InternalOk
  cases hf : v.fileByPath n with
  | none =>
    simp only [setBlocks_ok]
    exact ⟨fun _ => by rintro _ ⟨⟩,fun _ => writes_whole (by omega) h⟩
  | some f =>
    simp only [Option.some.injEq,forall_eq']
    cases hs : f.streamData with
    | none => exact ⟨by rintro ⟨⟩,by rintro ⟨_,⟨⟩,_⟩⟩
    | some size =>
      simp only [ensure_bind,setBlocks_ok,Option.some.injEq,exists_eq_left']
      refine and_congr_right fun _ => ?_
      unfold Writes
      cases hx : v.drive.isRX with
      | true => simp
      | false =>
        simp only [Bool.false_eq_true,if_false,false_implies,iff_true]
        omega

variable (v) in
def places : List Placed := laid (6+2*v.total) v.regular

/-- A volume whose files can be rendered -/
structure Renderable (v : Rt11) : Prop where
  room : v.Room
  blocks : ∀ f∈v.regular,f.blockCount=f.prefixBlocks+f.dataBlocks
  entries : ∀ f∈v.regular,v.EntryOk f
  prefixes : ∀ f∈v.regular,v.HeadOk f
  starts : ∀ p∈v.places,p.blockNr<0x10000
  tails : ∀ p∈v.places,v.TailOk p
  bootblock : v.InternalOk bootblockFilename (·=512)
  monitor : v.InternalOk monitorFilename (·≤4*512)

theorem Room.last (h : v.Room) : 6+2*v.total+(v.regular.map (·.blockCount)).sum≤v.blockcount := by
  have ht := h.total
  obtain ⟨_,ha⟩ := h.available
  unfold usedBlocks at ht
  omega

theorem inside_of_places (room : v.Room)
    (blocks : ∀ f∈v.regular,f.blockCount=f.prefixBlocks+f.dataBlocks) {p : Placed}
    (hp : p∈v.places) : v.Inside p := by
  have hl := room.last
  obtain ⟨hf,hs,he,hhead,hdata⟩ := mem_laid hp
  exact ⟨blocks _ hf,by omega,by omega,hhead,hdata⟩

theorem forall_file_of_places {P : RtFile → Prop} : (∀ p∈v.places,P p.file) ↔ ∀ f∈v.regular,P f := by
  have hm (start : Nat) (fs : List RtFile) : (laid start fs).map (·.file)=fs := by
    induction fs generalizing start with
    | nil => rfl
    | cons f fs ih => rw [laid,map_cons,ih]
  conv_rhs => rw [← hm (6+2*v.total) v.regular]
  exact List.forall_mem_map.symm

variable (v) in
def rendered : Rendered := ⟨v.use,v.places,v.filled v.regular 0 ⟨1,[],[]⟩⟩

theorem renderDirectory_ok (room : v.Room) {d : Directory} : v.renderDirectory=.ok d ↔
    (∀ f∈v.regular,v.EntryOk f) ∧ d=v.filled v.regular 0 ⟨1,[],[]⟩ :=
  renderEntries_ok room (Nat.le_refl _) (Nat.succ_pos _)
    (by rw [Nat.zero_div]; exact Nat.le_succ _) (Nat.zero_add _)

theorem renderUse_ok (room : v.Room) {r : Rendered} : v.renderUse v.use=.ok r ↔ v.Renderable ∧ r=v.rendered := by
  have hlast := room.last
  have hmax := v.addressed
  have hplace {ps : List Placed} : placeFiles (6+2*v.use.dirTotalSegNum) v.regular=.ok ps ↔
      (∀ f∈v.regular,f.blockCount=f.prefixBlocks+f.dataBlocks) ∧
      (∀ p∈v.places,p.blockNr<0x10000) ∧ ps=v.places :=
    placeFiles_ok (Nat.le_trans hlast hmax)
  have hus := v.usable
  have hd := dirSegCount_le v.drive
  rw [renderUse,bind_eq_ok]
  refine ⟨?_,?_⟩
  · rintro ⟨ps,hps,h⟩
    obtain ⟨hblocks,hstarts,rfl⟩ := hplace.mp hps
    obtain ⟨_,hb,h⟩ := bind_eq_ok.mp h
    obtain ⟨_,hm,h⟩ := bind_eq_ok.mp h
    obtain ⟨_,h⟩ := setBlocks_bind.mp h
    obtain ⟨d,hdir,h⟩ := bind_eq_ok.mp h
    obtain ⟨hentries,rfl⟩ := (renderDirectory_ok room).mp hdir
    obtain ⟨_,hdata,h⟩ := bind_eq_ok.mp h
    have hfiles := (renderFileData_ok fun p => inside_of_places room hblocks).mp hdata
    exact ⟨⟨room,hblocks,hentries,forall_file_of_places.mp fun p hp => (hfiles p hp).1,hstarts,
      fun p hp => (hfiles p hp).2,(renderInternal_ok (by omega)).mp hb,
      (renderInternal_ok (by omega)).mp hm⟩,(Except.ok.inj h).symm⟩
  · rintro ⟨h,rfl⟩
    have hheads := forall_file_of_places.mpr h.prefixes
    refine ⟨v.places,hplace.mpr ⟨h.blocks,h.starts,rfl⟩,bind_eq_ok.mpr ⟨(),?_,bind_eq_ok.mpr ⟨(),?_,
      setBlocks_bind.mpr ⟨writes_whole rfl (by omega),bind_eq_ok.mpr
        ⟨_,(renderDirectory_ok room).mpr ⟨h.entries,rfl⟩,bind_eq_ok.mpr ⟨(),?_,rfl⟩⟩⟩⟩⟩⟩
    · exact (renderInternal_ok (by omega)).mpr h.bootblock
    · exact (renderInternal_ok (by omega)).mpr h.monitor
    · exact (renderFileData_ok fun p => inside_of_places room h.blocks).mpr
        fun p hp => ⟨hheads p hp,h.tails p hp⟩

theorem render_ok {r : Rendered} : v.render=.ok r ↔ v.Renderable ∧ r=v.rendered := by
  rw [render,bind_eq_ok]
  refine ⟨?_,?_⟩
  · rintro ⟨use,huse,h⟩
    obtain ⟨room,rfl⟩ := calcBlockUse_zero.mp huse
    exact (renderUse_ok room).mp h
  · rintro ⟨h,rfl⟩
    exact ⟨some v.use,calcBlockUse_zero.mpr ⟨h.room,rfl⟩,(renderUse_ok h.room).mpr ⟨h,rfl⟩⟩

end QUniLator.Shared.Rt11
