import QUniLator.Storage.VhdFlat

namespace QUniLator.Vhd

open List

theorem chsGeometry_length (diskSize : Nat) : (chsGeometry diskSize).length=4 := by
  unfold chsGeometry
  simp

theorem overwrite_field (g : Nat → UInt8) (n pos : Nat) (bs : List UInt8)
    (h : pos+bs.length≤n) : overwrite (slice g 0 n) pos bs=slice (patch g pos bs) 0 n := by
  rw [overwrite_slice _ _ _ _ _ h,Nat.zero_add]

theorem vhdChecksum_lt (p : List UInt8) (at_ : Nat) : vhdChecksum p at_<256^4 := by
  unfold vhdChecksum
  omega

theorem vhdChecksum_put (p : List UInt8) (at_ c : Nat) (h : at_+4≤p.length) :
    vhdChecksum (overwrite p at_ (bePut 4 c)) at_=vhdChecksum p at_ := by
  have hlen : (bePut 4 c).length=4 := bePut_length 4 c
  have ht : (overwrite p at_ (bePut 4 c)).take at_=p.take at_ := by
    unfold overwrite
    rw [List.append_assoc,take_left' (by simp; omega)]
  have hd : (overwrite p at_ (bePut 4 c)).drop (at_+4)=p.drop (at_+4) := by
    unfold overwrite
    rw [hlen,drop_left' (by simp; omega)]
  unfold vhdChecksum
  rw [ht,hd]

theorem summed_slice (g : Nat → UInt8) (n at_ : Nat) (h : at_+4≤n) :
    ∃ c,c<256^4 ∧ summed (slice g 0 n) at_=slice (patch g at_ (bePut 4 c)) 0 n ∧
      vhdChecksum (slice (patch g at_ (bePut 4 c)) 0 n) at_=c := by
  have hs : summed (slice g 0 n) at_ =
      slice (patch g at_ (bePut 4 (vhdChecksum (slice g 0 n) at_))) 0 n :=
    overwrite_field _ _ _ _ (by rw [bePut_length]; exact h)
  refine ⟨vhdChecksum (slice g 0 n) at_,vhdChecksum_lt _ _,hs,?_⟩
  rw [← hs]
  exact vhdChecksum_put _ _ _ (by rw [slice_length]; exact h)

theorem slice_field (g : Nat → UInt8) (n at_ k v : Nat) (h : at_+k≤n)
    (hv : slice g at_ k=bePut k v) (hlt : v<256^k) : field (slice g 0 n) at_ k=v := by
  rw [field_slice _ _ _ _ _ h,Nat.zero_add,hv,beGet_bePut,Nat.mod_eq_of_lt hlt]

theorem putFields_slice (n : Nat) (fields : List (Nat × List UInt8)) (hfit : ∀ p∈fields,p.1+p.2.length≤n)
    (hapart : fields.Pairwise (fun p q => p.1+p.2.length≤q.1)) :
    ∃ g,putFields n fields=slice g 0 n ∧ (∀ p∈fields,slice g p.1 p.2.length=p.2) ∧
      ∀ i,(∀ p∈fields,p.1+p.2.length ≤ i) → g i=0 := by
  have hall : ∀ g0 : Nat → UInt8,fields.foldl (fun buf p => overwrite buf p.1 p.2) (slice g0 0 n) =
        slice (fields.foldl (fun g p => patch g p.1 p.2) g0) 0 n ∧
      (∀ a k,(∀ p∈fields,a+k≤p.1) ∨ (∀ p∈fields,p.1+p.2.length≤a) →
        slice (fields.foldl (fun g p => patch g p.1 p.2) g0) a k=slice g0 a k) ∧
      ∀ p∈fields,slice (fields.foldl (fun g p => patch g p.1 p.2) g0) p.1 p.2.length=p.2 := by
    induction fields with
    | nil => exact fun g0 => ⟨rfl,fun _ _ _ => rfl,fun p hp => absurd hp (by simp)⟩
    | cons q fields ih =>
      intro g0
      rw [pairwise_cons] at hapart
      obtain ⟨h1,h2,h3⟩ := ih (fun p hp => hfit p (mem_cons_of_mem q hp)) hapart.2
        (patch g0 q.1 q.2)
      refine ⟨?_,?_,?_⟩
      · rw [foldl_cons,overwrite_field _ _ _ _ (hfit q mem_cons_self)]
        exact h1
      · intro a k hk
        rw [foldl_cons]
        rcases hk with hk | hk
        · rw [h2 a k (Or.inl (fun p hp => hk p (mem_cons_of_mem q hp))),
            slice_patch_other _ _ _ _ _ (Or.inl (hk q mem_cons_self))]
        · rw [h2 a k (Or.inr (fun p hp => hk p (mem_cons_of_mem q hp))),
            slice_patch_other _ _ _ _ _ (Or.inr (hk q mem_cons_self))]
      · intro p hp
        rw [foldl_cons]
        rcases mem_cons.mp hp with hp | hp
        · rw [hp,h2 _ _ (Or.inl hapart.1),slice_patch]
        · exact h3 p hp
  obtain ⟨h1,h2,h3⟩ := hall (fun _ => 0)
  refine ⟨_,?_,h3,?_⟩
  · rw [← h1,slice_replicate _ _ _ 0 (fun _ _ _ => rfl)]
    rfl
  · intro i hi
    have hz := h2 i 1 (Or.inr hi)
    simpa using hz

/-- The footer of a new disk: what it says, and its checksum. -/
structure NewFooter (footer : List UInt8) (diskSize : Nat) : Prop where
  length : footer.length=sector
  valid : validFooter footer=true
  headerAt : field footer 16 8=sector
  diskSize : field footer 48 8=diskSize
  type : field footer 60 4=typeDynamic
  rest : ∀ i,84 ≤ i → i<sector → footer[i]? = some 0

theorem newFooter_spec (diskSize now : Nat) (uid : Uid) (hd : diskSize<2^64) :
    NewFooter (summed (putFields sector (footerFields diskSize now uid)) 64) diskSize := by
  have hu := uid.property
  have hc := chsGeometry_length diskSize
  have hk : footerCookie.length=8 := rfl
  obtain ⟨g,hg,hf,hz⟩ := putFields_slice sector (footerFields diskSize now uid)
    (by simp [footerFields,hu,hc,hk,sector]) (by simp [footerFields,hu,hc,hk])
  obtain ⟨c,hlt,hs,hsum⟩ := summed_slice g sector 64 (by unfold sector; omega)
  rw [hg,hs]
  have hput (p : Nat × List UInt8) (hp : p∈footerFields diskSize now uid)
      (ha : p.1+p.2.length≤64 ∨ 68≤p.1) :
      slice (patch g 64 (bePut 4 c)) p.1 p.2.length=p.2 := by
    rw [slice_patch_other _ _ _ _ _ (by rw [bePut_length]; omega)]
    exact hf p hp
  have hnum (at_ k v : Nat) (hp : (at_,bePut k v)∈footerFields diskSize now uid)
      (ha : at_+k≤64) (hv : v<256^k) :
      field (slice (patch g 64 (bePut 4 c)) 0 sector) at_ k=v := by
    have hput := hput (at_,bePut k v) hp (Or.inl (by simpa using ha))
    rw [bePut_length] at hput
    exact slice_field _ _ _ _ _ (by unfold sector; omega) hput hv
  refine ⟨slice_length _ _ _,?_,?_,?_,?_,?_⟩
  · have hcookie := hput (0,footerCookie) (by simp [footerFields]) (Or.inl (by rw [hk]; omega))
    rw [hk] at hcookie
    have hfield : field (slice (patch g 64 (bePut 4 c)) 0 sector) 64 4=c := by
      refine slice_field _ _ _ _ _ (by unfold sector; omega) ?_ hlt
      have hsl := slice_patch g 64 (bePut 4 c)
      rwa [bePut_length] at hsl
    unfold validFooter
    rw [hfield,hsum,slice_take _ _ _ _ (by unfold sector; omega)]
    simp [hcookie]
  · exact hnum 16 8 sector (by simp [footerFields]) (by omega) (by unfold sector; omega)
  · exact hnum 48 8 diskSize (by simp [footerFields]) (by omega) (by omega)
  · exact hnum 60 4 typeDynamic (by simp [footerFields]) (by omega) (by unfold typeDynamic; omega)
  · intro i h84 hi
    have hzero : g i=0 := hz i (by simp [footerFields,hu,hc,hk]; omega)
    rw [slice_getElem? _ _ _ _ hi,Nat.zero_add,patch_after _ _ _ _ (by rw [bePut_length]; omega),
      hzero]

structure NewHeader (header : List UInt8) (tableAt blocks : Nat) : Prop where
  length : header.length=1024
  cookie : header.take 8=headerCookie
  checksum : field header 36 4=vhdChecksum header 36
  tableAt : field header 16 8=tableAt
  blocks : field header 28 4=blocks
  blockSize : field header 32 4=newBlockSize

theorem newHeader_spec (tableAt blocks : Nat) (ht : tableAt<2^64) (hb : blocks<2^32) :
    NewHeader (summed (putFields 1024 (headerFields tableAt blocks)) 36) tableAt blocks := by
  have hk : headerCookie.length=8 := rfl
  obtain ⟨g,hg,hf,-⟩ := putFields_slice 1024 (headerFields tableAt blocks)
    (by simp [headerFields,hk]) (by simp [headerFields,hk])
  obtain ⟨c,hlt,hs,hsum⟩ := summed_slice g 1024 36 (by omega)
  rw [hg,hs]
  have hput (p : Nat × List UInt8) (hp : p∈headerFields tableAt blocks)
      (ha : p.1+p.2.length≤36) : slice (patch g 36 (bePut 4 c)) p.1 p.2.length=p.2 := by
    rw [slice_patch_other _ _ _ _ _ (by rw [bePut_length]; omega)]
    exact hf p hp
  have hnum (at_ k v : Nat) (hp : (at_,bePut k v)∈headerFields tableAt blocks)
      (ha : at_+k≤36) (hv : v<256^k) :
      field (slice (patch g 36 (bePut 4 c)) 0 1024) at_ k=v := by
    have hput := hput (at_,bePut k v) hp (by simpa using ha)
    rw [bePut_length] at hput
    exact slice_field _ _ _ _ _ (by omega) hput hv
  refine ⟨slice_length _ _ _,?_,?_,?_,?_,?_⟩
  · have hcookie := hput (0,headerCookie) (by simp [headerFields]) (by rw [hk]; omega)
    rw [hk] at hcookie
    rw [slice_take _ _ _ _ (by omega),hcookie]
  · rw [hsum]
    refine slice_field _ _ _ _ _ (by omega) ?_ hlt
    have hsl := slice_patch g 36 (bePut 4 c)
    rwa [bePut_length] at hsl
  · exact hnum 16 8 tableAt (by simp [headerFields]) (by omega) (by omega)
  · exact hnum 28 4 blocks (by simp [headerFields]) (by omega) (by omega)
  · exact hnum 32 4 newBlockSize (by simp [headerFields]) (by omega) (by unfold newBlockSize; omega)

/-- The size of a disk `create_dynamic` takes. Within a block's size of `2^64` bytes the count of the
blocks wraps. -/
structure Accepted (diskSize : Nat) : Prop where
  pos : 0<diskSize
  whole : diskSize%sector=0
  large : diskSize+newBlockSize-1<2^64
  blocks : (diskSize+newBlockSize-1)/newBlockSize≤0xFFFFFFF0/4

/-- The layout of a new disk of `blocks` blocks. -/
def newLayout (footer : List UInt8) (diskSize blocks : Nat) : Layout :=
  ⟨footer,typeDynamic,diskSize,3*sector+roundUp (blocks*4) sector,true,sector,3*sector,newBlockSize,
    roundUp ((newBlockSize/sector+7)/8) sector,replicate blocks batUnused⟩

theorem newLayout_entry (footer : List UInt8) (diskSize blocks b : Nat) :
    (newLayout footer diskSize blocks).entry b=batUnused := by
  unfold Layout.entry newLayout
  by_cases hb : b<blocks <;> simp [hb]

/-- The bytes of a file with `footer`, `header`, a table of `tableBytes` bytes and `footer` again. -/
def newBytes (footer header : List UInt8) (tableBytes : Nat) : Nat → UInt8 :=
  patch (patch (patch (patch (fun _ => 0) 0 footer) sector header) (3*sector)
    (replicate tableBytes 0xFF)) (3*sector+tableBytes) footer

theorem createDynamic_ok {diskSize : Nat} (h : Accepted diskSize) (now : Nat) (uid : Uid)
    (blocks : Nat) (hb : (diskSize+newBlockSize-1)/newBlockSize=blocks) :
    ∃ f footer header,createDynamic diskSize now uid=.ok f ∧ NewFooter footer diskSize ∧
      NewHeader header (3*sector) blocks ∧ f.byte=newBytes footer header (roundUp (blocks*4) sector) ∧
      f.size=3*sector+roundUp (blocks*4) sector+sector := by
  have hlarge := h.large
  have hmax := h.blocks
  rw [hb] at hmax
  have hfooter := newFooter_spec diskSize now uid (by unfold newBlockSize at hlarge; omega)
  have hheader := newHeader_spec (3*sector) blocks (by unfold sector; omega) (by omega)
  unfold createDynamic
  rw [u64,Nat.mod_eq_of_lt hlarge,hb,if_neg (by simp [h.whole,Nat.ne_of_gt h.pos])]
  simp only
  rw [if_neg (by omega)]
  generalize summed (putFields sector (footerFields diskSize now uid)) 64=footer at *
  generalize summed (putFields 1024 (headerFields (3*sector) blocks)) 36=header at *
  generalize roundUp (blocks*4) sector=tableBytes at *
  have hne : footer≠[] := by
    intro hn
    have hl := hfooter.length
    rw [hn] at hl
    exact absurd hl (by decide)
  have hlen : (footer++header++replicate tableBytes (0xFF : UInt8)).length =
      3*sector+tableBytes := by
    rw [length_append,length_append,length_replicate,hfooter.length,hheader.length]
    unfold sector
    omega
  refine ⟨_,footer,header,rfl,hfooter,hheader,?_,?_⟩
  · rw [File.pwrite_byte,File.pwrite_byte,hlen,newBytes,patch_append,patch_append,
      length_append,hfooter.length,hheader.length,Nat.zero_add,Nat.zero_add]
    rfl
  · rw [File.pwrite_size _ _ _ hne,File.pwrite_size _ _ _ (by simp [hne]),hlen,hfooter.length]
    have : (File.empty).size=0 := rfl
    omega

section
variable {footer header : List UInt8} {diskSize blocks : Nat}
  (hf : NewFooter footer diskSize) (hh : NewHeader header (3*sector) blocks)
  (tableBytes : Nat)
include hf hh

theorem newBytes_slices : slice (newBytes footer header tableBytes) 0 sector=footer ∧
    slice (newBytes footer header tableBytes) sector 1024=header ∧
    slice (newBytes footer header tableBytes) (3*sector+tableBytes) sector=footer ∧
    ∀ i,3*sector ≤ i → i<3*sector+tableBytes → newBytes footer header tableBytes i=0xFF := by
  have hfl := hf.length
  have hhl := hh.length
  have h3 : 3*sector=sector+1024 := by unfold sector; omega
  unfold newBytes
  rw [h3]
  refine ⟨?_,?_,?_,?_⟩
  · rw [slice_patch_other _ _ _ _ _ (by omega),slice_patch_other _ _ _ _ _ (by omega),
      slice_patch_other _ _ _ _ _ (by omega)]
    have hs := slice_patch (fun _ => (0 : UInt8)) 0 footer
    rwa [hfl] at hs
  · rw [slice_patch_other _ _ _ _ _ (by omega),slice_patch_other _ _ _ _ _ (by omega)]
    have hs := slice_patch (patch (fun _ => (0 : UInt8)) 0 footer) sector header
    rwa [hhl] at hs
  · have hs := slice_patch (patch (patch (patch (fun _ => (0 : UInt8)) 0 footer) sector header)
      (sector+1024) (replicate tableBytes 0xFF)) (sector+1024+tableBytes) footer
    rwa [hfl] at hs
  · intro i h1 h2
    have hlt : i-(sector+1024)<tableBytes := Nat.sub_lt_left_of_lt_add h1 h2
    rw [patch_before _ _ _ _ h2]
    apply Option.some.inj
    rw [patch_inside _ _ _ _ h1 (by rw [length_replicate]; exact h2),
      List.getElem?_replicate,if_pos hlt]

end

theorem newLayout_sane {f : File} {footer header : List UInt8} {diskSize blocks : Nat}
    (h : Accepted diskSize) (hb : (diskSize+newBlockSize-1)/newBlockSize=blocks)
    (hf : NewFooter footer diskSize) (hh : NewHeader header (3*sector) blocks)
    (hbyte : f.byte=newBytes footer header (roundUp (blocks*4) sector))
    (hsize : f.size=3*sector+roundUp (blocks*4) sector+sector) : Sane f (newLayout footer diskSize blocks) := by
  obtain ⟨-,s2,s3,s4⟩ := newBytes_slices hf hh (roundUp (blocks*4) sector)
  rw [← hbyte] at s2 s3 s4
  have hr := (roundUp_spec (blocks*4)).1
  have h3 : 3*sector=sector+1024 := by unfold sector; omega
  have hmem (e : Nat) (he : e∈(newLayout footer diskSize blocks).bat) : e=batUnused :=
    eq_of_mem_replicate he
  have hcover : diskSize≤blocks*newBlockSize := by
    rw [← hb]
    have := h.pos
    unfold newBlockSize
    omega
  have hlen : (newLayout footer diskSize blocks).bat.length=blocks := length_replicate
  refine ⟨⟨⟨hsize,hf.valid,fun _ => s3.symm,fun hn => Bool.noConfusion hn,hf.type.symm,
    hf.diskSize.symm⟩,⟨hf.headerAt.symm,?_,?_,⟨?_,?_,?_,?_,rfl⟩,?_,?_,?_⟩,rfl,h.whole⟩,
    ⟨?_,?_,?_,?_,?_,?_⟩,rfl⟩
  · change sector+1024≤f.size
    omega
  · change Headed (slice f.byte sector 1024) _
    rw [s2]
    exact ⟨hh.cookie,hh.checksum,hh.tableAt.symm,hlen.trans hh.blocks.symm,hh.blockSize.symm⟩
  · change sector≤newBlockSize
    unfold sector newBlockSize
    omega
  · change newBlockSize%sector=0
    unfold sector newBlockSize
    omega
  · change newBlockSize≤256*1024*1024
    unfold newBlockSize
    omega
  · rw [hlen]
    exact hcover
  · rw [hlen]
    change 3*sector+blocks*4≤f.size
    omega
  · intro b hlt
    rw [hlen] at hlt
    change (replicate blocks batUnused)[b]? = some (beGet (slice f.byte (3*sector+b*4) 4))
    rw [slice_replicate f.byte _ 4 0xFF (fun i h1 h2 => s4 i (by omega) (by omega)),
      List.getElem?_replicate,if_pos hlt,beGet_replicate_ff,batUnused]
  · intro e he hn
    exact absurd (hmem e he) hn
  · intro _
    exact Or.inl h3.symm.le
  · change sector+1024≤3*sector+roundUp (blocks*4) sector
    omega
  · intro _
    rw [hlen]
    change 3*sector+blocks*4≤3*sector+roundUp (blocks*4) sector
    omega
  · intro e he hn
    exact absurd (hmem e he) hn
  · intro e he hn
    exact absurd (hmem e he) hn
  · intro b c _ hn
    exact absurd (newLayout_entry _ _ _ b) hn

theorem accepted_of_ok {diskSize now : Nat} {uid : Uid} {f : File}
    (h : createDynamic diskSize now uid=.ok f) (hl : diskSize+newBlockSize-1<2^64) : Accepted diskSize := by
  unfold createDynamic at h
  split_ifs at h with h1
  simp only at h
  split_ifs at h with h2
  rw [u64,Nat.mod_eq_of_lt hl] at h2
  simp only [not_or,not_not] at h1
  exact ⟨Nat.pos_of_ne_zero h1.1,h1.2,hl,Nat.not_lt.mp h2⟩

theorem createDynamic_sane {diskSize now : Nat} {uid : Uid} {f : File}
    (h : createDynamic diskSize now uid=.ok f) (hl : diskSize+newBlockSize-1<2^64) :
    ∃ footer blocks,Sane f (newLayout footer diskSize blocks) ∧ Tidy (newLayout footer diskSize blocks) ∧
      diskByte f (newLayout footer diskSize blocks)=fun _ => 0 := by
  have ha := accepted_of_ok h hl
  obtain ⟨f',footer,header,hok,hf,hh,hbyte,hsize⟩ := createDynamic_ok ha now uid _ rfl
  rw [h] at hok
  obtain rfl := Except.ok.inj hok
  have hs := newLayout_sane ha rfl hf hh hbyte hsize
  refine ⟨footer,_,hs,?_,diskByte_unused hs.toLaid.not_fixed (newLayout_entry _ _ _)⟩
  have hlen := length_replicate (n := (diskSize+newBlockSize-1)/newBlockSize) (a := batUnused)
  refine Or.inl (le_trans ?_ (le_max_right _ _))
  change 3*sector+roundUp ((diskSize+newBlockSize-1)/newBlockSize*4) sector ≤ roundUp
    (3*sector+(replicate ((diskSize+newBlockSize-1)/newBlockSize) batUnused).length*4) sector
  rw [hlen]
  unfold roundUp sector
  omega

/-- A file a drive starts from, and the disk it holds: one `parse` takes, with its parts apart where
it can be written to, or one `create_dynamic` has made. -/
inductive Start : File → Flat → Prop where
  | parsed (f : File) (l : Layout) (h : parse f=.ok l)
      (ha : l.type=typeDynamic → l.footerAtEnd=true → Apart l) :
      Start f ⟨l.diskSize,diskByte f l⟩
  | created (diskSize now : Nat) (uid : Uid) (f : File)
      (h : createDynamic diskSize now uid=.ok f) (hl : diskSize+newBlockSize-1<2^64) :
      Start f ⟨diskSize,fun _ => 0⟩

namespace Image

theorem start_opens {f : File} {d : Flat} (h : Start f d) (writable : Bool) :
    ∃ s,open_ f writable=.ok s ∧ ShowsFlat s d := by
  cases h with
  | parsed f l h ha =>
    refine ⟨_,open_ok h writable,open_opened h (fun ht => ha ?_) writable,rfl,rfl⟩
    exact ((parse_dynamic_iff f l ht).mp h).dynamic
  | created diskSize now uid f h hl =>
    obtain ⟨footer,blocks,hs,-,hd⟩ := createDynamic_sane h hl
    have hp := (parse_dynamic_iff _ _ hs.toLaid.not_fixed).mpr hs.toLaid
    exact ⟨_,open_ok hp writable,open_opened hp (fun _ _ => hs.toApart) writable,rfl,hd⟩

/-- Through any calls a VHD answers as a flat disk of its size does, but for writes into blocks the
table can no longer place. -/
theorem vhd_flat {f : File} {d : Flat} (h : Start f d) (writable : Bool) :
    ∃ s,open_ f writable=.ok s ∧ ∀ cs,(∀ c∈cs,Call.Allowed s.readonly c) →
      answers call answer s cs=answers Flat.call Flat.answer d (cs.zip (losses s cs)) := by
  obtain ⟨s,hs,hshow⟩ := start_opens h writable
  exact ⟨s,hs,fun cs hcs => hshow.answers cs hcs⟩

def zeroUid : Uid := ⟨replicate 16 0,rfl⟩

theorem accepted_512 : Accepted 512 :=
  ⟨by decide,by decide,by decide,by decide⟩

theorem vhd_flat_created : ∃ f s,createDynamic 512 0 zeroUid=.ok f ∧ open_ f true=.ok s ∧
    ∀ cs,(∀ c∈cs,Call.Allowed s.readonly c) → answers call answer s cs =
      answers Flat.call Flat.answer ⟨512,fun _ => 0⟩ (cs.zip (losses s cs)) := by
  obtain ⟨f,-,-,hok,-⟩ := createDynamic_ok accepted_512 0 zeroUid _ rfl
  obtain ⟨s,hs,ha⟩ := vhd_flat (.created 512 0 zeroUid f hok (by decide)) true
  exact ⟨f,s,hok,hs,ha⟩

theorem write_full {s : Image} (h : Writable s) (hf : Full s.vhd) (b : UInt8)
    (hd : 0<s.vhd.diskSize) (hu : s.vhd.entry 0=batUnused) : s.write [b] 0=s := by
  rcases write_clipped s [b] 0 (by simp) with hc | hc
  · exact hc.2
  have hclip : s.clipped [b] 0=[b] := take_of_length_le hd
  have hpos := h.sane.blockSize_pos
  have hmin : min (s.vhd.blockSize-0) 1=1 := by omega
  rw [hc.2,if_neg h.sane.toLaid.not_fixed,hclip,length_singleton,
    pieces_cons hpos 0 1 (by decide),Nat.zero_div,Nat.zero_mod,hmin,Nat.sub_self,pieces_zero,
    foldl_cons,foldl_nil]
  have hbat : s.batAt 0=batUnused := hu
  unfold writePiece
  simp only
  rw [if_pos hbat,allocateBlock_full s _ _ _ hf]

/-- A new disk whose closing footer lies where the table can address nothing more takes no write. -/
theorem vhd_full_loses : ∃ f l s,parse f=.ok l ∧ Apart l ∧ open_ f true=.ok s ∧ s.readonly=false ∧
    answers call answer s [.write [1] 0,.read 0 1]=[.done,.bytes [0]] ∧
    answers Flat.call Flat.answer ⟨l.diskSize,diskByte f l⟩
      [(.write [1] 0,fun _ => false),(.read 0 1,fun _ => false)]=[.done,.bytes [1]] := by
  obtain ⟨f,footer,header,hok,hf,hh,hbyte,hsize⟩ := createDynamic_ok accepted_512 0 zeroUid _ rfl
  have hblocks := accepted_512.blocks
  generalize hb : (512+newBlockSize-1)/newBlockSize=blocks at *
  have hs := newLayout_sane accepted_512 hb hf hh hbyte hsize
  have hle : (newLayout footer 512 blocks).footerAt≤2^41-sector := by
    change 3*sector+roundUp (blocks*4) sector≤2^41-sector
    unfold roundUp sector
    omega
  have hmoved := hs.moveFooter (2^41-sector) hle
  generalize hl : { newLayout footer 512 blocks with footerAt := 2^41-sector }=l at hmoved
  generalize f.pwrite (newLayout footer 512 blocks).footer (2^41-sector)=g at hmoved
  have hu (b : Nat) : l.entry b=batUnused := by
    rw [← hl]
    exact newLayout_entry footer 512 blocks b
  have hsize : l.diskSize=512 := by rw [← hl]; rfl
  have hat : l.footerAt=2^41-sector := by rw [← hl]
  have hfull : Full l := by
    unfold Full batUnused roundUp
    rw [hat]
    unfold sector
    omega
  have hp := (parse_dynamic_iff _ _ hmoved.toLaid.not_fixed).mpr hmoved.toLaid
  have hro : (!true || !l.footerAtEnd)=false := by rw [hmoved.atEnd]; rfl
  have hopen := open_ok hp true
  rw [hro] at hopen
  generalize hsd : (⟨g,[],l,replicate l.bat.length [],false⟩ : Image)=s at hopen
  have hsf : s.file=g := by rw [← hsd]
  have hsv : s.vhd=l := by rw [← hsd]
  have hsr : s.readonly=false := by rw [← hsd]
  have hcached : Cached s := by
    have ho := (open_opened hp (fun _ _ => hmoved.toApart) true).cached
    rw [hro,hsd] at ho
    exact ho
  have hw : s.write [1] 0=s := by
    refine write_full ⟨by rw [hsf,hsv]; exact hmoved,hcached⟩ ?_ 1 ?_ ?_
    · rw [hsv]
      exact hfull
    · rw [hsv,hsize]
      decide
    · rw [hsv]
      exact hu 0
  have hread : (s.read 0 1).1=[0] := by
    rw [(read_spec (fun _ => by rw [hsf,hsv]; exact hmoved.toLaid) hcached 0 1).1,hsf,hsv,
      diskByte_unused hmoved.toLaid.not_fixed hu]
    rfl
  refine ⟨g,l,s,hp,hmoved.toApart,hopen,hsr,?_,?_⟩
  · simp only [answers,answer,call]
    rw [hw,hread]
  · simp [answers,Flat.answer,Flat.call,hsize,patch]

end Image

end QUniLator.Vhd
