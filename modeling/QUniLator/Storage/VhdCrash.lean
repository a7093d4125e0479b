import QUniLator.Storage.VhdCreate

namespace QUniLator.Vhd
open Image List Option
open File (pwrite_byte pwrite_size)

/-- The file of `s` after the first `k` of the operations a call made on the way to `t`. -/
def cut (s t : Image) (k : Nat) : File := cutAfter applyOp s.file s.log t.log k

/-- A dynamic disk just opened for writing: a new one, or one whose parts lie apart and that outlives an
interrupted `truncate`. -/
inductive Fresh (s : Image) : Prop where
  | created (diskSize now : Nat) (uid : Uid) (f : File)
      (h : createDynamic diskSize now uid=.ok f) (hl : diskSize+newBlockSize-1<2^64)
      (ho : open_ f true=.ok s)
  | parsed (f : File) (ho : open_ f true=.ok s) (ht : s.vhd.type=typeDynamic)
      (hr : s.readonly=false) (ha : Apart s.vhd) (hk : Recoverable s.file s.vhd)

def Next (s t : Image) : Prop := ∃ c : Call,c.Allowed false ∧ t=s.call c

/-- The sectors a write of `n` bytes at `position` is writing. -/
def Writes (position n i : Nat) : Prop := 0<n ∧ InSectors position n i

def BlocksHeld (s : Image) : Prop :=
  ∀ b,s.vhd.entry b≠batUnused → s.vhd.entry b*sector+s.vhd.bitmapBytes+s.vhd.blockSize ≤ s.file.size

namespace Image

structure Kept (s : Image) : Prop extends Writable s where
  recoverable : Recoverable s.file s.vhd
  readonly : s.readonly=false

variable {s : Image}

theorem fresh_kept (h : Fresh s) : Kept s := by
  cases h with
  | created diskSize now uid f h hl ho =>
    obtain ⟨footer,blocks,hs,ht,-⟩ := createDynamic_sane h hl
    have hp := (parse_dynamic_iff _ _ hs.toLaid.not_fixed).mpr hs.toLaid
    rw [open_ok hp] at ho
    obtain rfl := Except.ok.inj ho
    have hop := open_opened hp (fun _ _ => hs.toApart) true
    exact ⟨hop.writable hs.toLaid.not_fixed rfl,Or.inl ht,rfl⟩
  | parsed f ho ht hr ha hk =>
    cases hp : parse f with
    | error e => simp [open_,hp] at ho
    | ok l =>
      rw [open_ok hp] at ho
      obtain rfl := Except.ok.inj ho
      have hop := open_opened hp (fun _ _ => ha) true
      exact ⟨hop.writable (by rw [ht]; decide) hr,hk,hr⟩

theorem Kept.call (h : Kept s) (c : Call) (hc : c.Allowed false) : Kept (s.call c) := by
  cases c with
  | read position len =>
    obtain ⟨-,ha⟩ := read_spec (fun _ => h.sane.toLaid) h.cached position len
    change Kept (s.read position len).2
    refine ⟨⟨?_,ha.cached⟩,?_,ha.readonly.trans h.readonly⟩
    · rw [ha.file,ha.vhd]
      exact h.sane
    · rw [ha.file,ha.vhd]
      exact h.recoverable
  | write buffer position =>
    have hs := write_spec h.toWritable buffer position hc.2 (fun _ => False) (fun _ hi => hi.elim)
    exact ⟨hs.toWritable,hs.lead h.recoverable,hs.readonly.trans h.readonly⟩
  | truncate =>
    obtain ⟨hw,-,hr,-,ht⟩ := truncate_spec h.toWritable
    exact ⟨hw,Or.inl ht,hr.trans h.readonly⟩
  | reopen =>
    obtain ⟨ho,hf,hv,hr⟩ := h.toWritable.opened.reopen
    have hro := hr.trans h.readonly
    refine ⟨ho.writable ?_ hro,?_,hro⟩
    · rw [hv]
      exact h.sane.toLaid.not_fixed
    · rw [hf,hv]
      exact h.recoverable
  | size => exact h

theorem reachable_kept (h : Reachable Fresh Next s) : Kept s := by
  refine h.invariant (fun _ hs => fresh_kept hs) ?_
  intro s t hs ht
  obtain ⟨c,hc,rfl⟩ := ht
  exact hs.call c hc

theorem open_laid {f : File} {l : Layout} (h : Laid f l) :
    ∃ t,open_ f true=.ok t ∧ BlocksHeld t ∧ t.file=f ∧ t.vhd=l ∧ Cached t := by
  have hp := (parse_dynamic_iff _ _ h.not_fixed).mpr h
  refine ⟨_,open_ok hp true,?_,rfl,rfl,open_cached f l _⟩
  intro b hb
  have hf := h.fits _ (Layout.entry_mem hb).2 hb
  have hs := h.size
  refine hf.trans ?_
  unfold dataEnd
  split_ifs
  · dsimp only
    omega
  · exact le_refl _

theorem write_cut (h : Kept s) (buffer : List UInt8) (position k : Nat) (hw : position+buffer.length<2^64) :
    ∃ t,open_ (cut s (s.write buffer position) k) true=.ok t ∧ BlocksHeld t ∧
      ∀ pos len,(∀ i,pos ≤ i → i<pos+len → ¬Writes position (s.clipped buffer position).length i) →
        (t.read pos len).1=(s.read pos len).1 := by
  have htr : Trail (Shows (fun i => ¬Writes position (s.clipped buffer position).length i)
      (diskByte s.file s.vhd)) s (s.write buffer position) := by
    have hself : Shows (fun i => ¬Writes position (s.clipped buffer position).length i)
        (diskByte s.file s.vhd) s.file := ⟨s.vhd,h.sane,fun _ _ => rfl⟩
    by_cases hn : 0<(s.clipped buffer position).length
    · refine (write_spec h.toWritable buffer position hw _ ?_).trail
      intro i hi hs
      exact hi ⟨hn,hs⟩
    · have hnil : s.clipped buffer position=[] := eq_nil_of_length_eq_zero (by omega)
      have hid : s.write buffer position=s := by
        rcases write_clipped s buffer position hw with hc | hc
        · exact hc.2
        · rw [hc.2,if_neg h.sane.toLaid.not_fixed,hnil]
          rfl
      rw [hid]
      exact .quiet hself rfl rfl
  obtain ⟨l,hl,hv⟩ := QUniLator.Trail.cut htr k
  obtain ⟨t,ho,hb,hf,hvhd,hc⟩ := open_laid hl.toLaid
  refine ⟨t,ho,hb,?_⟩
  intro pos len hout
  rw [(read_spec (fun _ => by rw [hf,hvhd]; exact hl.toLaid) hc pos len).1,
    (read_spec (fun _ => h.sane.toLaid) h.cached pos len).1,hf,hvhd]
  apply slice_congr
  intro i h1 h2
  exact hv i (hout i h1 h2)

theorem truncate_cut (h : Kept s) (k : Nat) : ∃ t,open_ (cut s s.truncate k) true=.ok t ∧ BlocksHeld t := by
  obtain ⟨l,hl⟩ := QUniLator.Trail.cut (truncate_trail h.toWritable h.recoverable) k
  obtain ⟨t,ho,hb,-⟩ := open_laid hl
  exact ⟨t,ho,hb⟩

/-- However a dynamic disk was used, a call cut short leaves a file that opens, names only blocks it holds, and reads
as before where the call was not writing. -/
theorem vhd_crash_safe {s : Image} (h : Reachable Fresh Next s) : (∀ buffer position k,position+buffer.length<2^64 →
      ∃ t,open_ (cut s (s.write buffer position) k) true=.ok t ∧ BlocksHeld t ∧ ∀ pos len,(∀ i,pos ≤ i → i<pos+len →
            ¬Writes position (s.clipped buffer position).length i) → (t.read pos len).1=(s.read pos len).1) ∧
    ∀ k,∃ t,open_ (cut s s.truncate k) true=.ok t ∧ BlocksHeld t :=
  ⟨fun buffer position k hw => write_cut (reachable_kept h) buffer position k hw,
    truncate_cut (reachable_kept h)⟩

theorem vhd_crash_safe_created : ∃ s,s.vhd.diskSize=512 ∧ (∀ buffer position k,position+buffer.length<2^64 →
      ∃ t,open_ (cut s (s.write buffer position) k) true=.ok t ∧ BlocksHeld t ∧ ∀ pos len,(∀ i,pos ≤ i → i<pos+len →
            ¬Writes position (s.clipped buffer position).length i) → (t.read pos len).1=(s.read pos len).1) ∧
    ∀ k,∃ t,open_ (cut s s.truncate k) true=.ok t ∧ BlocksHeld t := by
  obtain ⟨f,-,-,hok,-⟩ := createDynamic_ok accepted_512 0 zeroUid _ rfl
  obtain ⟨s,hs,hshow⟩ := start_opens (.created 512 0 zeroUid f hok (by decide)) true
  exact ⟨s,hshow.size,vhd_crash_safe (.start (.created 512 0 zeroUid f hok (by decide) hs))⟩

theorem validFooter_first {bs : List UInt8} (h : validFooter bs) : bs[0]? = some 0x63 := by
  unfold validFooter at h
  simp only [Bool.and_eq_true,beq_iff_eq] at h
  have h0 := congrArg (fun l => l[0]?) h.1
  rw [List.getElem?_take_of_lt (by decide)] at h0
  exact h0

theorem parse_none {f : File} (hs : sector≤f.size) (hend : f.byte (f.size-sector)≠0x63)
    (hstart : f.byte 0≠0x63) : parse f=.error "not a VHD image: it carries no VHD footer" := by
  have hno (pos : Nat) (hb : f.byte pos≠0x63) : ¬validFooter (slice f.byte pos sector)=true := by
    intro hv
    have hfirst := validFooter_first hv
    rw [slice_getElem? _ _ _ _ (by unfold sector; omega)] at hfirst
    exact hb (some.inj hfirst)
  unfold parse
  rw [parseFooter_eq f hs,if_neg (hno _ hend),if_neg (fun h => hno 0 hstart h.1)]

theorem truncate_torn : ∃ f s,open_ f true=.ok s ∧ s.vhd.type=typeDynamic ∧ s.readonly=false ∧ Apart s.vhd ∧
    parse (cut s s.truncate 2)=.error "not a VHD image: it carries no VHD footer" := by
  obtain ⟨f,footer,header,-,hf,hh,hbyte,hsize⟩ := createDynamic_ok accepted_512 0 zeroUid 1 (by decide)
  have hs := newLayout_sane accepted_512 (by decide) hf hh hbyte hsize
  have hlen := hf.length
  have hat : 3*sector+roundUp (1*4) sector=2048 := by decide
  have hmove := hs.moveFooter 2304 (by change 3*sector+roundUp (1*4) sector≤2304; omega)
  generalize hl : { newLayout footer 512 1 with footerAt := 2304 }=l at hmove
  have hlf : l.footer=footer := by rw [← hl]; rfl
  have hla : l.footerAt=2304 := by rw [← hl]
  have hlh : l.headerAt=sector := by rw [← hl]; rfl
  have hlt : l.tableAt=3*sector := by rw [← hl]; rfl
  have hlb : l.bat.length=1 := by rw [← hl]; rfl
  have hlost := hmove.pwrite (replicate sector 0) 0
    (Or.inl (by rw [length_replicate,hlh]; omega))
    (fun _ => Or.inl (by rw [length_replicate,hlt]; unfold sector; omega))
    (by rw [length_replicate,hla]; unfold sector; omega)
  have hlead : ((f.pwrite (newLayout footer 512 1).footer 2304).pwrite
      (replicate sector 0) 0).byte 0=0 := by
    apply some.inj
    rw [pwrite_byte,patch_inside _ _ _ _ (le_refl _)
      (by rw [length_replicate]; decide),
      List.getElem?_replicate,if_pos (by decide)]
  generalize (f.pwrite (newLayout footer 512 1).footer 2304).pwrite (replicate sector 0) 0=g
    at hlost hlead
  have hp := (parse_dynamic_iff _ _ hlost.toLaid.not_fixed).mpr hlost.toLaid
  have hopen := open_ok hp true
  rw [hlost.atEnd] at hopen
  refine ⟨g,_,hopen,hlost.dynamic,rfl,hlost.toApart,?_⟩
  generalize hsd : (⟨g,[],l,replicate l.bat.length [],!true || !true⟩ : Image)=s
  have hsf : s.file=g := by rw [← hsd]
  have hsv : s.vhd=l := by rw [← hsd]
  have hsl : s.log=[] := by rw [← hsd]
  have hend : l.emptyEnd=2048 := by
    rw [Layout.emptyEnd,hlh,hlt,hlb]
    decide
  have htable : (emptyTable l).length=4 := by rw [emptyTable,length_replicate,hlb]
  have htn : emptyTable l≠[] := ne_nil_of_length_pos (by omega)
  have hfn : footer≠[] := ne_nil_of_length_pos (by rw [hlen]; decide)
  obtain ⟨-,-,-,-,hlog⟩ := truncate_eq (s := s) (by rw [hsv]; exact hlost.toLaid.not_fixed)
  rw [hsv,hsl,if_neg htn,hend,hlf,hlt] at hlog
  have hcut : cut s s.truncate 2=(g.pwrite (emptyTable l) (3*sector)).pwrite footer 2048 := by
    unfold cut cutAfter
    rw [hlog,hsl,hsf]
    rfl
  have hgs : g.size=2304+sector := by rw [hlost.size,hla]
  have hsize1 : (g.pwrite (emptyTable l) (3*sector)).size=2304+sector := by
    rw [pwrite_size _ _ _ htn,htable,hgs]
    decide
  have hsize2 : ((g.pwrite (emptyTable l) (3*sector)).pwrite footer 2048).size=2304+sector := by
    rw [pwrite_size _ _ _ hfn,hlen,hsize1]
    decide
  rw [hcut]
  refine parse_none (by rw [hsize2]; decide) ?_ ?_
  · have hrest : footer[256]? = some 0 := hf.rest 256 (by omega) (by decide)
    have hbyte : ((g.pwrite (emptyTable l) (3*sector)).pwrite footer 2048).byte 2304=0 := by
      apply some.inj
      rw [pwrite_byte,patch_inside _ _ _ _ (by omega) (by rw [hlen]; decide)]
      exact hrest
    rw [hsize2,Nat.add_sub_cancel,hbyte]
    decide
  · rw [pwrite_byte,patch_before _ _ _ _ (by omega),pwrite_byte,
      patch_before _ _ _ _ (by decide),hlead]
    decide

theorem footer_of_closing {f : File} {l : Layout} (h : Footed f l)
    (hv : validFooter (slice f.byte l.footerAt sector)) : l.footer=slice f.byte l.footerAt sector := by
  cases he : l.footerAtEnd with
  | true => exact h.closing he
  | false =>
    have hn := (h.leading he).1
    rw [hv] at hn
    exact absurd hn (by decide)

def cookieBlock : Nat := 0x63787370

def overlapEnd : Nat := cookieBlock*sector+sector+newBlockSize

def overlapLayout (footer : List UInt8) : Layout :=
  ⟨footer,typeDynamic,512,overlapEnd,true,sector,sector,newBlockSize,
    roundUp ((newBlockSize/sector+7)/8) sector,[cookieBlock]⟩

theorem overlap_laid {footer header : List UInt8} (hf : NewFooter footer 512)
    (hh : NewHeader header sector 1) (f : File) (hfile : f=(File.empty.pwrite header sector).pwrite footer
      overlapEnd) : Laid f (overlapLayout footer) := by
  have hfl := hf.length
  have hhl := hh.length
  have hfn : footer≠[] := ne_nil_of_length_pos (by rw [hfl]; decide)
  have hhn : header≠[] := ne_nil_of_length_pos (by omega)
  have hin : sector+1024≤overlapEnd := by decide
  have hsize : f.size=overlapEnd+sector := by
    have h0 : File.empty.size=0 := rfl
    rw [hfile,pwrite_size _ _ _ hfn,pwrite_size _ _ _ hhn,hfl,hhl,h0]
    omega
  have hclosing : slice f.byte overlapEnd sector=footer := by
    have hs := slice_patch (File.empty.pwrite header sector).byte
      overlapEnd footer
    rw [hfl] at hs
    rw [hfile,pwrite_byte]
    exact hs
  have hheader : slice f.byte sector 1024=header := by
    have hs := slice_patch File.empty.byte sector header
    rw [hhl] at hs
    rw [hfile,pwrite_byte,pwrite_byte,slice_patch_other _ _ _ _ _ (Or.inl hin)]
    exact hs
  have hentry : beGet (slice f.byte sector 4)=cookieBlock := by
    have hs := slice_take f.byte sector 1024 4 (by omega)
    have hc := congrArg (fun l => l.take 4) hh.cookie
    simp only [take_take] at hc
    rw [← hs,hheader]
    rw [show min 4 8=4 by decide] at hc
    rw [hc]
    decide
  have hlen : (overlapLayout footer).bat.length=1 := rfl
  obtain ⟨k1,k2,k3,k4,k5,k6⟩ : sector≤newBlockSize ∧ newBlockSize%sector=0 ∧
      newBlockSize≤256*1024*1024 ∧ 512≤1*newBlockSize ∧ 512%sector=0 ∧
      sector+1*4≤overlapEnd+sector := by decide
  refine ⟨⟨hsize,hf.valid,fun _ => hclosing.symm,fun hn => Bool.noConfusion hn,hf.type.symm,
    hf.diskSize.symm⟩,⟨hf.headerAt.symm,?_,?_,⟨k1,k2,k3,?_,rfl⟩,?_,
    ?_,?_⟩,rfl,k5⟩
  · rw [hsize]
    exact hin.trans (Nat.le_add_right _ _)
  · change Headed (slice f.byte sector 1024) _
    rw [hheader]
    exact ⟨hh.cookie,hh.checksum,hh.tableAt.symm,hh.blocks.symm,hh.blockSize.symm⟩
  · rw [hlen]
    exact k4
  · rw [hlen,hsize]
    exact k6
  · intro b hb
    rw [hlen,Nat.lt_one_iff] at hb
    rw [hb]
    change some cookieBlock=some (beGet (slice f.byte (sector+0*4) 4))
    rw [Nat.zero_mul,Nat.add_zero,hentry]
  · intro e he _
    have hec : e=cookieBlock := mem_singleton.mp he
    rw [hec]
    change cookieBlock*sector+roundUp ((newBlockSize/sector+7)/8) sector+newBlockSize≤overlapEnd
    decide

theorem truncate_overlap : ∃ f s,open_ f true=.ok s ∧ s.vhd.type=typeDynamic ∧
    s.readonly=false ∧ s.vhd.bat=[cookieBlock] ∧ s.vhd.headerAt=sector ∧
    s.vhd.tableAt=sector ∧ ∀ l,parse (cut s s.truncate 1)≠.ok l := by
  have hf := newFooter_spec 512 0 zeroUid (by decide)
  have hh := newHeader_spec sector 1 (by decide) (by decide)
  generalize summed (putFields sector (footerFields 512 0 zeroUid)) 64=footer at hf
  generalize summed (putFields 1024 (headerFields sector 1)) 36=header at hh
  obtain ⟨f,hfile⟩ : ∃ f,f=(File.empty.pwrite header sector).pwrite footer
    overlapEnd := ⟨_,rfl⟩
  have hl := overlap_laid hf hh f hfile
  have hp := (parse_dynamic_iff _ _ hl.not_fixed).mpr hl
  refine ⟨f,_,open_ok hp true,hl.dynamic,rfl,rfl,rfl,rfl,?_⟩
  generalize hsd : (⟨f,[],overlapLayout footer,replicate (overlapLayout footer).bat.length [],
    !true || !(overlapLayout footer).footerAtEnd⟩ : Image)=s
  have hsf : s.file=f := by rw [← hsd]
  have hsv : s.vhd=overlapLayout footer := by rw [← hsd]
  have hsl : s.log=[] := by rw [← hsd]
  obtain ⟨-,-,-,-,hlog⟩ := truncate_eq (s := s) (by rw [hsv]; exact hl.not_fixed)
  have htable : emptyTable (overlapLayout footer)=[0xFF,0xFF,0xFF,0xFF] := rfl
  rw [hsv,hsl,htable,if_neg (by decide)] at hlog
  have hcut : cut s s.truncate 1=f.pwrite [0xFF,0xFF,0xFF,0xFF] sector := by
    unfold cut cutAfter
    rw [hlog,hsl,hsf]
    rfl
  rw [hcut]
  generalize hg : f.pwrite [0xFF,0xFF,0xFF,0xFF] sector=g
  intro l' hl'
  have hA : sector+4≤overlapEnd := by decide
  have hsize : g.size=overlapEnd+sector := by
    have h1 := hl.size
    change f.size=overlapEnd+sector at h1
    rw [← hg,pwrite_size _ _ _ (by decide),h1]
    exact max_eq_left (by change sector+4 ≤ _; omega)
  have hclosing : slice g.byte overlapEnd sector=footer := by
    have h1 := hl.closing rfl
    change footer=slice f.byte overlapEnd sector at h1
    rw [← hg,pwrite_byte,slice_patch_other _ _ _ _ _ (Or.inr hA)]
    exact h1.symm
  have hfoot (h : Footed g l') : l'.footer=footer := by
    have hat : l'.footerAt=overlapEnd := by
      have := h.size
      omega
    have hv : validFooter (slice g.byte l'.footerAt sector)=true := by
      rw [hat,hclosing]
      exact hf.valid
    rw [footer_of_closing h hv,hat,hclosing]
  by_cases ht : l'.type=typeFixed
  · have hfix := (parse_fixed_iff _ _ ht).mp hl'
    have htype := hfix.type
    rw [hfoot hfix.toFooted,hf.type,ht] at htype
    exact absurd htype (by decide)
  · have hdyn := (parse_dynamic_iff _ _ ht).mp hl'
    have hat := hdyn.headerAt
    rw [hfoot hdyn.toFooted,hf.headerAt] at hat
    have hc := congrArg (fun bs => bs[0]?) hdyn.headed.cookie
    have hbyte : g.byte sector=0xFF := by
      apply some.inj
      rw [← hg,pwrite_byte,patch_inside _ _ _ _ (le_refl _) (Nat.lt_add_of_pos_right (by decide)),Nat.sub_self]
      rfl
    rw [hat,List.getElem?_take_of_lt (by decide),slice_getElem? _ _ _ _ (by decide),Nat.add_zero,
      hbyte] at hc
    exact absurd hc (by decide)

/-- Neither file outlives a `truncate` that is cut short. -/
theorem vhd_crash_loses : (∃ f s,open_ f true=.ok s ∧ s.vhd.type=typeDynamic ∧ s.readonly=false ∧
      s.vhd.bat=[cookieBlock] ∧ s.vhd.headerAt=sector ∧ s.vhd.tableAt=sector ∧ ∀ l,parse (cut s s.truncate 1)≠.ok l) ∧
    ∃ f s,open_ f true=.ok s ∧ s.vhd.type=typeDynamic ∧ s.readonly=false ∧ Apart s.vhd ∧
      parse (cut s s.truncate 2)=.error "not a VHD image: it carries no VHD footer" :=
  ⟨truncate_overlap,truncate_torn⟩

end Image

end QUniLator.Vhd
