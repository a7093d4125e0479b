import QUniLator.Storage.VhdAllocate

namespace QUniLator.Vhd.Image

variable {s : Image}

theorem Writable.entries (h : Writable s) (pos : Nat) (hp : pos<s.vhd.diskSize) :
    pos/s.vhd.blockSize<s.vhd.bat.length := by
  rw [Nat.div_lt_iff_lt_mul h.sane.blockSize_pos]
  exact hp.trans_le h.sane.sized.covers

theorem writePiece_spec (h : Writable s) (buffer : List UInt8) (position pos n : Nat)
    (hn : n ≤ s.vhd.blockSize-pos%s.vhd.blockSize) (h0 : 0<n) (hp : position≤pos)
    (hle : pos+n≤position+buffer.length) (hd : pos+n ≤ s.vhd.diskSize)
    (out : Nat → Prop) (hout : ∀ i,out i → ¬InSectors pos n i) :
    let src := (buffer.drop (pos-position)).take n
    let t := writePiece buffer position s ⟨pos/s.vhd.blockSize,pos%s.vhd.blockSize,n⟩
    src.length=n ∧ Wrote s t (pos/s.vhd.blockSize) (pos%s.vhd.blockSize) src ∧
      Trail (Shows out (diskByte s.file s.vhd)) s t := by
  intro src t
  have hm := Nat.mod_lt pos h.sane.blockSize_pos
  have hpos := Nat.div_add_mod' pos s.vhd.blockSize
  have hsrc : src.length=n := by
    simp [src]
    omega
  have hlt := h.entries pos (by omega)
  have hb : t=if s.vhd.entry (pos/s.vhd.blockSize)=batUnused then
      s.allocateBlock (pos/s.vhd.blockSize) (pos%s.vhd.blockSize) src
      else s.writeInBlock (pos/s.vhd.blockSize) (pos%s.vhd.blockSize) src := by
    simp only [t,writePiece,piece_pos]
    rfl
  have hout' (i : Nat) (hi : out i) :
      ¬InSectors (pos/s.vhd.blockSize*s.vhd.blockSize+pos%s.vhd.blockSize) src.length i := by
    rw [hpos,hsrc]
    exact hout i hi
  refine ⟨hsrc,?_⟩
  rw [hb]
  split_ifs with hu
  · exact allocateBlock_spec h _ _ src out hout' (by omega) (by omega) hu hlt
  · exact writeInBlock_spec h _ _ src out hout' (by omega) (by omega) hu (by omega)

/-- Where the loop of `write` is, with `len` bytes to go from `pos` on. A byte is where it should be
unless its block has no place, which a full table alone explains. -/
structure Writing (s : Image) (buffer : List UInt8) (position : Nat) (out : Nat → Prop)
    (t : Image) (pos len : Nat) : Prop extends Writable t where
  same : Same s.vhd t.vhd
  readonly : t.readonly=s.readonly
  start : position≤pos
  left : pos+len=position+buffer.length
  aligned : pos=position ∨ len=0 ∨ pos%s.vhd.blockSize=0
  kept : ∀ c,s.vhd.entry c≠batUnused → t.vhd.entry c=s.vhd.entry c
  lead : Recoverable s.file s.vhd → Recoverable t.file t.vhd
  disk : ∀ i,diskByte t.file t.vhd i =
    if t.vhd.entry (i/s.vhd.blockSize)=batUnused then diskByte s.file s.vhd i
    else patch (diskByte s.file s.vhd) position (buffer.take (pos-position)) i
  full : ∀ i,position ≤ i → i<pos → t.vhd.entry (i/s.vhd.blockSize)=batUnused → Full t.vhd
  trail : Trail (Shows out (diskByte s.file s.vhd)) s t

theorem full_mono {l l' : Layout} (h : Full l) (hg : l.footerAt≤l'.footerAt) : Full l' := by
  refine h.trans (Nat.div_le_div_right ?_)
  exact Nat.mul_le_mul_right _ (Nat.div_le_div_right (by omega))

theorem inSectors_mono {pos n position len i : Nat} (hp : position≤pos)
    (hle : pos+n≤position+len) (h : InSectors pos n i) : InSectors position len i := by
  unfold InSectors sector at *
  omega

theorem Writing.step {s t : Image} {buffer : List UInt8} {position pos len : Nat}
    {out : Nat → Prop} (h : Writing s buffer position out t pos len) (h0 : 0<len)
    (hd : position+buffer.length ≤ s.vhd.diskSize) (hout : ∀ i,out i → ¬InSectors position buffer.length i) (n : Nat)
    (hn : min (s.vhd.blockSize-pos%s.vhd.blockSize) len=n) : Writing s buffer position out
      (writePiece buffer position t ⟨pos/s.vhd.blockSize,pos%s.vhd.blockSize,n⟩) (pos+n) (len-n) := by
  have hp := h.start
  have he := h.left
  have hbs := h.same.blockSize
  have hpos := h.sane.blockSize_pos
  rw [hbs] at hpos
  have hm := Nat.mod_lt pos hpos
  have hdiv := Nat.div_add_mod' pos s.vhd.blockSize
  have hpiece := writePiece_spec h.toWritable buffer position pos n (by rw [hbs]; omega) (by omega)
    hp (by omega) (by rw [h.same.diskSize]; omega) out
    (fun i hi hs => hout i hi (inSectors_mono hp (by omega) hs))
  simp only [hbs] at hpiece
  obtain ⟨hsrc,hw,htr⟩ := hpiece
  generalize hsr : (buffer.drop (pos-position)).take n=src at hsrc hw
  generalize writePiece buffer position t ⟨pos/s.vhd.blockSize,pos%s.vhd.blockSize,n⟩=u at *
  have htake : buffer.take (pos+n-position)=buffer.take (pos-position)++src := by
    rw [← hsr,show pos+n-position=(pos-position)+n by omega,List.take_add]
  have htk : (buffer.take (pos-position)).length=pos-position := by
    simp
    omega
  have hpatch (i : Nat) :
      patch (diskByte s.file s.vhd) position (buffer.take (pos+n-position)) i =
        patch (patch (diskByte s.file s.vhd) position (buffer.take (pos-position))) pos src i := by
    rw [htake,patch_append,htk,Nat.add_sub_cancel' hp]
  have hblock (i : Nat) (h1 : pos ≤ i) (h2 : i<pos+n) :
      i/s.vhd.blockSize=pos/s.vhd.blockSize := by
    apply Nat.div_eq_of_lt_le
    · omega
    · rw [Nat.add_mul]
      omega
  have hshow : ∀ f : File,Shows out (diskByte t.file t.vhd) f →
      Shows out (diskByte s.file s.vhd) f := by
    intro f hf
    obtain ⟨l,hl,hv⟩ := hf
    refine ⟨l,hl,fun i hi => ?_⟩
    rw [hv i hi,h.disk]
    split_ifs
    · rfl
    · apply patch_outside
      rw [htk]
      have hno := hout i hi
      unfold InSectors sector at hno
      omega
  refine ⟨hw.toWritable,h.same.trans hw.same,hw.readonly.trans h.readonly,by omega,by omega,?_,?_,
    fun hr => hw.lead (h.lead hr),?_,?_,h.trail.trans (htr.mono hshow)⟩
  · by_cases hl : n=len
    · exact Or.inr (Or.inl (by omega))
    · refine Or.inr (Or.inr ?_)
      have hnn : pos+n=(pos/s.vhd.blockSize+1)*s.vhd.blockSize := by
        rw [Nat.add_mul]
        omega
      rw [hnn]
      exact Nat.mul_mod_left _ _
  · intro c hc
    rw [hw.kept c (by rw [h.kept c hc]; exact hc),h.kept c hc]
  · intro i
    rw [hpatch]
    have hdisk := congrFun hw.disk i
    rw [hbs,hdiv] at hdisk
    by_cases hb : i/s.vhd.blockSize=pos/s.vhd.blockSize
    · have hold := h.disk i
      rw [hb] at hold ⊢
      by_cases hu : u.vhd.entry (pos/s.vhd.blockSize)=batUnused
      · rw [if_pos hu] at hdisk ⊢
        have ht : t.vhd.entry (pos/s.vhd.blockSize)=batUnused := by
          by_contra hc
          rw [hw.kept _ hc] at hu
          exact hc hu
        rw [hdisk,hold,if_pos ht]
      · rw [if_neg hu] at hdisk ⊢
        rw [hdisk]
        apply patch_congr
        intro hno
        rw [hold]
        split_ifs with ht
        · -- the block was not there, so no round before this one was at it
          symm
          apply patch_outside
          rw [htk]
          intro hc
          rcases h.aligned with ha | ha | ha
          · omega
          · omega
          · have hge : pos/s.vhd.blockSize*s.vhd.blockSize ≤ i := by
              rw [← hb]
              exact Nat.div_mul_le_self _ _
            omega
        · rfl
    · have hno : ¬(pos ≤ i ∧ i<pos+src.length) := by
        rw [hsrc]
        intro hc
        exact hb (hblock i hc.1 hc.2)
      have hsame : diskByte u.file u.vhd i=diskByte t.file t.vhd i := by
        rw [hdisk]
        split_ifs
        · rfl
        · exact patch_outside _ _ _ _ hno
      rw [hsame,h.disk,hw.others _ hb,patch_outside _ _ _ _ hno]
  · intro i h1 h2 hu
    by_cases hb : i/s.vhd.blockSize=pos/s.vhd.blockSize
    · rw [hb] at hu
      exact hw.full hu
    · rw [hw.others _ hb] at hu
      refine full_mono (h.full i h1 ?_ hu) hw.grows
      by_contra hc
      exact hb (hblock i (by omega) (by omega))

theorem Writing.begin (h : Writable s) (buffer : List UInt8) (position : Nat)
    (out : Nat → Prop) : Writing s buffer position out s position buffer.length :=
  ⟨h,.refl _,rfl,le_refl _,rfl,Or.inl rfl,fun _ _ => rfl,id,fun i => by simp,
    fun i h1 h2 => absurd h1 (by omega),.quiet ⟨s.vhd,h.sane,fun _ _ => rfl⟩ rfl rfl⟩

theorem writePieces_spec (h : Writable s) (buffer : List UInt8) (position : Nat)
    (hd : position+buffer.length ≤ s.vhd.diskSize) (out : Nat → Prop)
    (hout : ∀ i,out i → ¬InSectors position buffer.length i) : Writing s buffer position out
      ((pieces s.vhd.blockSize position buffer.length).foldl (writePiece buffer position) s)
      (position+buffer.length) 0 :=
  foldl_pieces_induct h.sane.blockSize_pos (writePiece buffer position)
    (Writing s buffer position out)
    (fun _ _ _ h0 ht => ht.step h0 hd hout _ rfl) s position buffer.length
    (.begin h buffer position out)

def clipped (s : Image) (buffer : List UInt8) (position : Nat) : List UInt8 :=
  buffer.take (s.vhd.diskSize-position)

theorem write_clipped (s : Image) (buffer : List UInt8) (position : Nat)
    (hw : position+buffer.length<2^64) : s.clipped buffer position=[] ∧ s.write buffer position=s ∨
    position+(s.clipped buffer position).length ≤ s.vhd.diskSize ∧ s.write buffer position =
        if s.vhd.type=typeFixed then s.sys (.pwrite (s.clipped buffer position) position)
        else (pieces s.vhd.blockSize position (s.clipped buffer position).length).foldl
          (writePiece (s.clipped buffer position) position) s := by
  have hu : u64 (position+buffer.length)=position+buffer.length := Nat.mod_eq_of_lt hw
  unfold write
  rw [hu]
  by_cases hb : s.vhd.diskSize<position+buffer.length
  · by_cases hp : s.vhd.diskSize≤position
    · refine Or.inl ⟨?_,if_pos ⟨hb,hp⟩⟩
      rw [clipped,Nat.sub_eq_zero_of_le hp,List.take_zero]
    · refine Or.inr ⟨?_,?_⟩
      · rw [clipped,List.length_take]
        omega
      · rw [if_neg (by omega),if_pos hb]
        rfl
  · have hc : s.clipped buffer position=buffer := List.take_of_length_le (by omega)
    refine Or.inr ⟨by rw [hc]; omega,?_⟩
    rw [hc,if_neg (by omega),if_neg hb]

theorem write_spec (h : Writable s) (buffer : List UInt8) (position : Nat)
    (hw : position+buffer.length<2^64) (out : Nat → Prop)
    (hout : ∀ i,out i → ¬InSectors position (s.clipped buffer position).length i) :
    Writing s (s.clipped buffer position) position out (s.write buffer position)
      (position+(s.clipped buffer position).length) 0 := by
  rcases write_clipped s buffer position hw with hc | hc
  · rw [hc.1,hc.2]
    exact .begin h [] position out
  · rw [hc.2,if_neg h.sane.toLaid.not_fixed]
    exact writePieces_spec h _ position hc.1 out hout

end QUniLator.Vhd.Image
