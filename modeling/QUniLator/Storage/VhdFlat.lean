import QUniLator.Storage.VhdTruncate
import QUniLator.Framework.Run

namespace QUniLator.Vhd

open List

namespace Image

/-- Two images that differ in the bitmaps they have read at most. -/
structure Alike (s t : Image) : Prop where
  file : t.file=s.file
  vhd : t.vhd=s.vhd
  log : t.log=s.log
  readonly : t.readonly=s.readonly
  cached : Cached t

theorem Alike.load {s t : Image} (h : Alike s t) (b : Nat) (hb : s.vhd.entry b≠batUnused) : Alike s (t.load b) :=
  ⟨h.file,h.vhd,h.log,h.readonly,load_cached h.cached b (by rw [h.vhd]; exact hb)⟩

theorem slice_block {f : File} {l : Layout} (h : Laid f l) (pos n : Nat)
    (hn : n≤l.blockSize-pos%l.blockSize) (hd : pos+n≤l.diskSize) : slice (diskByte f l) pos n =
      slice (contentByte f l (pos/l.blockSize)) (pos%l.blockSize) n := by
  have hm := Nat.mod_lt pos h.blockSize_pos
  have hp := Nat.div_add_mod' pos l.blockSize
  apply ext_getElem?
  intro i
  by_cases hi : i<n
  · have hdiv : (pos+i)/l.blockSize=pos/l.blockSize := by
      apply Nat.div_eq_of_lt_le
      · omega
      · rw [Nat.add_mul]
        omega
    have hmod := Nat.div_add_mod' (pos+i) l.blockSize
    rw [hdiv] at hmod
    rw [slice_getElem? _ _ _ _ hi,slice_getElem? _ _ _ _ hi,diskByte,if_neg (by omega),
      if_neg h.not_fixed,hdiv,show (pos+i)%l.blockSize=pos%l.blockSize+i by omega]
  · rw [List.getElem?_eq_none (by rw [slice_length]; omega),
      List.getElem?_eq_none (by rw [slice_length]; omega)]

theorem readPiece_spec {s t : Image} (hl : Laid s.file s.vhd) (h : Alike s t) (bs : List UInt8)
    (pos n : Nat) (hn : n ≤ s.vhd.blockSize-pos%s.vhd.blockSize) (hd : pos+n ≤ s.vhd.diskSize) :
    let r := readPiece (bs,t) ⟨pos/s.vhd.blockSize,pos%s.vhd.blockSize,n⟩
    r.1=bs++slice (diskByte s.file s.vhd) pos n ∧ Alike s r.2 := by
  have hm := Nat.mod_lt pos hl.blockSize_pos
  rw [slice_block hl pos n hn hd]
  generalize pos/s.vhd.blockSize=b
  generalize pos%s.vhd.blockSize=off at hn hm
  intro r
  have hbat : t.batAt b=s.vhd.entry b := by
    rw [batAt,h.vhd,Layout.entry]
  by_cases hb : s.vhd.entry b=batUnused
  · have hr : r=(bs++replicate n 0,t) := if_pos (hbat.trans hb)
    rw [hr]
    refine ⟨?_,h⟩
    have hz := slice_replicate (contentByte s.file s.vhd b) off n 0 (fun o _ _ => if_pos hb)
    rw [hz]
  · have hread : t.readInBlock b off n=some (slice (contentByte s.file s.vhd b) off n) := by
      rw [← h.file,← h.vhd]
      refine readInBlock_eq ?_ h.cached b off n ?_ ?_
      · rw [h.file,h.vhd]
        exact hl
      · rw [h.vhd]
        exact hb
      · rw [h.vhd]
        omega
    have hr : r=(bs++slice (contentByte s.file s.vhd b) off n,t.load b) := by
      change readPiece (bs,t) ⟨b,off,n⟩=_
      unfold readPiece
      simp only [hread]
      exact if_neg (by rw [hbat]; exact hb)
    rw [hr]
    exact ⟨rfl,h.load b hb⟩

theorem readPieces_spec {s : Image} (hl : Laid s.file s.vhd) (h : Cached s) (position n : Nat)
    (hd : position+n ≤ s.vhd.diskSize) : let r := (pieces s.vhd.blockSize position n).foldl readPiece ([],s)
    r.1=slice (diskByte s.file s.vhd) position n ∧ Alike s r.2 := by
  have hr := foldl_pieces_induct hl.blockSize_pos readPiece
    (fun r q len => position≤q ∧ q+len=position+n ∧
      r.1=slice (diskByte s.file s.vhd) position (q-position) ∧ Alike s r.2)
    (by
      intro r q len h0 hq
      obtain ⟨hp,he,h1,h2⟩ := hq
      have hm := Nat.mod_lt q hl.blockSize_pos
      obtain ⟨k1,k2⟩ := readPiece_spec hl h2 r.1 q (min (s.vhd.blockSize-q%s.vhd.blockSize) len)
        (by omega) (by omega)
      refine ⟨by omega,by omega,?_,k2⟩
      rw [k1,h1,show q+min (s.vhd.blockSize-q%s.vhd.blockSize) len-position =
        (q-position)+min (s.vhd.blockSize-q%s.vhd.blockSize) len by omega,slice_append,
        Nat.add_sub_cancel' hp])
    ([],s) position n ⟨le_refl _,rfl,by simp,⟨rfl,rfl,rfl,rfl,h⟩⟩
  refine ⟨?_,hr.2.2.2⟩
  have h1 := hr.2.2.1
  rwa [Nat.add_sub_cancel_left] at h1

theorem read_spec {s : Image} (hl : s.vhd.type≠typeFixed → Laid s.file s.vhd) (h : Cached s)
    (position len : Nat) : (s.read position len).1=slice (diskByte s.file s.vhd) position len ∧
      Alike s (s.read position len).2 := by
  have hpast (i : Nat) (hi : s.vhd.diskSize ≤ i) : diskByte s.file s.vhd i=0 := if_pos hi
  unfold read
  by_cases hp : s.vhd.diskSize≤position
  · rw [if_pos hp]
    refine ⟨?_,⟨rfl,rfl,rfl,rfl,h⟩⟩
    exact (slice_replicate _ _ _ 0 (fun i hi _ => hpast i (by omega))).symm
  · rw [if_neg hp]
    simp only
    have hlen : len=min len (s.vhd.diskSize-position)+(len-min len (s.vhd.diskSize-position)) := by
      omega
    generalize hn : min len (s.vhd.diskSize-position)=n at *
    have hslice : slice (diskByte s.file s.vhd) position len =
        slice (diskByte s.file s.vhd) position n++replicate (len-n) 0 := by
      conv_lhs => rw [hlen,slice_append]
      congr 1
      exact slice_replicate _ _ _ 0 (fun i hi hi2 => hpast i (by omega))
    rw [hslice]
    by_cases ht : s.vhd.type=typeFixed
    · rw [if_pos ht]
      refine ⟨?_,⟨rfl,rfl,rfl,rfl,h⟩⟩
      rw [File.preadCleared_eq]
      congr 1
      apply slice_congr
      intro i _ hi
      rw [diskByte,if_neg (by omega),if_pos ht]
    · rw [if_neg ht]
      obtain ⟨h1,h2⟩ := readPieces_spec (hl ht) h position n (by omega)
      exact ⟨by rw [h1],h2⟩

end Image

/-- The calls a drive makes on an open image. `reopen` is `close` and `open`. -/
inductive Call where
  | read (position len : Nat)
  | write (buffer : List UInt8) (position : Nat)
  | truncate
  | reopen
  | size

inductive Answer where
  | done
  | bytes (bs : List UInt8)
  | opened (ok : Bool)
  | size (n : Nat)
  deriving DecidableEq

/-- What a caller has to take care of: nothing is written to a disk that is read-only, and no write
ends past the 64-bit positions. -/
def Call.Allowed (readonly : Bool) : Call → Prop
  | .write buffer position => readonly=false ∧ position+buffer.length<2^64
  | .truncate => readonly=false
  | _ => True

instance (l : Layout) : Decidable (Full l) :=
  inferInstanceAs (Decidable (batUnused ≤ roundUp l.footerAt sector/sector))

namespace Image

def call (s : Image) : Call → Image
  | .read position len => (s.read position len).2
  | .write buffer position => s.write buffer position
  | .truncate => s.truncate
  | .reopen =>
    match open_ s.file (!s.readonly) with
    | .ok t => t
    | .error _ => s
  | .size => s

def answer (s : Image) : Call → Answer
  | .read position len => .bytes (s.read position len).1
  | .reopen => .opened (open_ s.file (!s.readonly)).toBool
  | .size => .size s.size
  | _ => .done

/-- Byte `i` is in a block for which a file grown past what the table can address has no room. -/
def lost (s : Image) (i : Nat) : Bool :=
  decide (s.vhd.type≠typeFixed ∧ s.vhd.entry (i/s.vhd.blockSize)=batUnused ∧ Full s.vhd)

def losses : Image → List Call → List (Nat → Bool)
  | _,[] => []
  | s,c::cs => (s.call c).lost::losses (s.call c) cs

end Image

structure Flat where
  size : Nat
  disk : Nat → UInt8

namespace Flat

def call (f : Flat) : Call × (Nat → Bool) → Flat
  | (.write buffer position,lost) =>
    { f with disk := fun i =>
        if lost i then f.disk i
        else patch f.disk position (buffer.take (f.size-position)) i }
  | (.truncate,_) => { f with disk := fun _ => 0 }
  | _ => f

def answer (f : Flat) : Call × (Nat → Bool) → Answer
  | (.read position len,_) => .bytes (slice f.disk position len)
  | (.reopen,_) => .opened true
  | (.size,_) => .size f.size
  | _ => .done

end Flat

namespace Image

/-- An image that is open on a file `parse` takes. -/
structure Opened (s : Image) : Prop where
  parsed : parse s.file=.ok s.vhd
  cached : Cached s
  apart : s.vhd.type≠typeFixed → s.vhd.footerAtEnd=true → Apart s.vhd
  atEnd : s.readonly=false → s.vhd.footerAtEnd=true

variable {s : Image}

theorem Opened.laid (h : Opened s) (ht : s.vhd.type≠typeFixed) : Laid s.file s.vhd :=
  (parse_dynamic_iff _ _ ht).mp h.parsed

theorem Opened.fixed (h : Opened s) (ht : s.vhd.type=typeFixed) : LaidFixed s.file s.vhd :=
  (parse_fixed_iff _ _ ht).mp h.parsed

theorem Opened.writable (h : Opened s) (ht : s.vhd.type≠typeFixed) (hr : s.readonly=false) : Writable s :=
  ⟨⟨h.laid ht,h.apart ht (h.atEnd hr),h.atEnd hr⟩,h.cached⟩

theorem Writable.opened (h : Writable s) : Opened s :=
  ⟨(parse_dynamic_iff _ _ h.sane.toLaid.not_fixed).mpr h.sane.toLaid,h.cached,
    fun _ _ => h.sane.toApart,fun _ => h.sane.atEnd⟩

theorem opened_fixed (h : LaidFixed s.file s.vhd) (hc : Cached s) : Opened s :=
  ⟨(parse_fixed_iff _ _ h.fixed).mpr h,hc,fun ht => absurd h.fixed ht,fun _ => h.atEnd⟩

theorem Opened.cached_fixed {s t : Image} (h : Opened s) (ht : s.vhd.type=typeFixed)
    (hb : t.bitmaps=s.bitmaps) (hv : t.vhd=s.vhd) : Cached t := by
  refine ⟨by rw [hb,hv]; exact h.cached.length,?_⟩
  intro b bm hm
  have hlen := h.cached.length
  rw [(h.fixed ht).bare] at hlen
  rw [hb,eq_nil_of_length_eq_zero hlen] at hm
  simp at hm

theorem open_ok {f : File} {l : Layout} (h : parse f=.ok l) (writable : Bool) : open_ f writable =
      .ok ⟨f,[],l,replicate l.bat.length [],!writable || !l.footerAtEnd⟩ := by
  unfold open_
  rw [h]

theorem open_cached (f : File) (l : Layout) (readonly : Bool) :
    Cached ⟨f,[],l,replicate l.bat.length [],readonly⟩ := by
  refine ⟨length_replicate,?_⟩
  intro b bm hb hn
  exact absurd (eq_of_mem_replicate (mem_of_getElem? hb)) hn

theorem open_opened {f : File} {l : Layout} (h : parse f=.ok l)
    (ha : l.type≠typeFixed → l.footerAtEnd → Apart l) (writable : Bool) :
    Opened ⟨f,[],l,replicate l.bat.length [],!writable || !l.footerAtEnd⟩ := by
  refine ⟨h,open_cached f l _,ha,?_⟩
  intro hr
  cases hl : l.footerAtEnd with
  | true => rfl
  | false => simp [hl] at hr

theorem Opened.reopen (h : Opened s) : Opened (s.call .reopen) ∧
    (s.call .reopen).file=s.file ∧ (s.call .reopen).vhd=s.vhd ∧ (s.call .reopen).readonly=s.readonly := by
  have hopen := open_ok h.parsed (!s.readonly)
  have hcall : s.call .reopen=⟨s.file,[],s.vhd,replicate s.vhd.bat.length [],
      !(!s.readonly) || !s.vhd.footerAtEnd⟩ := by
    unfold Image.call
    simp only [hopen]
  rw [hcall]
  refine ⟨open_opened h.parsed h.apart _,rfl,rfl,?_⟩
  cases hr : s.readonly with
  | true => rfl
  | false => simp [h.atEnd hr]

structure ShowsFlat (s : Image) (f : Flat) : Prop where
  opened : Opened s
  size : s.vhd.diskSize=f.size
  disk : diskByte s.file s.vhd=f.disk

section
variable {s : Image} {f : Flat} (h : ShowsFlat s f)
include h

theorem ShowsFlat.read (position len : Nat) : ShowsFlat (s.read position len).2 f ∧
      (s.read position len).1=slice f.disk position len ∧ (s.read position len).2.readonly=s.readonly := by
  obtain ⟨hbytes,ha⟩ := read_spec h.opened.laid h.opened.cached position len
  refine ⟨⟨⟨?_,ha.cached,?_,?_⟩,?_,?_⟩,?_,ha.readonly⟩
  · rw [ha.file,ha.vhd]
    exact h.opened.parsed
  · rw [ha.vhd]
    exact h.opened.apart
  · rw [ha.readonly,ha.vhd]
    exact h.opened.atEnd
  · rw [ha.vhd]
    exact h.size
  · rw [ha.file,ha.vhd]
    exact h.disk
  · rw [hbytes,h.disk]

theorem ShowsFlat.write (hr : s.readonly=false) (buffer : List UInt8) (position : Nat)
    (hw : position+buffer.length<2^64) : ShowsFlat (s.write buffer position)
        (f.call (.write buffer position,(s.write buffer position).lost)) ∧
      (s.write buffer position).readonly=s.readonly := by
  have hclip : buffer.take (f.size-position)=s.clipped buffer position := by
    rw [clipped,h.size]
  by_cases ht : s.vhd.type=typeFixed
  · obtain ⟨hl,hv,hb,hro,hd⟩ := writeFixed_spec (h.opened.fixed ht) buffer position hw
    generalize s.write buffer position=t at *
    have hc : Cached t := h.opened.cached_fixed ht hb hv
    refine ⟨⟨opened_fixed hl hc,by rw [hv]; exact h.size,?_⟩,hro⟩
    have hn (i : Nat) : t.lost i=false := by
      simp [lost,hl.fixed]
    funext i
    change diskByte t.file t.vhd i=if t.lost i then f.disk i else patch f.disk position _ i
    rw [hd,hn,hclip,h.disk]
    simp
  · have hs := write_spec (h.opened.writable ht hr) buffer position hw (fun _ => False)
      (fun _ hi => hi.elim)
    generalize s.write buffer position=t at *
    refine ⟨⟨hs.toWritable.opened,by rw [hs.same.diskSize]; exact h.size,?_⟩,hs.readonly⟩
    funext i
    change diskByte t.file t.vhd i=if t.lost i then f.disk i else patch f.disk position _ i
    rw [hs.disk,Nat.add_sub_cancel_left,take_length,hclip,← h.disk,← hs.same.blockSize]
    by_cases hu : t.vhd.entry (i/t.vhd.blockSize)=batUnused
    · rw [if_pos hu]
      split_ifs with hlost
      · rfl
      · have hnf : ¬Full t.vhd := by
          intro hf
          apply hlost
          have htt := hs.sane.toLaid.not_fixed
          simp [lost,hu,hf,htt]
        symm
        apply patch_outside
        intro hi
        rw [hs.same.blockSize] at hu
        exact hnf (hs.full i hi.1 hi.2 hu)
    · rw [if_neg hu,if_neg (by simp [lost,hu])]

theorem ShowsFlat.truncate (hr : s.readonly=false) :
    ShowsFlat s.truncate { f with disk := fun _ => 0 } ∧ s.truncate.readonly=s.readonly := by
  by_cases ht : s.vhd.type=typeFixed
  · obtain ⟨hl,hv,hb,hro,hd⟩ := truncateFixed_spec (h.opened.fixed ht)
    have hc : Cached s.truncate := h.opened.cached_fixed ht hb hv
    exact ⟨⟨opened_fixed hl hc,by rw [hv]; exact h.size,hd⟩,hro⟩
  · obtain ⟨hw,hs,hro,hd,-⟩ := truncate_spec (h.opened.writable ht hr)
    exact ⟨⟨hw.opened,by rw [hs.diskSize]; exact h.size,hd⟩,hro⟩

theorem ShowsFlat.reopen : ShowsFlat (s.call .reopen) f ∧ s.answer .reopen=.opened true ∧
      (s.call .reopen).readonly=s.readonly := by
  obtain ⟨ho,hf,hv,hr⟩ := h.opened.reopen
  refine ⟨⟨ho,by rw [hv]; exact h.size,by rw [hf,hv]; exact h.disk⟩,?_,hr⟩
  unfold answer
  rw [open_ok h.opened.parsed]
  rfl

theorem ShowsFlat.call (c : Call) (hc : c.Allowed s.readonly) : ShowsFlat (s.call c) (f.call (c,(s.call c).lost)) ∧
      s.answer c=f.answer (c,(s.call c).lost) ∧ (s.call c).readonly=s.readonly := by
  cases c with
  | read position len =>
    obtain ⟨hs,hb,hr⟩ := h.read position len
    exact ⟨hs,congrArg Answer.bytes hb,hr⟩
  | write buffer position =>
    obtain ⟨hs,hr⟩ := h.write hc.1 buffer position hc.2
    exact ⟨hs,rfl,hr⟩
  | truncate =>
    obtain ⟨hs,hr⟩ := h.truncate hc
    exact ⟨hs,rfl,hr⟩
  | reopen => exact h.reopen
  | size => exact ⟨h,congrArg Answer.size h.size,rfl⟩

end

theorem ShowsFlat.answers {f : Flat} (h : ShowsFlat s f) (cs : List Call) (hcs : ∀ c∈cs,c.Allowed s.readonly) :
    answers Image.call answer s cs=answers Flat.call Flat.answer f (cs.zip (losses s cs)) := by
  induction cs generalizing s f with
  | nil => rfl
  | cons c cs ih =>
    obtain ⟨hs,ha,hr⟩ := h.call c (hcs c mem_cons_self)
    rw [losses,zip_cons_cons,QUniLator.answers,QUniLator.answers,ha,ih hs]
    intro d hd
    rw [hr]
    exact hcs d (mem_cons_of_mem c hd)

end Image

end QUniLator.Vhd
