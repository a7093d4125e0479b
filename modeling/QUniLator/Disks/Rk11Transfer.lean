import QUniLator.Disks.Rk11

namespace QUniLator.Disks

open List Bus

namespace Rk11

def count (s : Rk11) : Nat := s.currentCount.toNat

def chunk (s : Rk11) : Nat := min rkSector s.count

def index (s : Rk11) : Nat := (s.cyl*2+s.surface)*12+s.sector

/-- The words of memory that `n` words of a transfer come from -/
def source (s : Rk11) (n : Nat) : List UInt16 :=
  if s.iba then replicate n (s.bus.mem (s.currentAddress/2))
  else slice s.bus.mem (s.currentAddress/2) n

/-- The memory with `n` words of the pack in it -/
def loaded (s : Rk11) (n : Nat) : Nat → UInt16 :=
  if s.iba then patch s.bus.mem (s.currentAddress/2) (slice s.pack (s.imageOffset+(n-1)) 1)
  else patch s.bus.mem (s.currentAddress/2) (slice s.pack s.imageOffset n)

/-- Memory answers for `n` words. -/
def Answers (s : Rk11) (n : Nat) : Prop := s.bus.HasAt s.currentAddress (if s.iba then min n 1 else n)

@[simp] theorem source_length (s : Rk11) (n : Nat) : (s.source n).length=n := by
  unfold source
  split_ifs <;> simp

structure Underway (s : Rk11) : Prop where
  busy : 0<s.currentCount
  small : s.currentCount<0x8000
  abort : s.abort=false
  rkwc : s.rkwc=(0x10000-s.count)%0x10000
  present : s.present=true
  surface : s.surface<2
  format : s.function=.read → s.format=false

structure OnPack (s : Rk11) : Prop where
  underway : Underway s
  sector : s.sector≤11
  cyl : s.cyl≤202

variable {s : Rk11}

theorem Underway.count_pos (h : Underway s) : 0<s.count := by
  have := h.busy
  unfold count
  omega

theorem Underway.chunk_pos (h : Underway s) : 0<s.chunk := by
  have := h.count_pos
  unfold chunk rkSector
  omega

theorem chunk_le (s : Rk11) : s.chunk ≤ rkSector := Nat.min_le_left _ _

theorem OnPack.pass (h : OnPack s) : s.pass=s.transferSector := by
  have hsec := h.sector
  have hcyl := h.cyl
  have hv : s.validateSeek=(true,s) := by
    unfold validateSeek
    dsimp only
    rw [h.underway.present,if_neg (by simp; omega)]
  unfold Rk11.pass
  rw [hv]

/-- What `transferSector` has done before the registers move on, on a sector whose words answer -/
def onSector (s : Rk11) (mem pack : Nat → UInt16) (rkdb : UInt16) (wce err abort : Bool) : Rk11 :=
  { s with bus := { s.bus with mem := mem },pack := pack,rkdb := rkdb,wce := wce,err := err,
           abort := abort }

theorem count_eq (s : Rk11) (h : s.function=.read → s.format=false) :
    (if s.function=.read && s.format then 1 else min rkSector s.currentCount.toNat)=s.chunk := by
  rw [if_neg]
  · rfl
  · intro hn
    simp only [Bool.and_eq_true,decide_eq_true_eq] at hn
    rw [h hn.1] at hn
    exact absurd hn.2 (by simp)

theorem Underway.fromMemory (h : Underway s) (hb : s.Answers s.chunk) :
    (s.dmaFromMemory (replicate rkSector 0) s.chunk).bus=s.bus ∧
    (s.dmaFromMemory (replicate rkSector 0) s.chunk).success=true ∧
    (s.dmaFromMemory (replicate rkSector 0) s.chunk).buffer = s.source s.chunk++replicate (rkSector-s.chunk) 0 := by
  have hpos := h.chunk_pos
  unfold dmaFromMemory Answers source at *
  cases hi : s.iba with
  | true =>
    rw [hi,if_pos rfl,show min s.chunk 1=1 by omega] at hb
    rw [if_pos rfl,dati_eq _ (by omega) hb]
    refine ⟨rfl,rfl,?_⟩
    rw [if_pos rfl,slice_one,drop_replicate]
    obtain ⟨k,hk⟩ : ∃ k,s.chunk=k+1 := ⟨s.chunk-1,by omega⟩
    rw [hk]
    show replicate (k+1) (s.bus.mem (s.currentAddress/2)) ++
      (replicate (rkSector-1) (0 : UInt16)).drop k=_
    rw [drop_replicate,show rkSector-1-k=rkSector-(k+1) by omega]
  | false =>
    rw [hi,if_neg (by simp)] at hb
    rw [if_neg (by simp),if_neg (by simp),dati_eq _ hpos hb,drop_replicate]
    exact ⟨rfl,rfl,rfl⟩

theorem Underway.toMemory (h : Underway s) (hb : s.Answers s.chunk) :
    (s.dmaToMemory (slice s.pack s.imageOffset rkSector) s.chunk).bus = { s.bus with mem := s.loaded s.chunk } ∧
    (s.dmaToMemory (slice s.pack s.imageOffset rkSector) s.chunk).success=true := by
  have hpos := h.chunk_pos
  have hle := s.chunk_le
  unfold dmaToMemory Answers loaded at *
  cases hi : s.iba with
  | true =>
    rw [hi,if_pos rfl,show min s.chunk 1=1 by omega] at hb
    have hget : (slice s.pack s.imageOffset rkSector).getD (s.chunk-1) 0 =
        s.pack (s.imageOffset+(s.chunk-1)) := by
      rw [getD_eq_getElem?_getD,slice_getElem? _ _ _ _ (by omega)]
      rfl
    rw [if_pos rfl,if_pos rfl,hget,slice_one]
    have hd := dato_eq [s.pack (s.imageOffset+(s.chunk-1))] (by simp) hb
    rw [hd]
    exact ⟨rfl,rfl⟩
  | false =>
    rw [hi,if_neg (by simp)] at hb
    rw [if_neg (by simp),if_neg (by simp),slice_take _ _ _ _ hle]
    have hd := dato_eq (slice s.pack s.imageOffset s.chunk) (by simpa using hpos) (by simpa using hb)
    rw [hd]
    exact ⟨rfl,rfl⟩

theorem Underway.unanswered (h : Underway s) (hb : ¬s.Answers s.chunk) :
    (s.dmaToMemory (slice s.pack s.imageOffset rkSector) s.chunk).success=false ∧
    (s.dmaFromMemory (replicate rkSector 0) s.chunk).success=false := by
  have hpos := h.chunk_pos
  have hle := s.chunk_le
  unfold dmaToMemory dmaFromMemory Answers at *
  cases hi : s.iba with
  | true =>
    rw [hi,if_pos rfl,show min s.chunk 1=1 by omega] at hb
    rw [if_pos rfl,if_pos rfl,← Bool.not_eq_true,← Bool.not_eq_true]
    exact ⟨(dato_success _ _ _ (by simp)).not.mpr hb,(dati_success _ _ _ (by omega)).not.mpr hb⟩
  | false =>
    rw [hi,if_neg (by simp)] at hb
    rw [if_neg (by simp),if_neg (by simp),← Bool.not_eq_true,← Bool.not_eq_true,
      slice_take _ _ _ _ hle]
    exact ⟨(dato_success _ _ _ (by simpa using hpos)).not.mpr (by simpa using hb),
      (dati_success _ _ _ hpos).not.mpr hb⟩

/-- What a sector leaves that has been moved -/
structure After (s : Rk11) (mem pack : Nat → UInt16) (wce abort : Bool) (u : Rk11) : Prop where
  function : u.function=s.function
  format : u.format=s.format
  iba : u.iba=s.iba
  sse : u.sse=s.sse
  currentCount : u.currentCount=s.currentCount-s.chunk
  currentAddress : u.currentAddress=if s.iba then s.currentAddress else s.currentAddress+2*s.chunk
  rkwc : u.rkwc=(0x10000-u.count)%0x10000
  ba : s.iba=false → u.rkba=u.currentAddress%0x10000 ∧ u.mex=u.currentAddress/0x10000%4
  baKept : s.iba=true → u.rkba=s.rkba ∧ u.mex=s.mex
  index : u.index=s.index+1
  sector : u.sector≤11
  surface : u.surface<2
  present : u.present=s.present
  nxs : u.nxs=s.nxs
  nxc : u.nxc=s.nxc
  ovr : u.ovr=s.ovr
  nxm : u.nxm=s.nxm
  wce : u.wce=wce
  abort : u.abort=abort
  pack : u.pack=pack
  bus : u.bus={ s.bus with mem := mem }

theorem incrementRkda_index (hs : s.sector≤11) (hf : s.surface<2) :
    s.incrementRkda.index=s.index+1 ∧ s.incrementRkda.sector≤11 ∧ s.incrementRkda.surface<2 := by
  unfold incrementRkda index
  split_ifs with h1 h2
  all_goals refine ⟨?_,?_,?_⟩ <;> dsimp only <;> omega

theorem incrementRkda_eq (s : Rk11) : ∃ cyl surface sector,
    s.incrementRkda={ s with cyl := cyl,surface := surface,sector := sector } := by
  unfold incrementRkda
  split_ifs
  all_goals exact ⟨_,_,_,rfl⟩

theorem OnPack.after (h : OnPack s) {v : Rk11} {mem pack : Nat → UInt16} (rkdb : UInt16)
    {wce abort : Bool} (err : Bool) (hv : v=s.onSector mem pack rkdb wce err abort) :
    After s mem pack wce abort (v.sectorDone s.chunk) := by
  have hle : (s.chunk : Int) ≤ s.currentCount := by
    have := h.underway.busy
    unfold chunk count
    omega
  have hsmall := h.underway.small
  have hrkwc : (-(s.currentCount-s.chunk)%0x10000).toNat =
      (0x10000-(s.currentCount-s.chunk).toNat)%0x10000 := by omega
  subst hv
  generalize hw : (s.onSector mem pack rkdb wce err abort).advance s.chunk=w
  have hws : w.sector=s.sector ∧ w.surface=s.surface ∧ w.cyl=s.cyl := by
    rw [← hw]
    unfold advance
    dsimp only
    split_ifs <;> exact ⟨rfl,rfl,rfl⟩
  obtain ⟨hindex,hsector,hsurface⟩ := incrementRkda_index (s := w) (by rw [hws.1]; exact h.sector)
    (by rw [hws.2.1]; exact h.underway.surface)
  have hwi : w.index=s.index := by
    unfold index
    rw [hws.1,hws.2.1,hws.2.2]
  obtain ⟨cyl,surface,sector,heq⟩ := incrementRkda_eq w
  unfold sectorDone
  rw [hw]
  rw [hwi] at hindex
  unfold advance at hw
  dsimp only at hw
  split_ifs at hw with hi
  · have hi' : s.iba=true := hi
    subst hw
    rw [heq] at hindex hsector hsurface ⊢
    refine ⟨rfl,rfl,rfl,rfl,rfl,?_,hrkwc,fun hn => ?_,fun _ => ⟨rfl,rfl⟩,hindex,hsector,hsurface,rfl,rfl,
      rfl,rfl,rfl,rfl,rfl,rfl,rfl⟩
    · rw [if_pos hi']
      rfl
    · rw [hi'] at hn
      cases hn
  · have hi' : ¬s.iba=true := hi
    subst hw
    rw [heq] at hindex hsector hsurface ⊢
    refine ⟨rfl,rfl,rfl,rfl,rfl,?_,hrkwc,fun _ => ⟨rfl,rfl⟩,fun hn => absurd hn hi',hindex,hsector,
      hsurface,rfl,rfl,rfl,rfl,rfl,rfl,rfl,rfl,rfl⟩
    rw [if_neg hi',Nat.mul_comm]
    rfl

theorem OnPack.sectorMoved (h : OnPack s) (hb : s.Answers s.chunk) :
    ∃ mem pack wce abort,After s mem pack wce abort s.pass ∧
      (s.function=.read → mem=s.loaded s.chunk) ∧ (s.function≠.read → mem=s.bus.mem) ∧
      (s.function=.write → pack=patch s.pack s.imageOffset (s.source s.chunk++replicate (rkSector-s.chunk) 0)) ∧
      (s.function≠.write → pack=s.pack) ∧ (s.function=.writeCheck → wce=(s.wce ||
        decide (s.source s.chunk≠slice s.pack s.imageOffset s.chunk)) ∧ abort=(wce && s.sse)) ∧
      (s.function≠.writeCheck → wce=s.wce ∧ abort=false) := by
  have hcount := count_eq s h.underway.format
  obtain ⟨htb,hts⟩ := h.underway.toMemory hb
  obtain ⟨hfb,hfs,hfl⟩ := h.underway.fromMemory hb
  have habort := h.underway.abort
  have hdata : s.function=.read → (if s.format then UInt16.ofNat (s.cyl*32) ::
      (replicate rkSector (0 : UInt16)).drop 1 else slice s.pack s.imageOffset rkSector) =
      slice s.pack s.imageOffset rkSector := fun hf => if_neg (by rw [h.underway.format hf]; simp)
  rw [h.pass]
  cases hf : s.function with
  | read =>
    refine ⟨s.loaded s.chunk,s.pack,s.wce,false,?_,fun _ => rfl,fun hn => absurd rfl hn,
      fun hn => (by cases hn),fun _ => rfl,fun hn => (by cases hn),fun _ => ⟨rfl,rfl⟩⟩
    unfold transferSector
    rw [hcount,hf]
    dsimp only
    rw [hdata hf,hts,if_pos rfl,htb]
    refine h.after ((slice s.pack s.imageOffset rkSector).getD (s.chunk-1) 0) s.err ?_
    unfold onSector
    rw [habort,hf]
  | write =>
    refine ⟨s.bus.mem,_,s.wce,false,?_,fun hn => (by cases hn),fun _ => rfl,fun _ => rfl,
      fun hn => absurd rfl hn,fun hn => (by cases hn),fun _ => ⟨rfl,rfl⟩⟩
    unfold transferSector
    rw [hcount,hf]
    dsimp only
    rw [hfs,if_pos rfl,hfb,hfl]
    refine h.after s.rkdb s.err ?_
    unfold onSector
    rw [habort,hf]
    rfl
  | writeCheck =>
    refine ⟨s.bus.mem,s.pack,_,_,?_,fun hn => (by cases hn),fun _ => rfl,fun hn => (by cases hn),fun _ => rfl,
      fun _ => ⟨rfl,rfl⟩,fun hn => absurd rfl hn⟩
    unfold transferSector
    rw [hcount,hf]
    dsimp only
    rw [hfs,if_pos rfl,hfb,hfl,take_left' (source_length _ _),slice_take _ _ _ _ s.chunk_le]
    refine h.after s.rkdb
      (s.err || decide (s.source s.chunk≠slice s.pack s.imageOffset s.chunk)) ?_
    unfold onSector
    rw [hf]

theorem OnPack.timeout (h : OnPack s) (hb : ¬s.Answers s.chunk) :
    s.pass.nxm=true ∧ s.pass.abort ∧ s.pass.rkwc=(0x10000-(s.count-s.chunk))%0x10000 := by
  have hcount := count_eq s h.underway.format
  obtain ⟨ht,hf⟩ := h.underway.unanswered hb
  have hdata : s.function=.read → (if s.format then UInt16.ofNat (s.cyl*32) ::
      (replicate rkSector (0 : UInt16)).drop 1 else slice s.pack s.imageOffset rkSector) =
      slice s.pack s.imageOffset rkSector := fun hf => if_neg (by rw [h.underway.format hf]; simp)
  have hsmall := h.underway.small
  have hrkwc : (-(s.currentCount-s.chunk)%0x10000).toNat=(0x10000-(s.count-s.chunk))%0x10000 := by
    have := h.underway.busy
    unfold chunk count
    omega
  have hdone : ∀ v : Rk11,v.nxm=true → v.abort=true → v.currentCount=s.currentCount →
      (v.sectorDone s.chunk).nxm=true ∧ (v.sectorDone s.chunk).abort=true ∧
        (v.sectorDone s.chunk).rkwc=(0x10000-(s.count-s.chunk))%0x10000 := by
    intro v hn ha hc
    obtain ⟨cyl,surface,sector,heq⟩ := incrementRkda_eq (v.advance s.chunk)
    unfold sectorDone
    rw [heq]
    unfold advance
    dsimp only
    split_ifs
    all_goals exact ⟨hn,ha,by rw [← hrkwc,← hc]⟩
  rw [h.pass]
  unfold transferSector
  rw [hcount]
  cases hfun : s.function with
  | read =>
    dsimp only
    rw [hdata hfun,ht,if_neg (by simp)]
    exact hdone _ rfl rfl rfl
  | write | writeCheck =>
    dsimp only
    rw [hf,if_neg (by simp)]
    exact hdone _ rfl rfl rfl

def fit (s : Rk11) : Nat := if s.sector≤11 then rkSector*(4872-s.index) else 0

/-- A write check stops on a soft error after `n` words. -/
def StopAt (s : Rk11) (n : Nat) : Prop :=
  s.function=.writeCheck ∧ s.sse=true ∧ (s.wce=true ∨ s.source n≠slice s.pack s.imageOffset n)

end Rk11

inductive RkEnd
  | complete | pastPack | softError | timeout
  deriving DecidableEq,Repr

namespace Rk11

/-- `n` words are those that a transfer moves, word by word, until it ends. -/
structure Ends (s : Rk11) (n : Nat) (e : RkEnd) : Prop where
  count : n ≤ s.count
  fit : n ≤ s.fit
  answers : s.Answers n
  goesOn : ∀ j,0<j → rkSector*j<n → ¬s.StopAt (rkSector*j)
  complete : e=.complete → n=s.count
  pastPack : e=.pastPack → n<s.count ∧ n=s.fit ∧ (0<n → ¬s.StopAt n)
  softError : e=.softError → n<s.count ∧ 0<n ∧ rkSector ∣ n ∧ s.StopAt n
  timeout : e=.timeout → n<s.count ∧ n<s.fit ∧ ¬s.Answers (n+1)

/-- What a transfer of `n` words leaves -/
structure Moved (s : Rk11) (n : Nat) (e : RkEnd) (t : Rk11) : Prop where
  read : s.function=.read → t.bus.mem=if n=0 then s.bus.mem else s.loaded n
  memory : s.function≠.read → t.bus.mem=s.bus.mem
  write : s.function=.write → t.pack=patch s.pack s.imageOffset (zeroFilled rkSector (s.source n))
  kept : s.function≠.write → t.pack=s.pack
  wce : t.wce=true ↔
    s.wce=true ∨ s.function=.writeCheck ∧ s.source n≠slice s.pack s.imageOffset n
  rkwc : t.rkwc=(s.rkwc+n)%0x10000
  ba : s.iba=false → 0<n →
    t.rkba=(s.currentAddress+2*n)%0x10000 ∧ t.mex=(s.currentAddress+2*n)/0x10000%4
  baKept : s.iba=true ∨ n=0 → t.rkba=s.rkba ∧ t.mex=s.mex
  index : t.index=s.index+(n+255)/rkSector
  normal : s.sector≤11 → t.sector≤11 ∧ t.surface<2
  nxs : t.nxs=true ↔ e=.pastPack ∧ 11<s.sector
  nxc : t.nxc=true ↔ e=.pastPack ∧ (s.sector≤11 ∨ 202<s.cyl)
  ovr : t.ovr=true ↔ e=.pastPack ∧ (s.sector≤11 ∨ 202<s.cyl)
  nxm : t.nxm=true ↔ e=.timeout

theorem source_add (s : Rk11) (m n : Nat) : s.source (m+n)=s.source m ++
    if s.iba then replicate n (s.bus.mem (s.currentAddress/2)) else slice s.bus.mem (s.currentAddress/2+m) n := by
  unfold source
  split_ifs
  · rw [replicate_add]
  · exact slice_append _ _ _ _

theorem patch_over (f : Nat → UInt16) (a : Nat) (x y : UInt16) : patch (patch f a [x]) a [y]=patch f a [y] := by
  funext i
  apply patch_congr
  intro hi
  exact patch_outside f a [x] i hi

/-- A whole sector has been moved, and more follow. -/
structure Whole (s : Rk11) (u : Rk11) : Prop where
  onPack : OnPack s
  more : rkSector<s.count
  answers : s.Answers rkSector
  goesOn : ¬s.StopAt rkSector
  read : s.function=.read → u.bus.mem=s.loaded rkSector
  memory : s.function≠.read → u.bus.mem=s.bus.mem
  write : s.function=.write → u.pack=patch s.pack s.imageOffset (s.source rkSector)
  kept : s.function≠.write → u.pack=s.pack
  wce : u.wce=true ↔ s.wce=true ∨
    s.function=.writeCheck ∧ s.source rkSector≠slice s.pack s.imageOffset rkSector
  after : ∃ mem pack wce abort,After s mem pack wce abort u

namespace Whole

variable {s u t : Rk11}

theorem function (h : Whole s u) : u.function=s.function := by
  obtain ⟨_,_,_,_,ha⟩ := h.after
  exact ha.function

theorem iba (h : Whole s u) : u.iba=s.iba := by
  obtain ⟨_,_,_,_,ha⟩ := h.after
  exact ha.iba

theorem chunk (h : Whole s u) : s.chunk=rkSector := by
  have := h.more
  unfold Rk11.chunk
  omega

theorem count (h : Whole s u) : u.count=s.count-rkSector := by
  obtain ⟨_,_,_,_,ha⟩ := h.after
  have hc := ha.currentCount
  have hm := h.more
  rw [h.chunk] at hc
  unfold Rk11.count at *
  omega

theorem address (h : Whole s u) :
    u.currentAddress=if s.iba then s.currentAddress else s.currentAddress+2*rkSector := by
  obtain ⟨_,_,_,_,ha⟩ := h.after
  rw [ha.currentAddress,h.chunk]

theorem offset (h : Whole s u) : u.imageOffset=s.imageOffset+rkSector := by
  obtain ⟨_,_,_,_,ha⟩ := h.after
  have hi := ha.index
  unfold Rk11.index at hi
  unfold Rk11.imageOffset
  rw [hi]
  ring

theorem source (h : Whole s u) (hf : s.function≠.read) (n : Nat) :
    s.source (rkSector+n)=s.source rkSector++u.source n := by
  rw [source_add]
  congr 1
  unfold Rk11.source
  rw [h.iba,h.memory hf,h.address]
  split_ifs
  · rfl
  · rw [Nat.add_mul_div_left _ _ (by omega)]

theorem differs (h : Whole s u) (hf : s.function=.writeCheck) (n : Nat) :
    s.source (rkSector+n)≠slice s.pack s.imageOffset (rkSector+n) ↔
      s.source rkSector≠slice s.pack s.imageOffset rkSector ∨ u.source n≠slice u.pack u.imageOffset n := by
  have hinj : ∀ ws vs xs ys : List UInt16,ws.length=xs.length →
      (ws++vs=xs++ys ↔ ws=xs ∧ vs=ys) := fun ws vs xs ys hl =>
    ⟨fun heq => List.append_inj heq hl,fun heq => by rw [heq.1,heq.2]⟩
  rw [h.source (by rw [hf]; simp),slice_append,h.kept (by rw [hf]; simp),h.offset,Ne,
    hinj _ _ _ _ (by simp)]
  tauto

theorem stopAt (h : Whole s u) (n : Nat) : s.StopAt (rkSector+n) ↔ u.StopAt n := by
  obtain ⟨_,_,_,_,ha⟩ := h.after
  unfold StopAt
  rw [h.function,ha.sse,h.wce]
  by_cases hf : s.function=.writeCheck
  · rw [h.differs hf]
    tauto
  · simp only [hf,false_and]

theorem answers_iff (h : Whole s u) (n : Nat) : s.Answers (rkSector+n) ↔ u.Answers n := by
  obtain ⟨_,_,_,_,ha⟩ := h.after
  have hb := h.answers
  have hcongr : ∀ addr n,u.bus.HasAt addr n ↔ s.bus.HasAt addr n :=
    hasAt_congr (by rw [ha.bus]) (by rw [ha.bus])
  unfold Answers at *
  rw [hcongr,h.iba,h.address]
  cases hi : s.iba with
  | true =>
    rw [hi,if_pos rfl] at hb
    simp only [if_true]
    rw [show min (rkSector+n) 1=1 by unfold rkSector; omega]
    rw [show min rkSector 1=1 by rfl] at hb
    exact iff_of_true hb fun i hi => hb i (by omega)
  | false =>
    rw [hi,if_neg (by simp)] at hb
    simp only [Bool.false_eq_true,if_false]
    rw [hasAt_add]
    exact and_iff_right hb

theorem fit (h : Whole s u) : s.fit=rkSector+u.fit := by
  obtain ⟨_,_,_,_,ha⟩ := h.after
  have hsec := h.onPack.sector
  have hcyl := h.onPack.cyl
  have hsurf := h.onPack.underway.surface
  have hi := ha.index
  unfold Rk11.fit
  rw [if_pos hsec,if_pos ha.sector,hi]
  unfold Rk11.index rkSector
  omega

theorem ends_iff (h : Whole s u) (n : Nat) (e : RkEnd) : Ends s (rkSector+n) e ↔ Ends u n e := by
  have hcount := h.count
  have hfit := h.fit
  have hmore := h.more
  have hstop := h.goesOn
  have hpos : 0 < rkSector := by decide
  constructor
  · intro he
    refine ⟨by have := he.count; omega,by have := he.fit; omega,(h.answers_iff n).mp he.answers,
      fun j h0 hj => ?_,fun hk => by have := he.complete hk; omega,fun hk => ?_,fun hk => ?_,fun hk => ?_⟩
    · rw [← h.stopAt,show rkSector+rkSector*j=rkSector*(j+1) by ring]
      exact he.goesOn (j+1) (by omega) (by rw [Nat.mul_add]; omega)
    · obtain ⟨h1,h2,h3⟩ := he.pastPack hk
      exact ⟨by omega,by omega,fun _ => (h.stopAt n).not.mp (h3 (by omega))⟩
    · obtain ⟨h1,_,h2,h3⟩ := he.softError hk
      have hn : 0<n := by
        rcases Nat.eq_zero_or_pos n with h0 | h0
        · rw [h0,Nat.add_zero] at h3
          exact absurd h3 hstop
        · exact h0
      exact ⟨by omega,hn,(Nat.dvd_add_right (Nat.dvd_refl _)).mp h2,(h.stopAt n).mp h3⟩
    · obtain ⟨h1,h2,h3⟩ := he.timeout hk
      exact ⟨by omega,by omega,(h.answers_iff (n+1)).not.mp h3⟩
  · intro he
    refine ⟨by have := he.count; omega,by have := he.fit; omega,(h.answers_iff n).mpr he.answers,
      fun j h0 hj => ?_,fun hk => by have := he.complete hk; omega,fun hk => ?_,fun hk => ?_,fun hk => ?_⟩
    · obtain ⟨j,rfl⟩ : ∃ k,j=k+1 := ⟨j-1,by omega⟩
      rcases Nat.eq_zero_or_pos j with hz | hz
      · rw [hz]
        exact hstop
      · rw [Nat.mul_add,Nat.mul_one,Nat.add_comm,h.stopAt]
        exact he.goesOn j hz (by rw [Nat.mul_add] at hj; omega)
    · obtain ⟨h1,h2,h3⟩ := he.pastPack hk
      refine ⟨by omega,by omega,fun _ => ?_⟩
      rcases Nat.eq_zero_or_pos n with hz | hz
      · rw [hz]
        exact hstop
      · exact (h.stopAt n).not.mpr (h3 hz)
    · obtain ⟨h1,h2,h3,h4⟩ := he.softError hk
      exact ⟨by omega,by omega,(Nat.dvd_add_right (Nat.dvd_refl _)).mpr h3,(h.stopAt n).mpr h4⟩
    · obtain ⟨h1,h2,h3⟩ := he.timeout hk
      exact ⟨by omega,by omega,(h.answers_iff (n+1)).not.mpr h3⟩

theorem moved (h : Whole s u) {n : Nat} {e : RkEnd} (ht : Moved u n e t) : Moved s (rkSector+n) e t := by
  obtain ⟨mem,pack,wce,abort,ha⟩ := h.after
  have hcount := h.count
  have hmore := h.more
  have hund := h.onPack.underway
  have hsec := h.onPack.sector
  have hoff := h.offset
  have haddr := h.address
  have hsmall : s.count<0x8000 := by
    have := hund.small
    unfold Rk11.count
    omega
  refine ⟨fun hf => ?_,fun hf => ?_,fun hf => ?_,fun hf => ?_,?_,?_,fun hi _ => ?_,fun hi => ?_,?_,
    fun _ => ht.normal ha.sector,?_,?_,?_,ht.nxm⟩
  · rw [if_neg (by unfold rkSector; omega),ht.read (h.function.trans hf),h.read hf]
    unfold loaded
    rw [h.iba,haddr,hoff,h.kept (by rw [hf]; simp),h.read hf]
    unfold loaded
    cases hi : s.iba with
    | true =>
      simp only [if_true,slice_one]
      by_cases h0 : n=0
      · rw [if_pos h0,h0]
        rfl
      · rw [if_neg h0,patch_over,show s.imageOffset+rkSector+(n-1)=s.imageOffset+(rkSector+n-1) by omega]
    | false =>
      simp only [Bool.false_eq_true,if_false]
      rw [slice_append,patch_append,slice_length,Nat.add_mul_div_left _ _ (by omega)]
      by_cases h0 : n=0
      · rw [if_pos h0,h0,slice_zero,patch_nil]
      · rw [if_neg h0]
  · rw [ht.memory (by rw [h.function]; exact hf),h.memory hf]
  · rw [ht.write (h.function.trans hf),h.write hf,hoff,h.source (by rw [hf]; simp),
      zeroFilled_sector (source_length _ _),patch_append,source_length]
  · rw [ht.kept (by rw [h.function]; exact hf),h.kept hf]
  · rw [ht.wce,h.wce,h.function]
    by_cases hf : s.function=.writeCheck
    · rw [h.differs hf]
      tauto
    · simp only [hf,false_and,or_false]
  · rw [ht.rkwc,ha.rkwc,hund.rkwc,hcount]
    unfold rkSector at *
    omega
  · have haddr' : u.currentAddress=s.currentAddress+2*rkSector := by
      rw [haddr,hi]
      rfl
    rcases Nat.eq_zero_or_pos n with h0 | h0
    · obtain ⟨h1,h2⟩ := ht.baKept (.inr h0)
      obtain ⟨h3,h4⟩ := ha.ba hi
      rw [h1,h2,h3,h4,haddr',h0]
      exact ⟨rfl,rfl⟩
    · obtain ⟨h1,h2⟩ := ht.ba (h.iba.trans hi) h0
      rw [h1,h2,haddr',Nat.mul_add,← Nat.add_assoc]
      exact ⟨rfl,rfl⟩
  · rcases hi with hi | hi
    · obtain ⟨h1,h2⟩ := ht.baKept (.inl (h.iba.trans hi))
      obtain ⟨h3,h4⟩ := ha.baKept hi
      exact ⟨h1.trans h3,h2.trans h4⟩
    · unfold rkSector at hi
      omega
  · rw [ht.index,ha.index]
    unfold rkSector
    omega
  · rw [ht.nxs]
    have := ha.sector
    constructor
    all_goals
      rintro ⟨_,_⟩
      omega
  · rw [ht.nxc]
    have := ha.sector
    tauto
  · rw [ht.ovr]
    have := ha.sector
    tauto

end Whole

structure Clear (s : Rk11) : Prop where
  nxs : s.nxs=false
  nxc : s.nxc=false
  ovr : s.ovr=false
  nxm : s.nxm=false

theorem After.clear {s u : Rk11} {mem pack : Nat → UInt16} {wce abort : Bool}
    (ha : After s mem pack wce abort u) (h : Clear s) : Clear u :=
  ⟨ha.nxs.trans h.nxs,ha.nxc.trans h.nxc,ha.ovr.trans h.ovr,ha.nxm.trans h.nxm⟩

theorem OnPack.movedOne {s u : Rk11} {mem pack : Nat → UInt16} {wce abort : Bool} {e : RkEnd}
    (h : OnPack s) (hclear : Clear s) (ha : After s mem pack wce abort u)
    (hread : s.function=.read → mem=s.loaded s.chunk) (hmem : s.function≠.read → mem=s.bus.mem)
    (hwrite : s.function=.write → pack=patch s.pack s.imageOffset (s.source s.chunk++replicate (rkSector-s.chunk) 0))
    (hkept : s.function≠.write → pack=s.pack) (hcheck : s.function=.writeCheck → wce=(s.wce ||
      decide (s.source s.chunk≠slice s.pack s.imageOffset s.chunk)))
    (hun : s.function≠.writeCheck → wce=s.wce) (he : e=.complete ∨ e=.softError) : Moved s s.chunk e u := by
  have hund := h.underway
  have hpos := hund.chunk_pos
  have hle := s.chunk_le
  have hsec := h.sector
  have hnp : e≠.pastPack ∧ e≠.timeout := by
    rcases he with he | he <;> rw [he] <;> exact ⟨by decide,by decide⟩
  have hcount : u.count=s.count-s.chunk ∧ s.chunk ≤ s.count ∧ s.count<0x8000 := by
    have hc := ha.currentCount
    have := hund.busy
    have := hund.small
    unfold chunk count at *
    omega
  refine ⟨fun hf => ?_,fun hf => ?_,fun hf => ?_,fun hf => ?_,?_,?_,fun hi _ => ?_,fun hi => ?_,?_,
    fun _ => ⟨ha.sector,ha.surface⟩,?_,?_,?_,?_⟩
  · rw [if_neg (by omega),ha.bus]
    exact hread hf
  · rw [ha.bus]
    exact hmem hf
  · rw [ha.pack,hwrite hf,zeroFilled_last (by simpa using hpos) (by simpa using hle),source_length]
  · rw [ha.pack,hkept hf]
  · rw [ha.wce]
    by_cases hf : s.function=.writeCheck
    · rw [hcheck hf]
      simp [hf]
    · rw [hun hf]
      simp [hf]
  · rw [ha.rkwc,hund.rkwc,hcount.1]
    omega
  · obtain ⟨h1,h2⟩ := ha.ba hi
    rw [h1,h2,ha.currentAddress,hi]
    exact ⟨rfl,rfl⟩
  · rcases hi with hi | hi
    · exact ha.baKept hi
    · omega
  · rw [ha.index]
    unfold rkSector at *
    omega
  · rw [ha.nxs,hclear.nxs]
    simp [hnp.1]
  · rw [ha.nxc,hclear.nxc]
    simp [hnp.1]
  · rw [ha.ovr,hclear.ovr]
    simp [hnp.1]
  · rw [ha.nxm,hclear.nxm]
    simp [hnp.2]

variable {s : Rk11}

theorem Underway.pastPack (h : Underway s) (hclear : Clear s) (hn : 11<s.sector ∨ 202<s.cyl) :
    s.pass.abort=true ∧ Ends s 0 .pastPack ∧ Moved s 0 .pastPack s.pass := by
  have hpos := h.count_pos
  have hsurf := h.surface
  have hfit : s.fit=0 := by
    unfold fit index rkSector
    split_ifs with hs
    · omega
    · rfl
  have hpass : s.pass={ s with nxs := s.nxs || decide (s.sector > 11)
                               nxc := s.nxc || decide (s.cyl > 202)
                               nxd := s.nxd || !s.present
                               he := true
                               err := true
                               ovr := s.ovr || decide (s.cyl > 202)
                               abort := true } := by
    unfold pass validateSeek
    dsimp only
    rw [if_pos (by simp; omega)]
  have hans : s.Answers 0 := by
    unfold Answers
    intro i hi
    split_ifs at hi <;> simp at hi
  have hsource : s.source 0=[] := eq_nil_of_length_eq_zero (source_length s 0)
  rw [hpass]
  refine ⟨rfl,⟨Nat.zero_le _,Nat.zero_le _,hans,fun j _ hj => by omega,fun hk => (by cases hk),
    fun _ => ⟨hpos,hfit.symm,fun h0 => by omega⟩,fun hk => (by cases hk),fun hk => (by cases hk)⟩,
    ⟨fun _ => by rw [if_pos rfl],fun _ => rfl,fun _ => ?_,fun _ => rfl,?_,?_,fun _ h0 => by omega,
      fun _ => ⟨rfl,rfl⟩,rfl,fun hs => ⟨hs,hsurf⟩,?_,?_,?_,?_⟩⟩
  · rw [hsource,zeroFilled_nil,patch_nil]
  · rw [hsource]
    simp
  · show s.rkwc=(s.rkwc+0)%0x10000
    rw [h.rkwc]
    omega
  · simp only [hclear.nxs,Bool.false_or,decide_eq_true_eq,true_and,gt_iff_lt]
  · simp only [hclear.nxc,Bool.false_or,decide_eq_true_eq,true_and]
    omega
  · simp only [hclear.ovr,Bool.false_or,decide_eq_true_eq,true_and]
    omega
  · simp only [hclear.nxm]
    decide

/-- From one of its states on the loop ends as the transfer does word by word, or on a sector whose words do not all
answer, where that would end in a time out too. -/
def Outcome (s t : Rk11) : Prop :=
  (∃ n e,e≠.timeout ∧ Ends s n e ∧ Moved s n e t) ∨
  (t.nxm=true ∧ (∃ m ≤ s.count,¬s.Answers m ∧ t.rkwc=(s.rkwc+m)%0x10000) ∧
    ∀ n e,Ends s n e → e=.timeout)

theorem Answers.mono {m n : Nat} (h : s.Answers n) (hm : m≤n) : s.Answers m := by
  unfold Answers at *
  intro i hi
  refine h i ?_
  split_ifs at hi ⊢ <;> omega

theorem Ends.chunk_le (h : OnPack s) {n : Nat} {e : RkEnd} (he : Ends s n e) (hne : e≠.timeout) : s.chunk≤n := by
  have hsec := h.sector
  have hcyl := h.cyl
  have hsurf := h.underway.surface
  have hle := s.chunk_le
  have hfit : rkSector ≤ s.fit := by
    unfold Rk11.fit Rk11.index rkSector
    rw [if_pos hsec]
    omega
  have hcount : s.chunk ≤ s.count := Nat.min_le_right _ _
  cases e with
  | complete =>
    rw [he.complete rfl]
    exact hcount
  | pastPack =>
    obtain ⟨-,h2,-⟩ := he.pastPack rfl
    omega
  | softError =>
    obtain ⟨-,h2,h3,-⟩ := he.softError rfl
    exact hle.trans (Nat.le_of_dvd h2 h3)
  | timeout => exact absurd rfl hne

theorem Whole.outcome {s t u : Rk11} (h : Whole s u) (ho : Outcome u t) : Outcome s t := by
  obtain ⟨mem,pack,wce,abort,ha⟩ := h.after
  have hmore := h.more
  have hcount := h.count
  have hsmall : s.count<0x8000 := by
    have := h.onPack.underway.small
    unfold Rk11.count
    omega
  rcases ho with ⟨n,e,hne,he,hm⟩ | ⟨hn,⟨m,hm,hans,hr⟩,hall⟩
  · exact .inl ⟨_,e,hne,(h.ends_iff n e).mpr he,h.moved hm⟩
  · refine .inr ⟨hn,⟨rkSector+m,by omega,(h.answers_iff m).not.mpr hans,?_⟩,fun n e he => ?_⟩
    · rw [hr,ha.rkwc,h.onPack.underway.rkwc,hcount]
      unfold rkSector at *
      omega
    · by_contra hne
      have hle := he.chunk_le h.onPack hne
      rw [h.chunk] at hle
      obtain ⟨n,rfl⟩ : ∃ k,n=rkSector+k := ⟨n-rkSector,by omega⟩
      exact hne (hall n e ((h.ends_iff n e).mp he))

theorem Underway.transfer (h : Underway s) (hclear : Clear s) :
    ∃ t,Leads Rk11.busy Rk11.pass s t ∧ t.busy=false ∧ Outcome s t := by
  -- by the words that are left
  generalize hk : s.count=k
  induction k using Nat.strong_induction_on generalizing s with
  | _ k ih =>
    have hone : Leads Rk11.busy Rk11.pass s s.pass := Leads.one (by
      unfold Rk11.busy
      rw [h.abort,decide_eq_true h.busy]
      rfl)
    by_cases hpack : s.sector≤11 ∧ s.cyl≤202
    · have hon : OnPack s := ⟨h,hpack.1,hpack.2⟩
      have hcpos := h.chunk_pos
      by_cases hb : s.Answers s.chunk
      · obtain ⟨mem,pack,wce,abort,ha,hread,hmem,hwrite,hkept,hcheck,hun⟩ := hon.sectorMoved hb
        have hmoved : ∀ e,e=.complete ∨ e=.softError → Moved s s.chunk e s.pass := fun e he =>
          hon.movedOne hclear ha hread hmem hwrite hkept (fun hf => (hcheck hf).1)
            (fun hf => (hun hf).1) he
        have hfit : rkSector ≤ s.fit := by
          have := hpack.1
          have := hpack.2
          have := h.surface
          unfold Rk11.fit Rk11.index rkSector
          rw [if_pos hpack.1]
          omega
        have hcle := s.chunk_le
        by_cases hlast : s.count ≤ rkSector
        · have hc : s.chunk=s.count := by
            unfold Rk11.chunk
            omega
          refine ⟨_,hone,?_,.inl ⟨s.chunk,.complete,by decide,⟨by omega,by omega,hb,fun j h0 hj => ?_,
            fun _ => hc,fun hk => (by cases hk),fun hk => (by cases hk),fun hk => (by cases hk)⟩,
            hmoved _ (.inl rfl)⟩⟩
          · have hz : s.pass.currentCount=0 := by
              rw [ha.currentCount,hc]
              have := h.busy
              unfold Rk11.count
              omega
            unfold Rk11.busy
            rw [hz]
            rfl
          · have := Nat.le_mul_of_pos_right rkSector h0
            omega
        · have hc : s.chunk=rkSector := by
            unfold Rk11.chunk
            omega
          rw [hc] at hb hread hwrite hcheck hmoved
          rw [Nat.sub_self,List.replicate_zero,append_nil] at hwrite
          by_cases hstop : s.StopAt rkSector
          · have habort : s.pass.abort=true := by
              rw [ha.abort,(hcheck hstop.1).2,(hcheck hstop.1).1,hstop.2.1]
              rcases hstop.2.2 with hw | hd
              · rw [hw]
                rfl
              · rw [decide_eq_true hd]
                simp
            refine ⟨_,hone,by unfold Rk11.busy; rw [habort]; simp,.inl ⟨rkSector,.softError,by decide,
              ⟨by omega,hfit,hb,fun j h0 hj => ?_,fun hk => (by cases hk),fun hk => (by cases hk),
              fun _ => ⟨by omega,by decide,Nat.dvd_refl _,hstop⟩,fun hk => (by cases hk)⟩,
              hmoved _ (.inr rfl)⟩⟩
            have := Nat.le_mul_of_pos_right rkSector h0
            omega
          · have habort : abort=false := by
              by_cases hf : s.function=.writeCheck
              · rw [(hcheck hf).2,(hcheck hf).1]
                rw [← Bool.not_eq_true]
                intro hn
                simp only [Bool.and_eq_true,Bool.or_eq_true,decide_eq_true_eq] at hn
                exact hstop ⟨hf,hn.2,hn.1⟩
              · exact (hun hf).2
            have hwhole : Whole s s.pass := by
              refine ⟨hon,by omega,hb,hstop,fun hf => ?_,fun hf => ?_,fun hf => ?_,fun hf => ?_,?_,
                ⟨_,_,_,_,ha⟩⟩
              · rw [ha.bus]
                exact hread hf
              · rw [ha.bus]
                exact hmem hf
              · rw [ha.pack,hwrite hf]
              · rw [ha.pack,hkept hf]
              · rw [ha.wce]
                by_cases hf : s.function=.writeCheck
                · rw [(hcheck hf).1]
                  simp [hf]
                · rw [(hun hf).1]
                  simp [hf]
            have hcount := hwhole.count
            have hbusy := h.busy
            have hsmall := h.small
            have hcc := ha.currentCount
            rw [hc] at hcc
            have hu : Underway s.pass := by
              refine ⟨?_,?_,by rw [ha.abort,habort],ha.rkwc,by rw [ha.present,h.present],ha.surface,
                fun hf => ?_⟩
              · rw [hcc]
                unfold Rk11.count at hlast
                omega
              · omega
              · rw [ha.format]
                exact h.format (ha.function.symm.trans hf)
            obtain ⟨t,hl,hr,ho⟩ := ih s.pass.count (by unfold rkSector at *; omega) hu
              (ha.clear hclear) rfl
            exact ⟨t,hone.trans hl,hr,hwhole.outcome ho⟩
      · obtain ⟨hn,habort,hr⟩ := hon.timeout hb
        have hcle : s.chunk ≤ s.count := Nat.min_le_right _ _
        have hsmall : s.count<0x8000 := by
          have := h.small
          unfold Rk11.count
          omega
        refine ⟨_,hone,by unfold Rk11.busy; rw [habort]; simp,.inr ⟨hn,⟨s.chunk,hcle,hb,?_⟩,
          fun n e he => ?_⟩⟩
        · rw [hr,h.rkwc]
          omega
        · by_contra hne
          exact hb (he.answers.mono (he.chunk_le hon hne))
    · obtain ⟨habort,he,hm⟩ := h.pastPack hclear (by omega)
      exact ⟨_,hone,by unfold Rk11.busy; rw [habort]; simp,.inl ⟨0,.pastPack,by decide,he,hm⟩⟩

def asked (s : Rk11) : Rk11 :=
  { s with currentAddress := s.address,currentCount := 0x10000-s.rkwc,abort := false }

def TransferRight (s t : Rk11) : Prop := ∃ n e,Ends s.asked n e ∧ Moved s.asked n e t

/-- A command that the controller has accepted, with no hard error standing -/
structure Accepted (s : Rk11) : Prop where
  clear : Clear s
  rkwc : s.rkwc<0x10000
  present : s.present=true
  surface : s.surface<2
  format : s.function=.read → s.format=false

theorem startCount_small (h : s.rkwc<0x10000) (hw : 0x8000<s.rkwc) : s.startCount=0x10000-s.rkwc := by
  unfold startCount
  have h1 : Int.bmod s.rkwc 0x10000=s.rkwc-0x10000 := by
    rw [Int.bmod_def]
    omega
  rw [h1,Int.bmod_def]
  omega

theorem startCount_large (hw : s.rkwc≤0x8000) : s.startCount≤0 := by
  unfold startCount
  rw [Int.bmod_def,Int.bmod_def]
  omega

theorem Accepted.nothing {s t : Rk11} (h : Accepted s) (hindex : t.index=s.index)
    (hnxs : t.nxs=false) (hnxc : t.nxc=false) (hnxm : t.nxm=false) : ¬TransferRight s t := by
  rintro ⟨n,e,he,hm⟩
  have hn : n=0 := by
    have hi := hm.index
    have ha : s.asked.index=s.index := rfl
    unfold rkSector at hi
    omega
  subst hn
  have hcount : 0<s.asked.count := by
    have := h.rkwc
    show 0<((0x10000 : Int)-s.rkwc).toNat
    omega
  cases e with
  | complete =>
    have := he.complete rfl
    omega
  | pastPack =>
    have h1 := hm.nxs.not.mp (by rw [hnxs]; simp)
    have h2 := hm.nxc.not.mp (by rw [hnxc]; simp)
    simp only [true_and] at h1 h2
    omega
  | softError =>
    have := he.softError rfl
    omega
  | timeout =>
    have := hm.nxm.mpr rfl
    rw [hnxm] at this
    cases this

theorem Accepted.tooMany (h : Accepted s) (hw : s.rkwc≤0x8000) :
    ∃ t,(∀ fuel,execute s fuel=some t) ∧ ¬TransferRight s t := by
  have hz := startCount_large hw
  refine ⟨{ s with currentAddress := s.address,currentCount := s.startCount,abort := false },
    fun fuel => ?_,h.nothing rfl h.clear.nxs h.clear.nxc h.clear.nxm⟩
  have hb : busy { s with currentAddress := s.address,currentCount := s.startCount,abort := false } =
      false := by
    have hneg : ¬0<s.startCount := Int.not_lt.mpr hz
    unfold busy
    simp only [hneg,decide_false,Bool.false_and]
  unfold execute
  cases fuel with
  | zero | succ fuel => rw [runWhile,hb,if_neg (by simp)]

/-- A write command for `words` words from the start of the pack -/
def sample (words : Nat) : Rk11 :=
  ⟨.write,false,false,false,0,0,0,false,(0x10000-words)%0x10000,0,0,0,0,0,0,true,false,false,false,false,
    false,false,false,false,fun _ => 7,⟨0x20000,fun _ => true,fun i => UInt16.ofNat i⟩⟩

theorem sample_accepted (words : Nat) : Accepted (sample words) :=
  ⟨⟨rfl,rfl,rfl,rfl⟩,Nat.mod_lt _ (by omega),rfl,Nat.zero_lt_two,fun hf => (by cases hf)⟩

end Rk11

end QUniLator.Disks
