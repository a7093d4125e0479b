import QUniLator.Framework.Splice

namespace QUniLator

open List Bool List

/-- A host file: its length and its bytes. Past the end every byte counts as zero, which is what a
reader that clears its buffer first gets there. -/
@[ext] structure File where
  size : Nat
  byte : Nat → UInt8
  pastEnd : ∀ i,size ≤ i → byte i=0

namespace File

def empty : File := ⟨0,fun _ => 0,fun _ _ => rfl⟩

/-- The file holding exactly `bs`. -/
def ofBytes (bs : List UInt8) : File :=
  ⟨bs.length,patch (fun _ => 0) 0 bs,fun i hi => patch_after _ 0 bs i (by simpa using hi)⟩

def pread (f : File) (n pos : Nat) : List UInt8 := slice f.byte pos (min n (f.size-pos))

/-- A write past the end lengthens the file, with zeros up to `pos`. -/
def pwrite (f : File) (bs : List UInt8) (pos : Nat) : File :=
  if h : bs=[] then f
  else ⟨max f.size (pos+bs.length),patch f.byte pos bs,fun i hi => by
    rw [patch_after _ _ _ _ (by omega)]
    exact f.pastEnd i (by omega)⟩

def ftruncate (f : File) (n : Nat) : File :=
  ⟨n,fun i => if i<n then f.byte i else 0,fun i hi => by simp [Nat.not_lt.mpr hi]⟩

@[simp] theorem ftruncate_size (f : File) (n : Nat) : (f.ftruncate n).size=n := rfl

theorem ftruncate_byte (f : File) (n i : Nat) : (f.ftruncate n).byte i=if i<n then f.byte i else 0 := rfl

theorem ftruncate_grow (f : File) (n : Nat) (h : f.size≤n) : (f.ftruncate n).byte=f.byte := by
  funext i
  by_cases hi : i<n
  · simp [ftruncate_byte,hi]
  · simp [ftruncate_byte,hi,f.pastEnd i (by omega)]

theorem pwrite_byte (f : File) (bs : List UInt8) (pos : Nat) : (f.pwrite bs pos).byte=patch f.byte pos bs := by
  unfold pwrite
  split_ifs with h
  · simp [h]
  · rfl

theorem pwrite_size (f : File) (bs : List UInt8) (pos : Nat) (h : bs≠[]) :
    (f.pwrite bs pos).size=max f.size (pos+bs.length) := by
  simp [pwrite,h]

theorem ofBytes_size (bs : List UInt8) : (ofBytes bs).size=bs.length := rfl

theorem ofBytes_pread (as ms cs : List UInt8) : (ofBytes (as++(ms++cs))).pread ms.length as.length=ms := by
  have hmin : min ms.length ((as++(ms++cs)).length-as.length)=ms.length := by
    simp
  rw [pread,ofBytes_size,hmin,ofBytes]
  simp only
  rw [patch_append,patch_append,slice_patch_other _ _ cs _ _ (by omega),Nat.zero_add]
  exact slice_patch _ _ _

theorem pwrite_append (f : File) (as bs : List UInt8) (pos : Nat) (ha : as≠[]) :
    (f.pwrite as pos).pwrite bs (pos+as.length)=f.pwrite (as++bs) pos := by
  by_cases hb : bs=[]
  · simp [hb,pwrite]
  · apply File.ext
    · rw [pwrite_size _ _ _ hb,pwrite_size _ _ _ ha,pwrite_size _ _ _ (by simp [ha]),
        length_append]
      omega
    · rw [pwrite_byte,pwrite_byte,pwrite_byte,patch_append]

theorem ofBytes_rewrite (as cs bs : List UInt8) :
    ((ofBytes (as++cs)).pwrite bs as.length).ftruncate (as.length+bs.length) = ofBytes (as++bs) := by
  apply File.ext
  · simp [ofBytes_size]
  · funext i
    rw [ftruncate_byte,pwrite_byte]
    simp only [ofBytes,patch_append,Nat.zero_add]
    split_ifs with hi
    · apply patch_congr
      intro hn
      exact patch_outside _ _ _ _ (by omega)
    · rw [patch_after _ _ _ _ (by omega),patch_after _ _ _ _ (by omega)]

theorem ofBytes_cut (as cs : List UInt8) : (ofBytes (as++cs)).ftruncate as.length=ofBytes as := by
  simpa [pwrite] using ofBytes_rewrite as cs []

/-- A read into a cleared buffer of `n` bytes. -/
def preadCleared (f : File) (n pos : Nat) : List UInt8 :=
  let got := f.pread n pos
  got++replicate (n-got.length) 0

theorem preadCleared_eq (f : File) (n pos : Nat) : f.preadCleared n pos=slice f.byte pos n := by
  have hn : n=min n (f.size-pos)+(n-min n (f.size-pos)) := by omega
  simp only [preadCleared,pread,slice_length]
  conv_rhs => rw [hn,slice_append]
  congr 1
  symm
  apply eq_replicate_iff.mpr
  refine ⟨by simp,?_⟩
  intro x hx
  obtain ⟨i,hi,rfl⟩ := mem_map.mp hx
  have hr := mem_range.mp hi
  exact f.pastEnd _ (by omega)

end File

/-- A file on a file system that allocates pages of `page` bytes: `held k` says that page `k` has
received a write, and what was never written reads as zeros. -/
@[ext] structure SparseFile (page : Nat) extends File where
  held : Nat → Bool
  hole : ∀ i,held (i/page)=false → byte i=0
  inside : ∀ k,held k=true → k*page<size

namespace SparseFile
variable {page : Nat}

def empty : SparseFile page := ⟨File.empty,fun _ => false,fun _ _ => rfl,by simp⟩

private theorem held_of_inside (page pos len i : Nat) (h1 : pos ≤ i) (h2 : i<pos+len) :
    pos/page ≤ i/page ∧ i/page*page<pos+len :=
  ⟨Nat.div_le_div_right h1,(Nat.div_mul_le_self i page).trans_lt h2⟩

def pwrite (f : SparseFile page) (bs : List UInt8) (pos : Nat) : SparseFile page where
  toFile := f.toFile.pwrite bs pos
  held k := f.held k || decide (pos/page≤k ∧ k*page<pos+bs.length ∧ bs≠[])
  hole i hi := by
    simp only [or_eq_false_iff,decide_eq_false_iff_not] at hi
    rw [File.pwrite_byte,patch_outside]
    · exact f.hole i hi.1
    · intro hin
      have hl := held_of_inside page pos bs.length i hin.1 hin.2
      refine hi.2 ⟨hl.1,hl.2,?_⟩
      rintro rfl
      simp at hin
      omega
  inside k hk := by
    simp only [or_eq_true,decide_eq_true_eq] at hk
    by_cases hb : bs=[]
    · simpa [File.pwrite,hb] using f.inside k (by simpa [hb] using hk)
    · rw [File.pwrite_size _ _ _ hb]
      rcases hk with hk | hk
      · exact lt_max_of_lt_left (f.inside k hk)
      · exact lt_max_of_lt_right hk.2.1

def ftruncate (f : SparseFile page) (n : Nat) : SparseFile page where
  toFile := f.toFile.ftruncate n
  held k := f.held k && decide (k*page<n)
  hole i hi := by
    rw [File.ftruncate_byte]
    split_ifs with hn
    · simp only [and_eq_false_iff,decide_eq_false_iff_not] at hi
      rcases hi with hi | hi
      · exact f.hole i hi
      · exact absurd ((Nat.div_mul_le_self i page).trans_lt hn) hi
    · rfl
  inside k hk := by
    simp only [and_eq_true,decide_eq_true_eq] at hk
    exact hk.2

theorem ftruncate_grow_held (f : SparseFile page) (n : Nat) (h : f.size≤n) : (f.ftruncate n).held=f.held := by
  funext k
  change (f.held k && decide (k*page<n))=f.held k
  cases hk : f.held k with
  | false => rfl
  | true =>
    have hi := f.inside k hk
    simp
    omega

/-- `lseek(fd, pos, SEEK_DATA)`: the first byte of data at or after `pos`; none at or past the end
of the file, and none when only a hole follows. -/
def seekData (f : SparseFile page) (pos : Nat) : Option Nat :=
  (range' pos (f.size-pos)).find? (fun i => f.held (i/page))

/-- `lseek(fd, pos, SEEK_HOLE)`: the first byte of a hole at or after `pos`; the end of the file
counts as one. -/
def seekHole (f : SparseFile page) (pos : Nat) : Option Nat :=
  if pos<f.size then
    some (((range' pos (f.size-pos)).find? (fun i => !f.held (i/page))).getD f.size)
  else none

theorem seekData_none (f : SparseFile page) (pos : Nat) (h : f.seekData pos=none) (i : Nat)
    (h1 : pos ≤ i) (h2 : i<f.size) : f.held (i/page)=false := by
  rw [seekData,find?_eq_none] at h
  have hi := h i (mem_range'_1.mpr ⟨h1,by omega⟩)
  simpa using hi

theorem seekData_some (f : SparseFile page) (pos d : Nat) (h : f.seekData pos=some d) :
    pos≤d ∧ d<f.size ∧ f.held (d/page) ∧ ∀ i,pos ≤ i → i<d → f.held (i/page)=false := by
  rw [seekData,find?_range'_eq_some] at h
  obtain ⟨hd,hm,hb⟩ := h
  have hr := mem_range'_1.mp hm
  refine ⟨hr.1,by omega,hd,?_⟩
  intro i h1 h2
  simpa using hb i h1 h2

theorem seekHole_some (f : SparseFile page) (pos e : Nat) (h : f.seekHole pos=some e) :
    pos≤e ∧ e≤f.size ∧ (e<f.size → f.held (e/page)=false) ∧ ∀ i,pos ≤ i → i<e → f.held (i/page)=true := by
  unfold seekHole at h
  split_ifs at h with hp
  obtain rfl := Option.some.inj h
  cases hf : (range' pos (f.size-pos)).find? (fun i => !f.held (i/page)) with
  | none =>
    rw [find?_eq_none] at hf
    refine ⟨hp.le,le_refl _,fun hlt => absurd hlt (lt_irrefl _),?_⟩
    intro i h1 h2
    simpa using hf i (mem_range'_1.mpr ⟨h1,by simp only [Option.getD_none] at h2; omega⟩)
  | some e =>
    rw [find?_range'_eq_some] at hf
    obtain ⟨he,hm,hb⟩ := hf
    have hr := mem_range'_1.mp hm
    simp only [Option.getD_some]
    refine ⟨hr.1,by omega,fun _ => by simpa using he,?_⟩
    intro i h1 h2
    simpa using hb i h1 h2

theorem seekHole_data (f : SparseFile page) (pos : Nat) (h1 : pos<f.size)
    (h2 : f.held (pos/page)) : ∃ e,f.seekHole pos=some e ∧ pos<e := by
  cases hs : f.seekHole pos with
  | none => simp [seekHole,h1] at hs
  | some e =>
    have he := f.seekHole_some pos e hs
    refine ⟨e,rfl,?_⟩
    rcases Nat.lt_or_eq_of_le he.1 with h | rfl
    · exact h
    · rw [he.2.2.1 h1] at h2
      exact absurd h2 (by decide)

end SparseFile

end QUniLator
