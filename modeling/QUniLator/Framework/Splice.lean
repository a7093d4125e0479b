import Mathlib.Data.List.Basic
import Mathlib.Tactic.Ring

namespace QUniLator

open List Option List

/-- The `len` values of `f` from position `pos` on. -/
def slice {α : Type*} (f : Nat → α) (pos len : Nat) : List α :=
  (range len).map (fun i => f (pos+i))

/-- The array `f` after `bs` has been stored at `pos`. -/
def patch {α : Type*} (f : Nat → α) (pos : Nat) (bs : List α) : Nat → α :=
  fun i => if pos ≤ i then bs[i-pos]?.getD (f i) else f i

section
variable {α : Type*}

@[simp] theorem slice_length (f : Nat → α) (pos len : Nat) : (slice f pos len).length=len := by
  simp [slice]

theorem slice_getElem? (f : Nat → α) (pos len i : Nat) (hi : i<len) : (slice f pos len)[i]? = some (f (pos+i)) := by
  simp [slice,hi]

@[simp] theorem slice_zero (f : Nat → α) (pos : Nat) : slice f pos 0=[] := rfl

@[simp] theorem slice_one (f : Nat → α) (pos : Nat) : slice f pos 1=[f pos] := rfl

theorem slice_congr (f g : Nat → α) (pos len : Nat)
    (h : ∀ i,pos ≤ i → i<pos+len → f i=g i) : slice f pos len=slice g pos len := by
  apply map_congr_left
  intro i hi
  exact h (pos+i) (by omega) (by have := mem_range.mp hi; omega)

theorem slice_replicate (f : Nat → α) (pos n : Nat) (a : α)
    (h : ∀ i,pos ≤ i → i<pos+n → f i=a) : slice f pos n=replicate n a := by
  apply eq_replicate_iff.mpr
  refine ⟨slice_length _ _ _,?_⟩
  intro x hx
  obtain ⟨i,hi,rfl⟩ := mem_map.mp hx
  have := mem_range.mp hi
  exact h _ (by omega) (by omega)

theorem slice_append (f : Nat → α) (pos m n : Nat) : slice f pos (m+n)=slice f pos m++slice f (pos+m) n := by
  simp [slice,range_add,Nat.add_assoc]

theorem patch_before (f : Nat → α) (pos : Nat) (bs : List α) (i : Nat) (hi : i<pos) : patch f pos bs i=f i := by
  simp [patch,Nat.not_le.mpr hi]

theorem patch_after (f : Nat → α) (pos : Nat) (bs : List α) (i : Nat) (hi : pos+bs.length ≤ i) :
    patch f pos bs i=f i := by
  have hn : bs[i-pos]? = none := getElem?_eq_none (by omega)
  simp [patch,hn]

theorem patch_outside (f : Nat → α) (pos : Nat) (bs : List α) (i : Nat)
    (hi : ¬(pos ≤ i ∧ i<pos+bs.length)) : patch f pos bs i=f i := by
  by_cases hp : i<pos
  · exact patch_before f pos bs i hp
  · exact patch_after f pos bs i (by omega)

theorem patch_inside (f : Nat → α) (pos : Nat) (bs : List α) (i : Nat)
    (h1 : pos ≤ i) (h2 : i<pos+bs.length) : some (patch f pos bs i)=bs[i-pos]? := by
  have hl : i-pos<bs.length := by omega
  simp [patch,h1,getElem?_eq_getElem hl]

@[simp] theorem patch_nil (f : Nat → α) (pos : Nat) : patch f pos []=f := by
  funext i
  simp [patch]

theorem patch_congr (f g : Nat → α) (pos : Nat) (bs : List α) (i : Nat)
    (h : ¬(pos ≤ i ∧ i<pos+bs.length) → f i=g i) : patch f pos bs i=patch g pos bs i := by
  by_cases hi : pos ≤ i ∧ i<pos+bs.length
  · apply some.inj
    rw [patch_inside f pos bs i hi.1 hi.2,patch_inside g pos bs i hi.1 hi.2]
  · rw [patch_outside f pos bs i hi,patch_outside g pos bs i hi,h hi]

theorem patch_append (f : Nat → α) (pos : Nat) (as bs : List α) :
    patch f pos (as++bs)=patch (patch f pos as) (pos+as.length) bs := by
  funext i
  by_cases h1 : i<pos
  · rw [patch_before _ _ _ _ h1,patch_before _ _ _ _ (by omega),patch_before _ _ _ _ h1]
  by_cases h2 : i<pos+as.length
  · rw [patch_before _ (pos+as.length) _ _ h2]
    apply some.inj
    rw [patch_inside _ _ _ _ (by omega) (by simp; omega),patch_inside _ _ _ _ (by omega) h2,
      getElem?_append_left (by omega)]
  · have hs : i-pos-as.length=i-(pos+as.length) := by omega
    have hn : as[i-pos]? = none := getElem?_eq_none (by omega)
    simp [patch,getElem?_append_right (show as.length ≤ i-pos by omega),hs,hn,
      show pos ≤ i by omega,show pos+as.length ≤ i by omega]

theorem patch_shift (f : Nat → α) (a off : Nat) (bs : List α) (i : Nat) :
    patch f (a+off) bs (a+i)=patch (fun i => f (a+i)) off bs i := by
  have hs : a+i-(a+off)=i-off := by omega
  simp [patch,hs]

/-- Storing a copy of `g` over `f` gives `g` inside the range and `f` outside. -/
theorem patch_slice (f g : Nat → α) (pos len i : Nat) :
    patch f pos (slice g pos len) i=if pos ≤ i ∧ i<pos+len then g i else f i := by
  by_cases hi : pos ≤ i ∧ i<pos+len
  · rw [if_pos hi]
    apply some.inj
    rw [patch_inside _ _ _ _ hi.1 (by simpa using hi.2),slice_getElem? _ _ _ _ (by omega),
      Nat.add_sub_cancel' hi.1]
  · rw [if_neg hi]
    exact patch_outside _ _ _ _ (by simpa using hi)

theorem slice_patch (f : Nat → α) (pos : Nat) (bs : List α) : slice (patch f pos bs) pos bs.length=bs := by
  apply ext_getElem?
  intro i
  by_cases hi : i<bs.length
  · rw [slice_getElem? _ _ _ _ hi,patch_inside _ _ _ _ (by omega) (by omega),
      Nat.add_sub_cancel_left]
  · rw [getElem?_eq_none (by simp; omega),getElem?_eq_none (by omega)]

theorem slice_take (f : Nat → α) (pos len n : Nat) (h : n≤len) : (slice f pos len).take n=slice f pos n := by
  rw [show len=n+(len-n) by omega,slice_append,take_left' (slice_length f pos n)]

theorem slice_drop (f : Nat → α) (pos len n : Nat) (h : n≤len) :
    (slice f pos len).drop n=slice f (pos+n) (len-n) := by
  conv_lhs => rw [show len=n+(len-n) by omega,slice_append]
  rw [drop_left' (slice_length f pos n)]

theorem slice_patch_other (f : Nat → α) (pos : Nat) (bs : List α) (a n : Nat)
    (h : a+n≤pos ∨ pos+bs.length≤a) : slice (patch f pos bs) a n=slice f a n := by
  apply slice_congr
  intro i h1 h2
  exact patch_outside _ _ _ _ (by omega)

/-- `bs` put into the list `xs` at `off`. -/
def overwrite (xs : List α) (off : Nat) (bs : List α) : List α :=
  xs.take off++bs++xs.drop (off+bs.length)

theorem overwrite_length (xs : List α) (off : Nat) (bs : List α) (h : off+bs.length≤xs.length) :
    (overwrite xs off bs).length=xs.length := by
  simp [overwrite]
  omega

/-- A stretch of `f` with `bs` put into it is that stretch of `f` with `bs` stored. -/
theorem overwrite_slice (f : Nat → α) (pos len off : Nat) (bs : List α) (h : off+bs.length≤len) :
    overwrite (slice f pos len) off bs=slice (patch f (pos+off) bs) pos len := by
  have hl : len=off+(bs.length+(len-(off+bs.length))) := by omega
  rw [overwrite,slice_take _ _ _ _ (by omega),slice_drop _ _ _ _ h]
  conv_rhs => rw [hl,slice_append,slice_append,slice_patch]
  rw [append_assoc]
  congr 1
  · apply slice_congr
    intro i _ hi
    exact (patch_before f (pos+off) bs i hi).symm
  · congr 1
    rw [show pos+(off+bs.length)=pos+off+bs.length by omega]
    apply slice_congr
    intro i hi _
    exact (patch_after f (pos+off) bs i hi).symm

theorem patch_overwrite (f : Nat → α) (pos len off : Nat) (bs : List α) (h : off+bs.length≤len) :
    patch f pos (overwrite (slice f pos len) off bs)=patch f (pos+off) bs := by
  rw [overwrite_slice f pos len off bs h]
  funext i
  rw [patch_slice]
  split_ifs with hi
  · rfl
  · exact (patch_outside f (pos+off) bs i (by omega)).symm

theorem slice_drop_take (f : Nat → α) (pos len a n : Nat) (h : a+n≤len) :
    ((slice f pos len).drop a).take n=slice f (pos+a) n := by
  have hl : len=a+(n+(len-a-n)) := by omega
  rw [hl,slice_append,slice_append,drop_left' (slice_length f pos a),take_left' (slice_length f (pos+a) n)]

end

section
variable {α : Type*} (base n : Nat)

theorem apart_of_ne {a b : Nat} (h : a≠b) : base+a*n+n≤base+b*n ∨ base+b*n+n≤base+a*n := by
  rcases Nat.lt_or_gt_of_ne h with h | h
  all_goals
    have := Nat.mul_le_mul_right n h
    rw [Nat.succ_mul] at this
    omega

/-- Chunks that are stored in places of their own read back, and nothing else has changed. -/
theorem scatter (place : Nat → Nat) (chunk : Nat → List α) (f : Nat → α) (m : Nat)
    (hc : ∀ i < m,(chunk i).length=n) (hp : ∀ i j,i < m → j < m → place i=place j → i=j) :
    (∀ i < m,slice ((range m).foldl (fun f i => patch f (base+place i*n) (chunk i)) f)
        (base+place i*n) n=chunk i) ∧ ∀ x,(∀ i < m,¬(base+place i*n≤x ∧ x<base+place i*n+n)) →
        (range m).foldl (fun f i => patch f (base+place i*n) (chunk i)) f x=f x := by
  induction m with
  | zero => exact ⟨fun i hi => absurd hi (Nat.not_lt_zero i),fun x _ => rfl⟩
  | succ m ih =>
    obtain ⟨hin,hout⟩ := ih (fun i hi => hc i (by omega)) fun i j hi hj => hp i j (by omega) (by omega)
    simp only [range_succ,foldl_append,foldl_cons,foldl_nil]
    constructor
    · intro i hi
      obtain hi | rfl := Nat.lt_succ_iff_lt_or_eq.mp hi
      · rw [slice_patch_other,hin i hi]
        rw [hc m (by omega)]
        exact apart_of_ne base n fun hx => by
          have := hp i m (by omega) (by omega) hx
          omega
      · conv_lhs => rw [← hc i (by omega)]
        exact slice_patch _ _ _
    · intro x hx
      rw [patch_outside _ _ _ _ (by rw [hc m (by omega)]; exact hx m (by omega))]
      exact hout x fun i hi => hx i (by omega)

theorem flatMap_chunks (bs : List α) (m : Nat) :
    (range m).flatMap (fun i => (bs.drop (i*n)).take n)=bs.take (m*n) := by
  induction m with
  | zero => simp
  | succ m ih => rw [range_succ,flatMap_append,ih,Nat.succ_mul,take_add]; simp

end

/-- The part of a byte range that falls into one block. -/
structure Piece where
  block : Nat
  off : Nat
  n : Nat
  deriving DecidableEq,Repr

/-- Where the piece starts, for blocks of `B` bytes. -/
def Piece.pos (B : Nat) (p : Piece) : Nat := p.block*B+p.off

/-- The loop `while (len > 0) { block = pos / B ; off = pos % B ; n = min(B - off, len) ; … ;
pos += n ; len -= n }`, which the images read and write by; `fuel` rounds of it. -/
def piecesFrom (B : Nat) : Nat → Nat → Nat → List Piece
  | 0,_,_ => []
  | fuel+1,pos,len =>
    if len=0 then [] else
      let n := min (B-pos%B) len
      ⟨pos/B,pos%B,n⟩::piecesFrom B fuel (pos+n) (len-n)

/-- Each round takes at least one byte, so `len` rounds are enough. -/
def pieces (B pos len : Nat) : List Piece := piecesFrom B len pos len

section
variable {B : Nat}

private theorem piecesFrom_fuel (hB : 0<B) (fuel fuel' pos len : Nat) (h : len≤fuel)
    (h' : len≤fuel') : piecesFrom B fuel pos len=piecesFrom B fuel' pos len := by
  induction fuel generalizing fuel' pos len with
  | zero =>
    have hl : len=0 := by omega
    cases fuel' <;> simp [piecesFrom,hl]
  | succ fuel ih =>
    cases fuel' with
    | zero =>
      have hl : len=0 := by omega
      simp [piecesFrom,hl]
    | succ fuel' =>
      have hm := Nat.mod_lt pos hB
      simp only [piecesFrom]
      split_ifs with hl
      · rfl
      · rw [ih fuel' _ _ (by omega) (by omega)]

@[simp] theorem pieces_zero (pos : Nat) : pieces B pos 0=[] := rfl

theorem pieces_cons (hB : 0<B) (pos len : Nat) (hl : 0<len) : pieces B pos len=⟨pos/B,pos%B,min (B-pos%B) len⟩ ::
      pieces B (pos+min (B-pos%B) len) (len-min (B-pos%B) len) := by
  have hm := Nat.mod_lt pos hB
  obtain ⟨m,rfl⟩ : ∃ m,len=m+1 := ⟨len-1,by omega⟩
  rw [pieces,piecesFrom,if_neg (by omega),pieces]
  simp only
  rw [piecesFrom_fuel hB m _ _ _ (by omega) (le_refl _)]

/-- A loop over the pieces of a range, by induction on the bytes still to go: `P s pos len` holds
before the round at `pos` with `len` bytes left. -/
theorem foldl_pieces_induct {σ : Type*} (hB : 0<B) (f : σ → Piece → σ) (P : σ → Nat → Nat → Prop)
    (step : ∀ s pos len,0<len → P s pos len →
      P (f s ⟨pos/B,pos%B,min (B-pos%B) len⟩) (pos+min (B-pos%B) len) (len-min (B-pos%B) len))
    (s : σ) (pos len : Nat) (h : P s pos len) : P ((pieces B pos len).foldl f s) (pos+len) 0 := by
  induction len using Nat.strongRecOn generalizing s pos with
  | ind len ih =>
    by_cases hl : len=0
    · subst hl
      simpa using h
    · have hm := Nat.mod_lt pos hB
      rw [pieces_cons hB pos len (by omega),foldl_cons]
      have hs := step s pos len (by omega) h
      have ht := ih (len-min (B-pos%B) len) (by omega) _ _ hs
      rwa [show pos+min (B-pos%B) len+(len-min (B-pos%B) len)=pos+len by omega] at ht

theorem piece_pos (pos n : Nat) : (⟨pos/B,pos%B,n⟩ : Piece).pos B=pos := by
  simp only [Piece.pos]
  rw [Nat.mul_comm]
  exact Nat.div_add_mod pos B

theorem pieces_fit (hB : 0<B) (pos len : Nat) (p : Piece) (hp : p∈pieces B pos len) : p.off+p.n≤B := by
  induction len using Nat.strongRecOn generalizing pos with
  | ind len ih =>
    by_cases hl : len=0
    · simp [hl] at hp
    · have hm := Nat.mod_lt pos hB
      rw [pieces_cons hB pos len (by omega)] at hp
      rcases mem_cons.mp hp with rfl | hp
      · simp only
        omega
      · exact ih _ (by omega) _ hp

theorem flatMap_pieces {α : Type*} (hB : 0<B) (f : Nat → α) (pos len : Nat) :
    (pieces B pos len).flatMap (fun p => slice f (p.pos B) p.n)=slice f pos len := by
  induction len using Nat.strongRecOn generalizing pos with
  | ind len ih =>
    by_cases hl : len=0
    · subst hl
      rfl
    · have hm := Nat.mod_lt pos hB
      rw [pieces_cons hB pos len (by omega),flatMap_cons,
        ih (len-min (B-pos%B) len) (by omega),piece_pos,← slice_append]
      simp only
      congr 1
      omega

end

end QUniLator
