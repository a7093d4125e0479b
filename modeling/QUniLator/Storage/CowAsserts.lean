import QUniLator.Framework.Attempt
import QUniLator.Storage.CowWrite

/-!
The asserts of the copy-on-write image. They are live in the deployed binary, so a call that reaches
a failing one has no result.
-/

namespace QUniLator.Cow.Image

open Option Bool
variable {blk : Nat}

/-- `bit_set` with its assert. -/
def bitSetAsserted (s : Image blk) (block : Nat) : Option (Image blk) := do
  assert (block<s.blockCount)
  return s.bitSet block

def storeBlockAsserted (s : Image blk) (block : Nat) (bs : List UInt8) : Option (Image blk) :=
  (s.sys (.overlayPwrite bs (block*blockSize))).bitSetAsserted block

def fillPageAsserted (s : Image blk) (block : Nat) : Option (Image blk) :=
  let first := block-block%pageBlocks blk
  let end_ := min (first+pageBlocks blk) s.blockCount
  (List.range' first (end_-first)).foldlM
    (fun s b => if s.bitGet b then some s else s.storeBlockAsserted b (s.cowReadBlock b)) s

def writeBlockAsserted (s : Image blk) (block off : Nat) (src : List UInt8) : Option (Image blk) := do
  let s := s.ensureBlocks (block+1)
  let s ← if s.bitGet block then some s else s.fillPageAsserted block
  if off=0 ∧ src.length=blockSize then s.storeBlockAsserted block src
  else s.storeBlockAsserted block (overwrite (s.cowReadBlock block) off src)

/-- What `write` does after its loop. -/
def stretch (s : Image blk) (end_ : Nat) : Image blk :=
  if s.imageSizeBytes<end_ then
    let blockCount := (end_+blockSize-1)/blockSize
    let needBytes := (blockCount+7)/8
    { s with
      imageSizeBytes := end_
      blockCount := blockCount
      occupancy :=
        if s.occupancy.length<needBytes then
          s.occupancy++List.replicate (needBytes-s.occupancy.length) 0
        else s.occupancy }
  else s

def writeAsserted (s : Image blk) (buffer : List UInt8) (position : Nat) : Option (Image blk) := do
  assert s.opened
  assert (0<buffer.length)
  let s ← (pieces blockSize position buffer.length).foldlM
    (fun s p => s.writeBlockAsserted p.block p.off
      ((buffer.drop (p.pos blockSize-position)).take p.n)) s
  return s.stretch (position+buffer.length)

def readAsserted (s : Image blk) (position len : Nat) : Option (List UInt8) := do
  assert s.opened
  assert (0<len)
  return s.read position len

theorem storeBlockAsserted_eq (s : Image blk) (b : Nat) (bs : List UInt8) (h : b<s.blockCount) :
    s.storeBlockAsserted b bs=some (s.storeBlock b bs) := by
  have hc : b<(s.sys (.overlayPwrite bs (b*blockSize))).blockCount := h
  simp [storeBlockAsserted,bitSetAsserted,storeBlock,hc]

theorem fillPageAsserted_eq (s : Image blk) (block : Nat) : s.fillPageAsserted block=some (s.fillPage block) := by
  apply foldlM_passes (P := fun t => t.blockCount=s.blockCount) _ _ rfl
  intro t b hb ht
  have hr := List.mem_range'_1.mp hb
  cases hg : t.bitGet b with
  | true => simpa using ht
  | false =>
    have hlt : b<t.blockCount := by omega
    simp only [false_eq_true,if_false]
    exact ⟨storeBlockAsserted_eq t b _ hlt,(storeBlock_kept t b _).blockCount.trans ht⟩

theorem fillPage_kept (s : Image blk) (block : Nat) : Kept s (s.fillPage block) := by
  rw [fillPage_eq]
  generalize List.range' _ _=l
  have hf : ∀ t : Image blk,Kept t (l.foldl fillStep t) := by
    induction l with
    | nil => exact fun t => .refl t
    | cons b l ih => exact fun t => (fillStep_kept t b).trans (ih (t.fillStep b))
  exact hf s

theorem ensureBlocks_count (s : Image blk) (n : Nat) : (s.ensureBlocks n).blockCount=max s.blockCount n := by
  simp only [ensureBlocks]
  split_ifs <;> simp <;> omega

theorem writeBlock_kept (s : Image blk) (block off : Nat) (src : List UInt8) :
    Kept (s.ensureBlocks (block+1)) (s.writeBlock block off src) := by
  simp only [writeBlock]
  generalize s.ensureBlocks (block+1)=t
  cases t.bitGet block with
  | true =>
    simp only [if_true]
    split_ifs <;> exact storeBlock_kept t _ _
  | false =>
    simp only [false_eq_true,if_false]
    split_ifs <;> exact (t.fillPage_kept block).trans (storeBlock_kept _ _ _)

theorem ensureBlocks_opened (s : Image blk) (n : Nat) : (s.ensureBlocks n).opened=s.opened := by
  simp only [ensureBlocks]
  split_ifs <;> rfl

theorem write_opened (s : Image blk) (buffer : List UInt8) (position : Nat) :
    (s.write buffer position).opened=s.opened := by
  have hl : ∀ (l : List Piece) (t : Image blk),
      (l.foldl (writeStep buffer position) t).opened=t.opened := by
    intro l
    induction l with
    | nil => exact fun t => rfl
    | cons p l ih =>
      intro t
      rw [List.foldl_cons,ih,writeStep,(writeBlock_kept t _ _ _).opened,ensureBlocks_opened]
  rw [write_eq]
  simp only
  split <;> exact hl _ s

theorem writeBlockAsserted_eq (s : Image blk) (block off : Nat) (src : List UInt8) :
    s.writeBlockAsserted block off src=some (s.writeBlock block off src) := by
  have hb := s.ensureBlocks_count (block+1)
  simp only [writeBlockAsserted,writeBlock,fillPageAsserted_eq]
  generalize s.ensureBlocks (block+1)=t at hb
  cases t.bitGet block with
  | true =>
    simp only [if_true,bind_eq_bind,bind_some]
    split_ifs <;> exact storeBlockAsserted_eq t block _ (by omega)
  | false =>
    have hk : block<(t.fillPage block).blockCount := by
      rw [(t.fillPage_kept block).blockCount]
      omega
    simp only [false_eq_true,if_false,bind_eq_bind,bind_some]
    split_ifs <;> exact storeBlockAsserted_eq _ block _ hk

theorem writeAsserted_eq (s : Image blk) (buffer : List UInt8) (position : Nat) : s.writeAsserted buffer position =
      if s.opened ∧ buffer≠[] then some (s.write buffer position) else none := by
  have hw : ∀ l : List Piece,l.foldlM (fun s p => s.writeBlockAsserted p.block p.off
      ((buffer.drop (p.pos blockSize-position)).take p.n)) s =
      some (l.foldl (writeStep buffer position) s) := fun l =>
    foldlM_passes (P := fun _ => True) l s trivial
      (fun t p _ _ => ⟨writeBlockAsserted_eq t _ _ _,trivial⟩)
  simp only [writeAsserted,hw,assert_bind]
  cases s.opened <;> cases buffer <;> simp [write_eq,stretch]

theorem readAsserted_eq (s : Image blk) (position len : Nat) : s.readAsserted position len =
      if s.opened ∧ len≠0 then some (s.read position len) else none := by
  simp only [readAsserted,assert_bind]
  cases s.opened <;> simp [Nat.pos_iff_ne_zero]

theorem ensureBlocks_image (s : Image blk) (n : Nat) : s.imageSizeBytes≤(s.ensureBlocks n).imageSizeBytes ∧
      (s.ensureBlocks n).imageSizeBytes ≤ max s.imageSizeBytes (n*blockSize) := by
  simp only [ensureBlocks]
  split_ifs <;> simp <;> omega

theorem write_image (s : Image blk) (buffer : List UInt8) (position : Nat) :
    (s.write buffer position).imageSizeBytes ≤
      max s.imageSizeBytes ((position+buffer.length+blockSize-1)/blockSize*blockSize) := by
  have hl := (foldl_pieces_induct (B := blockSize) (by decide) (writeStep buffer position)
    (fun t pos len => pos+len=position+buffer.length ∧ t.imageSizeBytes ≤
      max s.imageSizeBytes ((position+buffer.length+blockSize-1)/blockSize*blockSize))
    (by
      rintro t pos len hl ⟨he,ht⟩
      refine ⟨by omega,?_⟩
      rw [writeStep,(writeBlock_kept t _ _ _).imageSizeBytes]
      have hg := (t.ensureBlocks_image (pos/blockSize+1)).2
      simp only [blockSize] at ht hg ⊢
      omega)
    s position buffer.length ⟨rfl,le_max_left _ _⟩).2
  rw [write_eq]
  generalize (pieces blockSize position buffer.length).foldl (writeStep buffer position) s=t
    at hl
  by_cases hlt : t.imageSizeBytes<position+buffer.length
  · simp only [if_pos hlt,blockSize]
    omega
  · simpa only [if_neg hlt] using hl

end QUniLator.Cow.Image
