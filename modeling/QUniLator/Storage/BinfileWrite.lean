import QUniLator.Framework.Loop
import QUniLator.Storage.StorageImage

/-!
How the write of a plain image lengthens its file, in the machine integers that it does so with.
-/

namespace QUniLator.Binfile

open List

/-- As an `int` -/
def toInt32 (n : Int) : Int :=
  if n%0x100000000<0x80000000 then n%0x100000000 else n%0x100000000-0x100000000

/-- As an `int64_t` -/
def toInt64 (n : Int) : Int :=
  if n%0x10000000000000000<0x8000000000000000 then n%0x10000000000000000
  else n%0x10000000000000000-0x10000000000000000

/-- The file, and how long the loop takes it to be -/
structure Enlarging where
  f : File
  fileSize : Int

def chunkSize (writePos fileSize : Int) : Int := min maxChunkSize (toInt32 (writePos-fileSize))

def growing (writePos : Int) (e : Enlarging) : Bool := e.fileSize<writePos

/-- One round. Nothing is written where the seek fails, nor by a count that is not positive. -/
def enlargeRound (writePos : Int) (e : Enlarging) : Enlarging where
  f := if e.fileSize<0 then e.f
    else e.f.pwrite (replicate (chunkSize writePos e.fileSize).toNat 0) e.fileSize.toNat
  fileSize := e.fileSize+chunkSize writePos e.fileSize

def seekPasses (writePos fileSize : Int) : Bool :=
  if fileSize=0 then writePos=0 else (if writePos<0 then -1 else writePos)=writePos

def storeAt (f : File) (buffer : List UInt8) (writePos : Int) : File :=
  if writePos<0 then f else f.pwrite buffer writePos.toNat

/-- A write that lengthens the file as it should -/
structure Extends (f : File) (buffer : List UInt8) (position : Nat) (fuel : Nat) (e : Enlarging) : Prop where
  ends : runWhile (growing (toInt64 position)) (enlargeRound (toInt64 position)) fuel ⟨f,f.size⟩=some e
  chunks : ∀ k,(∀ j≤k,growing (toInt64 position) ((enlargeRound (toInt64 position))^[j] ⟨f,f.size⟩)=true) →
    1 ≤ chunkSize (toInt64 position) ((enlargeRound (toInt64 position))^[k] ⟨f,f.size⟩).fileSize ∧
    chunkSize (toInt64 position) ((enlargeRound (toInt64 position))^[k] ⟨f,f.size⟩).fileSize ≤ maxChunkSize
  size : e.f.size=max f.size position
  zeros : e.f.byte=f.byte
  passes : seekPasses (toInt64 position) e.fileSize=true
  others : ∀ i,¬(position ≤ i ∧ i<position+buffer.length) →
    (storeAt e.f buffer (toInt64 position)).byte i=f.byte i

/-- Between the rounds: the counter is the file's length, and nothing but zeros was added -/
structure Filled (f : File) (writePos : Nat) (e : Enlarging) : Prop where
  counter : e.fileSize=e.f.size
  grown : f.size≤e.f.size
  within : e.f.size ≤ max f.size writePos
  bytes : e.f.byte=f.byte

variable {f : File} {position : Nat} {e : Enlarging}

theorem Filled.start (f : File) (position : Nat) : Filled f position ⟨f,f.size⟩ :=
  ⟨rfl,le_refl _,le_max_left _ _,rfl⟩

theorem Filled.chunkSize (h : Filled f position e) (hp : position<f.size+2^31) (hg : growing position e) :
    chunkSize position e.fileSize=min maxChunkSize (position-e.f.size) ∧ e.f.size<position := by
  have hlt : e.fileSize<position := of_decide_eq_true hg
  have hc := h.counter
  have hgr := h.grown
  unfold Binfile.chunkSize toInt32
  rw [if_pos (by omega)]
  omega

theorem Filled.round (h : Filled f position e) (hp : position<f.size+2^31) (hg : growing position e) :
    Filled f position (enlargeRound position e) ∧ e.f.size<(enlargeRound position e).f.size := by
  obtain ⟨hchunk,hlt⟩ := h.chunkSize hp hg
  have hc := h.counter
  obtain ⟨n,hn⟩ : ∃ n : Nat,n=min maxChunkSize (position-e.f.size) := ⟨_,rfl⟩
  have hn0 : 0<n := by
    unfold maxChunkSize at hn
    omega
  have hnat : (Binfile.chunkSize position e.fileSize).toNat=n := by omega
  have hpos : e.fileSize.toNat=e.f.size := by omega
  have hz : replicate n (0 : UInt8)≠[] := by
    intro h0
    have := congrArg length h0
    rw [length_replicate] at this
    exact absurd this (by simp; omega)
  have hf : (enlargeRound position e).f=e.f.pwrite (replicate n 0) e.f.size := by
    unfold enlargeRound
    rw [if_neg (by omega),hnat,hpos]
  have hsize : (enlargeRound position e).f.size=e.f.size+n := by
    rw [hf,File.pwrite_size _ _ _ hz,length_replicate]
    omega
  have hbyte : (enlargeRound position e).f.byte=e.f.byte := by
    rw [hf]
    funext i
    rw [File.pwrite_byte]
    by_cases hi : e.f.size ≤ i ∧ i<e.f.size+(replicate n (0 : UInt8)).length
    · apply Option.some.inj
      rw [length_replicate] at hi
      rw [patch_inside _ _ _ _ hi.1 (by rw [length_replicate]; exact hi.2),
        getElem?_replicate_of_lt (by omega),e.f.pastEnd i hi.1]
    · exact patch_outside _ _ _ _ hi
  have hfs : (enlargeRound position e).fileSize=e.fileSize+Binfile.chunkSize position e.fileSize := rfl
  have hgr := h.grown
  exact ⟨⟨by omega,by omega,by omega,hbyte.trans h.bytes⟩,by omega⟩

theorem Filled.ends (hp : position<f.size+2^31) (n : Nat) : ∀ {e : Enlarging},Filled f position e →
    position-e.f.size≤n → ∃ t,runWhile (growing position) (enlargeRound position) n e=some t ∧
      Filled f position t ∧ growing position t=false := by
  induction n with
  | zero =>
    intro e h hn
    have hg : growing position e=false := decide_eq_false (by rw [h.counter]; omega)
    refine ⟨e,?_,h,hg⟩
    rw [runWhile,hg]
    rfl
  | succ n ih =>
    intro e h hn
    rw [runWhile]
    cases hg : growing position e with
    | false => exact ⟨e,rfl,h,hg⟩
    | true =>
      obtain ⟨hr,hlt⟩ := h.round hp hg
      obtain ⟨t,ht,hf,hd⟩ := ih hr (by omega)
      exact ⟨t,ht,hf,hd⟩

theorem far_round {writePos : Int} (h : e.fileSize+2^31≤writePos) :
    (enlargeRound writePos e).fileSize+2^31≤writePos := by
  unfold enlargeRound
  dsimp only
  unfold chunkSize toInt32 maxChunkSize
  split_ifs <;> omega

theorem far_never_ends {writePos : Int} (fuel : Nat) : ∀ {e : Enlarging},e.fileSize+2^31≤writePos →
    runWhile (growing writePos) (enlargeRound writePos) fuel e=none := by
  induction fuel with
  | zero =>
    intro e h
    have hg : growing writePos e=true := decide_eq_true (by omega)
    rw [runWhile,hg]
    rfl
  | succ fuel ih =>
    intro e h
    have hg : growing writePos e=true := decide_eq_true (by omega)
    rw [runWhile,hg,if_pos rfl]
    exact ih (far_round h)

/-- A file is lengthened as it should be exactly where what is missing of it fits an `int`. -/
theorem extends_iff (f : File) (buffer : List UInt8) (position : Nat) (hf : f.size<2^63) (hp : position<2^64) :
    (∃ fuel e,Extends f buffer position fuel e) ↔ position<2^63 ∧ position<f.size+2^31 := by
  constructor
  · rintro ⟨fuel,e,h⟩
    by_contra hn
    by_cases h63 : position<2^63
    · have hw : toInt64 position=position := by
        unfold toInt64
        rw [if_pos (by omega)]
        omega
      have hends := h.ends
      rw [hw,far_never_ends fuel (by dsimp only; omega)] at hends
      cases hends
    · have hsize := h.size
      have hw : toInt64 position<0 := by
        unfold toInt64
        rw [if_neg (by omega)]
        omega
      have hg : growing (toInt64 position) ⟨f,f.size⟩=false := decide_eq_false (by dsimp only; omega)
      have hends := h.ends
      have hzero : runWhile (growing (toInt64 position)) (enlargeRound (toInt64 position)) 0 ⟨f,f.size⟩ =
          some ⟨f,f.size⟩ := by
        rw [runWhile,hg]
        rfl
      have he := runWhile_unique hends hzero
      rw [he] at hsize
      dsimp only at hsize
      omega
  · rintro ⟨h63,hreach⟩
    have hw : toInt64 position=position := by
      unfold toInt64
      rw [if_pos (by omega)]
      omega
    obtain ⟨t,ht,hfill,hdone⟩ := Filled.ends hreach position (Filled.start f position) (by dsimp only; omega)
    have hstop : ¬t.fileSize<position := of_decide_eq_false hdone
    have hc := hfill.counter
    have hgr := hfill.grown
    have hin := hfill.within
    refine ⟨position,t,by rw [hw]; exact ht,?_,by omega,hfill.bytes,?_,?_⟩
    · intro k hk
      rw [hw] at hk ⊢
      have hkf : Filled f position ((enlargeRound position)^[k] ⟨f,f.size⟩) := by
        clear ht
        induction k with
        | zero => exact Filled.start f position
        | succ k ih =>
          rw [Function.iterate_succ_apply']
          exact ((ih fun j hj => hk j (by omega)).round hreach (hk k (by omega))).1
      obtain ⟨hchunk,hlt⟩ := hkf.chunkSize hreach (hk k le_rfl)
      rw [hchunk]
      unfold maxChunkSize
      omega
    · rw [hw]
      unfold seekPasses
      split_ifs
      · exact decide_eq_true (by omega)
      · omega
      · exact decide_eq_true rfl
    · intro i hi
      rw [hw]
      unfold storeAt
      rw [if_neg (by omega),Int.toNat_natCast,File.pwrite_byte,patch_outside _ _ _ _ hi,hfill.bytes]

theorem extends_iff_chunk : ∃ fuel e,Extends File.empty [1,2,3] 0x80000 fuel e :=
  (extends_iff File.empty [1,2,3] 0x80000 (by decide) (by decide)).mpr ⟨by decide,by decide⟩

/-- At a gap of 2^31 the chunk is negative, and no number of rounds ends the loop. -/
theorem never_extends : chunkSize (toInt64 (0x80000000 : Nat)) (0 : Nat) = -0x80000000 ∧
    ¬∃ fuel e,Extends File.empty [1] 0x80000000 fuel e := by
  refine ⟨by decide,fun ⟨fuel,e,h⟩ => ?_⟩
  have hends := h.ends
  rw [far_never_ends fuel (by decide)] at hends
  cases hends

theorem enlarge_eq (f : File) (position : Nat) (hp : position<f.size+2^31) :
    ∃ fuel e,runWhile (growing position) (enlargeRound position) fuel ⟨f,f.size⟩=some e ∧
      enlarge position f position=some e.f := by
  obtain ⟨t,ht,hfill,hdone⟩ := Filled.ends hp position (Filled.start f position) (by dsimp only; omega)
  obtain ⟨g,hg,hbyte,hsize⟩ := enlarge_fills position f position (by omega) hp
  have hstop : ¬t.fileSize<position := of_decide_eq_false hdone
  have hc := hfill.counter
  have hgr := hfill.grown
  have hin := hfill.within
  have he : g=t.f := by
    apply File.ext
    · omega
    · rw [hbyte,hfill.bytes]
  exact ⟨position,t,ht,he ▸ hg⟩

end QUniLator.Binfile
