import QUniLator.Shared.Rt11

namespace QUniLator.Shared

open List

theorem bind_eq_ok {ε α β : Type} {x : Except ε α} {f : α → Except ε β} {r : β} :
    (x >>= f)=.ok r ↔ ∃ a,x=.ok a ∧ f a=.ok r := by
  cases x with
  | error e => exact ⟨by rintro ⟨⟩,by rintro ⟨_,⟨⟩,_⟩⟩
  | ok a => exact ⟨fun h => ⟨a,rfl,h⟩,by rintro ⟨_,⟨⟩,h⟩; exact h⟩

theorem ensure_ok {p : Prop} [Decidable p] {e : Failure} {u : Unit} : ensure p e=.ok u ↔ p := by
  unfold ensure
  by_cases h : p
  · simp [h]
  · simp [h]

theorem ensure_bind {p : Prop} [Decidable p] {e : Failure} {α : Type} {f : Unit → Except Failure α}
    {r : α} : (ensure p e >>= f)=.ok r ↔ p ∧ f ()=.ok r := by
  rw [bind_eq_ok]
  exact ⟨fun ⟨_,hp,hr⟩ => ⟨ensure_ok.mp hp,hr⟩,fun ⟨hp,hr⟩ => ⟨(),ensure_ok.mpr hp,hr⟩⟩

theorem ensure_bind_error {p : Prop} [Decidable p] {e e' : Failure} {α : Type} {f : Unit → Except Failure α} :
    (ensure p e >>= f)=.error e' ↔ ¬p ∧ e=e' ∨ p ∧ f ()=.error e' := by
  unfold ensure
  by_cases h : p
  all_goals simp [h,bind,Except.bind]

namespace Rt11

variable {v : Rt11}

theorem entriesPerSegment_pos (h : v.dirEntryExtraBytes≤16) : 33≤v.entriesPerSegment := by
  unfold entriesPerSegment
  exact (Nat.le_div_iff_mul_le (by omega)).mpr (by omega)

theorem neededSegments_eq (h : v.dirEntryExtraBytes≤16) (count : Nat) :
    v.neededSegments count=count/v.entriesPerSegment+1 := by
  have hp := entriesPerSegment_pos h
  have hc : count+1+v.entriesPerSegment-1=count+v.entriesPerSegment := by omega
  rw [neededSegments,hc,Nat.add_div_right _ (by omega)]

theorem neededSegments_mono {a b : Nat} (h : a≤b) : v.neededSegments a≤v.neededSegments b :=
  Nat.div_le_div_right (by omega)

theorem needed_le_planned (avgBlocks n : Nat) : v.neededSegments v.fileCount≤v.plannedSegments avgBlocks n := by
  induction n with
  | zero => exact Nat.le_refl _
  | succ n ih =>
    simp only [plannedSegments]
    split
    · exact ih
    · exact neededSegments_mono (by omega)

theorem planned_fits (h : v.usedBlocks+2*v.neededSegments v.fileCount≤v.availableBlocks)
    (avgBlocks n : Nat) : v.usedBlocks+2*v.plannedSegments avgBlocks n≤v.availableBlocks := by
  induction n with
  | zero => exact h
  | succ n ih =>
    simp only [plannedSegments]
    split
    · exact ih
    · rename_i hfit
      have := Nat.not_lt.mp hfit
      omega

variable (v) in
def total : Nat :=
  v.totalSegments (v.availableBlocks-v.usedBlocks-2*v.neededSegments v.fileCount)

theorem dirSegCount_le (drive : DriveType) : 1≤drive.dirSegCount ∧ drive.dirSegCount≤31 := by
  cases drive <;> decide

theorem total_empty (h : v.fileCount=0) : v.total=v.drive.dirSegCount := by
  rw [total,totalSegments,if_pos h]

theorem total_filled (h : v.fileCount≠0) : ∃ planned,
    v.neededSegments v.fileCount≤planned ∧ v.total=max v.drive.dirSegCount (min 31 planned) ∧
    (v.usedBlocks+2*v.neededSegments v.fileCount≤v.availableBlocks → v.usedBlocks+2*planned≤v.availableBlocks) := by
  rw [total,totalSegments,if_neg h]
  exact ⟨_,needed_le_planned _ _,rfl,fun hn => planned_fits hn _ _⟩

theorem total_le : v.total≤31 := by
  have hd := dirSegCount_le v.drive
  by_cases h : v.fileCount=0
  · rw [total_empty h]
    omega
  · obtain ⟨planned,_,ht,_⟩ := total_filled h
    omega

theorem total_pos : 1≤v.total := by
  have hd := dirSegCount_le v.drive
  by_cases h : v.fileCount=0
  · rw [total_empty h]
    omega
  · obtain ⟨planned,_,ht,_⟩ := total_filled h
    omega

theorem needed_le_total (h : v.dirEntryExtraBytes≤16) :
    v.neededSegments v.fileCount≤v.total ↔ v.neededSegments v.fileCount≤31 := by
  have hl : v.total≤31 := total_le
  refine ⟨fun hn => Nat.le_trans hn hl,fun hn => ?_⟩
  by_cases hc : v.fileCount=0
  · have hp : 1≤v.total := total_pos
    rw [neededSegments_eq h,hc,Nat.zero_div]
    omega
  · obtain ⟨planned,hn',ht,_⟩ := total_filled hc
    omega

theorem room_iff : (v.usedBlocks+2*v.neededSegments v.fileCount≤v.availableBlocks ∧
      v.usedBlocks+2*v.total≤v.availableBlocks) ↔ v.usedBlocks+2*v.neededSegments v.fileCount≤v.availableBlocks ∧
      v.usedBlocks+2*v.drive.dirSegCount≤v.availableBlocks := by
  refine and_congr_right fun hn => ?_
  by_cases h : v.fileCount=0
  · rw [total_empty h]
  · obtain ⟨planned,_,ht,hp⟩ := total_filled h
    have := hp hn
    omega

variable (v) in
/-- `calc_block_use` of the files there are -/
def use : BlockUse where
  dirTotalSegNum := v.total
  dirMaxUsedSegNr := if v.fileCount=0 then 1 else v.neededSegments v.fileCount
  usedFileBlocks := v.usedBlocks
  freeBlocks := v.availableBlocks-v.usedBlocks-2*v.total

variable (v) in
/-- The files and their directory fit on the volume. -/
structure Room : Prop where
  extra : v.dirEntryExtraBytes≤16
  needed : v.usedBlocks+2*v.neededSegments v.fileCount≤v.availableBlocks
  default : v.usedBlocks+2*v.drive.dirSegCount≤v.availableBlocks

theorem calcBlockUse_zero {r : Option BlockUse} : v.calcBlockUse 0=.ok r ↔ v.Room ∧ r=some v.use := by
  have hz : neededBlocks 0=0 := rfl
  have hroom := @room_iff v
  simp only [calcBlockUse,if_true,hz,Nat.add_zero,ensure_bind]
  refine ⟨?_,?_⟩
  · rintro ⟨he,hn,ht,h⟩
    obtain ⟨hn',hd⟩ := hroom.mp ⟨hn,ht⟩
    exact ⟨⟨he,hn',hd⟩,(Except.ok.inj h).symm⟩
  · rintro ⟨⟨he,hn,hd⟩,rfl⟩
    exact ⟨he,hn,(hroom.mpr ⟨hn,hd⟩).2,rfl⟩

theorem Room.total (h : v.Room) : v.usedBlocks+2*v.total≤v.availableBlocks :=
  (room_iff.mpr ⟨h.needed,h.default⟩).2

def laid : Nat → List RtFile → List Placed
  | _,[] => []
  | start,f::fs =>
    ⟨f,start,start,(start+f.prefixBlocks)%0x10000⟩::laid (start+f.blockCount) fs

def Placed.extent (p : Placed) : Extent := ⟨p.blockNr,p.file.blockCount⟩

theorem laid_extent (start : Nat) (fs : List RtFile) :
    (laid start fs).map Placed.extent=Extent.layOut start (fs.map (·.blockCount)) := by
  induction fs generalizing start with
  | nil => rfl
  | cons f fs ih =>
    rw [laid,map_cons,map_cons,Extent.layOut,ih]
    rfl

theorem mem_laid {start : Nat} {fs : List RtFile} {p : Placed} (h : p∈laid start fs) :
    p.file∈fs ∧ start≤p.blockNr ∧ p.blockNr+p.file.blockCount ≤ start+(fs.map (·.blockCount)).sum ∧
      p.prefixNr=p.blockNr ∧ p.dataNr=(p.blockNr+p.file.prefixBlocks)%0x10000 := by
  induction fs generalizing start with
  | nil => simp [laid] at h
  | cons f fs ih =>
    rcases mem_cons.mp h with rfl | h
    · simp
    · obtain ⟨hf,hs,he,hp,hd⟩ := ih h
      simp only [map_cons,sum_cons]
      exact ⟨mem_cons_of_mem f hf,by omega,by omega,hp,hd⟩

theorem placeFiles_ok {start : Nat} {fs : List RtFile} {ps : List Placed}
    (h : start+(fs.map (·.blockCount)).sum≤0x10000) : placeFiles start fs=.ok ps ↔
      (∀ f∈fs,f.blockCount=f.prefixBlocks+f.dataBlocks) ∧
      (∀ p∈laid start fs,p.blockNr<0x10000) ∧ ps=laid start fs := by
  induction fs generalizing start ps with
  | nil => simp [placeFiles,laid,pure,Except.pure,eq_comm]
  | cons f fs ih =>
    simp only [map_cons,sum_cons] at h
    simp only [placeFiles,ensure_bind,laid,forall_mem_cons]
    refine ⟨?_,?_⟩
    · rintro ⟨hc,hr⟩
      obtain ⟨rest,hrest,hps⟩ := bind_eq_ok.mp hr
      -- a start at 0x10000 is taken for 0, and the assertion fails
      have hs : start<0x10000 := by
        by_contra hs
        have he : start=0x10000 := by omega
        rw [he] at hc
        omega
      rw [Nat.mod_eq_of_lt hs] at hc
      have hn : start+f.prefixBlocks+f.dataBlocks=start+f.blockCount := by omega
      rw [hn] at hrest
      obtain ⟨hfs,hps',rfl⟩ := (ih (by omega)).mp hrest
      rw [Nat.mod_eq_of_lt hs] at hps
      exact ⟨⟨by omega,hfs⟩,⟨hs,hps'⟩,(Except.ok.inj hps).symm⟩
    · rintro ⟨⟨hc,hfs⟩,⟨hs,hps⟩,rfl⟩
      have hs' : start%0x10000=start := Nat.mod_eq_of_lt hs
      have hn : start+f.prefixBlocks+f.dataBlocks=start+f.blockCount := by omega
      rw [hs',hn]
      refine ⟨by omega,bind_eq_ok.mpr ⟨_,(ih (by omega)).mpr ⟨hfs,hps,rfl⟩,rfl⟩⟩

end Rt11

end QUniLator.Shared
