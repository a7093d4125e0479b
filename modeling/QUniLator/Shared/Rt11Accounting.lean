import QUniLator.Shared.Rt11Import

namespace QUniLator.Shared

open List Extent

def segmentExtent (dsNr : Nat) : Extent := ⟨Rt11.segmentBlock dsNr,2⟩

def systemExtents : List Extent := [⟨0,1⟩,⟨1,1⟩,⟨2,4⟩]

def Rendered.regions (r : Rendered) : List Extent :=
  systemExtents++r.directory.written.map segmentExtent++r.placed.map Rt11.Placed.extent

namespace Rt11

variable {v : Rt11} {h : HostEntry}

/-- A rendered volume on which nothing overlaps, every file is in the directory, and no block is missing -/
structure Exact (v : Rt11) (r : Rendered) : Prop where
  disjoint : r.regions.Pairwise Extent.Disjoint
  inside : ∀ x∈r.regions,x.stop≤v.blockcount
  entered : r.directory.entries.map Prod.fst=v.regular
  segments : ∀ e∈r.directory.entries,e.2 ≤ r.use.dirTotalSegNum
  accounted : r.use.freeBlocks+r.use.usedFileBlocks+(6+2*r.use.dirTotalSegNum)=v.blockcount

variable (v) in
/-- The entries fill at most the 31 segments that a directory can have, or exactly these with files that have
no blocks. -/
def Listed : Prop :=
  v.fileCount/v.entriesPerSegment<31 ∨ v.fileCount=31*v.entriesPerSegment ∧ v.usedBlocks=0

theorem written_eq (he : v.dirEntryExtraBytes≤16) :
    v.rendered.directory.written=List.range' 1 (v.neededSegments v.fileCount) := by
  have hl : v.regular.length=v.fileCount := rfl
  simp only [rendered,filled,nil_append,neededSegments_eq he,hl,Nat.zero_add,Nat.add_sub_cancel]

theorem mem_written (he : v.dirEntryExtraBytes≤16) {ds : Nat} :
    ds∈v.rendered.directory.written ↔ 1≤ds ∧ ds≤v.neededSegments v.fileCount := by
  rw [written_eq he,mem_range'_1]
  omega

theorem mem_entries {f : RtFile} {ds : Nat} : (f,ds)∈v.rendered.directory.entries ↔
    ∃ i,v.regular[i]? = some f ∧ i/v.entriesPerSegment+1=ds := by
  simp only [rendered,filled,nil_append,mem_map,Prod.exists,Prod.mk.injEq,List.mem_zipIdx_iff_getElem?]
  refine ⟨?_,?_⟩
  · rintro ⟨g,i,hg,rfl,hds⟩
    exact ⟨i,hg,hds⟩
  · rintro ⟨i,hf,hds⟩
    exact ⟨f,i,hf,rfl,hds⟩

theorem entered_eq : v.rendered.directory.entries.map Prod.fst=v.regular := by
  simp [rendered,filled,Function.comp_def]

theorem placed_eq : v.rendered.placed.map Placed.extent = layOut (6+2*v.total) (v.regular.map (·.blockCount)) :=
  laid_extent _ _

theorem written_disjoint (he : v.dirEntryExtraBytes≤16) :
    (v.rendered.directory.written.map segmentExtent).Pairwise Extent.Disjoint := by
  rw [pairwise_map]
  have hlt : v.rendered.directory.written.Pairwise (· < ·) := by
    rw [written_eq he]
    exact pairwise_lt_range'
  refine hlt.imp_of_mem fun ha _ hab => .inl ?_
  have := (mem_written he).mp ha
  simp only [segmentExtent,segmentBlock,Extent.stop]
  omega

theorem segment_disjoint (he : v.dirEntryExtraBytes≤16) (hl : v.Listed) {ds : Nat}
    (hd : 1≤ds ∧ ds≤v.neededSegments v.fileCount) {x : Extent}
    (hx : x∈layOut (6+2*v.total) (v.regular.map (·.blockCount))) : (segmentExtent ds).Disjoint x := by
  obtain ⟨hstart,hstop⟩ := start_le_of_layOut hx
  simp only [Extent.Disjoint,segmentExtent,segmentBlock,Extent.stop] at hstop ⊢
  by_cases ht : ds≤v.total
  · omega
  · have hn : ¬v.neededSegments v.fileCount≤31 := fun hn => by
      have := (needed_le_total he).mpr hn
      omega
    rw [neededSegments_eq he] at hn
    obtain hl | ⟨_,hused⟩ := hl
    · omega
    · rw [usedBlocks] at hused
      omega

theorem entry_listed (he : v.dirEntryExtraBytes≤16) (hl : v.Listed) {i : Nat}
    (hi : i<v.fileCount) : i/v.entriesPerSegment+1≤v.total := by
  have hp := entriesPerSegment_pos he
  obtain hl | ⟨hc,_⟩ := hl
  · have hn : v.neededSegments v.fileCount≤v.total :=
      (needed_le_total he).mpr (by rw [neededSegments_eq he]; omega)
    have hd : i/v.entriesPerSegment≤v.fileCount/v.entriesPerSegment :=
      Nat.div_le_div_right (by omega)
    rw [neededSegments_eq he] at hn
    omega
  · have hq : i/v.entriesPerSegment<31 := (Nat.div_lt_iff_lt_mul (by omega)).mpr (by omega)
    have hn : v.neededSegments v.fileCount=32 := by
      rw [neededSegments_eq he,hc,Nat.mul_div_cancel _ (by omega)]
    obtain ⟨planned,hplanned,ht,_⟩ := total_filled (v := v) (by omega)
    omega

theorem system_stop : ∀ r∈systemExtents,r.stop≤6 := by decide

theorem segment_start {l : List Nat} {s : Extent} (h : s∈l.map segmentExtent) : 6 ≤ s.start := by
  obtain ⟨ds,_,rfl⟩ := mem_map.mp h
  exact Nat.le_add_right 6 _

theorem exact_of_listed (hr : v.Renderable) (hl : v.Listed) : v.Exact v.rendered := by
  have he := hr.room.extra
  obtain ⟨hb,ha⟩ := hr.room.available
  have htotal := hr.room.total
  have hlast := hr.room.last
  refine ⟨?_,?_,entered_eq,?_,?_⟩
  · rw [Rendered.regions,placed_eq]
    have hfront : (systemExtents++v.rendered.directory.written.map segmentExtent).Pairwise
        Extent.Disjoint :=
      disjoint_append (b := 6) (by decide) (written_disjoint he) (by decide)
        fun s hs => segment_start hs
    refine pairwise_append.mpr ⟨hfront,layOut_disjoint _ _,fun r hrs x hx => ?_⟩
    rcases mem_append.mp hrs with hsys | hseg
    · have hstop : r.stop≤6 := system_stop r hsys
      have hstart := (start_le_of_layOut hx).1
      exact .inl (by omega)
    · obtain ⟨ds,hds,rfl⟩ := mem_map.mp hseg
      exact segment_disjoint he hl ((mem_written he).mp hds) hx
  · rw [Rendered.regions,placed_eq]
    intro x hx
    rcases mem_append.mp hx with hx | hx
    · rcases mem_append.mp hx with hsys | hseg
      · have hstop : x.stop≤6 := system_stop x hsys
        omega
      · obtain ⟨ds,hds,rfl⟩ := mem_map.mp hseg
        have := (mem_written he).mp hds
        simp only [segmentExtent,segmentBlock,Extent.stop]
        omega
    · have hstop := (start_le_of_layOut hx).2
      omega
  · rintro ⟨f,ds⟩ hf
    obtain ⟨i,hi,rfl⟩ := mem_entries.mp hf
    exact entry_listed he hl (List.getElem?_eq_some_iff.mp hi).1
  · change v.availableBlocks-v.usedBlocks-2*v.total+v.usedBlocks+(6+2*v.total)=v.blockcount
    omega

theorem overlaps (he : v.dirEntryExtraBytes≤16) (hn : v.total<v.neededSegments v.fileCount)
    (hu : 0<v.usedBlocks) : ¬v.rendered.regions.Pairwise Extent.Disjoint := by
  intro hd
  obtain ⟨n,hpos,hmem⟩ := exists_first_of_layOut (6+2*v.total) hu
  rw [Rendered.regions,placed_eq] at hd
  have hw : v.total+1∈v.rendered.directory.written := (mem_written he).mpr ⟨by omega,by omega⟩
  have hseg := mem_append_right systemExtents (mem_map_of_mem (f := segmentExtent) hw)
  have := (pairwise_append.mp hd).2.2 _ hseg _ hmem
  simp only [Extent.Disjoint,segmentExtent,segmentBlock,Extent.stop] at this
  omega

theorem listed_of_exact (hr : v.Renderable) (hx : v.Exact v.rendered) : v.Listed := by
  have he := hr.room.extra
  have hp := entriesPerSegment_pos he
  have ht : v.total≤31 := total_le
  by_contra hl
  simp only [Listed,not_or,not_and] at hl
  obtain ⟨hq,hl⟩ := hl
  by_cases hc : v.fileCount=31*v.entriesPerSegment
  · have hn : v.total<v.neededSegments v.fileCount := by
      rw [neededSegments_eq he]
      omega
    exact overlaps he hn (Nat.pos_of_ne_zero (hl hc)) hx.disjoint
  · -- the last file has its entry in a segment that the header does not count
    have hge : 31*v.entriesPerSegment≤v.fileCount :=
      (Nat.le_div_iff_mul_le (by omega)).mp (Nat.not_lt.mp hq)
    have hi : v.fileCount-1<v.regular.length := by
      change _<v.fileCount
      omega
    have hent := hx.segments _ (mem_entries.mpr ⟨v.fileCount-1,List.getElem?_eq_getElem hi,rfl⟩)
    have hlast : 31≤(v.fileCount-1)/v.entriesPerSegment :=
      (Nat.le_div_iff_mul_le (by omega)).mpr (by omega)
    change _≤v.total at hent
    omega

variable (h v) in
/-- The space of the volume is accounted for: the import of a file is refused with the files as they were,
or the next rendering completes, and a volume that is rendered is exact. -/
def Accounts : Prop := v.ImportRenders h ∧ ∀ r,v.render=.ok r → v.Exact r

/-- The space is accounted for if and only if imports are safe and the directory has its entries listed. -/
theorem accounts_iff (v : Rt11) (h : HostEntry) : v.Accounts h ↔ v.ImportSafe h ∧ (v.Renderable → v.Listed) := by
  refine and_congr importRenders_iff ⟨fun hx hr => ?_,fun hl r hr => ?_⟩
  · exact listed_of_exact hr (hx _ (render_ok.mpr ⟨hr,rfl⟩))
  · obtain ⟨hv,rfl⟩ := render_ok.mp hr
    exact exact_of_listed hv (hl hv)

def emptyRl02 : Rt11 := ⟨.rl02,20460,512*20480,0,[],by decide,by decide,by decide⟩

/-- A file that leaves room for a directory of one segment, not for the 31 of an RL02 -/
def bigFile : HostEntry := ⟨true,"big.dat".toList,512*20430,85⟩

/-- The file is taken, and the next rendering fails the assertion of `calc_block_use`. -/
theorem bigFile_kills : ¬emptyRl02.Accounts bigFile := by
  rintro ⟨h,_⟩
  have hreturns : (emptyRl02.importHostFile bigFile).2=none := by decide +kernel
  have hkilled : (emptyRl02.importHostFile bigFile).1.render=.error .killed := by decide +kernel
  rcases h with ⟨hthrown,_⟩ | ⟨_,r,hr⟩
  · rw [hreturns] at hthrown
    cases hthrown
  · rw [hkilled] at hr
    cases hr

end Rt11

end QUniLator.Shared
