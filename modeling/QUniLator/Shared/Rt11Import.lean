import QUniLator.Shared.Rt11Render

namespace QUniLator.Shared.Rt11

variable {v : Rt11} {h : HostEntry}

variable (v) in
def Fits (size : Nat) : Prop :=
  v.usedBlocks+neededBlocks size+
    2*v.neededSegments (if size=0 then v.fileCount else v.fileCount+1)≤v.availableBlocks

theorem calcBlockUse_thrown {size : Nat} :
    v.calcBlockUse size=.error .thrown ↔ v.dirEntryExtraBytes≤16 ∧ ¬v.Fits size := by
  by_cases hz : size=0
  · subst hz
    simp only [calcBlockUse,if_true,ensure_bind_error,Fits,pure,Except.pure,reduceCtorEq,
      and_false,or_false,false_or,and_true]
  · simp only [calcBlockUse,if_neg hz,ensure_bind_error,Fits,pure,Except.pure,reduceCtorEq,
      and_false,or_false,false_or,and_true]

theorem calcBlockUse_returns {size : Nat} : (∃ r,v.calcBlockUse size=.ok r) ↔ v.dirEntryExtraBytes≤16 ∧ v.Fits size ∧
      (size=0 → v.usedBlocks+2*v.drive.dirSegCount≤v.availableBlocks) := by
  by_cases hz : size=0
  · subst hz
    simp only [calcBlockUse_zero,exists_and_left,exists_eq,and_true,forall_const]
    exact ⟨fun h => ⟨h.extra,h.needed,h.default⟩,fun ⟨he,hn,hd⟩ => ⟨he,hn,hd⟩⟩
  · simp only [calcBlockUse,if_neg hz,ensure_bind,Fits]
    simp [hz,pure,Except.pure]

variable (h v) in
/-- The file is not imported: it is no plain file of the root, its name is taken, it is empty, or it is the
volume info. -/
def Ignored : Prop :=
  h.plain=false ∨ (v.fileByPath (volumeName .rt11 h.name)).isSome=true ∨ h.fileSize=0 ∨
    isVolumeInfo .rt11 h.name=true

variable (h) in
def Misfit : Prop :=
  isBootblock h.name=true ∧ h.fileSize≠512 ∨ isMonitor h.name=true ∧ 4*512<h.fileSize

variable (h v) in
def Refused : Prop :=
  ¬v.Ignored h ∧ (Misfit h ∨ v.dirEntryExtraBytes≤16 ∧ ¬v.Fits (testDataSize h))

theorem not_misfit (hi : isVolumeInfo .rt11 h.name) : ¬Misfit h := by
  rw [isVolumeInfo,decide_eq_true_eq] at hi
  have hb : isBootblock h.name=false := by
    rw [isBootblock,hi]
    decide
  have hm : isMonitor h.name=false := by
    rw [isMonitor,hi]
    decide
  simp [Misfit,hb,hm]

theorem import_ignored (hi : v.Ignored h) : v.importHostFile h=(v,none) := by
  unfold importHostFile
  rcases hi with hp | hn | hz | hv
  · rw [if_pos hp]
  · rw [if_pos hn]
    split <;> rfl
  · rw [if_pos hz]
    split
    · rfl
    · split <;> rfl
  · have hm := not_misfit hv
    simp only [Misfit,not_or] at hm
    rw [if_neg hm.1,if_neg hm.2,if_pos hv]
    split
    · rfl
    · split
      · rfl
      · split <;> rfl

theorem import_misfit (hi : ¬v.Ignored h) (hm : Misfit h) : v.importHostFile h=(v,some .thrown) := by
  simp only [Ignored,not_or] at hi
  obtain ⟨hp,hn,hz,_⟩ := hi
  unfold importHostFile
  rw [if_neg hp,if_neg hn,if_neg hz]
  rcases hm with hb | hm
  · rw [if_pos hb]
  · rw [if_pos hm]
    split <;> rfl

theorem import_asked (hi : ¬v.Ignored h) (hm : ¬Misfit h) :
    v.importHostFile h=v.taken h (v.calcBlockUse (testDataSize h)) := by
  simp only [Ignored,not_or] at hi
  obtain ⟨hp,hn,hz,hv⟩ := hi
  simp only [Misfit,not_or] at hm
  unfold importHostFile
  rw [if_neg hp,if_neg hn,if_neg hz,if_neg hm.1,if_neg hm.2,if_neg hv]

theorem renders_iff {w : Rt11} : (∃ r,w.render=.ok r) ↔ w.Renderable := by
  simp only [render_ok,exists_and_left,exists_eq,and_true]

theorem taken_refused {r : Except Failure (Option BlockUse)} :
    ((v.taken h r).2=some .thrown ∧ (v.taken h r).1.files=v.files) ↔ r=.error .thrown := by
  cases r with
  | error e | ok a => simp [taken]

theorem taken_renders {r : Except Failure (Option BlockUse)} :
    ((v.taken h r).2=none ∧ ∃ x,(v.taken h r).1.render=.ok x) ↔ (∃ a,r=.ok a) ∧ (v.addFile h).Renderable := by
  cases r with
  | error e => simp [taken]
  | ok a => simp [taken,renders_iff]

theorem addFile_regular (hi : h.internal) : (v.addFile h).regular=v.regular := by
  have hf : h.file.internal=true := hi
  simp [addFile,regular,hf]

variable (h v) in
/-- The import is refused and leaves the files as they are, or what it returns with can be rendered. -/
def ImportRenders : Prop :=
  (v.importHostFile h).2=some .thrown ∧ (v.importHostFile h).1.files=v.files ∨
    (v.importHostFile h).2=none ∧ ∃ r,(v.importHostFile h).1.render=.ok r

variable (h v) in
def ImportSafe : Prop :=
  v.Refused h ∨ v.Ignored h ∧ v.Renderable ∨
    ¬v.Ignored h ∧ v.dirEntryExtraBytes≤16 ∧ (v.addFile h).Renderable

theorem default_of_added (hi : ¬v.Ignored h) (hr : (v.addFile h).Renderable)
    (hz : testDataSize h=0) : v.usedBlocks+2*v.drive.dirSegCount≤v.availableBlocks := by
  simp only [Ignored,not_or] at hi
  have hint : h.internal=true := by
    by_contra hn
    rw [testDataSize,if_neg hn] at hz
    exact hi.2.2.1 hz
  have hd := hr.room.default
  rw [usedBlocks,addFile_regular hint] at hd
  exact hd

theorem importRenders_iff : v.ImportRenders h ↔ v.ImportSafe h := by
  unfold ImportRenders ImportSafe Refused
  by_cases hi : v.Ignored h
  · rw [import_ignored hi]
    simp [hi,renders_iff]
  by_cases hm : Misfit h
  · rw [import_misfit hi hm]
    simp [hi,hm]
  · rw [import_asked hi hm,taken_refused,taken_renders,calcBlockUse_thrown,calcBlockUse_returns]
    simp only [hi,hm,not_false_eq_true,true_and,false_and,false_or]
    by_cases hf : v.Fits (testDataSize h)
    · simp only [hf,not_true_eq_false,and_false,true_and,false_or]
      exact ⟨fun ⟨⟨he,_⟩,hr⟩ => ⟨he,hr⟩,fun ⟨he,hr⟩ => ⟨⟨he,default_of_added hi hr⟩,hr⟩⟩
    · simp only [hf,not_false_eq_true,and_true,false_and,and_false,or_false]
      exact ⟨.inl,fun hr => hr.elim id (·.1)⟩

end QUniLator.Shared.Rt11
