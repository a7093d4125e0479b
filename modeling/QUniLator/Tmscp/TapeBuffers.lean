import QUniLator.Tmscp.TapeReads

/-!
The sizes of a READ and of a WRITE: what is allocated, what is stored, and what goes to or comes from the
host.
-/

namespace QUniLator.Tape

def dataAhead (t : Tape) : Nat :=
  if t.isOpen then
    match t.scanForward t.rounds t.pos with
    | (_,none) => 0
    | (pos,some marker) =>
      if marker=mtrTmk ∨ marker=mtrEom then 0 else min (markerLen marker) (t.f.size-(pos+4))
  else 0

theorem dataAhead_plain {t : Tape} {pos marker : Nat} (ho : t.isOpen)
    (hscan : t.scanForward t.rounds t.pos=(pos,some marker)) (hplain : marker≠mtrTmk ∧ marker≠mtrEom) :
    t.dataAhead=min (markerLen marker) (t.f.size-(pos+4)) := by
  unfold dataAhead
  rw [if_pos ho,hscan]
  exact if_neg (not_or.mpr hplain)

theorem readForward_stored (t : Tape) (maxLen : Nat) :
    (t.readForward true maxLen).2.data.length=min t.dataAhead maxLen := by
  have hcases := readForward_cases t true maxLen
  rcases hread : t.readForward true maxLen with ⟨u,a⟩
  rw [hread] at hcases
  cases hcases with
  | closed ho => simp [dataAhead,ho,Answer.of]
  | endOfMedium ho pos marker hscan hm =>
    rcases hm with rfl | rfl
    all_goals simp [dataAhead,ho,hscan,Answer.of]
  | mark ho pos hscan => simp [dataAhead,ho,hscan,Answer.of]
  | short ho pos marker hscan hplain hdata | record ho pos marker hscan hplain hdata =>
    rw [dataAhead_plain ho hscan hplain,pread_length,wanted,if_pos rfl]
    omega

theorem readForward_recLen (t : Tape) (maxLen : Nat) (hr : (t.readForward true maxLen).2.result=.record) :
    min (t.readForward true maxLen).2.recLen maxLen=(t.readForward true maxLen).2.data.length ∧
      (t.readForward true maxLen).2.recLen ≤ mtrMaxlen := by
  have hcases := readForward_cases t true maxLen
  rcases hread : t.readForward true maxLen with ⟨u,a⟩
  rw [hread] at hcases hr
  cases hcases with
  | closed ho | endOfMedium ho pos marker hscan hm | mark ho pos hscan => cases hr
  | short ho pos marker hscan hplain hdata => cases hr
  | record ho pos marker hscan hplain hdata => exact ⟨hdata.symm,Nat.and_le_right⟩

end QUniLator.Tape

namespace QUniLator.Tmscp

open Mscp Option

/-- What a READ stores stays in its buffer, and so does what it hands to the host, which covers what is to
be transferred. -/
structure Fits (a : Tape.Answer) (byteCount : Nat) : Prop where
  stored : a.data.length≤bufSize byteCount
  transferred : a.result=.record → dmaLength a byteCount≤bufSize byteCount
  covered : a.result=.record → min a.recLen byteCount≤dmaLength a byteCount

def ReadFits (t : Tape) (reverse : Bool) (byteCount : Nat) : Prop :=
  ∀ u a,readTape t reverse byteCount=(u,.ok a) → Fits a byteCount

def WriteFits (byteCount : Nat) : Prop :=
  ∀ (h : HostMemory) (address : Nat) (mem : List UInt8),
    h.dmaRead address (wholeWords byteCount)=some mem → byteCount ≤ mem.length

def readStart (t : Tape) (reverse : Bool) : Option Tape :=
  if reverse then
    if t.spaceReverse.2.result=.record then some t.spaceReverse.1 else none
  else some t

theorem readTape_ok {t u : Tape} {reverse : Bool} (hs : readStart t reverse=some u) (byteCount : Nat) :
    readTape t reverse byteCount = ((u.readForward true byteCount).1,.ok (u.readForward true byteCount).2) := by
  unfold readStart at hs
  unfold readTape
  cases reverse with
  | false =>
    obtain rfl := some.inj hs
    rfl
  | true =>
    rw [if_pos rfl] at hs ⊢
    split_ifs at hs with hrecord
    obtain rfl := some.inj hs
    simp only [hrecord,if_true]

variable {byteCount : Nat}

theorem readTape_start {t v : Tape} {a : Tape.Answer} {reverse : Bool} (hr : readTape t reverse byteCount=(v,.ok a)) :
    ∃ u,readStart t reverse=some u ∧ a=(u.readForward true byteCount).2 := by
  cases hs : readStart t reverse with
  | some u =>
    rw [readTape_ok hs,Prod.mk.injEq,Except.ok.injEq] at hr
    exact ⟨u,rfl,hr.2.symm⟩
  | none =>
    unfold readStart at hs
    unfold readTape at hr
    cases reverse with
    | false => cases hs
    | true =>
      rw [if_pos rfl] at hs hr
      split_ifs at hs with hrecord
      simp [hrecord] at hr

theorem wholeWords_small {n : Nat} (h : n<0xffffffff) : n≤wholeWords n ∧ wholeWords n≤n+1 := by
  unfold wholeWords
  omega

theorem wholeWords_le {m n : Nat} (hmn : m≤n) (hn : n<0xffffffff) : wholeWords m≤wholeWords n := by
  unfold wholeWords
  omega

theorem bufSize_wrap : bufSize 0xffffffff=2 := by decide

theorem wholeWords_le_bufSize (n : Nat) : wholeWords n≤bufSize n := by
  unfold bufSize
  split_ifs with hzero
  · omega
  · exact Nat.le_refl _

theorem fits_iff (u : Tape) (hb : byteCount<0x100000000) :
    Fits (u.readForward true byteCount).2 byteCount ↔ byteCount≠0xffffffff ∨ u.dataAhead≤2 := by
  have hstored := u.readForward_stored byteCount
  have hrec := u.readForward_recLen byteCount
  constructor
  · intro hfits
    by_cases hwrap : byteCount=0xffffffff
    · subst hwrap
      have hbuf := hfits.stored
      rw [hstored,bufSize_wrap] at hbuf
      omega
    · exact .inl hwrap
  · intro hcond
    have hle : min u.dataAhead byteCount≤bufSize byteCount := by
      rcases hcond with hplain | hshort
      · have hwhole := (wholeWords_small (n := byteCount) (by omega)).1
        have hbuf := wholeWords_le_bufSize byteCount
        omega
      · have htwo : 2≤bufSize byteCount ∨ byteCount≤bufSize byteCount := by
          unfold bufSize wholeWords
          split_ifs <;> omega
        omega
    refine ⟨hstored.trans_le hle,fun hr => ?_,fun hr => ?_⟩
    · obtain ⟨hmin,-⟩ := hrec hr
      rw [dmaLength,hmin,hstored]
      rcases hcond with hplain | hshort
      · exact (wholeWords_le (by omega) (by omega)).trans (wholeWords_le_bufSize byteCount)
      · by_cases hwrap : byteCount=0xffffffff
        · subst hwrap
          rw [bufSize_wrap]
          unfold wholeWords
          omega
        · exact (wholeWords_le (by omega) (by omega)).trans (wholeWords_le_bufSize byteCount)
    · obtain ⟨-,hmax⟩ := hrec hr
      unfold Tape.mtrMaxlen at hmax
      exact (wholeWords_small (by omega)).1

theorem writeFits (hb : byteCount<0x100000000) : WriteFits byteCount := by
  intro h address mem hmem
  unfold HostMemory.dmaRead at hmem
  split_ifs at hmem with hreach
  have hpos : 0<wholeWords byteCount := by
    have hr := (Bool.and_eq_true_iff.mp hreach).1
    simpa [HostMemory.reaches] using (Bool.and_eq_true_iff.mp hr).2
  obtain rfl := some.inj hmem
  rw [slice_length]
  refine (wholeWords_small ?_).1
  by_contra hlarge
  obtain rfl : byteCount=0xffffffff := by omega
  exact absurd hpos (by decide)

/-- READ and WRITE stay in their buffers if and only if the count is not the largest of 32 bits, or the
file has two bytes at most of the record that is read. -/
theorem transfers_fit (t : Tape) (reverse : Bool) (byteCount : Nat) (hb : byteCount<0x100000000) :
    ReadFits t reverse byteCount ∧ WriteFits byteCount ↔
      byteCount≠0xffffffff ∨ ∀ u,readStart t reverse=some u → u.dataAhead≤2 := by
  constructor
  · rintro ⟨hread,-⟩
    by_cases hwrap : byteCount=0xffffffff
    · right
      intro u hu
      exact ((fits_iff u hb).mp (hread _ _ (readTape_ok hu byteCount))).resolve_left (absurd hwrap)
    · exact .inl hwrap
  · intro hcond
    refine ⟨fun v a hr => ?_,writeFits hb⟩
    obtain ⟨u,hu,rfl⟩ := readTape_start hr
    exact (fits_iff u hb).mpr (hcond.imp_right (fun h => h u hu))

theorem transfers_fit_record : (512 : Nat)<0x100000000 ∧ (ReadFits oneRecord.tape true 512 ∧ WriteFits 512 ↔
      512≠0xffffffff ∨ ∀ u,readStart oneRecord.tape true=some u → u.dataAhead≤2) :=
  ⟨by decide,transfers_fit oneRecord.tape true 512 (by decide)⟩

def fourBytes : Tape :=
  ⟨.ofBytes (Tape.bytes [.object (.record [1,2,3,4] false (by decide)) 0]),true,false,0,0,12⟩

/-- The largest count makes a buffer of two bytes. -/
theorem read_overruns : ¬∀ (t : Tape) (reverse : Bool) (byteCount : Nat),byteCount<0x100000000 →
    ReadFits t reverse byteCount ∧ WriteFits byteCount := by
  intro h
  have hfits := (h fourBytes false 0xffffffff (by decide)).1 _ _ (readTape_ok rfl _)
  exact absurd hfits.stored (by decide +kernel)

end QUniLator.Tmscp
