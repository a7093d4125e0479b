import QUniLator.Tmscp.TapeServer

/-!
READ beside ACCESS, and the sizes of the buffer, the read and the transfer of a READ.
-/

namespace QUniLator.Tape

theorem scanForward_le (t : Tape) (fuel pos : Nat) : pos≤(t.scanForward fuel pos).1 := by
  induction fuel generalizing pos with
  | zero => exact Nat.le_refl _
  | succ fuel ih =>
    rw [scanForward]
    split_ifs with hend
    · exact Nat.le_refl _
    · cases t.readMarker pos with
      | none => exact Nat.le_refl _
      | some marker =>
        dsimp only
        split_ifs with hgap
        · exact (Nat.le_add_right pos 4).trans (ih (pos+4))
        · exact Nat.le_refl _

theorem scanReverse_error {t : Tape} {fuel pos q : Nat} {r : Result}
    (h : t.scanReverse fuel pos=(q,.error r)) : r=.beginOfTape ∨ r=.error := by
  induction fuel generalizing pos with
  | zero =>
    rw [scanReverse,Prod.mk.injEq,Except.error.injEq] at h
    exact .inr h.2.symm
  | succ fuel ih =>
    rw [scanReverse] at h
    split_ifs at h with hstart hshort
    · rw [Prod.mk.injEq,Except.error.injEq] at h
      exact .inl h.2.symm
    · rw [Prod.mk.injEq,Except.error.injEq] at h
      exact .inr h.2.symm
    · cases hm : t.readMarker (pos-4) with
      | none =>
        rw [hm,Prod.mk.injEq,Except.error.injEq] at h
        exact .inr h.2.symm
      | some marker =>
        rw [hm] at h
        dsimp only at h
        split_ifs at h with hgap
        · exact ih h
        · simp at h

theorem pread_length (f : File) (n pos : Nat) : (f.pread n pos).length=min n (f.size-pos) := by
  simp [File.pread]

section
variable {t : Tape} {pos marker : Nat} (ho : t.isOpen=true) (buf : Bool) (maxLen : Nat)
  (hscan : t.scanForward t.rounds t.pos=(pos,some marker)) (hplain : marker≠mtrTmk ∧ marker≠mtrEom)
include ho hscan hplain

theorem readForward_whole (hdata : wanted buf maxLen (markerLen marker)≤t.f.size-(pos+4)) : t.readForward buf maxLen =
      ({ t with pos := pos+4+padded (markerLen marker)+4,objp := t.objp+1 }, ⟨recordResult marker,markerLen marker,
          t.f.pread (wanted buf maxLen (markerLen marker)) (pos+4)⟩) := by
  have hlen := pread_length t.f (wanted buf maxLen (markerLen marker)) (pos+4)
  rw [Nat.min_eq_left hdata] at hlen
  rw [readForward,if_neg (by simp [ho]),hscan]
  simp only [if_neg hplain.1,if_neg hplain.2]
  exact if_neg (not_not.mpr hlen)

theorem readForward_cut (hdata : t.f.size-(pos+4)<wanted buf maxLen (markerLen marker)) :
    t.readForward buf maxLen=({ t with pos := pos },
      ⟨.error,markerLen marker,t.f.pread (wanted buf maxLen (markerLen marker)) (pos+4)⟩) := by
  have hlen := pread_length t.f (wanted buf maxLen (markerLen marker)) (pos+4)
  rw [Nat.min_eq_right hdata.le] at hlen
  rw [readForward,if_neg (by simp [ho]),hscan]
  simp only [if_neg hplain.1,if_neg hplain.2]
  exact if_pos (hlen.trans_ne hdata.ne)

end

/-- The file holds all the bytes that a read with a buffer asks for, of the record ahead. -/
def wholeAhead (t : Tape) (byteCount : Nat) : Prop :=
  match t.scanForward t.rounds t.pos with
  | (_,none) => True
  | (pos,some marker) =>
    marker=mtrTmk ∨ marker=mtrEom ∨ min (markerLen marker) byteCount≤t.f.size-(pos+4)

/-- Behind the head is the beginning of the tape, a mark, or what cannot be passed as a good record; the
last only where `clear` holds. -/
def noRecordBehind (t : Tape) (clear : Prop) : Prop :=
  match t.scanReverse (t.pos/4+1) t.pos with
  | (_,.error r) => r≠.error ∨ clear
  | (pos,.ok marker) =>
    marker=mtrTmk ∨ (pos<4+padded (markerLen marker)+4 ∨ marker &&& mtrErf≠0) ∧ clear

end QUniLator.Tape

namespace QUniLator.Tmscp

open Mscp

/-- What the status of a READ or an ACCESS says the tape came to. A record that the host's memory did not
take, or took in part, was a record. -/
def outcome (cmdStatus : Nat) : Option Tape.Result :=
  let code := cmdStatus >>> 16 &&& 0x1f
  if code=Mscp.Status.success ∨ code=Status.recordTruncated ∨
      code=Mscp.Status.hostBufferAccessError then some .record
  else if code=Status.tapeMark then some .tapeMark
  else if code=Status.bot then some .beginOfTape
  else if code=Status.dataError then some .endOfMedium
  else if code=Status.driveError then some .error
  else none

/-- READ and ACCESS leave the tape at one place and report one record size and outcome. -/
structure Alike (r a : Transfer) : Prop where
  position : r.unit.tape.pos=a.unit.tape.pos
  objectPosition : r.unit.tape.objp=a.unit.tape.objp
  recordSize : r.params.recordSize=a.params.recordSize
  outcome : outcome r.cmdStatus=outcome a.cmdStatus

theorem outcome_success : outcome success=some .record ∧ outcome successEot=some .record := by decide

theorem outcome_record : outcome (status Status.recordTruncated 0 0)=some .record ∧
    outcome (status Mscp.Status.hostBufferAccessError nxm 0)=some .record := by decide

theorem outcome_stop : outcome (status Status.tapeMark 0 efSeriousException)=some .tapeMark ∧
    outcome (status Status.bot 0 efPositionLost)=some .beginOfTape ∧
    outcome (status Status.dataError 0 efEndOfTape)=some .endOfMedium ∧ outcome driveError=some .error := by decide

/-- What no command on a unit changes but those that say so: whether it is online and mounted, and its
capacity. -/
structure Steady (d e : TapeUnit) : Prop where
  online : e.online=d.online
  capacity : e.capacity=d.capacity
  isOpen : e.tape.isOpen=d.tape.isOpen

theorem Steady.refl (d : TapeUnit) : Steady d d := ⟨rfl,rfl,rfl⟩

theorem Steady.trans {d e f : TapeUnit} (h : Steady d e) (k : Steady e f) : Steady d f :=
  ⟨k.online.trans h.online,k.capacity.trans h.capacity,k.isOpen.trans h.isOpen⟩

theorem Steady.refusal {d e : TapeUnit} (h : Steady d e) : refusal e=refusal d := by
  unfold Tmscp.refusal TapeUnit.isAvailable
  rw [h.isOpen,h.online]

variable {d : TapeUnit}

theorem steady_tape {t : Tape} (h : t.isOpen=d.tape.isOpen) : Steady d { d with tape := t } := ⟨rfl,rfl,h⟩

theorem steady_report (d : TapeUnit) : Steady d d.takeEndOfTapeReport.2 := by
  unfold TapeUnit.takeEndOfTapeReport
  split_ifs <;> exact ⟨rfl,rfl,rfl⟩

theorem steady_noRecord (d : TapeUnit) (r : Tape.Result) : Steady d (noRecord d r).1 := by
  cases r <;> exact ⟨rfl,rfl,rfl⟩

theorem readTape_isOpen (t : Tape) (reverse : Bool) (byteCount : Nat) :
    (readTape t reverse byteCount).1.isOpen=t.isOpen := by
  unfold readTape
  cases reverse with
  | false => exact (Tape.readForward_cases _ _ _).same.isOpen
  | true =>
    have hback := (Tape.spaceReverse_cases t).same.isOpen
    rw [if_pos rfl]
    dsimp only
    split_ifs
    · exact (Tape.readForward_cases _ _ _).same.isOpen.trans hback
    · exact hback

@[simp] theorem takeEndOfTapeReport_tape (d : TapeUnit) : d.takeEndOfTapeReport.2.tape=d.tape := by
  unfold TapeUnit.takeEndOfTapeReport
  split_ifs <;> rfl

@[simp] theorem successStatus_tape (d : TapeUnit) : (successStatus d).2.tape=d.tape :=
  takeEndOfTapeReport_tape d

theorem successStatus_outcome (d : TapeUnit) : outcome (successStatus d).1=some .record := by
  unfold successStatus
  dsimp only
  split_ifs
  · exact outcome_success.2
  · exact outcome_success.1

@[simp] theorem noRecord_tape (d : TapeUnit) (r : Tape.Result) : (noRecord d r).1.tape=d.tape := by
  cases r <;> rfl

theorem noRecord_outcome (d : TapeUnit) (r : Tape.Result) (h : r≠.record) : outcome (noRecord d r).2=some r := by
  cases r with
  | record => exact absurd rfl h
  | tapeMark => exact outcome_stop.1
  | endOfMedium => exact outcome_stop.2.2.1
  | beginOfTape => exact outcome_stop.2.1
  | error => exact outcome_stop.2.2.2

section
variable (d : TapeUnit) (h : HostMemory) (p : ReadWriteParameters)

theorem deliver_tape (a : Tape.Answer) (cmdStatus : Nat) : (deliver d h p a cmdStatus).unit=d := by
  unfold deliver
  dsimp only
  split_ifs <;> rfl

theorem deliver_recordSize (a : Tape.Answer) (cmdStatus : Nat) :
    (deliver d h p a cmdStatus).params.recordSize=a.recLen := by
  unfold deliver
  dsimp only
  split_ifs <;> rfl

theorem deliver_outcome (a : Tape.Answer) {cmdStatus : Nat} (hs : outcome cmdStatus=some .record) :
    outcome (deliver d h p a cmdStatus).cmdStatus=some .record := by
  unfold deliver
  dsimp only
  split_ifs
  · exact outcome_record.2
  · exact outcome_record.1
  · exact hs
  · exact outcome_record.2
  · exact outcome_record.1
  · exact hs

variable {modifiers : Nat}

theorem read_ok {t : Tape} {a : Tape.Answer} (hd : refusal d=none)
    (hr : readTape d.tape (has modifiers mdRev) p.byteCount=(t,.ok a)) : (read d h p modifiers).unit.tape=t ∧
    (read d h p modifiers).params.recordSize=(if a.result=.record then a.recLen else 0) ∧
    outcome (read d h p modifiers).cmdStatus=some a.result := by
  unfold read
  rw [hd,hr]
  dsimp only
  cases ha : a.result with
  | record =>
    refine ⟨?_,?_,?_⟩
    · rw [deliver_tape,successStatus_tape]
    · rw [deliver_recordSize]
      rfl
    · exact deliver_outcome _ _ _ _ (successStatus_outcome _)
  | tapeMark | endOfMedium | beginOfTape => exact ⟨by simp,rfl,noRecord_outcome _ _ (by decide)⟩
  | error => exact ⟨by simp,rfl,noRecord_outcome _ _ (by decide)⟩

theorem read_stopped {t : Tape} {r : Tape.Result} (hd : refusal d=none)
    (hr : readTape d.tape (has modifiers mdRev) p.byteCount=(t,.error r)) :
    read d h p modifiers=stoppedRead { d with tape := t } h p r := by
  unfold read
  rw [hd,hr]

theorem access_eq {t : Tape} {a : Tape.Answer} (hd : refusal d=none)
    (hr : (if has modifiers mdRev then d.tape.spaceReverse else d.tape.spaceForward)=(t,a)) :
    (access d h p modifiers).unit.tape=t ∧
    (access d h p modifiers).params.recordSize=(if a.result=.record then a.recLen else 0) ∧
    outcome (access d h p modifiers).cmdStatus=some a.result := by
  unfold access
  rw [hd,hr]
  dsimp only
  cases ha : a.result with
  | record =>
    refine ⟨?_,rfl,successStatus_outcome _⟩
    rw [successStatus_tape]
  | tapeMark | endOfMedium | beginOfTape => exact ⟨by simp,rfl,noRecord_outcome _ _ (by decide)⟩
  | error => exact ⟨by simp,rfl,noRecord_outcome _ _ (by decide)⟩

end

theorem refusal_none (hd : refusal d=none) : d.tape.isOpen ∧ d.online=true := by
  unfold refusal at hd
  split_ifs at hd with havail honline
  exact ⟨by simpa [TapeUnit.isAvailable] using havail,by simpa using honline⟩

section
variable {d : TapeUnit} (h : HostMemory) (p : ReadWriteParameters) {modifiers : Nat}

theorem alike_of_forward (hd : refusal d=none) (hm : has modifiers mdRev=false) {t : Tape}
    {a b : Tape.Answer} (hr : d.tape.readForward true p.byteCount=(t,a))
    (hs : d.tape.spaceForward=(t,b)) (hresult : a.result=b.result) (hlen : a.recLen=b.recLen) :
    Alike (read d h p modifiers) (access d h p modifiers) := by
  have hread : readTape d.tape (has modifiers mdRev) p.byteCount=(t,.ok a) := by
    rw [readTape,hm,if_neg Bool.false_ne_true,hr]
  have hspace : (if has modifiers mdRev then d.tape.spaceReverse else d.tape.spaceForward)=(t,b) := by
    rw [hm,if_neg Bool.false_ne_true,hs]
  obtain ⟨hrt,hrl,hro⟩ := read_ok d h p hd hread
  obtain ⟨hat,hal,hao⟩ := access_eq d h p hd hspace
  exact ⟨by rw [hrt,hat],by rw [hrt,hat],by rw [hrl,hal,hresult,hlen],by rw [hro,hao,hresult]⟩

theorem alike_forward (hd : refusal d=none) (hm : has modifiers mdRev=false) :
    Alike (read d h p modifiers) (access d h p modifiers) ↔ d.tape.wholeAhead p.byteCount := by
  have ho := (refusal_none hd).1
  rcases hscan : d.tape.scanForward d.tape.rounds d.tape.pos with ⟨pos,marker⟩
  unfold Tape.wholeAhead
  rw [hscan]
  cases marker with
  | none =>
    exact iff_of_true (alike_of_forward h p hd hm (Tape.readForward_end ho _ _ hscan (.inl rfl))
      (Tape.readForward_end ho _ _ hscan (.inl rfl)) rfl rfl) trivial
  | some marker =>
    dsimp only
    by_cases hmark : marker=Tape.mtrTmk
    · subst hmark
      exact iff_of_true (alike_of_forward h p hd hm (Tape.readForward_mark ho _ _ hscan)
        (Tape.readForward_mark ho _ _ hscan) rfl rfl) (.inl rfl)
    by_cases heom : marker=Tape.mtrEom
    · subst heom
      exact iff_of_true (alike_of_forward h p hd hm (Tape.readForward_end ho _ _ hscan (.inr rfl))
        (Tape.readForward_end ho _ _ hscan (.inr rfl)) rfl rfl) (.inr (.inl rfl))
    have hspace := Tape.readForward_whole ho false 0 hscan ⟨hmark,heom⟩ (Nat.zero_le _)
    by_cases hwhole : min (Tape.markerLen marker) p.byteCount≤d.tape.f.size-(pos+4)
    · have hread := Tape.readForward_whole ho true p.byteCount hscan ⟨hmark,heom⟩ hwhole
      exact iff_of_true (alike_of_forward h p hd hm hread hspace rfl rfl) (.inr (.inr hwhole))
    · have hread := Tape.readForward_cut ho true p.byteCount hscan ⟨hmark,heom⟩ (Nat.lt_of_not_le hwhole)
      -- The read stays in front of the record, the spacing gets past it.
      refine iff_of_false (fun halike => ?_) (by simp [hmark,heom,hwhole])
      have hpos := halike.position
      rw [(read_ok d h p hd (by rw [readTape,hm,if_neg Bool.false_ne_true,hread])).1,
        (access_eq d h p hd (by rw [hm,if_neg Bool.false_ne_true,Tape.spaceForward,hspace])).1] at hpos
      simp only at hpos
      omega

theorem read_after_reverse (hd : refusal d=none) (hm : has modifiers mdRev) {t : Tape}
    {a : Tape.Answer} (hs : d.tape.spaceReverse=(t,a)) (ha : a.result=.record) :
    ¬Alike (read d h p modifiers) (access d h p modifiers) := by
  intro halike
  rcases hread : t.readForward true p.byteCount with ⟨u,b⟩
  have hback : readTape d.tape (has modifiers mdRev) p.byteCount=(u,.ok b) := by
    rw [readTape,hm,if_pos rfl,hs]
    simp only [ha,if_true,hread]
  have hspace : (if has modifiers mdRev then d.tape.spaceReverse else d.tape.spaceForward)=(t,a) := by
    rw [hm,if_pos rfl,hs]
  obtain ⟨hrt,-,hro⟩ := read_ok d h p hd hback
  obtain ⟨hat,-,hao⟩ := access_eq d h p hd hspace
  have hpos := halike.position
  have hout := halike.outcome
  rw [hrt,hat] at hpos
  rw [hro,hao,ha,Option.some_inj] at hout
  have hcases := Tape.readForward_cases t true p.byteCount
  rw [hread] at hcases
  cases hcases with
  | closed ho | endOfMedium ho pos marker hscan hm | mark ho pos hscan => cases hout
  | short ho pos marker hscan hplain hdata => cases hout
  | record ho pos marker hscan hplain hdata =>
    have hle := t.scanForward_le t.rounds t.pos
    rw [hscan] at hle
    simp only at hpos hle
    omega

theorem alike_of_stopped (hd : refusal d=none) (hm : has modifiers mdRev) {t : Tape}
    {a : Tape.Answer} (hs : d.tape.spaceReverse=(t,a)) (ha : a.result≠.record) (hn : a.result≠.endOfMedium) :
    Alike (read d h p modifiers) (access d h p modifiers) ↔ a.result≠.error ∨ p.recordSize=0 := by
  have hback : readTape d.tape (has modifiers mdRev) p.byteCount=(t,.error a.result) := by
    rw [readTape,hm,if_pos rfl,hs]
    simp only [if_neg ha]
  have hspace : (if has modifiers mdRev then d.tape.spaceReverse else d.tape.spaceForward)=(t,a) := by
    rw [hm,if_pos rfl,hs]
  have hr := read_stopped d h p hd hback
  obtain ⟨hat,hal,hao⟩ := access_eq d h p hd hspace
  rw [if_neg ha] at hal
  rw [hr]
  cases hres : a.result with
  | record => exact absurd hres ha
  | endOfMedium => exact absurd hres hn
  | tapeMark =>
    rw [hres] at hao
    exact iff_of_true ⟨by rw [hat]; rfl,by rw [hat]; rfl,hal.symm,outcome_stop.1.trans hao.symm⟩ (by simp)
  | beginOfTape =>
    rw [hres] at hao
    exact iff_of_true ⟨by rw [hat]; rfl,by rw [hat]; rfl,hal.symm,outcome_stop.2.1.trans hao.symm⟩ (by simp)
  | error =>
    rw [hres] at hao
    have hrec : (stoppedRead { d with tape := t } h p .error).params.recordSize=p.recordSize := rfl
    constructor
    · intro halike
      right
      rw [← hrec,halike.recordSize,hal]
    · rintro (hno | hzero)
      · exact absurd rfl hno
      · exact ⟨by rw [hat]; rfl,by rw [hat]; rfl,by rw [hrec,hal,hzero],outcome_stop.2.2.2.trans hao.symm⟩

theorem alike_reverse (hd : refusal d=none) (hm : has modifiers mdRev) :
    Alike (read d h p modifiers) (access d h p modifiers) ↔ d.tape.noRecordBehind (p.recordSize=0) := by
  have ho := (refusal_none hd).1
  have hcases := Tape.spaceReverse_cases d.tape
  rcases hs : d.tape.spaceReverse with ⟨t,a⟩
  rw [hs] at hcases
  unfold Tape.noRecordBehind
  cases hcases with
  | closed hclosed => simp [ho] at hclosed
  | stopped ho pos r hscan =>
    rw [hscan]
    dsimp only
    obtain rfl | rfl := Tape.scanReverse_error hscan
    all_goals exact alike_of_stopped h p hd hm hs (by simp [Tape.Answer.of]) (by simp [Tape.Answer.of])
  | mark ho pos hscan =>
    rw [hscan]
    have hstop := alike_of_stopped h p hd hm hs (by simp [Tape.Answer.of]) (by simp [Tape.Answer.of])
    exact iff_of_true (hstop.mpr (.inl (by simp [Tape.Answer.of]))) (.inl rfl)
  | tooLong ho pos marker hscan hmark hspan =>
    rw [hscan]
    have hstop := alike_of_stopped h p hd hm hs (by simp) (by simp)
    rw [hstop]
    simp [hmark,hspan]
  | record ho pos marker hscan hmark hspan =>
    rw [hscan]
    dsimp only
    by_cases hbad : marker &&& Tape.mtrErf≠0
    · have hresult : Tape.recordResult marker=.error := if_pos hbad
      have hstop := alike_of_stopped h p hd hm hs (by simp [hresult]) (by simp [hresult])
      rw [hstop]
      simp [hresult,hmark,hbad]
    · refine iff_of_false (read_after_reverse h p hd hm hs (if_neg hbad)) ?_
      rw [not_or,not_and_or,not_or]
      exact ⟨hmark,.inl ⟨Nat.not_lt_of_le hspan,hbad⟩⟩

def AlikeWhen (d : TapeUnit) (p : ReadWriteParameters) (modifiers : Nat) : Prop :=
  refusal d≠none ∨
    if has modifiers mdRev then d.tape.noRecordBehind (p.recordSize=0)
    else d.tape.wholeAhead p.byteCount

theorem alike_iff : Alike (read d h p modifiers) (access d h p modifiers) ↔ AlikeWhen d p modifiers := by
  unfold AlikeWhen
  by_cases hd : refusal d=none
  · cases hm : has modifiers mdRev with
    | false => simpa [hd] using alike_forward h p hd hm
    | true => simpa [hd] using alike_reverse h p hd hm
  · obtain ⟨cmdStatus,hc⟩ := Option.ne_none_iff_exists'.mp hd
    have hr : read d h p modifiers=⟨d,h,p,cmdStatus⟩ := by
      unfold read
      rw [hc]
    have ha : access d h p modifiers=⟨d,h,p,cmdStatus⟩ := by
      unfold access
      rw [hc]
    rw [hr,ha]
    exact iff_of_true ⟨rfl,rfl,rfl,rfl⟩ (.inl hd)

end

def readBack (d : TapeUnit) (cs : List (HostMemory × ReadWriteParameters)) : TapeUnit :=
  cs.foldl (fun d c => (read d c.1 c.2 mdRev).unit) d

def sizesBack : TapeUnit → List (HostMemory × ReadWriteParameters) → List Nat
  | _,[] => []
  | d,c::cs => (read d c.1 c.2 mdRev).params.recordSize::sizesBack (read d c.1 c.2 mdRev).unit cs

def isRecord : Tape.Item → Prop
  | .object (.record _ bad _) _ => bad=false
  | _ => False

def itemLength : Tape.Item → Nat
  | .object (.record data _ _) _ => data.length
  | _ => 0

def lengths (xs : List Tape.Item) : List Nat := xs.map itemLength

/-- A ready unit stands on a reel behind a good record. -/
structure Behind (d : TapeUnit) (r : Tape.Reel) : Prop where
  ready : refusal d=none
  shows : Tape.Shows d.tape r
  record : ∃ data fits before,r.cursor.before=.record data false fits::before

theorem Behind.pos_ne {r : Tape.Reel} (hb : Behind d r) : d.tape.pos≠0 := by
  obtain ⟨xs,ys,eom,hl,rfl⟩ := hb.shows
  obtain ⟨data,fits,before,hr⟩ := hb.record
  cases xs with
  | nil => simp [Tape.cursor,Tape.objects] at hr
  | cons x xs =>
    have h4 := Tape.four_le_bytes x
    rw [hl.pos,Tape.bytes_cons,List.length_append]
    omega

theorem read_steady (d : TapeUnit) (h : HostMemory) (p : ReadWriteParameters) (modifiers : Nat) :
    Steady d (read d h p modifiers).unit := by
  have hmoved := readTape_isOpen d.tape (has modifiers mdRev) p.byteCount
  unfold read
  cases refusal d with
  | some cmdStatus => exact .refl d
  | none =>
    rcases hr : readTape d.tape (has modifiers mdRev) p.byteCount with ⟨t,r⟩
    rw [hr] at hmoved
    have htape := steady_tape hmoved
    cases r with
    | error sres => cases sres <;> exact htape.trans ⟨rfl,rfl,rfl⟩
    | ok a =>
      dsimp only
      have hreport := htape.trans (steady_report { d with tape := t })
      cases a.result with
      | record =>
        rw [deliver_tape]
        exact hreport
      | tapeMark | endOfMedium | beginOfTape | error => exact hreport.trans (steady_noRecord _ _)

theorem Behind.read {r : Tape.Reel} (hb : Behind d r) (h : HostMemory)
    (p : ReadWriteParameters) : Behind (Tmscp.read d h p mdRev).unit r := by
  obtain ⟨data,fits,before,hr⟩ := hb.record
  have hrev : r.cursor.reverse.1=some (.record data false fits) := by
    rw [Cursor.reverse,hr]
  have hback : Tape.Shows d.tape.spaceReverse.1 ⟨r.readonly,r.cursor.reverse.2⟩ ∧
      d.tape.spaceReverse.2=Tape.Reel.readAnswer false 0 .beginOfTape r.cursor.reverse.1 :=
    hb.shows.call .spaceReverse
  rw [hrev] at hback
  have hforth : Tape.Shows (d.tape.spaceReverse.1.readForward true p.byteCount).1
      ⟨r.readonly,r.cursor.reverse.2.forward.2⟩ :=
    (hback.1.call (.readForward true p.byteCount)).1
  rw [r.cursor.forward_reverse hrev] at hforth
  have htape : (Tmscp.read d h p mdRev).unit.tape=(d.tape.spaceReverse.1.readForward true p.byteCount).1 := by
    refine (read_ok d h p (a := (d.tape.spaceReverse.1.readForward true p.byteCount).2) hb.ready ?_).1
    have hrecord : d.tape.spaceReverse.2.result=.record := by
      rw [hback.2]
      rfl
    rw [readTape,if_pos (by decide)]
    simp only [hrecord,if_true]
  refine ⟨?_,?_,hb.record⟩
  · rw [(read_steady d h p mdRev).refusal,hb.ready]
  · rw [htape]
    exact hforth

theorem Behind.readBack {r : Tape.Reel} (cs : List (HostMemory × ReadWriteParameters))
    (hb : Behind d r) : Behind (Tmscp.readBack d cs) r := by
  induction cs generalizing d with
  | nil => exact hb
  | cons c cs ih => exact ih (hb.read c.1 c.2)

theorem behind_end {xs : List Tape.Item} {eom : Bool} (hd : refusal d=none)
    (hl : Tape.Laid d.tape xs [] eom) (hx : ∀ x∈xs,isRecord x) (hne : xs≠[]) : ∃ r,Behind d r := by
  obtain ⟨front,x,rfl⟩ := (List.eq_nil_or_concat' xs).resolve_left hne
  have hrec := hx x (by simp)
  cases x with
  | gap => exact hrec.elim
  | object o pad =>
    cases o with
    | mark => exact hrec.elim
    | record data bad fits =>
      obtain rfl : bad=false := hrec
      refine ⟨_,hd,⟨_,_,_,hl,rfl⟩,data,fits,(Tape.objects front).reverse,?_⟩
      simp [Tape.cursor,Tape.objects,Tape.Item.object?]

/-- READ and ACCESS come to the same place, record size and outcome if and only if `AlikeWhen` says so. As many
reverse READs from its end as a tape has records come to its beginning only if there are none. -/
theorem read_like_access (d : TapeUnit) (h : HostMemory) (p : ReadWriteParameters) (modifiers : Nat)
    (xs : List Tape.Item) (eom : Bool) (cs : List (HostMemory × ReadWriteParameters)) :
    (Alike (read d h p modifiers) (access d h p modifiers) ↔ AlikeWhen d p modifiers) ∧
    (refusal d=none → Tape.Laid d.tape xs [] eom → (∀ x∈xs,isRecord x) → cs.length=xs.length →
      (sizesBack d cs=(lengths xs).reverse ∧ (readBack d cs).tape.pos=0 ↔ xs=[])) := by
  refine ⟨alike_iff h p,fun hd hl hx hn => ?_⟩
  constructor
  · intro hback
    by_contra hne
    obtain ⟨r,hb⟩ := behind_end hd hl hx hne
    exact (hb.readBack cs).pos_ne hback.2
  · rintro rfl
    obtain rfl := List.length_eq_zero_iff.mp hn
    exact ⟨rfl,hl.pos⟩

def twoBytes : Tape.Item := .object (.record [7,7] false (by decide)) 0

def oneRecord : TapeUnit where
  tape := ⟨.ofBytes (Tape.bytes [twoBytes]),true,false,10,1,10⟩
  online := true
  softwareWriteProtect := false
  seriousException := false
  leotReported := false
  capacity := 0
  unitDeviceNumber := 1

def quietHost : HostMemory := ⟨0x400000,fun _ => 0,fun _ => true⟩

/-- The reverse READ ends behind the record, the reverse ACCESS in front of it. -/
theorem read_not_like_access : ¬∀ (d : TapeUnit) (h : HostMemory) (p : ReadWriteParameters) (modifiers : Nat),
    Alike (read d h p modifiers) (access d h p modifiers) := by
  intro h
  exact absurd (h oneRecord quietHost ⟨2,0x1000,0,0,0,0⟩ mdRev).position (by decide +kernel)

end QUniLator.Tmscp
