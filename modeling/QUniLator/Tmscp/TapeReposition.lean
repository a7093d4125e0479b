import QUniLator.Tmscp.TapeReads

/-!
REPOSITION: its loop ends, and accounts for the objects that it passes.
-/

namespace QUniLator.Tape

def passed (r : Result) : Bool := r=.record || r=.tapeMark

/-- How many objects the motions of `space` pass one after the other, looking at `fuel` of them. -/
def passes (space : Tape → Tape × Answer) : Nat → Tape → Nat
  | 0,_ => 0
  | fuel+1,t => if passed (space t).2.result then passes space fuel (space t).1+1 else 0

theorem passes_le {space : Tape → Tape × Answer} (μ : Tape → Nat)
    (h : ∀ t,passed (space t).2.result → μ (space t).1+1 ≤ μ t) (fuel : Nat) (t : Tape) :
    passes space fuel t ≤ μ t := by
  induction fuel generalizing t with
  | zero => exact Nat.zero_le _
  | succ fuel ih =>
    rw [passes]
    split_ifs with hp
    · exact (Nat.succ_le_succ (ih _)).trans (h t hp)
    · exact Nat.zero_le _

variable {t : Tape}

theorem readMarker_some {at_ marker : Nat} (h : t.readMarker at_=some marker) : at_+4≤t.size := by
  unfold readMarker at h
  split_ifs at h with hend
  exact Nat.le_of_not_lt hend

theorem scanForward_some {fuel pos q marker : Nat} (h : t.scanForward fuel pos=(q,some marker)) : q+4≤t.size := by
  induction fuel generalizing pos with
  | zero => simp [scanForward] at h
  | succ fuel ih =>
    rw [scanForward] at h
    split_ifs at h with hend
    · simp at h
    · cases hm : t.readMarker pos with
      | none => simp [hm] at h
      | some m =>
        rw [hm] at h
        dsimp only at h
        split_ifs at h with hgap
        · exact ih h
        · rw [Prod.mk.injEq] at h
          rw [← h.1]
          exact readMarker_some hm

theorem scanReverse_ok {fuel pos q marker : Nat} (h : t.scanReverse fuel pos=(q,.ok marker)) : q≤pos ∧ 4≤q := by
  induction fuel generalizing pos with
  | zero => simp [scanReverse] at h
  | succ fuel ih =>
    rw [scanReverse] at h
    split_ifs at h with hstart hshort
    · simp at h
    · simp at h
    · cases hm : t.readMarker (pos-4) with
      | none => simp [hm] at h
      | some m =>
        rw [hm] at h
        dsimp only at h
        split_ifs at h with hgap
        · have hi := ih h
          omega
        · rw [Prod.mk.injEq] at h
          omega

theorem spaceForward_measure (t : Tape) (h : passed t.spaceForward.2.result) :
    (t.spaceForward.1.size-t.spaceForward.1.pos)/4+1≤(t.size-t.pos)/4 := by
  have hcases := readForward_cases t false 0
  unfold spaceForward at h ⊢
  rcases hs : t.readForward false 0 with ⟨u,a⟩
  rw [hs] at hcases h
  have hle := t.scanForward_le t.rounds t.pos
  cases hcases with
  | closed ho | endOfMedium ho pos marker hscan hm => cases h
  | mark ho pos hscan | record ho pos marker hscan hplain hdata =>
    rw [hscan] at hle
    have hin := scanForward_some hscan
    dsimp only at hle ⊢
    omega
  | short ho pos marker hscan hplain hdata => cases h

theorem spaceReverse_measure (t : Tape) (h : passed t.spaceReverse.2.result) : t.spaceReverse.1.pos/4+1≤t.pos/4 := by
  have hcases := spaceReverse_cases t
  rcases hs : t.spaceReverse with ⟨u,a⟩
  rw [hs] at hcases h
  cases hcases with
  | closed ho | tooLong ho pos marker hscan hm hspan => cases h
  | stopped ho pos r hscan =>
    obtain rfl | rfl := scanReverse_error hscan
    · cases h
    · cases h
  | mark ho pos hscan | record ho pos marker hscan hm hspan =>
    have hin := scanReverse_ok hscan
    dsimp only
    omega

theorem spaceForward_objp (t : Tape) : (passed t.spaceForward.2.result → t.spaceForward.1.objp=t.objp+1) ∧
    (t.spaceForward.2.result=.beginOfTape ∨ t.spaceForward.2.result=.endOfMedium → t.spaceForward.1.objp=t.objp) := by
  have hcases := readForward_cases t false 0
  unfold spaceForward
  rcases hs : t.readForward false 0 with ⟨u,a⟩
  rw [hs] at hcases
  cases hcases with
  | closed ho => exact ⟨by simp [passed,Answer.of],fun _ => rfl⟩
  | endOfMedium ho pos marker hscan hm => exact ⟨by simp [passed,Answer.of],fun _ => rfl⟩
  | mark ho pos hscan => exact ⟨fun _ => rfl,by simp [Answer.of]⟩
  | short ho pos marker hscan hplain hdata => exact ⟨by simp [passed],fun _ => rfl⟩
  | record ho pos marker hscan hplain hdata =>
    refine ⟨fun _ => rfl,fun h => ?_⟩
    dsimp only [recordResult] at h
    split_ifs at h <;> simp at h

theorem spaceReverse_objp (t : Tape) : (passed t.spaceReverse.2.result → t.spaceReverse.1.objp=t.objp-1) ∧
    (t.spaceReverse.2.result=.beginOfTape ∨ t.spaceReverse.2.result=.endOfMedium → t.spaceReverse.1.objp=t.objp) := by
  have hcases := spaceReverse_cases t
  rcases hs : t.spaceReverse with ⟨u,a⟩
  rw [hs] at hcases
  cases hcases with
  | closed ho => exact ⟨by simp [passed,Answer.of],fun _ => rfl⟩
  | stopped ho pos r hscan =>
    refine ⟨fun h => ?_,fun _ => rfl⟩
    obtain rfl | rfl := scanReverse_error hscan
    · cases h
    · cases h
  | mark ho pos hscan => exact ⟨fun _ => rfl,by simp [Answer.of]⟩
  | tooLong ho pos marker hscan hm hspan => exact ⟨by simp [passed],fun _ => rfl⟩
  | record ho pos marker hscan hm hspan =>
    refine ⟨fun _ => rfl,fun h => ?_⟩
    dsimp only [recordResult] at h
    split_ifs at h <;> simp at h

theorem passed_none {buf : Bool} {maxLen : Nat} {nothing : Result} {o : Option Object} (hn : passed nothing=false)
    (h : passed (Reel.readAnswer buf maxLen nothing o).result) : o.isSome=true := by
  cases o with
  | some o => rfl
  | none =>
    rw [Reel.readAnswer,Answer.of,hn] at h
    exact h

theorem passes_le_left {space : Tape → Tape × Answer} (left : Reel → Nat)
    (hstep : ∀ t r,Shows t r → passed (space t).2.result →
      ∃ r',Shows (space t).1 r' ∧ left r'<left r) {r : Reel} (h : Shows t r) (fuel : Nat) : passes space fuel t≤left r := by
  induction fuel generalizing t r with
  | zero => exact Nat.zero_le _
  | succ fuel ih =>
    rw [passes]
    split_ifs with hp
    · obtain ⟨r',hr,hlt⟩ := hstep t r h hp
      have hi := ih hr
      omega
    · exact Nat.zero_le _

theorem Shows.passes_forward {r : Reel} (h : Shows t r) (fuel : Nat) :
    passes spaceForward fuel t ≤ r.cursor.after.length := by
  refine passes_le_left (fun r => r.cursor.after.length) (fun t r h hp => ?_) h fuel
  have hc : Shows t.spaceForward.1 ⟨r.readonly,r.cursor.forward.2⟩ ∧
      t.spaceForward.2=Reel.readAnswer false 0 .endOfMedium r.cursor.forward.1 := h.call .spaceForward
  rw [hc.2] at hp
  have hsome := passed_none rfl hp
  refine ⟨_,hc.1,?_⟩
  obtain ⟨readonly,bs,as⟩ := r
  cases as with
  | nil => simp [Cursor.forward] at hsome
  | cons a as => exact Nat.lt_succ_self _

theorem Shows.passes_reverse {r : Reel} (h : Shows t r) (fuel : Nat) :
    passes spaceReverse fuel t ≤ r.cursor.before.length := by
  refine passes_le_left (fun r => r.cursor.before.length) (fun t r h hp => ?_) h fuel
  have hc : Shows t.spaceReverse.1 ⟨r.readonly,r.cursor.reverse.2⟩ ∧
      t.spaceReverse.2=Reel.readAnswer false 0 .beginOfTape r.cursor.reverse.1 := h.call .spaceReverse
  rw [hc.2] at hp
  have hsome := passed_none rfl hp
  refine ⟨_,hc.1,?_⟩
  obtain ⟨readonly,bs,as⟩ := r
  cases bs with
  | nil => simp [Cursor.reverse] at hsome
  | cons b bs => exact Nat.lt_succ_self _

end QUniLator.Tape

namespace QUniLator.Tmscp

open Mscp Option

namespace Spacing
variable (c : Spacing)

/-- The objects on the side of the head that the motion goes to, as far as it could pass them. -/
def objects (t : Tape) : Nat := Tape.passes c.space (repositionRounds t) t

def requested (records marks : Nat) : Nat :=
  if c.objectMode then records+marks else if c.spacingRecords then records else marks

/-- The object position after `n` objects in the direction of the motion. -/
def movedFrom (objp n : Nat) : Nat := if c.reverse then objp-n else objp+n

theorem space_objp (t : Tape) : (Tape.passed (c.space t).2.result → (c.space t).1.objp=c.movedFrom t.objp 1) ∧
    ((c.space t).2.result=.beginOfTape ∨ (c.space t).2.result=.endOfMedium → (c.space t).1.objp=t.objp) := by
  unfold space movedFrom
  cases c.reverse with
  | false => exact t.spaceForward_objp
  | true => exact t.spaceReverse_objp

theorem movedFrom_zero (objp : Nat) : c.movedFrom objp 0=objp := by
  unfold movedFrom
  split_ifs <;> rfl

theorem movedFrom_one (objp n : Nat) : c.movedFrom (c.movedFrom objp n) 1=c.movedFrom objp (n+1) := by
  unfold movedFrom
  split_ifs <;> omega

theorem space_isOpen (t : Tape) : (c.space t).1.isOpen=t.isOpen := by
  unfold space
  cases c.reverse with
  | false => exact (Tape.readForward_cases _ _ _).same.isOpen
  | true => exact (Tape.spaceReverse_cases _).same.isOpen

theorem objects_lt (t : Tape) : c.objects t < repositionRounds t := by
  unfold objects repositionRounds space
  cases c.reverse with
  | false =>
    have hle := Tape.passes_le (fun t => (t.size-t.pos)/4) Tape.spaceForward_measure (t.pos/4+t.size/4+2) t
    have hsize : (t.size-t.pos)/4≤t.size/4 := Nat.div_le_div_right (Nat.sub_le _ _)
    exact (hle.trans hsize).trans_lt (by omega)
  | true =>
    have hle := Tape.passes_le (fun t => t.pos/4) Tape.spaceReverse_measure (t.pos/4+t.size/4+2) t
    exact hle.trans_lt (by omega)

/-- Why the loop broke off: a mark while spacing records, an end of the tape, or an error. -/
def Stop (status : Nat) : Prop :=
  (status=Mscp.status Status.tapeMark 0 0 ∧ c.objectMode=false ∧ c.spacingRecords=true) ∨
    status=Mscp.status Status.bot 0 0 ∨ status=Mscp.status Mscp.Status.success 0 efEndOfTape ∨
    status=driveError

/-- The loop has passed so many records and marks since it was at `t`. -/
structure Accounts (t : Tape) (s : Repositioning) (records marks : Nat) : Prop where
  recordsSkipped : s.recordsSkipped=records%0x100000000
  marksSkipped : s.tapeMarksSkipped=marks%0x100000000
  objp : s.status≠some driveError → s.tape.objp=c.movedFrom t.objp (records+marks)
  done : s.done=c.requested records marks
  bounded : s.done ≤ c.target
  stop : ∀ status,s.status=some status → c.Stop status
  /-- While it spaces records a mark ends it. -/
  ending : c.objectMode=false → c.spacingRecords=true → marks≤1 ∧ (s.status=none → marks=0)

theorem accounts_start (t : Tape) : c.Accounts t (repositionStart t) 0 0 := by
  refine ⟨rfl,rfl,fun _ => (c.movedFrom_zero _).symm,?_,Nat.zero_le _,?_,fun _ _ => ⟨Nat.zero_le _,fun _ => rfl⟩⟩
  · unfold requested
    split_ifs <;> rfl
  · intro status hs
    cases hs

theorem body_tape (s : Repositioning) : (c.body s).tape=(c.space s.tape).1 := by
  unfold body
  dsimp only
  cases (c.space s.tape).2.result with
  | tapeMark =>
    dsimp only
    split_ifs <;> rfl
  | record | beginOfTape | endOfMedium | error => rfl

variable {c}

def Sound (c : Spacing) : Prop := c.objectMode=true → c.spacingRecords=true

theorem Accounts.body {t : Tape} {s : Repositioning} {records marks : Nat} (hc : c.Sound)
    (h : c.Accounts t s records marks) (hb : c.busy s) :
    (∃ records' marks',c.Accounts t (c.body s) records' marks') ∧ (c.body s).tape=(c.space s.tape).1 ∧
      ((c.body s).status=none → Tape.passed (c.space s.tape).2.result) := by
  obtain ⟨hnone,hlt⟩ := Bool.and_eq_true_iff.mp hb
  have hlt : s.done<c.target := of_decide_eq_true hlt
  have hrun : s.status=none := Option.isNone_iff_eq_none.mp hnone
  have hobjp := h.objp (by simp [hrun])
  obtain ⟨hpass,hstay⟩ := c.space_objp s.tape
  have hdone := h.done
  unfold requested at hdone
  have hcount : Tape.passed (c.space s.tape).2.result=true →
      (c.space s.tape).1.objp=c.movedFrom t.objp (records+marks+1) := by
    intro hp
    rw [hpass hp,hobjp,movedFrom_one]
  unfold Spacing.body
  dsimp only
  cases hres : (c.space s.tape).2.result with
  | record =>
    have hp := hcount (by simp [Tape.passed,hres])
    refine ⟨⟨records+1,marks,?_,h.marksSkipped,fun _ => ?_,?_,?_,?_,h.ending⟩,rfl,fun _ => rfl⟩
    · dsimp only
      rw [h.recordsSkipped]
      omega
    · rw [Nat.add_right_comm]
      exact hp
    · unfold requested
      dsimp only
      cases ho : c.objectMode with
      | true =>
        rw [if_pos (hc ho),hdone,ho]
        simp only [if_true]
        omega
      | false =>
        rw [hdone,ho]
        cases c.spacingRecords with
        | false | true => rfl
    · dsimp only
      split_ifs
      · exact hlt
      · exact hlt.le
    · intro status hs
      exact h.stop status hs
  | tapeMark =>
    have hp := hcount (by simp [Tape.passed,hres])
    by_cases hcounts : (c.objectMode || !c.spacingRecords)=true
    · rw [if_pos hcounts]
      refine ⟨⟨records,marks+1,h.recordsSkipped,?_,fun _ => hp,?_,hlt,h.stop,fun ho hs => ?_⟩,rfl,
        fun _ => rfl⟩
      · dsimp only
        rw [h.marksSkipped]
        omega
      · unfold requested
        dsimp only
        rw [hdone]
        cases ho : c.objectMode with
        | true => simp only [if_true]; omega
        | false =>
          have hm : c.spacingRecords=false := by simpa [ho] using hcounts
          simp [hm]
      · simp [ho,hs] at hcounts
    · rw [if_neg hcounts]
      have hmode : c.objectMode=false ∧ c.spacingRecords=true := by simpa using hcounts
      refine ⟨⟨records,marks+1,h.recordsSkipped,?_,fun _ => hp,?_,hlt.le,?_,fun ho hs => ?_⟩,rfl,
        fun _ => rfl⟩
      · dsimp only
        rw [h.marksSkipped]
        omega
      · unfold requested
        dsimp only
        rw [hdone,hmode.1,hmode.2]
        rfl
      · intro status hs
        obtain rfl := some.inj hs
        exact .inl ⟨rfl,hmode⟩
      · have hzero := (h.ending ho hs).2 hrun
        exact ⟨by omega,fun hn => by cases hn⟩
  | beginOfTape =>
    refine ⟨⟨records,marks,h.recordsSkipped,h.marksSkipped,fun _ => ?_,h.done,hlt.le,?_,fun ho hs => ?_⟩,rfl,
      fun hs => by cases hs⟩
    · exact (hstay (.inl hres)).trans hobjp
    · intro status hs
      obtain rfl := some.inj hs
      exact .inr (.inl rfl)
    · exact ⟨(h.ending ho hs).1,fun hn => by cases hn⟩
  | endOfMedium =>
    refine ⟨⟨records,marks,h.recordsSkipped,h.marksSkipped,fun _ => ?_,h.done,hlt.le,?_,fun ho hs => ?_⟩,rfl,
      fun hs => by cases hs⟩
    · exact (hstay (.inr hres)).trans hobjp
    · intro status hs
      obtain rfl := some.inj hs
      exact .inr (.inr (.inl rfl))
    · exact ⟨(h.ending ho hs).1,fun hn => by cases hn⟩
  | error =>
    refine ⟨⟨records,marks,h.recordsSkipped,h.marksSkipped,fun hne => absurd rfl hne,h.done,hlt.le,?_,
      fun ho hs => ?_⟩,rfl,fun hs => by cases hs⟩
    · intro status hs
      obtain rfl := some.inj hs
      exact .inr (.inr (.inr rfl))
    · exact ⟨(h.ending ho hs).1,fun hn => by cases hn⟩

theorem Accounts.loop {t : Tape} (hc : c.Sound) (fuel : Nat) {s : Repositioning} {records marks : Nat}
    (h : c.Accounts t s records marks) (hfuel : Tape.passes c.space fuel s.tape<fuel) :
    ∃ u records' marks',runWhile c.busy c.body (Tape.passes c.space fuel s.tape+1) s=some u ∧
      c.Accounts t u records' marks' ∧ c.busy u=false := by
  induction fuel generalizing s records marks with
  | zero => exact absurd hfuel (Nat.not_lt_zero _)
  | succ fuel ih =>
    cases hb : c.busy s with
    | false =>
      refine ⟨s,records,marks,?_,h,hb⟩
      rw [runWhile,if_neg (by simp [hb])]
    | true =>
      obtain ⟨⟨records',marks',haccounts⟩,htape,hgoes⟩ := h.body hc hb
      rw [runWhile,if_pos hb]
      cases hn : c.busy (c.body s) with
      | false =>
        refine ⟨c.body s,records',marks',?_,haccounts,hn⟩
        generalize Tape.passes c.space (fuel+1) s.tape=k
        cases k <;> rw [runWhile,if_neg (by simp [hn])]
      | true =>
        have hnone : (c.body s).status=none := by
          simpa using (Bool.and_eq_true_iff.mp hn).1
        have hp := hgoes hnone
        rw [Tape.passes,if_pos hp] at hfuel ⊢
        rw [← htape] at hfuel ⊢
        exact ih haccounts (Nat.lt_of_succ_lt_succ hfuel)

theorem loop_accounts {c : Spacing} (hc : c.Sound) (t : Tape) :
    ∃ u records marks,runWhile c.busy c.body (c.objects t+1) (repositionStart t)=some u ∧
      c.Accounts t u records marks ∧
      (c.requested records marks<c.target → ∃ status,u.status=some status ∧ c.Stop status) := by
  obtain ⟨u,records,marks,hrun,haccounts,hend⟩ :=
    Accounts.loop hc (repositionRounds t) (c.accounts_start t) (c.objects_lt t)
  refine ⟨u,records,marks,hrun,haccounts,fun hlt => ?_⟩
  cases hs : u.status with
  | some status => exact ⟨status,rfl,haccounts.stop status hs⟩
  | none =>
    rw [← haccounts.done] at hlt
    simp [busy,hs,hlt] at hend

end Spacing

theorem spacing_sound (p : RepositionParameters) (modifiers : Nat) : (spacing p modifiers).Sound := by
  intro ho
  change has modifiers mdObc=true at ho
  change (has modifiers mdObc || p.recordCount != 0)=true
  rw [ho]
  rfl

def Fields (p : RepositionParameters) : Prop :=
  p.recordCount<0x100000000 ∧ p.tapeMarkCount<0x100000000

theorem spacing_target {p : RepositionParameters} (hp : Fields p) (modifiers : Nat) :
    (spacing p modifiers).target<0x100000000 := by
  unfold spacing
  dsimp only
  split_ifs
  · exact hp.1
  · exact hp.2

/-- What a reposition over objects reports, and where it leaves the tape. `records` is the number of the
records it passed; the report has it in 32 bits. -/
structure Accounted (c : Spacing) (t u : Tape) (q : RepositionParameters) (cmdStatus records : Nat) : Prop where
  recordCount : q.recordCount=records%0x100000000
  exact : c.spacingRecords=true → q.recordCount=records
  moved : cmdStatus≠driveError → u.objp=c.movedFrom t.objp (records+q.tapeMarkCount)
  bounded : c.requested q.recordCount q.tapeMarkCount ≤ c.target
  short : c.requested q.recordCount q.tapeMarkCount<c.target → c.Stop cmdStatus

theorem Spacing.Accounts.reported {c : Spacing} {t : Tape} {s : Repositioning} {records marks : Nat}
    (h : c.Accounts t s records marks) (ht : c.target<0x100000000) :
    marks%0x100000000=marks ∧ (c.spacingRecords → records%0x100000000=records) ∧
      c.requested (records%0x100000000) marks=s.done := by
  have hbound := h.bounded
  rw [h.done] at hbound ⊢
  have hend := h.ending
  unfold Spacing.requested at hbound ⊢
  cases ho : c.objectMode with
  | true =>
    rw [ho] at hbound
    simp only [if_true] at hbound ⊢
    omega
  | false =>
    rw [ho] at hbound hend
    cases hs : c.spacingRecords with
    | true =>
      rw [hs] at hbound hend
      have hone := (hend rfl rfl).1
      simp only [Bool.false_eq_true,if_true,if_false] at hbound ⊢
      omega
    | false =>
      rw [hs] at hbound
      simp only [Bool.false_eq_true,if_false] at hbound ⊢
      refine ⟨Nat.mod_eq_of_lt (by omega),fun hn => absurd hn (by simp),trivial⟩

theorem reposition_loop {d : TapeUnit} (hd : refusal d=none) {p : RepositionParameters} (hp : Fields p)
    {modifiers : Nat} (hm : has modifiers mdRwd=false) :
    ∃ u,runWhile (spacing p modifiers).busy (spacing p modifiers).body
        ((spacing p modifiers).objects d.tape+1) (repositionStart d.tape)=some u ∧
      ∃ e q cmdStatus records,reposition d p modifiers=some (e,q,cmdStatus) ∧ e.tape=u.tape ∧
        q.position=positionField e.tape ∧ Accounted (spacing p modifiers) d.tape e.tape q cmdStatus records := by
  have hsound := spacing_sound p modifiers
  obtain ⟨u,records,marks,hrun,haccounts,hshort⟩ := Spacing.loop_accounts hsound d.tape
  obtain ⟨hmarks,hrecords,hdone⟩ := haccounts.reported (spacing_target hp modifiers)
  refine ⟨u,hrun,?_⟩
  have hrounds : runWhile (spacing p modifiers).busy (spacing p modifiers).body (repositionRounds d.tape)
      (repositionStart d.tape)=some u := by
    obtain ⟨n,hn⟩ := Nat.le.dest ((spacing p modifiers).objects_lt d.tape)
    rw [← hn]
    exact runWhile_mono hrun n
  rw [← haccounts.done] at hshort
  unfold reposition
  rw [hd]
  simp only [hm,Bool.false_eq_true,if_false,hrounds,Option.map_some,haccounts.recordsSkipped,
    haccounts.marksSkipped,hmarks]
  cases hs : u.status with
  | some status =>
    refine ⟨_,_,_,records,rfl,rfl,rfl,rfl,hrecords,?_,?_,?_⟩
    · intro hne
      exact haccounts.objp (by simpa [hs] using hne)
    · rw [hdone]
      exact haccounts.bounded
    · intro _
      exact haccounts.stop status hs
  | none =>
    refine ⟨_,_,_,records,rfl,?_,?_,rfl,hrecords,?_,?_,?_⟩
    · simp
    · rw [successStatus_tape]
    · intro _
      rw [successStatus_tape]
      exact haccounts.objp (by simp [hs])
    · rw [hdone]
      exact haccounts.bounded
    · intro hlt
      rw [hdone] at hlt
      obtain ⟨status,hstatus,-⟩ := hshort hlt
      simp [hs] at hstatus

theorem reposition_rewind {d : TapeUnit} (hd : refusal d=none) (p : RepositionParameters) {modifiers : Nat}
    (hm : has modifiers mdRwd) : ∃ e,reposition d p modifiers =
        some (e,{ p with recordCount := 0,tapeMarkCount := 0,position := 0 },success) ∧ e.tape=d.tape.rewind := by
  unfold reposition
  rw [hd]
  simp only [hm,if_true]
  exact ⟨_,rfl,takeEndOfTapeReport_tape _⟩

theorem Spacing.objects_le (c : Spacing) {t : Tape} {r : Tape.Reel} (h : Tape.Shows t r) :
    c.objects t ≤ if c.reverse then r.cursor.before.length else r.cursor.after.length := by
  unfold Spacing.objects Spacing.space
  cases c.reverse with
  | false => exact h.passes_forward _
  | true => exact h.passes_reverse _

/-- What a reposition comes to: a rewind, or a loop of so many rounds and what it accounts for. -/
structure Repositions (d : TapeUnit) (p : RepositionParameters) (modifiers : Nat) : Prop where
  rewind : has modifiers mdRwd=true → ∃ e,reposition d p modifiers =
      some (e,{ p with recordCount := 0,tapeMarkCount := 0,position := 0 },success) ∧
    e.tape=d.tape.rewind
  loop : has modifiers mdRwd=false → ∃ u,runWhile (spacing p modifiers).busy (spacing p modifiers).body
      ((spacing p modifiers).objects d.tape+1) (repositionStart d.tape)=some u ∧
    ∃ e q cmdStatus records,reposition d p modifiers=some (e,q,cmdStatus) ∧ e.tape=u.tape ∧
      q.position=positionField e.tape ∧
      Accounted (spacing p modifiers) d.tape e.tape q cmdStatus records
  objects : ∀ r,Tape.Shows d.tape r → (spacing p modifiers).objects d.tape ≤
    if (spacing p modifiers).reverse then r.cursor.before.length else r.cursor.after.length

/-- A reposition of a ready unit that does not rewind goes round its loop once for each object on its side of the
head, and once more at most. Unless it ends in an error, the object position changes by the objects passed, which it
reports; a rewind reports none. -/
theorem reposition_accounts (d : TapeUnit) (p : RepositionParameters) (modifiers : Nat)
    (hd : refusal d=none) (hp : Fields p) : Repositions d p modifiers :=
  ⟨reposition_rewind hd p,reposition_loop hd hp,fun _ => (spacing p modifiers).objects_le⟩

/-- One record back. -/
theorem reposition_accounts_back : refusal oneRecord=none ∧ Fields ⟨1,0,0,0,0⟩ ∧
    Repositions oneRecord ⟨1,0,0,0,0⟩ mdRev :=
  ⟨rfl,⟨by decide,by decide⟩,reposition_accounts oneRecord ⟨1,0,0,0,0⟩ mdRev rfl ⟨by decide,by decide⟩⟩

/-- A record of eight zeros with zeros for its second marker, which read as tape marks backward. -/
def brokenTrailer : Tape := ⟨.ofBytes (lePut 4 8++List.replicate 12 0),true,false,0,0,16⟩

def pastBroken : TapeUnit := { oneRecord with tape := brokenTrailer.spaceForward.1 }

/-- Two marks are passed and reported, but the object position goes from 1 to 0. -/
theorem reposition_miscounts : ¬∀ (d : TapeUnit) (p : RepositionParameters) (modifiers : Nat),
    refusal d=none → Fields p → has modifiers mdRwd=false → has modifiers mdRev →
    ∀ e q cmdStatus,reposition d p modifiers=some (e,q,cmdStatus) → cmdStatus≠driveError →
      e.tape.objp+(q.recordCount+q.tapeMarkCount)=d.tape.objp := by
  intro h
  have hrun : (reposition pastBroken ⟨0,2,0,0,0⟩ mdRev).map
      (fun r => (r.1.tape.objp,r.2.1.recordCount,r.2.1.tapeMarkCount,r.2.2))=some (0,0,2,success) := by
    decide +kernel
  obtain ⟨⟨e,q,cmdStatus⟩,hr,hv⟩ := Option.map_eq_some_iff.mp hrun
  simp only [Prod.mk.injEq] at hv
  obtain ⟨hobjp,hrec,hmark,hstatus⟩ := hv
  have hbad := h pastBroken ⟨0,2,0,0,0⟩ mdRev rfl ⟨by decide,by decide⟩ (by decide) (by decide) e q cmdStatus hr
    (by rw [hstatus]; decide)
  rw [hobjp,hrec,hmark] at hbad
  exact absurd hbad (by decide +kernel)

end QUniLator.Tmscp
