import QUniLator.Storage.CowLifecycle

namespace QUniLator.Cow
open Image List

/-- The files of `s` after the first `k` of the operations a call made on the way to `t`. -/
def cut {blk : Nat} (s t : Image blk) (k : Nat) : Files blk :=
  cutAfter Files.apply s.files s.log t.log k

/-- What can happen to an open image: a call, a commit the host fails in the middle, or a crash after `k` operations
of a write or a commit, and the `open` behind it. -/
inductive Event where
  | call (c : Call)
  | commitFails (fault : Nat → Option (Fin blockSize))
  | cutWrite (buffer : List UInt8) (position k : Nat)
  | cutCommit (fault : Nat → Option (Fin blockSize)) (k : Nat)

namespace Image
variable {blk : Nat}

def event (s : Image blk) : Event → Image blk
  | .call c => s.call c
  | .commitFails fault => (s.commit false fault).1
  | .cutWrite buffer position k => open_ (cut s (s.write buffer position) k)
  | .cutCommit fault k => open_ (cut s (s.commit false fault).1 k)

def JustOpened (s : Image blk) : Prop := ∃ f,f.map=none ∧ s=open_ f

def Next (guard : Image blk → Event → Prop) (s t : Image blk) : Prop :=
  ∃ e,guard s e ∧ t=s.event e

/-- No `discard` while `base_size_bytes` lags behind the base. -/
def FreshDiscard (s : Image blk) (e : Event) : Prop := e=.call .discard → Fresh s

theorem Trail.cut {R : Files blk → Prop} {s t : Image blk} (h : Trail R s t) (k : Nat) : R (cut s t k) :=
  QUniLator.Trail.cut h k

variable {s : Image blk}

theorem call_inv (h : Inv s) (c : Call) (hc : c=.discard → Fresh s) : Inv (s.call c) := by
  cases c with
  | read position len => exact h
  | write buffer position => exact (write_inv h buffer position).1
  | reopen => exact (open_closed h).1
  | crash => exact (open_crashed s.files h.noMap).1
  | discard => exact (discard_spec (hc rfl) h.isOpen).1
  | commit refused => exact (commit_spec h refused noFault).1

theorem cutWrite_noMap (h : Inv s) (buffer : List UInt8) (position k : Nat) :
    (cut s (s.write buffer position) k).map=none := by
  have hw := write_spec h.toSound h.noMap buffer position (fun _ => False)
    (fun _ _ _ _ hi => hi.elim) (fun _ hi => hi.elim)
  exact (hw.2.2.cut k).1

theorem event_inv (h : Inv s) (e : Event) (he : FreshDiscard s e) : Inv (s.event e) := by
  cases e with
  | call c => exact call_inv h c (fun hc => he (by rw [hc]))
  | commitFails fault => exact (commit_spec h false fault).1
  | cutWrite buffer position k => exact (open_crashed _ (cutWrite_noMap h buffer position k)).1
  | cutCommit fault k =>
    exact (open_crashed _ ((commit_spec h false fault).2.2.1.cut k).1).1

theorem reachable_inv (h : Reachable JustOpened (Next FreshDiscard) s) : Inv s := by
  refine h.invariant ?_ ?_
  · rintro s ⟨f,hm,rfl⟩
    exact (open_crashed f hm).1
  · rintro s t hs ⟨e,he,rfl⟩
    exact event_inv hs e he

/-- A crash between any two operations of a commit, and a commit that fails, leave the disk reading
as it did. -/
def CommitSafe (s : Image blk) : Prop :=
  ∀ refused fault,(∀ k position len,(open_ (cut s (s.commit refused fault).1 k)).read position len =
      s.read position len) ∧
    ((s.commit refused fault).2=false → ∀ position len,
      (s.commit refused fault).1.read position len=s.read position len)

theorem reachable_events (es : List Event) (h : Reachable JustOpened (Next fun _ _ => True) s) :
    Reachable JustOpened (Next fun _ _ => True) (es.foldl event s) := by
  induction es generalizing s with
  | nil => exact h
  | cons e es ih => exact ih (h.step ⟨e,trivial,rfl⟩)

/-- From an empty base: a commit that fails one byte into block 1 leaves the base longer than `base_size_bytes` says,
so the discard makes no blocks, and the page of block 0 is filled without block 1. -/
def lostByte : Image 4096 :=
  [.call (.write [1] 512),.commitFails (fun b => if b=1 then some ⟨1,by decide⟩ else none),
    .call .discard,.call (.write [1] 0),.call (.write [1] 4096)].foldl event (fromBase 4096 .empty)

end Image

end QUniLator.Cow

namespace QUniLator.Cow.Image

open List
variable {blk : Nat}

/-- A crash between any two operations of a write leaves every byte outside its range reading as it
did. -/
def WriteSafe (s : Image blk) (buffer : List UInt8) (position : Nat) : Prop :=
  ∀ k i,¬(position ≤ i ∧ i<position+buffer.length) →
    (open_ (cut s (s.write buffer position) k)).read i 1=s.read i 1

/-- No byte the write is to leave alone is lost while it fills a page: in every page it reaches that the overlay does
not hold, all but those of the first block are zero. -/
def PagesClear (s : Image blk) (buffer : List UInt8) (position : Nat) : Prop :=
  ∀ page,Touched blk position buffer.length page →
    s.FillClear (fun i => ¬(position ≤ i ∧ i<position+buffer.length)) page

variable {s : Image blk}

theorem writeSafe_of_clear (h : Inv s) (buffer : List UInt8) (position : Nat)
    (hc : PagesClear s buffer position) : WriteSafe s buffer position := by
  intro k i hi
  have hw := write_spec h.toSound h.noMap buffer position
    (fun i => ¬(position ≤ i ∧ i<position+buffer.length)) hc (fun _ hi => hi)
  obtain ⟨hm,hr⟩ := hw.2.2.cut k
  rw [read_eq,read_eq,slice_one,slice_one,(open_crashed _ hm).2.1,hr i hi]

/-- `u` goes on from `t`: whatever operations it has made come after those of `t`. -/
def Extends (t u : Image blk) : Prop := ∃ ops,u.log=t.log++ops

theorem Trail.extends {R : Files blk → Prop} {s t : Image blk} (h : Trail R s t) : Extends s t := by
  obtain ⟨ops,hl,-,-⟩ := h
  exact ⟨ops,hl⟩

theorem writeBlock_firstOp (h : Sound s) (block off : Nat) (src : List UInt8)
    (hfit : off+src.length≤blockSize) (hh : s.files.overlay.held (block/pageBlocks blk)=false) :
    ∃ bs rest,bs.length=blockSize ∧ (s.writeBlock block off src).log =
      s.log ++ .overlayPwrite bs ((block-block%pageBlocks blk)*blockSize)::rest := by
  have hg := ensureBlocks_grown h (block+1)
  obtain ⟨bs,hbs,-,-⟩ := writeBlock_stores s block off src hfit _ rfl
  simp only at hbs
  generalize s.ensureBlocks (block+1)=t at hg hbs
  have hb : block<t.blockCount := by rw [hg.blockCount]; omega
  have hclear (b : Nat) (hp : b/pageBlocks blk=block/pageBlocks blk) : t.bitGet b=false := by
    rw [← Bool.not_eq_true]
    intro hs
    have hheld := hg.sound.held b hs
    rw [hp,hg.files,hh] at hheld
    exact absurd hheld (by decide)
  obtain ⟨hlt,hsteps⟩ := fillPage_steps t block _ _ hb rfl rfl
  rw [if_neg (by simp [hclear block rfl]),hsteps] at hbs
  generalize hf : block-block%pageBlocks blk=first at *
  have hpage : first/pageBlocks blk=block/pageBlocks blk :=
    (page_first block _ (pageBlocks_pos blk) first).mp (by
      have := pageBlocks_pos blk
      omega)
  have hone := (Filled.none hg.sound.toLoose first).step (le_refl _) (by omega)
  have hrest := (hone.fold (R := fun _ => True)
    (min (first+pageBlocks blk) t.blockCount-(first+1)) (by omega) (by omega)
    (fun _ _ _ _ _ _ => trivial)).2.extends
  obtain ⟨ops,hops⟩ := hrest
  have hfirst : (t.fillStep first).log =
      t.log++[.overlayPwrite (t.cowReadBlock first) (first*blockSize)] := by
    rw [fillStep,if_neg (by simp [hclear first hpage])]
    exact storeBlock_log _ _ _
  refine ⟨t.cowReadBlock first,ops++[.overlayPwrite bs (block*blockSize)],
    cowReadBlock_length _ _,?_⟩
  rw [hbs,storeBlock_log,hops,hfirst,hg.log]
  simp

theorem cut_firstOp {s t u : Image blk} (ht : Trail (fun _ => True) s t) (bs : List UInt8)
    (first : Nat) (rest : List FileOp) (hl : bs.length=blockSize)
    (hu : u.log=t.log ++ .overlayPwrite bs (first*blockSize)::rest) (i : Nat)
    (hpage : i/pageSize blk=first/pageBlocks blk)
    (hh : t.files.overlay.held (i/pageSize blk)=false) (hi : i/blockSize≠first) : ∃ k,(cut s u k).recovered i=0 := by
  obtain ⟨ops,hlog,hfiles,-⟩ := ht
  refine ⟨ops.length+1,?_⟩
  have hd : u.log.drop s.log.length=ops ++ .overlayPwrite bs (first*blockSize)::rest := by
    rw [hu,hlog,append_assoc]
    exact drop_left' rfl
  have hcut : cut s u (ops.length+1) =
      t.files.apply (.overlayPwrite bs (first*blockSize)) := by
    rw [cut,cutAfter,hd,take_length_add_append,replay_append,← hfiles]
    rfl
  have hheld := storeBlock_held t first bs (i/pageSize blk) hl
  rw [storeBlock_files] at hheld
  rw [hcut,Files.recovered,hheld,hpage]
  simp only [decide_true,Bool.true_or,if_true]
  change (t.files.overlay.toFile.pwrite bs (first*blockSize)).byte i=0
  rw [File.pwrite_byte,patch_outside,t.files.overlay.hole i hh]
  rw [hl]
  exact fun hc => hi (div_blockSize first i hc.1 hc.2)

theorem Writing.step_lost {s t : Image blk} {buffer : List UInt8} {position pos len : Nat}
    {out : Nat → Prop} (h : Writing s buffer position out t pos len) (hl : 0<len) (page i : Nat)
    (hh : t.files.overlay.held page=false) (hpage : i/pageSize blk=page)
    (hi : i/blockSize%pageBlocks blk≠0) (n : Nat) (hn : min (blockSize-pos%blockSize) len=n)
    (hw : Writing s buffer position out
      (writeStep buffer position t ⟨pos/blockSize,pos%blockSize,n⟩) (pos+n) (len-n)) :
    (writeStep buffer position t ⟨pos/blockSize,pos%blockSize,n⟩).files.overlay.held page=false ∨
      ∀ u,Extends (writeStep buffer position t ⟨pos/blockSize,pos%blockSize,n⟩) u →
        ∃ k,(cut s u k).recovered i=0 := by
  have hm := Nat.mod_lt pos (show 0<blockSize by decide)
  obtain ⟨src,hsrc,-,hstep⟩ := writeStep_eq t buffer position pos len h.start h.left n hn
  by_cases hp : page=pos/blockSize/pageBlocks blk
  · right
    rintro u ⟨ops,hu⟩
    subst hp
    obtain ⟨bs,rest,hbs,hlog⟩ := writeBlock_firstOp h.wrote.sound (pos/blockSize) (pos%blockSize)
      src (by omega) hh
    rw [hstep,hlog,append_assoc,cons_append] at hu
    have hfirst : (pos/blockSize-pos/blockSize%pageBlocks blk)/pageBlocks blk =
        pos/blockSize/pageBlocks blk :=
      (page_first _ _ (pageBlocks_pos blk) _).mp (by
        have := pageBlocks_pos blk
        omega)
    refine cut_firstOp (h.trail.mono fun _ _ => trivial) bs _ _ hbs hu i (hpage.trans hfirst.symm)
      (by rw [hpage]; exact hh) ?_
    intro hc
    apply hi
    rw [hc]
    have hd := Nat.div_add_mod (pos/blockSize) (pageBlocks blk)
    rw [show pos/blockSize-pos/blockSize%pageBlocks blk =
      pageBlocks blk*(pos/blockSize/pageBlocks blk) by omega]
    exact Nat.mul_mod_right _ _
  · left
    have hlen (m : Nat) (hle : m≤buffer.length) : (buffer.take m).length=m := by
      simp
      omega
    have hs := h.start
    have he := h.left
    rw [← Bool.not_eq_true,h.wrote.held,hlen _ (by omega)] at hh
    rw [← Bool.not_eq_true,hw.wrote.held,hlen _ (by omega),
      show pos+n-position=pos-position+n by omega,touched_append,Nat.add_sub_cancel' hs]
    have ht := touched_block blk (pos/blockSize) (pos%blockSize) n page (by omega)
      (by omega)
    rw [div_mul_mod] at ht
    rw [ht]
    tauto

theorem write_cut_lost (h : Inv s) (buffer : List UInt8) (position page i : Nat)
    (ht : Touched blk position buffer.length page) (hh : s.files.overlay.held page=false)
    (hpage : i/pageSize blk=page) (hi : i/blockSize%pageBlocks blk≠0) :
    ∃ k,(cut s (s.write buffer position) k).recovered i=0 := by
  have hr := foldl_pieces_induct (show 0<blockSize by decide) (writeStep buffer position)
    (fun t pos len => Writing s buffer position (fun _ => False) t pos len ∧
      (t.files.overlay.held page=false ∨ ∀ u,Extends t u → ∃ k,(cut s u k).recovered i=0))
    (by
      rintro t pos len hl ⟨hw,hcase⟩
      have hs := hw.step hl h.noMap (fun _ _ _ _ hi => hi.elim) (fun _ hi => hi.elim) _ rfl
      refine ⟨hs,?_⟩
      rcases hcase with hc | hc
      · exact hw.step_lost hl page i hc hpage hi _ rfl hs
      · right
        rintro u ⟨ops,hu⟩
        obtain ⟨src,hsrc,-,hstep⟩ := writeStep_eq t buffer position pos len hw.start hw.left _ rfl
        have hm := Nat.mod_lt pos (show 0<blockSize by decide)
        obtain ⟨as,has⟩ := (writeBlock_spec hw.wrote.sound (pos/blockSize) (pos%blockSize) src
          (by omega) (by omega) (fun _ => False) (hw.wrote.map.trans h.noMap)
          (fun _ _ hi => hi.elim) (fun _ hi => hi.elim)).2.extends
        rw [hstep,has,append_assoc] at hu
        exact hc u ⟨_,hu⟩)
    s position buffer.length ⟨.begin h.toSound h.noMap buffer position _,Or.inl hh⟩
  obtain ⟨hw,hcase⟩ := hr
  rcases hcase with hc | hc
  · -- the range reaches into the page, so it is there in the end
    exfalso
    rw [← Bool.not_eq_true,hw.wrote.held] at hc
    exact hc (Or.inr (by simpa using ht))
  · refine hc _ ⟨[],?_⟩
    rw [write_eq,append_nil]
    simp only
    split_ifs <;> rfl

theorem writeSafe_iff (h : Inv s) (buffer : List UInt8) (position : Nat) :
    WriteSafe s buffer position ↔ PagesClear s buffer position := by
  refine ⟨?_,writeSafe_of_clear h buffer position⟩
  intro hsafe page ht hh i hout hpage hi
  obtain ⟨k,hk⟩ := write_cut_lost h buffer position page i ht hh hpage hi
  have hread := hsafe k i hout
  rw [read_eq,read_eq,slice_one,slice_one,(open_crashed _ (cutWrite_noMap h buffer position k)).2.1,hk,view] at hread
  have hbit : s.bitGet (i/blockSize)=false := by
    rw [← Bool.not_eq_true]
    intro hb
    have hheld := h.held _ hb
    rw [← div_pageSize,hpage,hh] at hheld
    exact absurd hheld (by decide)
  rw [hbit] at hread
  exact (List.cons.inj hread).1.symm

def twoBlocks : File := ⟨1024,fun i => if i<1024 then 1 else 0,fun i hi => by
  simp [Nat.not_lt.mpr hi]⟩

end QUniLator.Cow.Image
