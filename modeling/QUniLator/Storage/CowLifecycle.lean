import QUniLator.Framework.Run
import QUniLator.Storage.CowCommit

namespace QUniLator.Cow

/-- The calls a drive makes. `crash` drops the object without `close`; both it and `reopen` go on with `open`.
`refused` is a base that cannot be written. -/
inductive Call where
  | read (position len : Nat)
  | write (buffer : List UInt8) (position : Nat)
  | reopen
  | crash
  | discard
  | commit (refused : Bool)

def noFault : Nat → Option (Fin blockSize) := fun _ => none

namespace Image
variable {blk : Nat}

def call (s : Image blk) : Call → Image blk
  | .read _ _ => s
  | .write buffer position => s.write buffer position
  | .reopen => open_ s.close.files
  | .crash => open_ s.files
  | .discard => s.discard
  | .commit refused => (s.commit refused noFault).1

def answer (s : Image blk) : Call → Option (List UInt8)
  | .read position len => some (s.read position len)
  | _ => none

end Image

/-- The disk a drive means to have: its bytes, and the ones a discard goes back to. -/
structure Flat where
  disk : Nat → UInt8
  committed : Nat → UInt8

namespace Flat

def call (f : Flat) : Call → Flat
  | .write buffer position => { f with disk := patch f.disk position buffer }
  | .discard => { f with disk := f.committed }
  | .commit false => { f with committed := f.disk }
  | _ => f

def answer (f : Flat) : Call → Option (List UInt8)
  | .read position len => some (slice f.disk position len)
  | _ => none

end Flat

namespace Image
variable {blk : Nat}

theorem commitBlocks_noFault (bs : List Nat) (s : Image blk) : (commitBlocks noFault bs s).2=true := by
  induction bs generalizing s with
  | nil => rfl
  | cons b bs ih =>
    unfold commitBlocks
    split_ifs
    · exact ih _
    · exact ih s

theorem commit_noFault (s : Image blk) : (s.commit false noFault).2=true := by
  have hok := commitBlocks_noFault (List.range s.blockCount) s
  unfold commit
  simp only [Bool.false_eq_true,if_false]
  generalize commitBlocks noFault (List.range s.blockCount) s=r at hok
  obtain ⟨t,ok⟩ := r
  simp only at hok
  simp [hok]

/-- The image shows the flat disk, with its committed bytes in the base. -/
structure Shows (s : Image blk) (f : Flat) : Prop where
  inv : Inv s
  fresh : Fresh s
  disk : s.view=f.disk
  committed : s.files.base.byte=f.committed

theorem Shows.call {s : Image blk} {f : Flat} (h : Shows s f) (c : Call) :
    Shows (s.call c) (f.call c) ∧ s.answer c=f.answer c := by
  cases c with
  | read position len =>
    refine ⟨h,?_⟩
    change some (s.read position len)=some (slice f.disk position len)
    rw [read_eq,h.disk]
  | write buffer position =>
    obtain ⟨hi,hv,hb,hz⟩ := write_inv h.inv buffer position
    refine ⟨⟨hi,?_,?_,?_⟩,rfl⟩
    · change (s.write buffer position).baseSizeBytes=(s.write buffer position).files.base.size
      rw [hz,hb]
      exact h.fresh
    · change (s.write buffer position).view=patch f.disk position buffer
      rw [hv,h.disk]
    · change (s.write buffer position).files.base.byte=f.committed
      rw [hb,h.committed]
  | reopen =>
    obtain ⟨hi,hv,hb,hf⟩ := open_closed h.inv
    exact ⟨⟨hi,hf,hv.trans h.disk,(congrArg File.byte hb).trans h.committed⟩,rfl⟩
  | crash =>
    obtain ⟨hi,hv,hb,hf⟩ := open_crashed s.files h.inv.noMap
    rw [h.inv.recovered_eq] at hv
    exact ⟨⟨hi,hf,hv.trans h.disk,(congrArg File.byte hb).trans h.committed⟩,rfl⟩
  | discard =>
    obtain ⟨hi,hv,hb,hf⟩ := discard_spec h.fresh h.inv.isOpen
    exact ⟨⟨hi,hf,hv.trans h.committed,(congrArg File.byte hb).trans h.committed⟩,rfl⟩
  | commit refused =>
    cases refused with
    | true => exact ⟨h,rfl⟩
    | false =>
      obtain ⟨hi,hv,-,hdone⟩ := commit_spec h.inv false noFault
      obtain ⟨hb,hf⟩ := hdone (commit_noFault s)
      exact ⟨⟨hi,hf,hv.trans h.disk,hb.trans h.disk⟩,rfl⟩

theorem call_base {s : Image blk} (h : Inv s) (c : Call) (hc : c≠.commit false) :
    (s.call c).files.base=s.files.base := by
  cases c with
  | read position len | discard => rfl
  | write buffer position => exact (write_inv h buffer position).2.2.1
  | reopen => exact (open_closed h).2.2.1
  | crash => exact (open_crashed s.files h.noMap).2.2.1
  | commit refused =>
    cases refused with
    | true => rfl
    | false => exact absurd rfl hc

def fromBase (blk : Nat) (base : File) : Image blk := open_ ⟨base,.empty,none⟩

theorem fromBase_shows (blk : Nat) (base : File) : Shows (fromBase blk base) ⟨base.byte,base.byte⟩ := by
  obtain ⟨hi,hv,hb,hf⟩ := open_crashed (⟨base,.empty,none⟩ : Files blk) rfl
  exact ⟨hi,hf,hv,congrArg File.byte hb⟩

theorem calls_base (cs : List Call) (hcs : ∀ c∈cs,c≠.commit false) {s : Image blk} {f : Flat}
    (h : Shows s f) : (cs.foldl call s).files.base=s.files.base := by
  induction cs generalizing s f with
  | nil => rfl
  | cons c cs ih =>
    rw [List.foldl_cons,ih (fun d hd => hcs d (List.mem_cons_of_mem c hd)) (h.call c).1]
    exact call_base h.inv c (hcs c List.mem_cons_self)

/-- Through any sequence of calls a copy-on-write image is the flat disk its base started, and the
base file stays as it is until a commit. -/
theorem cow_flat (base : File) (cs : List Call) : answers call answer (fromBase blk base) cs =
        answers Flat.call Flat.answer ⟨base.byte,base.byte⟩ cs ∧ ((∀ c∈cs,c≠.commit false) →
        (cs.foldl call (fromBase blk base)).files.base=base) := by
  have hs := fromBase_shows blk base
  constructor
  · exact answers_refine Shows (fun _ => True) (fun _ _ c _ h => h.call c) cs
      (fun _ _ => trivial) hs
  · intro hcs
    rw [calls_base cs hcs hs]
    exact (open_crashed (⟨base,.empty,none⟩ : Files blk) rfl).2.2.1

end Image

end QUniLator.Cow
