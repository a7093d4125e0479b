import Mathlib.Data.Fintype.Card

namespace QUniLator

open List Function

section

variable {ι : Type*}

/-- From the pointer `h` the links lead through `l` to the pointer `t`; `none` points to nothing. A member without a
link is in no chain. -/
def Chain (next : ι → Option (Option ι)) : Option ι → List ι → Option ι → Prop
  | h,[],t => h=t
  | h,u::l,t => h=some u ∧ ∃ h',next u=some h' ∧ Chain next h' l t

/-- The members that are met in at most `n` steps -/
def walk (next : ι → Option (Option ι)) : Nat → Option ι → List ι
  | 0,_ => []
  | _+1,none => []
  | n+1,some u => u::walk next n (next u).join

variable {next next' : ι → Option (Option ι)} {h t : Option ι} {l l' : List ι}

theorem Chain.append {m : Option ι} (hl : Chain next h l m) (hl' : Chain next m l' t) : Chain next h (l++l') t := by
  induction l generalizing h with
  | nil =>
    have hm : h=m := hl
    exact hm ▸ hl'
  | cons u l ih =>
    obtain ⟨hh,h',hn,hc⟩ := hl
    exact ⟨hh,h',hn,ih hc⟩

theorem Chain.split (hl : Chain next h (l++l') t) : ∃ m,Chain next h l m ∧ Chain next m l' t := by
  induction l generalizing h with
  | nil => exact ⟨h,rfl,hl⟩
  | cons u l ih =>
    obtain ⟨hh,h',hn,hc⟩ := hl
    obtain ⟨m,hm,ht⟩ := ih hc
    exact ⟨m,⟨hh,h',hn,hm⟩,ht⟩

theorem Chain.congr (hl : Chain next h l t) (he : ∀ u∈l,next' u=next u) : Chain next' h l t := by
  induction l generalizing h with
  | nil => exact hl
  | cons u l ih =>
    obtain ⟨hh,h',hn,hc⟩ := hl
    exact ⟨hh,h',(he u mem_cons_self).trans hn,ih hc fun v hv => he v (mem_cons_of_mem u hv)⟩

theorem Chain.head_eq (hl : Chain next h l none) : h=l.head? := by
  cases l with
  | nil => exact hl
  | cons u l => exact hl.1

theorem Chain.next_eq {u : ι} (hl : Chain next h (l++u::l') none) : next u=some l'.head? := by
  obtain ⟨m,-,-,h',hn,hr⟩ := hl.split
  rw [hn,hr.head_eq]

section
variable [DecidableEq ι] {u p : ι}

theorem Chain.push (hl : Chain next h l t) (hu : u∉l) : Chain (update next u (some h)) (some u) (u::l) t :=
  ⟨rfl,h,update_self ..,hl.congr fun _ hv => update_of_ne (ne_of_mem_of_not_mem hv hu) ..⟩

theorem Chain.insert (hl : Chain next h (l++p::l') t) (hd : (l++p::l').Nodup) (hu : u∉l++p::l') :
    Chain (update (update next u (next p)) p (some (some u))) h (l++p::u::l') t := by
  obtain ⟨m,hm,rfl,h',hn,hr⟩ := hl.split
  have hp := nodup_middle.mp hd
  have hpl := (nodup_cons.mp hp).1
  have hup : u≠p := by
    rintro rfl
    exact hu (mem_append_right l mem_cons_self)
  have hsame : ∀ v∈l++l',update (update next u (next p)) p (some (some u)) v=next v := by
    intro v hv
    have hvp : v≠p := ne_of_mem_of_not_mem hv hpl
    have hvu : v≠u := by
      rintro rfl
      refine hu (mem_append.mpr ?_)
      exact (mem_append.mp hv).imp_right (mem_cons_of_mem p)
    rw [update_of_ne hvp,update_of_ne hvu]
  refine (hm.congr fun v hv => hsame v (mem_append_left l' hv)).append ⟨rfl,some u,?_,rfl,h',?_,?_⟩
  · exact update_self ..
  · rw [update_of_ne hup,update_self,hn]
  · exact hr.congr fun v hv => hsame v (mem_append_right l hv)

theorem Chain.remove (hl : Chain next h (l++p::u::l') t) (hd : (l++p::u::l').Nodup) :
    Chain (update next p (next u)) h (l++p::l') t := by
  obtain ⟨m,hm,rfl,h',-,rfl,h'',hn,hr⟩ := hl.split
  have hp := (nodup_cons.mp (nodup_middle.mp hd)).1
  refine (hm.congr fun v hv => ?_).append ⟨rfl,h'',?_,hr.congr fun v hv => ?_⟩
  · exact update_of_ne (ne_of_mem_of_not_mem (mem_append_left _ hv) hp) ..
  · rw [update_self,hn]
  · have hv : v∈l++u::l' := mem_append_right l (mem_cons_of_mem u hv)
    exact update_of_ne (ne_of_mem_of_not_mem hv hp) ..

end

theorem Chain.walk_eq (hl : Chain next h l none) {n : Nat} (hn : l.length≤n) : walk next n h=l := by
  induction l generalizing h n with
  | nil =>
    obtain rfl : h=none := hl
    cases n <;> rfl
  | cons u l ih =>
    obtain ⟨rfl,h',hu,hc⟩ := hl
    cases n with
    | zero => cases hn
    | succ n =>
      show u::walk next n (next u).join=u::l
      rw [hu]
      exact congrArg (u :: ·) (ih hc (Nat.le_of_succ_le_succ hn))

theorem Chain.walk_card [Fintype ι] (hl : Chain next h l none) (hd : l.Nodup) : walk next (Fintype.card ι) h=l :=
  hl.walk_eq hd.length_le_card

end

end QUniLator
