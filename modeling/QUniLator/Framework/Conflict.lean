import Mathlib.Data.List.AList

namespace QUniLator

open List

section
variable {κ ν ε : Type*} [DecidableEq κ]

/-- The first of a list of claims that is out of bounds, or that is to what an earlier one holds -/
def firstConflict (beyond : κ → ν → Option ε) (clash : κ → ν → ν → ε) :
    AList (fun _ : κ => ν) → List (κ × ν) → Option ε
  | _,[] => none
  | held,p::ps =>
    match beyond p.1 p.2 with
    | some e => some e
    | none =>
      match held.lookup p.1 with
      | some holder => some (clash p.1 holder p.2)
      | none => firstConflict beyond clash (held.insert p.1 p.2) ps

theorem firstConflict_none {beyond : κ → ν → Option ε} {clash : κ → ν → ν → ε} {ps : List (κ × ν)}
    {held : AList (fun _ : κ => ν)} : firstConflict beyond clash held ps=none ↔
      (∀ p∈ps,beyond p.1 p.2=none ∧ p.1∉held) ∧ (ps.map Prod.fst).Nodup := by
  induction ps generalizing held with
  | nil => exact ⟨fun _ => ⟨fun p hp => absurd hp not_mem_nil,nodup_nil⟩,fun _ => rfl⟩
  | cons p ps ih =>
    rw [forall_mem_cons,map_cons,nodup_cons,firstConflict]
    cases hb : beyond p.1 p.2 with
    | some e => exact ⟨fun h => (by cases h),fun h => (by cases h.1.1.1)⟩
    | none =>
      cases hl : held.lookup p.1 with
      | some holder =>
        refine ⟨fun h => (by cases h),fun h => absurd h.1.1.2 ?_⟩
        rw [not_not,← AList.lookup_isSome,hl]
        rfl
      | none =>
        dsimp only
        rw [ih]
        have hp : p.1∉held := AList.lookup_eq_none.mp hl
        constructor
        · intro ⟨hps,hn⟩
          refine ⟨⟨⟨rfl,hp⟩,fun q hq => ⟨(hps q hq).1,fun hm => (hps q hq).2 ?_⟩⟩,fun hm => ?_,hn⟩
          · exact (AList.mem_insert held).mpr (.inr hm)
          · obtain ⟨q,hq,he⟩ := List.mem_map.mp hm
            exact (hps q hq).2 ((AList.mem_insert held).mpr (.inl he))
        · intro ⟨⟨_,hps⟩,hm,hn⟩
          refine ⟨fun q hq => ⟨(hps q hq).1,fun hq' => ?_⟩,hn⟩
          rcases (AList.mem_insert held).mp hq' with he | hh
          · exact hm (he ▸ List.mem_map_of_mem hq)
          · exact (hps q hq).2 hh

/-- Where no two claims meet, those of the empty table are granted when they are in bounds and differ. -/
theorem firstConflict_empty {beyond : κ → ν → Option ε} {clash : κ → ν → ν → ε} {ps : List (κ × ν)} :
    firstConflict beyond clash ∅ ps=none ↔ (∀ p∈ps,beyond p.1 p.2=none) ∧ (ps.map Prod.fst).Nodup := by
  rw [firstConflict_none]
  exact and_congr_left' ⟨fun h p hp => (h p hp).1,fun h p hp => ⟨h p hp,AList.notMem_empty p.1⟩⟩

end

end QUniLator
