import QUniLator.Cpu34.RegisterLog

/-! Every instruction can be restarted from what an abort of its operands' references leaves. -/

namespace QUniLator.Cpu34

open Attempt BitVec Kt11d

theorem Field.isStep (m : Field) (b : Bool) : IsStep (m.step b) ∧ IsStep (-m.step b) := by
  unfold Field.step IsStep
  split_ifs <;> decide

theorem Field.reg_lt (m : Field) : m.reg<8 := by
  have h : ∀ r : BitVec 3,r.setWidth 4<8 := by decide
  exact h _

section
variable {bus : Bus} {pc psw : Word} {r : BitVec 4 → Word} {n : Nat}

theorem Accounts.addressed {s : State} (h : Accounts pc psw r n s) (ba : Word) :
    Accounts pc psw r n { s with ba := ba } :=
  h.congr (fun _ _ => rfl) rfl rfl h.be

theorem Accounts.pending {s : State} (h : Accounts pc psw r n s) (i : BitVec 4) (amount : Word) :
    Accounts pc psw r n (s.autoincPending i amount) :=
  h.congr (fun _ _ => rfl) rfl rfl h.be

theorem Accounts.destRef {s : State} (h : Accounts pc psw r n s) (destRef : Bool) :
    Accounts pc psw r n (s.setDestRef destRef) :=
  h.congr (fun _ _ => rfl) rfl rfl h.be

theorem accounts_addrInc (hn : n≤1) (m : Field) (b : Bool) :
    Spec (Accounts pc psw r n) (addrInc m.reg (m.step b)) (fun _ => Accounts pc psw r (n+1)) (Backs pc psw r) := by
  refine spec_then (Q := Accounts pc psw r n) (fun s hs => hs.addressed _) ?_
  refine spec_then (Q := Accounts pc psw (fun j => r j+if m.reg=j then m.step b else 0) n)
    (fun s hs => (hs.moved m.reg (m.step b)).pending _ _) ?_
  exact spec_change _ fun s hs => hs.logged hn m.reg_lt (m.isStep b).1

theorem accounts_addrDec (hn : n≤1) (m : Field) (b : Bool) :
    Spec (Accounts pc psw r n) (addrDec m.reg (m.step b)) (fun _ => Accounts pc psw r (n+1)) (Backs pc psw r) := by
  let Formed (s : State) : Prop := Accounts pc psw r n s ∧ s.ba=s.r m.reg+-m.step b
  refine spec_then (Q := Formed) (fun s hs => ⟨hs.addressed _,BitVec.sub_eq_add_neg _ _⟩) ?_
  apply spec_bind (Q := fun _ => Formed)
  · exact spec_doIf (fun _ => spec_change _ fun s hs => ⟨hs.1.checkStack _,hs.2⟩)
      (fun _ _ hs => hs)
  intro _
  apply spec_bind (Q := fun _ => Accounts pc psw (fun j => r j+if m.reg=j then -m.step b else 0) n)
  · apply spec_change
    rintro s ⟨hs,hba⟩
    rw [hba]
    exact hs.moved m.reg (-m.step b)
  intro _
  exact spec_change _ fun s hs => hs.logged hn m.reg_lt (m.isStep b).2

theorem accounts_addrIndex (i : BitVec 4) :
    Spec (Accounts pc psw r n) (addrIndex bus i) (fun _ => Accounts pc psw r n) (Backs pc psw r) := by
  refine spec_then (Q := Accounts pc psw r n) (fun s hs => hs.addressed _) ?_
  refine spec_then (Q := Accounts pc psw r n) (fun s hs => hs.scratch (by decide : ¬rPC<7) _) ?_
  apply spec_bind (accounts_dati false)
  intro _
  exact spec_change _ fun s hs => hs.addressed _

theorem accounts_addrMode (hn : n≤1) (m : Field) (b : Bool) :
    Spec (Accounts pc psw r n) (addrMode bus m b) (fun _ => Accounts pc psw r (n+1)) (Backs pc psw r) := by
  apply spec_ite
  · intro _
    exact spec_change _ fun s hs => (hs.addressed _).mono (Nat.le_succ n)
  · intro _
    have hbase : Spec (Accounts pc psw r n) (addrBase bus m b) (fun _ => Accounts pc psw r (n+1))
        (Backs pc psw r) := by
      apply spec_ite (fun _ => accounts_addrInc hn m b)
      intro _
      apply spec_ite (fun _ => accounts_addrDec hn m b)
      intro _
      exact (accounts_addrIndex m.reg).weaken (fun _ hs => hs)
        (fun _ _ hs => hs.mono (Nat.le_succ n)) (fun _ hs => hs)
    apply spec_bind hbase
    intro _
    refine spec_doIf (fun _ => ?_) (fun _ _ hs => hs)
    apply spec_bind (accounts_dati false)
    intro _
    exact spec_change _ fun s hs => hs.addressed _

theorem accounts_addrop (hn : n≤1) (m : Field) (b : Bool) :
    Spec (Accounts pc psw r n) (addrop bus m b) (fun _ => Accounts pc psw r (n+1)) (Backs pc psw r) := by
  refine spec_then (Q := Accounts pc psw r n) (fun s hs => hs.congr (fun _ _ => rfl) rfl rfl hs.be) ?_
  apply spec_bind (Q := fun _ => Accounts pc psw r n) (spec_read fun _ hs => hs)
  intro _
  refine spec_then (Q := Accounts pc psw r n) (fun s hs => hs.destRef false) ?_
  apply spec_bind (accounts_addrMode hn m b)
  intro _
  exact spec_change _ fun s hs => hs.destRef _

theorem accounts_addrdest (hn : n≤1) (m : Field) (b : Bool) :
    Spec (Accounts pc psw r n) (addrdest bus m b) (fun _ => Accounts pc psw r (n+1)) (Backs pc psw r) := by
  refine spec_then (Q := Accounts pc psw r n) (fun s hs => hs.destRef true) ?_
  exact accounts_addrop hn m b

theorem accounts_fetchop {t : BitVec 4} (ht : ¬t<7) (m : Field) (b : Bool) :
    Spec (Accounts pc psw r n) (fetchop bus t m b) (fun _ => Accounts pc psw r n) (Backs pc psw r) := by
  have hodd (s : State) (hs : Accounts pc psw r n s) : Accounts pc psw r n (s.oddByte b t) := by
    unfold State.oddByte
    split_ifs
    · exact hs.scratch ht _
    · exact hs
  have hword : Spec (Accounts pc psw r n) (fetchWord bus t m b) (fun _ => Accounts pc psw r n)
      (Backs pc psw r) := by
    apply spec_ite
    · intro _
      exact spec_change _ fun s hs => hs.scratch ht _
    · intro _
      apply spec_bind (accounts_dati b)
      intro _
      exact spec_change _ fun s hs => hodd _ (hs.scratch ht _)
  apply spec_bind hword
  intro _
  exact spec_doIf (fun _ => spec_change _ fun s hs => hs.scratch ht _) (fun _ _ hs => hs)

theorem accounts_rd (hn : n≤1) {t : BitVec 4} (ht : ¬t<7) (m : Field) (b : Bool) :
    Spec (Accounts pc psw r n) (rd bus t m b) (fun _ => Accounts pc psw r (n+1)) (Backs pc psw r) := by
  apply spec_ite
  · intro _
    exact (accounts_fetchop ht m b).weaken (fun _ hs => hs) (fun _ _ hs => hs.mono (Nat.le_succ n))
      (fun _ hs => hs)
  · intro _
    refine spec_then (Q := Accounts pc psw r n) (fun s hs => hs.destRef _) ?_
    apply spec_bind (accounts_addrop hn m b)
    intro _
    exact accounts_fetchop ht m b

theorem accounts_rdB (src dst : Field) (b : Bool) :
    Spec (Accounts pc psw r 0) (rdB bus src dst b) (fun _ => Accounts pc psw r 2) (Backs pc psw r) := by
  apply spec_bind (accounts_rd (Nat.zero_le 1) (by decide : ¬rSR<7) src b)
  intro _
  exact accounts_rd (Nat.le_refl 1) (by decide : ¬rDR<7) dst b

theorem accounts_rdU (dst : Field) (b : Bool) :
    Spec (Accounts pc psw r 0) (rdU bus dst b) (fun _ => Accounts pc psw r 1) (Backs pc psw r) := by
  apply spec_bind (accounts_rd (Nat.zero_le 1) (by decide : ¬rDR<7) dst b)
  intro _
  exact spec_change _ fun s hs => hs.scratch (by decide : ¬rSR<7) _

theorem accounts_writedest (dst : Field) (v : Word) (b : Bool) :
    Spec (Accounts pc psw r n) (writedest bus dst v b) (fun _ _ => True) (Backs pc psw r) := by
  refine spec_then (Q := Accounts pc psw r n) (fun s hs => hs.destRef true) ?_
  apply spec_ite
  · intro _
    exact spec_change _ fun _ _ => trivial
  · intro _
    refine spec_then (Q := Accounts pc psw r n) (fun s hs => hs.congr (fun _ _ => rfl) rfl rfl hs.be) ?_
    exact accounts_dato b

theorem accounts_writeWhole (dst : Field) (v : Word) (b : Bool) :
    Spec (Accounts pc psw r n) (writeWhole bus dst v b) (fun _ _ => True) (Backs pc psw r) :=
  spec_ite (fun _ => spec_change _ fun _ _ => trivial) (fun _ => accounts_writedest dst v b)

theorem accounts_store (writes : Writes) (dst : Field) (v : Word) (b : Bool) :
    Spec (Accounts pc psw r n) (store bus writes dst v b) (fun _ _ => True) (Backs pc psw r) := by
  cases writes with
  | result => exact accounts_writedest dst v b
  | nothing => exact spec_pure _ fun _ _ => trivial
  | whole => exact accounts_writeWhole dst v b

theorem accounts_double (ir : Word) (b : Bool) (op : Double) (writes : Writes) :
    Spec (Accounts pc psw r 0) (double bus ir b op writes) (fun _ _ => True) (Backs pc psw r) := by
  apply spec_bind (accounts_rdB _ _ b)
  intro _
  apply spec_bind (Q := fun _ => Accounts pc psw r 2) (spec_read fun _ hs => hs)
  intro s
  refine spec_then (Q := Accounts pc psw r 2) (fun s hs => hs.setCc _) ?_
  exact accounts_store writes _ _ b

theorem accounts_single (ir : Word) (b : Bool) (op : Single) (writes : Writes) :
    Spec (Accounts pc psw r 0) (single bus ir b op writes) (fun _ _ => True) (Backs pc psw r) := by
  apply spec_bind (accounts_rdU _ b)
  intro _
  apply spec_bind (Q := fun _ => Accounts pc psw r 1) (spec_read fun _ hs => hs)
  intro s
  refine spec_then (Q := Accounts pc psw r 1) (fun s hs => hs.setCc _) ?_
  exact accounts_store writes _ _ b

theorem accounts_eis (ir : Word) (op : State → BitVec 4 → State) :
    Spec (Accounts pc psw r 0) (eis bus ir op) (fun _ _ => True) (Backs pc psw r) := by
  apply spec_bind (accounts_rdU _ false)
  intro _
  exact spec_change _ fun _ _ => trivial

theorem accounts_xor (ir : Word) : Spec (Accounts pc psw r 0) (xor bus ir) (fun _ _ => True) (Backs pc psw r) := by
  apply spec_bind (accounts_rdU _ false)
  intro _
  apply spec_bind (Q := fun _ => Accounts pc psw r 1) (spec_read fun _ hs => hs)
  intro s
  refine spec_then (Q := Accounts pc psw r 1) (fun s hs => hs.setCc _) ?_
  exact accounts_writedest _ _ false

theorem accounts_mtps (ir : Word) : Spec (Accounts pc psw r 0) (mtps bus ir) (fun _ _ => True) (Backs pc psw r) := by
  apply spec_bind (accounts_rdU _ true)
  intro _
  exact spec_change _ fun _ _ => trivial

theorem accounts_fromPsw (ir : Word) (b : Bool) (v : Word → Word) :
    Spec (Accounts pc psw r 0) (fromPsw bus ir b v) (fun _ _ => True) (Backs pc psw r) := by
  apply spec_bind (Q := fun _ => Accounts pc psw r 1)
  · exact spec_doIf (fun _ => accounts_addrdest (Nat.zero_le 1) _ b)
      (fun _ _ hs => hs.mono (Nat.zero_le 1))
  intro _
  apply spec_bind (Q := fun _ => Accounts pc psw r 1) (spec_gets _ fun _ hs => hs)
  intro w
  refine spec_then (Q := Accounts pc psw r 1) (fun s hs => hs.setCc _) ?_
  exact accounts_writeWhole _ _ b

theorem accounts_jmp (ir : Word) : Spec (Accounts pc psw r 0) (jmp bus ir) (fun _ _ => True) (Backs pc psw r) := by
  apply spec_bind (accounts_addrdest (Nat.zero_le 1) _ false)
  intro _
  exact spec_change _ fun _ _ => trivial

theorem accounts_readPrevious (dst : Field) :
    Spec (Accounts pc psw r 0) (readPrevious bus dst) (fun _ _ => True) (Backs pc psw r) := by
  apply spec_ite
  · intro _
    exact spec_gets _ fun _ _ => trivial
  · intro _
    apply spec_bind (accounts_addrdest (Nat.zero_le 1) dst false)
    intro _
    apply spec_bind (accounts_inPrevious (Q := fun _ _ => True)
      ((accounts_dati false).weaken (fun _ hs => hs) (fun _ _ _ => trivial) (fun _ hs => hs))
      (fun _ _ => trivial))
    intro _
    exact spec_gets _ fun _ _ => trivial

theorem accounts_writePrevious (dst : Field) (w : Word) :
    Spec (Accounts pc psw r 0) (writePrevious bus dst w) (fun _ _ => True) (Backs pc psw r) := by
  apply spec_ite
  · intro _
    exact spec_change _ fun _ _ => trivial
  · intro _
    apply spec_bind (accounts_addrdest (Nat.zero_le 1) dst false)
    intro _
    refine spec_then (Q := Accounts pc psw r 1) (fun s hs => hs.congr (fun _ _ => rfl) rfl rfl hs.be) ?_
    exact accounts_inPrevious (accounts_dato false) (fun _ _ => trivial)

end

/-- The references of an instruction that its operands have no part in: the stack's of MARK, RTS, RTI
and RTT, and those after the operand of JSR and MFPI. -/
def OnStack (bus : Bus) (ir : Word) (s : State) : Prop :=
  ir &&& 0o177700=0o006400 ∨ ir &&& 0o177770=0o000200 ∨ ir=2 ∨ ir=6 ∨
  (ir &&& 0o177000=0o004000 ∧ (addrdest bus (dst ir) false s).1≠none) ∨
  (ir &&& 0o077700=0o006500 ∧ (readPrevious bus (dst ir) s).1≠none)

def isMtpi (ir : Word) : Prop := ir &&& 0o077700=0o006600

def popped (r : BitVec 4 → Word) (i : BitVec 4) : Word := r i+if rSP=i then 2 else 0

theorem masked_of_masked {x a b c m n k : Word} (hm : x &&& m=a) (hn : x &&& n=b)
    (hk : (m ||| n) &&& k=k) (hc : (a ||| b) &&& k=c) : x &&& k=c := by
  rw [← hc,← hm,← hn,← and_or_distrib_left,BitVec.and_assoc,hk]

theorem topBits (ir : Word) : ∃ t : BitVec 4,ir &&& (0o170000 : Word)=(t.setWidth 16 : Word) <<< (12 : Nat) := by
  refine ⟨ir.extractLsb' 12 4,?_⟩
  ext i hi
  interval_cases i <;> simp

theorem topBits_rest {ir : Word} (h : ir &&& 0o170000 ∉
    ([0o010000,0o020000,0o030000,0o040000,0o050000,0o060000,0o110000,0o120000,0o130000,0o140000,
      0o150000,0o160000,0o170000] : List Word)) : ir &&& 0o070000=0 ∨ ir &&& 0o170000=0o070000 := by
  have hcases : ∀ t : BitVec 4,(t.setWidth 16 : Word) <<< (12 : Nat) ∉
      ([0o010000,0o020000,0o030000,0o040000,0o050000,0o060000,0o110000,0o120000,0o130000,0o140000,
        0o150000,0o160000,0o170000] : List Word) →
      (t.setWidth 16 : Word) <<< (12 : Nat) &&& 0o070000=0 ∨
        (t.setWidth 16 : Word) <<< (12 : Nat)=0o070000 := by
    decide
  obtain ⟨t,ht⟩ := topBits ir
  rw [ht] at h
  have hlow : ir &&& 0o070000=(ir &&& 0o170000) &&& 0o070000 := by
    rw [BitVec.and_assoc]
    rfl
  rw [hlow,ht]
  exact hcases t h

section
variable {bus : Bus} {pc psw : Word} {r : BitVec 4 → Word} {u : State} {oldpsw ir : Word}

def Leaves (pc psw : Word) (r : BitVec 4 → Word) (ir : Word) (t : State) : Prop :=
  Backs pc psw r t ∨ (isMtpi ir ∧ Backs pc psw (popped r) t)

theorem accounts_popIn : Spec (Accounts pc psw r 0) (popIn bus) (fun _ => Accounts pc psw (popped r) 0)
      (Backs pc psw (popped r)) := by
  apply spec_bind (Q := fun _ => Accounts pc psw (popped r) 0)
  · exact spec_change _ fun s hs => ((hs.addressed (s.r rSP)).moved rSP 2).pending _ _
  intro _
  exact accounts_dati false

theorem accounts_mtpi (ir : Word) :
    Spec (Accounts pc psw r 0) (mtpi bus ir) (fun _ _ => True) (Backs pc psw (popped r)) := by
  apply spec_bind accounts_popIn
  intro _
  apply spec_bind (Q := fun _ => Accounts pc psw (popped r) 0) (spec_gets _ fun _ hs => hs)
  intro b
  refine spec_then (Q := Accounts pc psw (popped r) 0) (fun s hs => hs.setCc _) ?_
  exact accounts_writePrevious _ b

/-- From the state `u` on, `m` fails only as an operand's reference does. -/
abbrev Accounted (pc psw : Word) (r : BitVec 4 → Word) (ir : Word) (u : State) {α : Type} (m : M α) : Prop :=
  Spec (fun s => s=u) m (fun _ _ => True) (Leaves pc psw r ir)

theorem accounted {α : Type} (hu : Accounts pc psw r 0 u) {m : M α}
    (hm : Spec (Accounts pc psw r 0) m (fun _ _ => True) (Backs pc psw r)) : Accounted pc psw r ir u m := by
  apply hm.weaken _ (fun _ _ _ => trivial) (fun _ hs => Or.inl hs)
  rintro s rfl
  exact hu

theorem accounted_pure {α : Type} (a : α) : Accounted pc psw r ir u (pure a : M α) :=
  spec_pure a fun _ _ => trivial

theorem accounted_served {m : M Unit} (hm : Accounted pc psw r ir u m) : Accounted pc psw r ir u (served oldpsw m) :=
  spec_bind hm fun _ => spec_pure _ fun _ _ => trivial

theorem accounted_change (g : State → State) : Accounted pc psw r ir u (change g) :=
  spec_change _ fun _ _ => trivial

theorem bind_fails {α β : Type} {m : M α} {f : α → M β} {s t : State} (h : (m >>= f) s=(none,t))
    (hm : (m s).1=none) : m s=(none,t) := by
  rcases hs : m s with ⟨x,v⟩
  rw [hs] at hm
  obtain rfl : x=none := hm
  rw [bind_none hs] at h
  cases h
  rfl

theorem accounted_jsr (hu : Accounts pc psw r 0 u) (hstack : ¬OnStack bus ir u)
    (hir : ir &&& 0o177000=0o004000) : Accounted pc psw r ir u (jsr bus ir) := by
  rintro s rfl
  refine ⟨fun _ _ _ => trivial,?_⟩
  intro t ht
  have hnone : (addrdest bus (dst ir) false s).1=none := by
    by_contra hsome
    exact hstack (.inr (.inr (.inr (.inr (.inl ⟨hir,hsome⟩)))))
  exact .inl ((accounts_addrdest (Nat.zero_le 1) _ false s hu).2 t (bind_fails ht hnone))

theorem accounted_mfpi (hu : Accounts pc psw r 0 u) (hstack : ¬OnStack bus ir u)
    (hir : ir &&& 0o077700=0o006500) : Accounted pc psw r ir u (mfpi bus ir) := by
  rintro s rfl
  refine ⟨fun _ _ _ => trivial,?_⟩
  intro t ht
  have hnone : (readPrevious bus (dst ir) s).1=none := by
    by_contra hsome
    exact hstack (.inr (.inr (.inr (.inr (.inr ⟨hir,hsome⟩)))))
  exact .inl ((accounts_readPrevious _ s hu).2 t (bind_fails ht hnone))

theorem accounted_mtpi (hu : Accounts pc psw r 0 u) (hir : isMtpi ir) : Accounted pc psw r ir u (mtpi bus ir) := by
  apply (accounts_mtpi ir).weaken _ (fun _ _ _ => trivial) (fun _ hs => Or.inr ⟨hir,hs⟩)
  rintro s rfl
  exact hu

variable (hu : Accounts pc psw r 0 u) (hstack : ¬OnStack bus ir u) {rest : M Goto}
include hu

theorem accounted_doubleGroup (hrest : ir &&& 0o070000=0 ∨ ir &&& 0o170000=0o070000 → Accounted pc psw r ir u rest) :
    Accounted pc psw r ir u (doubleGroup bus oldpsw ir rest) := by
  simp only [doubleGroup]
  split_ifs with h1 h2 h3 h4 h5 h6 h7 h8
  case neg =>
    apply hrest
    apply topBits_rest
    simp only [List.mem_cons,List.not_mem_nil,or_false]
    tauto
  all_goals first
    | exact accounted_pure _
    | exact accounted_served (accounted hu (accounts_double _ _ _ _))

theorem accounted_extendedGroup (hrest : ir &&& 0o170000≠0o070000 → Accounted pc psw r ir u rest) :
    Accounted pc psw r ir u (extendedGroup bus oldpsw ir rest) := by
  simp only [extendedGroup]
  split_ifs with h1
  · exact accounted_served (accounted hu (accounts_eis ir _))
  · exact accounted_served (accounted hu (accounts_eis ir _))
  · exact accounted_served (accounted hu (accounts_eis ir _))
  · exact accounted_served (accounted hu (accounts_eis ir _))
  · exact accounted_served (accounted hu (accounts_xor ir))
  · exact accounted_served (accounted_change _)
  · exact accounted_pure _
  · exact hrest h1

theorem accounted_singleGroup (hrest : Accounted pc psw r ir u rest) :
    Accounted pc psw r ir u (singleGroup bus oldpsw ir rest) := by
  have hop (op : Single) (writes : Writes) : Accounted pc psw r ir u
      (served oldpsw (single bus ir (ir.getLsbD 15) op writes)) :=
    accounted_served (accounted hu (accounts_single ir _ op writes))
  simp only [singleGroup]
  iterate 12 refine spec_ite (fun _ => hop _ _) fun _ => ?_
  exact hrest

include hstack

theorem accounted_modeGroup (htop : ir &&& 0o070000=0) (hrest : Accounted pc psw r ir u rest) :
    Accounted pc psw r ir u (modeGroup bus oldpsw ir rest) := by
  simp only [modeGroup]
  split_ifs with h1 h2 h3 h4 h5 h6
  · exact accounted_served (accounted hu (accounts_mtps ir))
  · have hbyte : ir &&& 0o100000=0 := by
      ext i hi
      interval_cases i <;> simp_all
    have hcode : ir &&& 0o077700=0o006400 := masked_of_masked htop h1 rfl rfl
    have hmark : ir &&& 0o177700=0o006400 := masked_of_masked hcode hbyte rfl rfl
    exact absurd (.inl hmark) hstack
  · exact accounted_served (accounted_mfpi hu hstack (masked_of_masked htop h3 rfl rfl))
  · exact accounted_served (accounted_mtpi hu (masked_of_masked htop h4 rfl rfl))
  · exact accounted_served (accounted hu (accounts_fromPsw _ _ _))
  · exact accounted_served (accounted hu (accounts_fromPsw _ _ _))
  · exact hrest

theorem accounted_callGroup (htop : ir &&& 0o070000=0) (hrest : Accounted pc psw r ir u rest) :
    Accounted pc psw r ir u (callGroup bus oldpsw ir rest) := by
  simp only [callGroup]
  split_ifs with h1
  · exact accounted_pure _
  · apply accounted_served (accounted_jsr hu hstack _)
    obtain h | h := h1
    all_goals exact masked_of_masked htop h rfl rfl
  · exact accounted_pure _
  · exact accounted_pure _
  · exact hrest

omit hu hstack in
theorem accounted_branchGroup (hrest : ¬(ir &&& 0o074000=0 ∧ ir &&& 0o103400≠0) → Accounted pc psw r ir u rest) :
    Accounted pc psw r ir u (branchGroup oldpsw ir rest) := by
  simp only [branchGroup]
  split_ifs with h
  · exact accounted_served (accounted_change _)
  · exact hrest h

theorem accounted_miscGroup (hbranch : ¬(ir &&& 0o074000=0 ∧ ir &&& 0o103400≠0))
    (hrest : Accounted pc psw r ir u rest) : Accounted pc psw r ir u (miscGroup bus oldpsw ir rest) := by
  simp only [miscGroup]
  split_ifs with h1 h2 h3 h4
  · exact accounted_pure _
  · exact accounted_served (accounted hu (accounts_jmp ir))
  · have hlow : ir &&& 0o074000=0 := by
      rw [show (0o074000 : Word)=0o177300 &&& 0o074000 from rfl,← BitVec.and_assoc,h3]
      rfl
    have hbit : ir &&& 0o103400=0 := by
      by_contra hne
      exact hbranch ⟨hlow,hne⟩
    have hcode : ir &&& 0o177700=0o000200 := masked_of_masked h3 hbit rfl rfl
    exact absurd (.inr (.inl (masked_of_masked hcode h4 rfl rfl))) hstack
  · exact accounted_served (accounted_change _)
  · exact accounted_served (accounted_change _)
  · exact accounted_pure _
  · exact accounted_served (accounted hu (accounts_single _ _ _ _))
  · exact hrest

omit hu in
theorem accounted_operateGroup : Accounted pc psw r ir u (operateGroup bus oldpsw ir) := by
  simp only [operateGroup]
  split_ifs with h0 h1 h2
  · apply spec_bind (Q := fun _ _ => True) (spec_read fun _ _ => trivial)
    intro s
    apply spec_ite
    · intro _
      exact spec_bind (Q := fun _ _ => True) (spec_change _ fun _ _ => trivial) fun _ =>
        spec_pure _ fun _ _ => trivial
    · intro _
      exact spec_pure _ fun _ _ => trivial
  · exact spec_bind (accounted_change _) fun _ => spec_pure _ fun _ _ => trivial
  · exact absurd (h2.elim (fun h => .inr (.inr (.inl h))) fun h => .inr (.inr (.inr (.inl h)))) hstack
  · exact accounted_pure _
  · exact accounted_pure _
  · exact accounted_served (accounted_change _)
  · exact accounted_pure _

end

section
variable {bus : Bus} {pc psw : Word} {r : BitVec 4 → Word} {s u t : State} {oldpsw ir : Word}

theorem accounted_execute (hu : Accounts pc psw r 0 u) (hstack : ¬OnStack bus ir u) :
    Accounted pc psw r ir u (execute bus oldpsw ir) := by
  apply accounted_doubleGroup hu
  intro hcode
  apply accounted_extendedGroup hu
  intro hext
  have htop : ir &&& 0o070000=0 := hcode.resolve_right hext
  apply accounted_singleGroup hu
  apply accounted_modeGroup hu hstack htop
  apply accounted_callGroup hu hstack htop
  apply accounted_branchGroup
  intro hbranch
  apply accounted_miscGroup hu hstack hbranch
  exact accounted_operateGroup hstack

/-- An instruction is fetched under a clear MMR1. -/
structure Fetching (s t : State) : Prop where
  record : ∃ pc,t.mmu.record=(0,pc,0,false)
  r : t.r=s.r
  psw : t.psw=s.psw

theorem fetching_dati : Spec (Fetching s) (dati bus false) (fun _ t => Fetching s t ∧ t.be=0) (fun _ => True) := by
  intro v hv
  refine ⟨?_,fun _ _ => trivial⟩
  intro _ t ht
  have hr := dati_reads bus false v
  rw [ht] at hr
  obtain ⟨hreg,hm,hp,hb⟩ := hr.made
  exact ⟨⟨by rw [hm]; exact hv.record,hreg.trans hv.r,hp.trans hv.psw⟩,hb⟩

theorem Fetching.accounts (h : Fetching s t) (hb : t.be=0) (ir : Word) :
    Accounts (s.r rPC) s.psw s.r 0 { t with ir := ir,mmu := t.mmu.instructionFetched (t.r rPC) } := by
  obtain ⟨pc,hrec⟩ := h.record
  obtain ⟨h1,-,hc,hf⟩ := by simpa only [Kt11d.record,Prod.mk.injEq] using hrec
  have hfetched : t.mmu.instructionFetched (t.r rPC)={ t.mmu with mmr2 := t.r rPC } :=
    if_neg (by simp [hf])
  rw [hfetched,h.r]
  refine ⟨⟨hf,hc.le,fun _ => h1,fun hone => absurd (hc.symm.trans hone) (by decide)⟩,?_,rfl,
    congrArg pswRest h.psw,hb⟩
  intro i _
  have hlog : ({ t.mmu with mmr2 := s.r rPC } : Kt11d).logged i=0 := logged_empty h1 i
  rw [hlog,add_zero]

theorem fetch_accounts (hthawed : s.mmu.frozen=false) :
    Spec (fun v => v=s) (fetch bus) (fun _ => Accounts (s.r rPC) s.psw s.r 0) (fun _ => True) := by
  apply spec_bind (Q := fun _ => Fetching s)
  · apply spec_change
    rintro v rfl
    refine ⟨⟨v.mmu.mmr2,?_⟩,rfl,rfl⟩
    simp only [instructionStart,hthawed,Bool.false_eq_true,if_false,Kt11d.record]
  intro _
  apply spec_bind (Q := fun _ => Fetching s) (spec_change _ fun v hv => ⟨hv.record,hv.r,hv.psw⟩)
  intro _
  apply spec_bind (Q := fun _ => Fetching s) (spec_change _ fun v hv => ⟨hv.record,hv.r,hv.psw⟩)
  intro _
  apply spec_bind fetching_dati
  intro _
  apply spec_bind (Q := fun _ => Accounts (s.r rPC) s.psw s.r 0)
    (spec_change _ fun v hv => hv.1.accounts hv.2 v.bdata)
  intro _
  exact spec_change _ fun v hv => hv.scratch (by decide : ¬rPC<7) _

end

/-- `trapSequence`, which pushes the PSW and the PC it is given. -/
def trapPushing (bus : Bus) (inhov : Bool) (v psw pc : Word) : M Unit := do
  change fun s => s.trapping v
  let new ← loadVector bus v
  change fun s => s.setPsw (trapPsw psw new.2)
  pushOut bus inhov (fun _ => psw)
  pushOut bus inhov (fun _ => pc)
  change fun s => s.setR rPC new.1

theorem trapSequence_pushing (bus : Bus) (inhov : Bool) (v : Word) (s : State) :
    trapSequence bus inhov v s=trapPushing bus inhov v s.psw (s.r rPC) s := by
  have hpc : (s.trapping v).r rPC=s.r rPC := Function.update_of_ne (by decide : rPC≠rTV) v s.r
  rw [← hpc]
  rfl

theorem restoreCc_psw {s : State} {psw : Word} (h : pswRest s.psw=pswRest psw) : (s.restoreCc psw).psw=psw := by
  have hrest : s.psw &&& ~~~(0o17 : Word)=psw &&& ~~~(0o17 : Word) := h
  simp only [State.restoreCc,State.setCc,hrest]
  ext i hi
  by_cases h4 : 4 ≤ i
  · have hbit := setCc_bit psw (psw.setWidth 4) h4
    rw [← getLsbD_eq_getElem,hbit,getLsbD_eq_getElem]
  · interval_cases i <;> simp

/-- The reference of an operand, or of a pointer to one, fails. The trap finds MMR2 and the PSW of the instruction,
and MMR1 gives every register its value from before, an increment that the failure took back being put in again; but
of the pop of MTPI it knows nothing. -/
theorem abort_backed_out (bus : Bus) {s u t : State} (hintr : s.externalIntr=false)
    (hthawed : s.mmu.frozen=false) (hfetch : fetch bus s=(some (),u))
    (hexec : execute bus s.psw u.ir u=(none,t)) (hstack : ¬OnStack bus u.ir u) :
    begin_ bus s=(some (.be,⟨false,false,s.psw⟩),t) ∧ ∃ v,next bus (.be,⟨false,false,s.psw⟩) t =
        (some (.trap t.trapVector,⟨false,false,s.psw⟩),v) ∧ (∀ inhov vector,trapSequence bus inhov vector v =
        trapPushing bus inhov vector s.psw (t.r rPC) v) ∧ v.mmu.mmr2=s.r rPC ∧
      (∀ i<7,(isMtpi u.ir → i≠rSP) → v.standing i-v.mmu.logged i=s.r i) ∧
      (isMtpi u.ir → popIn bus u=(none,t) → ∀ i<7,v.r i-v.mmu.logged i=s.r i) := by
  have hu := (fetch_accounts hthawed s rfl).1 () u hfetch
  have hleft := (accounted_execute hu hstack u rfl).2 t hexec
  have hshown : t.mmu.mmr2=s.r rPC ∧ pswRest t.psw=pswRest s.psw ∧ t.be=1 := by
    obtain h | ⟨-,h⟩ := hleft
    all_goals exact ⟨h.mmr2,h.psw,h.be⟩
  obtain ⟨hmmr2,hpsw,hbe⟩ := hshown
  refine ⟨?_,t.restoreCc s.psw,?_,?_,hmmr2,?_,?_⟩
  · have hinstr : instruction bus s.psw s=(none,t) := by
      rw [instruction,bind_some hfetch]
      exact hexec
    simp only [begin_,hintr,Bool.false_eq_true,if_false,hinstr]
  · have hlow : ¬1<t.be := by omega
    simp only [next,atBe,if_neg hlow,Bool.false_eq_true,if_false]
    rfl
  · intro inhov vector
    rw [trapSequence_pushing,restoreCc_psw hpsw]
    rfl
  · intro i hi hsp
    obtain h | ⟨hir,h⟩ := hleft
    · exact sub_eq_of_eq_add (h.r i hi)
    · have hr := h.r i hi
      rw [popped,if_neg (Ne.symm (hsp hir)),add_zero] at hr
      exact sub_eq_of_eq_add hr
  · intro _ hpop i hi
    have hp := (accounts_popIn u hu).2 t hpop
    have hr := hp.r i hi
    have hm : t.undone=some rSP ∧ t.autoincAmount=2 := by
      have hd := dati_reads bus false u.pop
      rw [show dati bus false u.pop=(none,t) from hpop] at hd
      exact ⟨hd.missed.undone,hd.missed.amount⟩
    simp only [State.standing,popped,hm.1,hm.2,Option.some.injEq] at hr
    rw [add_right_comm] at hr
    exact sub_eq_of_eq_add (add_right_cancel hr)

/-- A kernel program that maps page 0 alone and reads through a register in page 1. -/
def tstProgram : List Word :=
  [0o012737,0o077406,0o172300,0o012700,0o020000,0o012737,0o000001,0o177572,0o005720]

def tstBus : Bus where
  dati _ pa := some ((tstProgram[(pa.toNat-0o1000)/2]?).getD 0)
  dato _ pa _ := pa<0o760000
  datob _ pa _ := pa<0o760000

def tstActs : List Act :=
  [.powerReset,.setPc 0o001000,.setState .running]++List.replicate 3 .condstep

instance OnStack.decidable (bus : Bus) (ir : Word) (s : State) : Decidable (OnStack bus ir s) := by
  unfold OnStack
  infer_instance

/-- The next instruction's operand is on a page that is not resident, and back at its start by MMR1
alone R0 is not. -/
def tstAborts (s : State) : Bool :=
  let u := (fetch tstBus s).2
  let t := (execute tstBus s.psw u.ir u).2
  !s.externalIntr && !s.mmu.frozen && (fetch tstBus s).1.isSome &&
    (execute tstBus s.psw u.ir u).1.isNone && !decide (OnStack tstBus u.ir u) &&
    decide (t.trapVector=abortVector ∧ t.r 0-t.mmu.logged 0≠s.r 0)

theorem tst_aborts : ∃ s u t,Run (Acts tstBus) State.zeroed tstActs s ∧ s.externalIntr=false ∧
    s.mmu.frozen=false ∧ fetch tstBus s=(some (),u) ∧ execute tstBus s.psw u.ir u=(none,t) ∧ ¬OnStack tstBus u.ir u ∧
    t.trapVector=abortVector ∧ t.r 0-t.mmu.logged 0≠s.r 0 := by
  have hp : (tstActs.foldlM (fun s a => if True then perform tstBus 10 s a else none)
      State.zeroed).any tstAborts := by
    decide +kernel
  obtain ⟨s,hrun,hs⟩ := run_of_foldlM (fun _ _ => True) (perform tstBus 10) tstAborts tstActs
    State.zeroed hp
  simp only [tstAborts,Bool.and_eq_true,Bool.not_eq_true',decide_eq_true_eq,decide_eq_false_iff_not] at hs
  obtain ⟨⟨⟨⟨⟨hi,hf⟩,hsome⟩,hnone⟩,hstack⟩,hv,hr⟩ := hs
  obtain ⟨_,hsome⟩ := Option.isSome_iff_exists.mp hsome
  exact ⟨s,_,_,hrun.mono fun _ _ _ ha => perform_acts ha.2,hi,hf,Prod.ext hsome rfl,
    Prod.ext (Option.isNone_iff_eq_none.mp hnone) rfl,hstack,hv,hr⟩

/-- TST (R0)+ with R0 in a page that is not resident: R0 is back, and MMR1 still says it moved. -/
theorem abort_not_by_mmr1 : ¬∀ bus as s u t,Run (Acts bus) State.zeroed as s →
    s.externalIntr=false → s.mmu.frozen=false → fetch bus s=(some (),u) →
    execute bus s.psw u.ir u=(none,t) → ¬OnStack bus u.ir u → t.trapVector=abortVector →
    ∀ i<7,t.r i-t.mmu.logged i=s.r i := by
  intro hall
  obtain ⟨s,u,t,hrun,hi,hf,hfetch,hexec,hstack,hv,hr⟩ := tst_aborts
  exact hr (hall tstBus tstActs s u t hrun hi hf hfetch hexec hstack hv 0 (by decide))

/-- That abort, with the increment put in again. -/
theorem abort_backed_out_tst : ∃ s u t v,fetch tstBus s=(some (),u) ∧
    begin_ tstBus s=(some (.be,⟨false,false,s.psw⟩),t) ∧ next tstBus (.be,⟨false,false,s.psw⟩) t =
      (some (.trap abortVector,⟨false,false,s.psw⟩),v) ∧ v.mmu.mmr2=s.r rPC ∧ v.standing 0-v.mmu.logged 0=s.r 0 := by
  obtain ⟨s,u,t,-,hi,hf,hfetch,hexec,hstack,hv,-⟩ := tst_aborts
  obtain ⟨hbegin,v,hnext,-,hmmr2,hr,-⟩ := abort_backed_out tstBus hi hf hfetch hexec hstack
  rw [hv] at hnext
  exact ⟨s,u,t,v,hfetch,hbegin,hnext,hmmr2,hr 0 (by decide) fun _ => by decide⟩

end QUniLator.Cpu34
