import QUniLator.Framework.Splice

namespace QUniLator.Disks

/-- Memory on the bus, by words. `words` is the size of the address space; not every address answers. -/
structure Bus where
  words : Nat
  answers : Nat → Bool
  mem : Nat → UInt16

/-- What `DMA()` leaves behind -/
structure DmaEnd where
  bus : Bus
  buffer : List UInt16
  endAddr : Nat
  success : Bool

namespace Bus

/-- How many of `n` words from `a` on answer before one that does not -/
def reach (b : Bus) : Nat → Nat → Nat
  | _,0 => 0
  | a,n+1 => if b.answers a then b.reach (a+1) n+1 else 0

/-- A transfer of `n` words at `addr` that `DMA()` refuses -/
def refuses (b : Bus) (addr n : Nat) : Bool := n=0 || 2*b.words<addr+2*n

/-- `DMA(QUNIBUS_CYCLE_DATO)` -/
def dato (b : Bus) (addr : Nat) (buffer : List UInt16) : DmaEnd :=
  if b.refuses addr buffer.length then ⟨b,buffer,addr,false⟩
  else
    let k := b.reach (addr/2) buffer.length
    ⟨{ b with mem := patch b.mem (addr/2) (buffer.take k) },buffer,addr+2*min k (buffer.length-1),
      k=buffer.length⟩

/-- `DMA(QUNIBUS_CYCLE_DATI)` of the first `n` words of the buffer -/
def dati (b : Bus) (addr : Nat) (buffer : List UInt16) (n : Nat) : DmaEnd :=
  if b.refuses addr n then ⟨b,buffer,addr,false⟩
  else
    let k := b.reach (addr/2) n
    ⟨b,slice b.mem (addr/2) k++buffer.drop k,addr+2*min k (n-1),k=n⟩

/-- Every one of `n` words from the byte address `addr` on answers. -/
def HasAt (b : Bus) (addr n : Nat) : Prop :=
  ∀ i<n,addr+2*i+2≤2*b.words ∧ b.answers (addr/2+i)=true

/-- Every one of `n` words from `a` on answers. -/
def Has (b : Bus) (a n : Nat) : Prop := ∀ i<n,a+i<b.words ∧ b.answers (a+i)=true

instance (b : Bus) (addr n : Nat) : Decidable (b.HasAt addr n) :=
  inferInstanceAs (Decidable (∀ i<n,_))

instance (b : Bus) (a n : Nat) : Decidable (b.Has a n) := inferInstanceAs (Decidable (∀ i<n,_))

theorem reach_eq_iff (b : Bus) (a n : Nat) : b.reach a n=n ↔ ∀ i<n,b.answers (a+i)=true := by
  induction n generalizing a with
  | zero => simp [reach]
  | succ n ih =>
    unfold reach
    split_ifs with h
    · rw [Nat.add_right_cancel_iff,ih]
      constructor
      · intro hn i hi
        cases i with
        | zero => exact h
        | succ i => rw [Nat.add_comm i,← Nat.add_assoc]; exact hn i (by omega)
      · intro hn i hi
        rw [Nat.add_assoc,Nat.add_comm 1]
        exact hn (i+1) (by omega)
    · constructor
      · intro hn
        cases hn
      · intro hn
        exact absurd (hn 0 (by omega)) h

theorem hasAt_add (b : Bus) (addr m n : Nat) : b.HasAt addr (m+n) ↔ b.HasAt addr m ∧ b.HasAt (addr+2*m) n := by
  have hdiv : (addr+2*m)/2=addr/2+m := by omega
  constructor
  · intro h
    refine ⟨fun i hi => h i (by omega),fun i hi => ?_⟩
    have := h (m+i) (by omega)
    rw [hdiv,Nat.add_assoc (addr/2)]
    exact ⟨by omega,this.2⟩
  · rintro ⟨h1,h2⟩ i hi
    by_cases him : i < m
    · exact h1 i him
    · have := h2 (i-m) (by omega)
      rw [hdiv,Nat.add_assoc (addr/2),Nat.add_sub_cancel' (by omega)] at this
      exact ⟨by omega,this.2⟩

theorem hasAt_even (b : Bus) (a n : Nat) : b.HasAt (2*a) n ↔ b.Has a n := by
  unfold HasAt Has
  rw [Nat.mul_div_cancel_left a (by omega)]
  refine forall₂_congr fun i _ => and_congr_left fun _ => ?_
  omega

theorem has_add (b : Bus) (a m n : Nat) : b.Has a (m+n) ↔ b.Has a m ∧ b.Has (a+m) n := by
  rw [← hasAt_even,← hasAt_even,← hasAt_even,hasAt_add,Nat.mul_add]

theorem hasAt_congr {b b' : Bus} (hw : b'.words=b.words) (ha : b'.answers=b.answers)
    (addr n : Nat) : b'.HasAt addr n ↔ b.HasAt addr n := by
  unfold HasAt
  rw [hw,ha]

theorem has_congr {b b' : Bus} (hw : b'.words=b.words) (ha : b'.answers=b.answers) (a n : Nat) :
    b'.Has a n ↔ b.Has a n := by
  unfold Has
  rw [hw,ha]

theorem hasAt_iff (b : Bus) (addr : Nat) {n : Nat} (hn : 0<n) :
    b.HasAt addr n ↔ b.refuses addr n=false ∧ b.reach (addr/2) n=n := by
  rw [reach_eq_iff]
  unfold refuses HasAt
  simp only [Bool.or_eq_false_iff,decide_eq_false_iff_not,Nat.not_lt]
  constructor
  · intro h
    have := (h (n-1) (by omega)).1
    exact ⟨⟨by omega,by omega⟩,fun i hi => (h i hi).2⟩
  · rintro ⟨⟨_,h⟩,hi⟩ i hin
    exact ⟨by omega,hi i hin⟩

theorem dato_success (b : Bus) (addr : Nat) (ws : List UInt16) (hn : 0<ws.length) :
    (b.dato addr ws).success=true ↔ b.HasAt addr ws.length := by
  rw [hasAt_iff b addr hn]
  unfold dato
  split_ifs with hr
  · simp [hr]
  · simp [hr]

theorem dato_eq {b : Bus} {addr : Nat} (ws : List UInt16) (hn : 0<ws.length)
    (h : b.HasAt addr ws.length) : b.dato addr ws =
      ⟨{ b with mem := patch b.mem (addr/2) ws },ws,addr+2*(ws.length-1),true⟩ := by
  obtain ⟨hr,hk⟩ := (hasAt_iff b addr hn).mp h
  unfold dato
  rw [hr,if_neg (by simp)]
  dsimp only
  rw [hk,List.take_length,Nat.min_eq_right (by omega),decide_eq_true rfl]

theorem dati_success (b : Bus) (addr : Nat) (buffer : List UInt16) {n : Nat} (hn : 0<n) :
    (b.dati addr buffer n).success=true ↔ b.HasAt addr n := by
  rw [hasAt_iff b addr hn]
  unfold dati
  split_ifs with hr
  · simp [hr]
  · simp [hr]

theorem dati_eq {b : Bus} {addr n : Nat} (buffer : List UInt16) (hn : 0<n) (h : b.HasAt addr n) :
    b.dati addr buffer n=⟨b,slice b.mem (addr/2) n++buffer.drop n,addr+2*(n-1),true⟩ := by
  obtain ⟨hr,hk⟩ := (hasAt_iff b addr hn).mp h
  unfold dati
  rw [hr,if_neg (by simp)]
  dsimp only
  rw [hk,Nat.min_eq_right (by omega),decide_eq_true rfl]

end Bus

def zeroFilled (size : Nat) (ws : List UInt16) : List UInt16 :=
  ws++List.replicate ((size-ws.length%size)%size) 0

theorem zeroFilled_nil (size : Nat) : zeroFilled size []=[] := by simp [zeroFilled]

theorem zeroFilled_sector {size : Nat} {ws vs : List UInt16} (h : ws.length=size) :
    zeroFilled size (ws++vs)=ws++zeroFilled size vs := by
  unfold zeroFilled
  rw [List.length_append,h,Nat.add_mod_left,List.append_assoc]

theorem zeroFilled_last {size : Nat} {ws : List UInt16} (h0 : 0<ws.length) (h : ws.length ≤ size) :
    zeroFilled size ws=ws++List.replicate (size-ws.length) 0 := by
  unfold zeroFilled
  rcases Nat.lt_or_eq_of_le h with hlt | heq
  · rw [Nat.mod_eq_of_lt hlt,Nat.mod_eq_of_lt (by omega)]
  · rw [heq,Nat.mod_self,Nat.sub_zero,Nat.mod_self,Nat.sub_self]

end QUniLator.Disks
