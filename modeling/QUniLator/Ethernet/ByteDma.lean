import QUniLator.Framework.WordBytes

namespace QUniLator.Ethernet.ByteDma

open WordBytes List Option

abbrev Byte := BitVec 8

abbrev Word := BitVec 16

abbrev Memory := Nat → Byte

/-- The bus: `addr_space_byte_count`, and which words answer -/
structure Bus where
  limit : Nat
  answers : Nat → Bool

/-- The byte at place `i` of a buffer of words, if it is in the buffer -/
def byteOf (tmp : List Word) (i : Nat) : Option Byte :=
  tmp[i/2]?.map fun w => if i%2=1 then high w else low w

def mergeByte (tmp : List Word) (i : Nat) (x : Byte) : List Word :=
  tmp.modify (i/2) fun w => if i%2=1 then x++low w else high w++x

def mergeBytes (tmp : List Word) (i : Nat) : List Byte → List Word
  | [] => tmp
  | x::buffer => mergeBytes (mergeByte tmp i x) (i+1) buffer

def pairs : List Byte → List Word
  | x::y::buffer => (y++x)::pairs buffer
  | _ => []

namespace Bus
variable (b : Bus)

def dmaReadWords (m : Memory) (addr n : Nat) : Option (List Word) :=
  if ∀ i<n,b.answers (addr+2*i) then some ((List.range n).map fun i => wordAt m (addr+2*i)) else none

/-- The words up to one that does not answer are written. -/
def dmaWriteWords (m : Memory) (addr : Nat) : List Word → Memory × Bool
  | [] => (m,true)
  | w::ws =>
    if b.answers addr then
      dmaWriteWords (fun i => if i=addr then low w else if i=addr+1 then high w else m i) (addr+2) ws else (m,false)

/-! `deuna_c` -/

/-- What is read outside the buffer of words is none of them. -/
def deunaReadBytes (m : Memory) (addr len : Nat) : Option (List (Option Byte)) :=
  if len=0 then some []
  else if b.limit=0 ∨ b.limit≤addr ∨ b.limit-addr<len then none
  else if addr%2=0 ∧ len%2=0 then
    (b.dmaReadWords m addr (len/2)).map fun tmp => (List.range len).map (byteOf tmp)
  else
    (b.dmaReadWords m (addr-addr%2) ((len+1)/2)).map fun tmp =>
      (List.range len).map fun i => byteOf tmp (i+addr%2)

def deunaWriteBytes (m : Memory) (addr : Nat) (buffer : List Byte) : Memory × Bool :=
  let len := buffer.length
  if len=0 then (m,true)
  else if b.limit=0 ∨ b.limit≤addr ∨ b.limit-addr<len then (m,false)
  else if addr%2=0 ∧ len%2=0 then
    b.dmaWriteWords m addr (mergeBytes (replicate (len/2) 0) 0 buffer)
  else
    match b.dmaReadWords m (addr-addr%2) ((len+addr%2+1)/2) with
    | none => (m,false)
    | some tmp => b.dmaWriteWords m (addr-addr%2) (mergeBytes tmp (addr%2) buffer)

/-! `delqa_c` -/

def delqaReadEven (m : Memory) (addr len : Nat) : Option (List Byte) := do
  let body ← (if len/2≠0 then b.dmaReadWords m addr (len/2) else some [])
  let bytes := body.flatMap fun w => [low w,high w]
  if len%2=1 then
    let tmp ← b.dmaReadWords m (addr+2*(len/2)) 1
    some (bytes++tmp.map low)
  else some bytes

def delqaReadBytes (m : Memory) (addr len : Nat) : Option (List Byte) :=
  if len=0 then some []
  else if addr%2=1 then do
    let tmp ← b.dmaReadWords m (addr-1) 1
    let rest ← b.delqaReadEven m (addr+1) (len-1)
    some (tmp.map high++rest)
  else b.delqaReadEven m addr len

def delqaMerge (m : Memory) (addr i : Nat) (x : Byte) : Memory × Bool :=
  match b.dmaReadWords m addr 1 with
  | none => (m,false)
  | some tmp => b.dmaWriteWords m addr (mergeByte tmp i x)

def delqaWriteEven (m : Memory) (addr : Nat) (buffer : List Byte) : Memory × Bool :=
  let n := buffer.length/2
  let r := if n≠0 then b.dmaWriteWords m addr (pairs buffer) else (m,true)
  if r.2=false then r
  else
    match buffer.drop (2*n) with
    | [] => r
    | x::_ => b.delqaMerge r.1 (addr+2*n) 0 x

def delqaWriteBytes (m : Memory) (addr : Nat) : List Byte → Memory × Bool
  | [] => (m,true)
  | x::buffer =>
    if addr%2=1 then
      let r := b.delqaMerge m (addr-1) 1 x
      if r.2=false then r else b.delqaWriteEven r.1 (addr+1) buffer
    else b.delqaWriteEven m addr (x::buffer)

end Bus

theorem byteOf_cons (w : Word) (ws : List Word) (i : Nat) : byteOf (w::ws) i =
    if i=0 then some (low w) else if i=1 then some (high w) else byteOf ws (i-2) := by
  match i with
  | 0 => rfl
  | 1 => rfl
  | i+2 =>
    have hdiv : (i+2)/2=i/2+1 := by omega
    have hmod : (i+2)%2=i%2 := by omega
    rw [byteOf,hdiv,hmod,List.getElem?_cons_succ,if_neg (by omega),if_neg (by omega)]
    rfl

theorem byteOf_read (m : Memory) (addr n i : Nat) :
    byteOf ((List.range n).map fun k => wordAt m (addr+2*k)) i=if i<2*n then some (m (addr+i)) else none := by
  unfold byteOf
  by_cases hi : i<2*n
  · have hlt : i/2<n := by omega
    rw [List.getElem?_map,List.getElem?_range hlt,if_pos hi]
    simp only [map_some,Option.some.injEq,wordAt]
    split_ifs with hodd
    · rw [high_append]
      congr 1
      omega
    · rw [low_append]
      congr 1
      omega
  · rw [List.getElem?_eq_none (by simp; omega),if_neg hi]
    rfl

theorem byteOf_mergeByte (tmp : List Word) (i : Nat) (x : Byte) (j : Nat) :
    byteOf (mergeByte tmp i x) j=if j=i then (byteOf tmp j).map fun _ => x else byteOf tmp j := by
  unfold byteOf mergeByte
  rw [List.getElem?_modify]
  cases tmp[j/2]? with
  | none => simp
  | some w =>
    simp only [Option.map_eq_map,map_some]
    by_cases hd : i/2=j/2
    · rw [if_pos hd]
      by_cases hji : j=i
      · rw [if_pos hji,hji]
        split_ifs <;> simp
      · have hpar : i%2=1 ↔ ¬j%2=1 := by omega
        rw [if_neg hji]
        by_cases hodd : j%2=1 <;> simp [hodd,hpar]
    · have hji : j≠i := by
        rintro rfl
        exact hd rfl
      rw [if_neg hd,if_neg hji]

theorem byteOf_mergeBytes (tmp : List Word) (i : Nat) (buffer : List Byte) (j : Nat) :
    byteOf (mergeBytes tmp i buffer) j =
      if i≤j ∧ j < i+buffer.length then (byteOf tmp j).bind fun _ => buffer[j-i]? else byteOf tmp j := by
  induction buffer generalizing tmp i with
  | nil => rw [if_neg (by simp)]; rfl
  | cons x buffer ih =>
    rw [mergeBytes,ih,byteOf_mergeByte,length_cons]
    by_cases hji : j=i
    · subst hji
      rw [if_neg (by omega),if_pos rfl,if_pos (by omega),Nat.sub_self]
      cases byteOf tmp j <;> rfl
    · rw [if_neg hji]
      by_cases hin : i+1≤j ∧ j < i+1+buffer.length
      · have hsub : j-i=j-(i+1)+1 := by omega
        rw [if_pos hin,if_pos (by omega),hsub,List.getElem?_cons_succ]
      · rw [if_neg hin,if_neg (by omega)]

theorem byteOf_pairs (buffer : List Byte) (i : Nat) :
    byteOf (pairs buffer) i=if i<2*(buffer.length/2) then buffer[i]? else none := by
  induction buffer using pairs.induct generalizing i with
  | case1 x y buffer ih =>
    rw [pairs,byteOf_cons,ih,low_append,high_append,length_cons,length_cons]
    match i with
    | 0 => simp
    | 1 => rw [if_neg (by omega),if_pos rfl,if_pos (by omega)]; rfl
    | i+2 =>
      rw [if_neg (by omega),if_neg (by omega),Nat.add_sub_cancel]
      split_ifs with h1 h2 h2
      · rfl
      · omega
      · omega
      · rfl
  | case2 buffer h =>
    cases buffer with
    | nil => rfl
    | cons x buffer =>
      cases buffer with
      | nil => simp [pairs,byteOf]
      | cons y buffer => exact absurd rfl (h x y buffer)

variable {b : Bus} {m : Memory} {addr : Nat}

theorem readWords_eq {n : Nat} (h : ∀ i<n,b.answers (addr+2*i)) :
    b.dmaReadWords m addr n=some ((List.range n).map fun i => wordAt m (addr+2*i)) := if_pos h

theorem writeWords_eq {ws : List Word} (h : ∀ i<ws.length,b.answers (addr+2*i)) : b.dmaWriteWords m addr ws =
      (fun j => if addr≤j then (byteOf ws (j-addr)).getD (m j) else m j,true) := by
  induction ws generalizing m addr with
  | nil =>
    refine Prod.ext (funext fun j => ?_) rfl
    simp [Bus.dmaWriteWords,byteOf]
  | cons w ws ih =>
    have h0 : b.answers addr=true := h 0 (Nat.succ_pos _)
    rw [Bus.dmaWriteWords,if_pos h0,ih fun i hi => ?_]
    · refine Prod.ext (funext fun j => ?_) rfl
      dsimp only
      by_cases hj : addr≤j
      · rw [if_pos hj,byteOf_cons]
        by_cases hj2 : addr+2≤j
        · rw [if_pos hj2,if_neg (by omega),if_neg (by omega),if_neg (by omega),if_neg (by omega),Nat.sub_add_eq]
        · rw [if_neg hj2]
          split_ifs <;> first | rfl | omega
      · rw [if_neg hj,if_neg (by omega),if_neg (by omega),if_neg (by omega)]
    · have := h (i+1) (Nat.succ_lt_succ hi)
      rwa [Nat.mul_succ,Nat.add_comm (2*i),← Nat.add_assoc] at this

/-- The bytes are in the address space, and the words they are in answer. -/
structure Bus.Holds (b : Bus) (addr len : Nat) : Prop where
  limit : addr+len≤b.limit
  answers : ∀ a,addr≤a+1 → a<addr+len → a%2=0 → b.answers a=true

theorem delqaReadEven_eq {len : Nat} (h : b.Holds addr len) (he : addr%2=0) :
    b.delqaReadEven m addr len=some (slice m addr len) := by
  have hbody : (if len/2≠0 then b.dmaReadWords m addr (len/2) else some []) =
      some ((List.range (len/2)).map fun k => wordAt m (addr+2*k)) := by
    split_ifs with hn
    · exact readWords_eq fun i hi => h.answers _ (by omega) (by omega) (by omega)
    · rw [not_not.mp hn]
      rfl
  rw [Bus.delqaReadEven,hbody,bind_eq_bind,bind_some,bytes_wordsAt]
  dsimp only
  split_ifs with hodd
  · have hlen : len=2*(len/2)+1 := by omega
    rw [readWords_eq fun i hi => h.answers _ (by omega) (by omega) (by omega),bind_some]
    conv_rhs => rw [hlen,slice_append,slice_one]
    simp [wordAt]
  · have hlen : 2*(len/2)=len := by omega
    rw [hlen]

theorem delqaReadBytes_eq {len : Nat} (h : b.Holds addr len) :
    b.delqaReadBytes m addr len=some (slice m addr len) := by
  unfold Bus.delqaReadBytes
  split_ifs with h0 hodd
  · rw [h0]
    rfl
  · have hrest : b.Holds (addr+1) (len-1) :=
      ⟨by have := h.limit; omega,fun a h1 h2 => h.answers a (by omega) (by omega)⟩
    have hlen : len=1+(len-1) := by omega
    have hword : addr-1+1=addr := by omega
    rw [readWords_eq fun i hi => h.answers _ (by omega) (by omega) (by omega),delqaReadEven_eq hrest (by omega)]
    conv_rhs => rw [hlen,slice_append,slice_one]
    simp [wordAt,hword]
  · exact delqaReadEven_eq h (by omega)

/-- The DEUNA reads the bytes but for a word that it leaves out, at an odd address with an even length. -/
theorem deunaReadBytes_iff {len : Nat} (h : b.Holds addr len) :
    b.deunaReadBytes m addr len=some ((slice m addr len).map some) ↔ ¬(addr%2=1 ∧ len%2=0 ∧ len≠0) := by
  have hlimit := h.limit
  unfold Bus.deunaReadBytes
  split_ifs with h0 hout heven
  · subst h0
    simp
  · omega
  · have hall (i : Nat) (hi : i<len) : i<2*(len/2) := by omega
    rw [readWords_eq fun i hi => h.answers _ (by omega) (by omega) (by omega)]
    refine iff_of_true ?_ (by omega)
    simp only [map_some,slice,List.map_map]
    refine congrArg some (map_congr_left fun i hi => ?_)
    rw [byteOf_read,if_pos (hall i (mem_range.mp hi))]
    rfl
  · rw [readWords_eq fun i hi => h.answers _ (by omega) (by omega) (by omega)]
    simp only [map_some,Option.some.injEq,slice,List.map_map,byteOf_read]
    have hplace (i : Nat) : addr-addr%2+(i+addr%2)=addr+i := by omega
    constructor
    · intro heq hbad
      have := map_inj_left.mp heq (len-1) (mem_range.mpr (by omega))
      rw [if_neg (by omega)] at this
      cases this
    · intro hgood
      refine map_congr_left fun i hi => ?_
      have := mem_range.mp hi
      rw [if_pos (by omega),hplace]
      rfl

theorem delqaMerge_eq {i : Nat} (hi : i<2) (x : Byte) (h : b.answers addr) :
    b.delqaMerge m addr i x=(patch m (addr+i) [x],true) := by
  have hone (k : Nat) (hk : k<1) : b.answers (addr+2*k)=true := by
    rw [Nat.lt_one_iff.mp hk]
    exact h
  rw [Bus.delqaMerge,readWords_eq hone]
  dsimp only
  rw [writeWords_eq fun k hk => hone k (by simpa [mergeByte] using hk)]
  refine Prod.ext (funext fun j => ?_) rfl
  dsimp only
  rw [byteOf_mergeByte,byteOf_read,patch]
  by_cases hj : addr≤j
  · have hadd : addr+(j-addr)=j := by omega
    rw [if_pos hj,hadd]
    by_cases hji : j=addr+i
    · rw [if_pos (by omega),if_pos (by omega),if_pos (by omega),hji,Nat.sub_self]
      rfl
    · rw [if_neg (by omega)]
      have hnone (hle : addr+i≤j) : [x][j-(addr+i)]? = none := List.getElem?_eq_none (by simp; omega)
      split_ifs with h1 h2 h2 <;> simp [hnone,h2]
  · rw [if_neg hj,if_neg (by omega)]

theorem pairs_length (buffer : List Byte) : (pairs buffer).length=buffer.length/2 := by
  induction buffer using pairs.induct with
  | case1 x y buffer ih =>
    rw [pairs,length_cons,ih,length_cons,length_cons]
    omega
  | case2 buffer h =>
    match buffer with
    | [] | [_] => simp [pairs]
    | x::y::buffer => exact absurd rfl (h x y buffer)

theorem delqaWriteEven_eq {buffer : List Byte} (h : b.Holds addr buffer.length) (he : addr%2=0) :
    b.delqaWriteEven m addr buffer=(patch m addr buffer,true) := by
  have hbody : (if buffer.length/2≠0 then b.dmaWriteWords m addr (pairs buffer) else (m,true)) =
      (patch m addr (buffer.take (2*(buffer.length/2))),true) := by
    split_ifs with hn
    · rw [writeWords_eq fun i hi => ?_]
      · refine Prod.ext (funext fun j => ?_) rfl
        simp only [patch,byteOf_pairs,List.getElem?_take]
      · rw [pairs_length] at hi
        exact h.answers _ (by omega) (by omega) (by omega)
    · rw [not_not.mp hn,Nat.mul_zero,take_zero,patch_nil]
  have hparts := take_append_drop (2*(buffer.length/2)) buffer
  have hlength : (buffer.take (2*(buffer.length/2))).length=2*(buffer.length/2) := by
    rw [length_take]
    omega
  have hdrop : (buffer.drop (2*(buffer.length/2))).length=buffer.length%2 := by
    rw [length_drop]
    omega
  unfold Bus.delqaWriteEven
  dsimp only
  rw [hbody]
  dsimp only
  rw [if_neg (by decide)]
  cases hd : buffer.drop (2*(buffer.length/2)) with
  | nil =>
    rw [hd,append_nil] at hparts
    rw [hparts]
  | cons x rest =>
    rw [hd,length_cons] at hdrop
    have hrest : rest=[] := eq_nil_of_length_eq_zero (by omega)
    rw [hd,hrest] at hparts
    dsimp only
    rw [delqaMerge_eq (by decide) x (h.answers _ (by omega) (by omega) (by omega)),Nat.add_zero]
    conv_rhs => rw [← hparts,patch_append,hlength]

theorem delqaWriteBytes_eq {buffer : List Byte} (h : b.Holds addr buffer.length) :
    b.delqaWriteBytes m addr buffer=(patch m addr buffer,true) := by
  cases buffer with
  | nil => rw [Bus.delqaWriteBytes,patch_nil]
  | cons x buffer =>
    rw [Bus.delqaWriteBytes]
    split_ifs with hodd
    · rw [length_cons] at h
      have hrest : b.Holds (addr+1) buffer.length :=
        ⟨by have := h.limit; omega,fun a h1 h2 => h.answers a (by omega) (by omega)⟩
      have hword : addr-1+1=addr := by omega
      rw [delqaMerge_eq (by decide) x (h.answers _ (by omega) (by omega) (by omega)),hword]
      dsimp only
      rw [if_neg (by decide),delqaWriteEven_eq hrest (by omega)]
      conv_rhs => rw [← singleton_append,patch_append]
      rfl
    · exact delqaWriteEven_eq h (by omega)

theorem mergeBytes_length (tmp : List Word) (i : Nat) (buffer : List Byte) :
    (mergeBytes tmp i buffer).length=tmp.length := by
  induction buffer generalizing tmp i with
  | nil => rfl
  | cons x buffer ih => rw [mergeBytes,ih,mergeByte,length_modify]

theorem deunaWriteBytes_eq {buffer : List Byte} (h : b.Holds addr buffer.length) :
    b.deunaWriteBytes m addr buffer=(patch m addr buffer,true) := by
  have hlimit := h.limit
  unfold Bus.deunaWriteBytes
  dsimp only
  split_ifs with h0 hout heven
  · rw [length_eq_zero_iff.mp h0,patch_nil]
  · omega
  · rw [writeWords_eq fun i hi => ?_]
    · refine Prod.ext (funext fun j => ?_) rfl
      dsimp only
      rw [byteOf_mergeBytes,patch,Nat.zero_add,Nat.sub_zero]
      split_ifs with hj hin
      · have hlt : (j-addr)/2<buffer.length/2 := by omega
        rw [byteOf,List.getElem?_replicate,if_pos hlt]
        rfl
      · have hge : ¬(j-addr)/2<buffer.length/2 := by omega
        rw [byteOf,List.getElem?_replicate,if_neg hge,List.getElem?_eq_none (by omega)]
        rfl
      · rfl
    · rw [mergeBytes_length,length_replicate] at hi
      exact h.answers _ (by omega) (by omega) (by omega)
  · rw [readWords_eq fun i hi => h.answers _ (by omega) (by omega) (by omega)]
    dsimp only
    rw [writeWords_eq fun i hi => ?_]
    · refine Prod.ext (funext fun j => ?_) rfl
      dsimp only
      rw [byteOf_mergeBytes,byteOf_read,patch]
      by_cases hj : addr≤j
      · have hsub : j-(addr-addr%2)-addr%2=j-addr := by omega
        rw [if_pos (by omega),if_pos hj]
        by_cases hin : j<addr+buffer.length
        · rw [if_pos (by omega),if_pos (by omega),hsub]
          rfl
        · have hadd : addr-addr%2+(j-(addr-addr%2))=j := by omega
          rw [if_neg (by omega),List.getElem?_eq_none (by omega),hadd]
          split_ifs <;> rfl
      · rw [if_neg hj]
        by_cases h1 : addr-addr%2≤j
        · have hadd : addr-addr%2+(j-(addr-addr%2))=j := by omega
          rw [if_pos h1,if_neg (by omega),hadd]
          split_ifs <;> rfl
        · rw [if_neg h1]
    · rw [mergeBytes_length,length_map,length_range] at hi
      exact h.answers _ (by omega) (by omega) (by omega)

/-- Both controllers write exactly the bytes, which read back. The DELQA reads exactly them; so does the DEUNA, from
the words it read, but for an even length at an odd address. -/
theorem byte_dma (m : Memory) {len : Nat} (h : b.Holds addr len) :
    b.delqaReadBytes m addr len=some (slice m addr len) ∧
    (b.deunaReadBytes m addr len=some ((slice m addr len).map some) ↔
      ¬(addr%2=1 ∧ len%2=0 ∧ len≠0)) ∧ ∀ buffer : List Byte,buffer.length=len →
      b.delqaWriteBytes m addr buffer=(patch m addr buffer,true) ∧
      b.deunaWriteBytes m addr buffer=(patch m addr buffer,true) ∧ slice (patch m addr buffer) addr len=buffer := by
  refine ⟨delqaReadBytes_eq h,deunaReadBytes_iff h,?_⟩
  rintro buffer rfl
  exact ⟨delqaWriteBytes_eq h,deunaWriteBytes_eq h,slice_patch m addr buffer⟩

/-- Three bytes at an odd address -/
theorem byte_dma_three : Bus.delqaReadBytes ⟨8,fun _ => true⟩ (fun i => BitVec.ofNat 8 i) 1 3=some [1,2,3] ∧
    Bus.deunaReadBytes ⟨8,fun _ => true⟩ (fun i => BitVec.ofNat 8 i) 1 3=some [some 1,some 2,some 3] := by
  have hb : Bus.Holds ⟨8,fun _ => true⟩ 1 3 := ⟨by decide,fun _ _ _ _ => rfl⟩
  have h := byte_dma (fun i => BitVec.ofNat 8 i) hb
  exact ⟨h.1,h.2.1.mpr (by decide)⟩

/-- Of two bytes at an odd address the DEUNA takes the second from behind its buffer. -/
theorem deuna_reads_behind : ¬∀ (b : Bus) (m : Memory) (addr len : Nat),b.Holds addr len →
    b.deunaReadBytes m addr len=some ((slice m addr len).map some) := by
  intro h
  exact absurd (h ⟨8,fun _ => true⟩ (fun _ => 0) 1 2 ⟨by decide,fun _ _ _ _ => rfl⟩) (by decide)

end QUniLator.Ethernet.ByteDma
