import Mathlib.Data.List.Induction
import QUniLator.Framework.Splice

namespace QUniLator

def leGet : List UInt8 → Nat
  | [] => 0
  | b::bs => b.toNat+256*leGet bs

/-- The low `n` bytes of `v`, least significant first. -/
def lePut : Nat → Nat → List UInt8
  | 0,_ => []
  | n+1,v => UInt8.ofNat v::lePut n (v/256)

@[simp] theorem lePut_length (n v : Nat) : (lePut n v).length=n := by
  induction n generalizing v with
  | zero => rfl
  | succ n ih => simp [lePut,ih]

theorem leGet_lePut (n v : Nat) : leGet (lePut n v)=v%256^n := by
  induction n generalizing v with
  | zero => simp [lePut,leGet,Nat.mod_one]
  | succ n ih =>
    have hb : (UInt8.ofNat v).toNat=v%256 := by simp
    rw [lePut,leGet,ih,hb,Nat.pow_succ,Nat.mul_comm (256^n),Nat.mod_mul]

def beGet (bs : List UInt8) : Nat := bs.foldl (fun v b => v*256+b.toNat) 0

/-- The low `n` bytes of `v`, most significant first. -/
def bePut : Nat → Nat → List UInt8
  | 0,_ => []
  | n+1,v => bePut n (v/256)++[UInt8.ofNat v]

@[simp] theorem bePut_length (n v : Nat) : (bePut n v).length=n := by
  induction n generalizing v with
  | zero => rfl
  | succ n ih => simp [bePut,ih]

private theorem beGet_append (bs : List UInt8) (b : UInt8) : beGet (bs++[b])=beGet bs*256+b.toNat := by
  simp [beGet]

theorem beGet_bePut (n v : Nat) : beGet (bePut n v)=v%256^n := by
  induction n generalizing v with
  | zero => simp [bePut,beGet,Nat.mod_one]
  | succ n ih =>
    have hb : (UInt8.ofNat v).toNat=v%256 := by simp
    rw [bePut,beGet_append,ih,hb,Nat.pow_succ,Nat.mul_comm (256^n),Nat.mod_mul]
    omega

theorem beGet_lt (bs : List UInt8) : beGet bs<256^bs.length := by
  induction bs using List.reverseRecOn with
  | nil => simp [beGet]
  | append_singleton bs b ih =>
    have hb := b.toNat_lt
    rw [beGet_append,List.length_append,List.length_singleton,Nat.pow_succ]
    omega

theorem beGet_replicate_ff : beGet (List.replicate 4 0xFF)=0xFFFFFFFF := by
  decide

/-- Fields of so many bytes each, least significant first -/
def leFields (fs : List (Nat × Nat)) : List UInt8 := fs.flatMap fun f => lePut f.1 f.2

theorem leFields_append (fs gs : List (Nat × Nat)) : leFields (fs++gs)=leFields fs++leFields gs := List.flatMap_append

theorem leFields_length (fs : List (Nat × Nat)) : (leFields fs).length=(fs.map Prod.fst).sum := by
  induction fs with
  | nil => rfl
  | cons f fs ih =>
    rw [List.map_cons,List.sum_cons,← ih,← lePut_length f.1 f.2,← List.length_append]
    rfl

theorem leField_at {bs pre rest : List UInt8} {fs : List (Nat × Nat)} (h : bs=pre++(leFields fs++rest)) {k n v : Nat}
    (hk : fs[k]?=some (n,v)) : ∃ a b,bs=a++(lePut n v++b) ∧ a.length=pre.length+((fs.take k).map Prod.fst).sum := by
  obtain ⟨hlt,hv⟩ := List.getElem?_eq_some_iff.mp hk
  have hfs : leFields fs=leFields (fs.take k)++(lePut n v++leFields (fs.drop (k+1))) := by
    conv_lhs => rw [← List.take_append_drop k fs,List.drop_eq_getElem_cons hlt,hv,leFields_append]
    rfl
  exact ⟨pre++leFields (fs.take k),leFields (fs.drop (k+1))++rest,by simp [h,hfs],by simp [leFields_length]⟩

end QUniLator
