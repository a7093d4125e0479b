import Mathlib.Data.List.TakeWhile
import Mathlib.Tactic.Common

namespace QUniLator.Web

open List

def hexValue (c : Char) : Option Nat :=
  if '0' ≤ c ∧ c ≤ '9' then some (c.toNat-48)
  else if 'a' ≤ c ∧ c ≤ 'f' then some (c.toNat-87)
  else if 'A' ≤ c ∧ c ≤ 'F' then some (c.toNat-55)
  else none

def isSpace (c : Char) : Bool :=
  c = ' ' || c = '\t' || c = '\n' || c = '\r' || c=Char.ofNat 11 || c=Char.ofNat 12

def toHex (p : List UInt8) : List Char :=
  p.flatMap fun b => [Nat.digitChar (b.toNat/16),Nat.digitChar (b.toNat%16)]

/-- `%1x`: one digit after white space -/
def scanHex (s : List Char) : Option (Nat × List Char) :=
  match s.dropWhile isSpace with
  | [] => none
  | c::s => (hexValue c).map fun n => (n,s)

/-- `sscanf` with `%1x%1x` -/
def scanByte (s : List Char) : Option UInt8 :=
  (scanHex s).bind fun hi => (scanHex hi.2).map fun lo => UInt8.ofNat (hi.1*16+lo.1)

def decodeHex : List Char → List UInt8 × Bool
  | c::d::s =>
    match scanByte (c::d::s) with
    | some b => (b::(decodeHex s).1,(decodeHex s).2)
    | none => ([],false)
  | _ => ([],true)

/-- `from_hex`: what is in the buffer afterwards, and the number of bytes, 0 on anything malformed -/
def fromHex (s : List Char) (out : List UInt8) : List UInt8 × Nat :=
  if s.length%2≠0 ∨ out.length<s.length/2 then (out,0)
  else ((decodeHex s).1++out.drop (decodeHex s).1.length,if (decodeHex s).2 then s.length/2 else 0)

theorem hexValue_digitChar : ∀ n<16,hexValue (Nat.digitChar n)=some n := by decide

theorem isSpace_digitChar : ∀ n<16,isSpace (Nat.digitChar n)=false := by decide

theorem scanHex_digit {n : Nat} (hn : n<16) (s : List Char) : scanHex (Nat.digitChar n::s)=some (n,s) := by
  unfold scanHex
  rw [dropWhile_cons_of_neg (by simp [isSpace_digitChar n hn])]
  dsimp only
  rw [hexValue_digitChar n hn]
  rfl

theorem scanByte_hex (b : UInt8) (s : List Char) :
    scanByte (Nat.digitChar (b.toNat/16)::Nat.digitChar (b.toNat%16)::s)=some b := by
  have hb : b.toNat<256 := b.toNat_lt
  unfold scanByte
  rw [scanHex_digit (by omega)]
  dsimp only [Option.bind]
  rw [scanHex_digit (by omega)]
  dsimp only [Option.map]
  have he : b.toNat/16*16+b.toNat%16=b.toNat := by omega
  rw [he,UInt8.ofNat_toNat]

theorem decodeHex_toHex (p : List UInt8) : decodeHex (toHex p)=(p,true) := by
  induction p with
  | nil => rfl
  | cons b p ih =>
    show decodeHex (Nat.digitChar (b.toNat/16)::Nat.digitChar (b.toNat%16)::toHex p)=_
    unfold decodeHex
    rw [scanByte_hex,ih]

theorem toHex_length (p : List UInt8) : (toHex p).length=2*p.length := by
  induction p with
  | nil => rfl
  | cons b p ih =>
    show (Nat.digitChar (b.toNat/16)::Nat.digitChar (b.toNat%16)::toHex p).length=_
    rw [length_cons,length_cons,ih,length_cons]
    omega

theorem fromHex_toHex {p out : List UInt8} (h : p.length=out.length) : fromHex (toHex p) out=(p,p.length) := by
  unfold fromHex
  rw [toHex_length,if_neg (by omega),decodeHex_toHex]
  dsimp only
  rw [h,drop_length,append_nil,if_pos rfl,Nat.mul_div_cancel_left _ (by decide)]

theorem toHex_digit (p : List UInt8) : ∀ c∈toHex p,∃ n<16,c=Nat.digitChar n := by
  intro c hc
  obtain ⟨b,-,hb⟩ := mem_flatMap.mp hc
  have hlt : b.toNat<256 := b.toNat_lt
  rcases mem_cons.mp hb with rfl | hb
  · exact ⟨_,by omega,rfl⟩
  · rw [mem_singleton.mp hb]
    exact ⟨_,by omega,rfl⟩

def sessionCookieName : List Char := "qunilator_session".toList

/-- The value of the first cookie of the session's name, as `webauth_verify_session` looks for it -/
def findCookie : Nat → List Char → Option (List Char)
  | 0,_ => none
  | n+1,p =>
    if p=[] then none else
      let p := p.dropWhile fun c => c = ' ' || c = ';'
      let eq := p.dropWhile fun c => c ≠ '='
      if eq=[] then none
      else if p.takeWhile (fun c => c ≠ '=')=sessionCookieName then some (eq.takeWhile fun c => c ≠ ';').tail
      else findCookie n (eq.dropWhile fun c => c ≠ ';').tail

theorem findCookie_succ (n : Nat) (p : List Char) : findCookie (n+1) p = if p=[] then none else
      let p := p.dropWhile fun c => c = ' ' || c = ';'
      let eq := p.dropWhile fun c => c ≠ '='
      if eq=[] then none
      else if p.takeWhile (fun c => c ≠ '=')=sessionCookieName then some (eq.takeWhile fun c => c ≠ ';').tail
      else findCookie n (eq.dropWhile fun c => c ≠ ';').tail := rfl

def cookieItems : Nat → List Char → List (List Char)
  | 0,_ => []
  | n+1,s => (s.takeWhile fun c => c ≠ ';')::cookieItems n (s.dropWhile fun c => c ≠ ';').tail

def cookieValue (item : List Char) : Option (List Char) :=
  if (item.dropWhile (· = ' ')).takeWhile (· ≠ '=')=sessionCookieName then
    some ((item.dropWhile (· = ' ')).dropWhile (· ≠ '=')).tail
  else none

def sessionCookies (s : List Char) : List (List Char) := (cookieItems (s.length+1) s).filterMap cookieValue

def HasValues (items : List (List Char)) : Prop := ∀ i∈items,i.dropWhile (· = ' ')=[] ∨ '=' ∈ i

theorem findCookie_nil (n : Nat) : findCookie n []=none := by
  cases n <;> rfl

theorem cookieItems_nil (n : Nat) : (cookieItems n []).filterMap cookieValue=[] := by
  induction n with
  | zero => rfl
  | succ n ih => exact ih

theorem findCookie_blank (n : Nat) {i : List Char} (hi : ∀ c∈i,c = ' ') (s : List Char) :
    findCookie n (i ++ ';' :: s)=findCookie n s := by
  cases n with
  | zero => rfl
  | succ n =>
    have hdrop : (i ++ ';' :: s).dropWhile (fun c => c = ' ' || c = ';') =
        s.dropWhile fun c => c = ' ' || c = ';' := by
      rw [dropWhile_append_of_pos fun c hc => by simp [hi c hc]]
      exact dropWhile_cons_of_pos (by simp)
    have hne : i ++ ';' :: s≠[] := by simp
    by_cases hs : s=[]
    · subst hs
      unfold findCookie
      rw [if_neg hne,hdrop]
      rfl
    · unfold findCookie
      rw [if_neg hne,if_neg hs,hdrop]

theorem dropWhile_value {p : Char → Bool} (hp : p '=' = false) (x t : List Char) :
    (x ++ '=' :: t).dropWhile p=x.dropWhile p ++ '=' :: t := by
  induction x with
  | nil => exact dropWhile_cons_of_neg (by simp [hp])
  | cons c x ih =>
    by_cases hc : p c=true
    · rw [cons_append,dropWhile_cons_of_pos hc,dropWhile_cons_of_pos hc,ih]
    · rw [cons_append,dropWhile_cons_of_neg hc,dropWhile_cons_of_neg hc,cons_append]

theorem dropWhile_blank {x : List Char} (hx : ∀ c∈x,c ≠ ';') :
    x.dropWhile (fun c => c = ' ' || c = ';')=x.dropWhile (· = ' ') := by
  induction x with
  | nil => rfl
  | cons c x ih =>
    have hc := hx c mem_cons_self
    by_cases hs : c = ' '
    · rw [dropWhile_cons_of_pos (by simp [hs]),dropWhile_cons_of_pos (by simp [hs])]
      exact ih fun d hd => hx d (mem_cons_of_mem c hd)
    · rw [dropWhile_cons_of_neg (by simp [hs,hc]),dropWhile_cons_of_neg (by simp [hs])]

theorem span_value {a : List Char} (ha : '=' ∉ a) (t : List Char) :
    (a ++ '=' :: t).takeWhile (· ≠ '=')=a ∧ (a ++ '=' :: t).dropWhile (· ≠ '=') = '=' :: t := by
  have hpos : ∀ c∈a,decide (c ≠ '=')=true := fun c hc => decide_eq_true (ne_of_mem_of_not_mem hc ha)
  rw [takeWhile_append_of_pos hpos,dropWhile_append_of_pos hpos]
  rw [takeWhile_cons_of_neg (by simp),dropWhile_cons_of_neg (by simp),append_nil]
  exact ⟨rfl,rfl⟩

theorem findCookie_item (n : Nat) {i r : List Char} (hi : ∀ c∈i,c ≠ ';') (hv : '=' ∈ i)
    (hr : r.takeWhile (· ≠ ';')=[]) : findCookie (n+1) (i++r)=(cookieValue i).or (findCookie n r.tail) := by
  obtain ⟨x,b,rfl,hx⟩ := eq_append_cons_of_mem hv
  have ha : '=' ∉ x.dropWhile (· = ' ') := fun h => hx ((dropWhile_sublist _).subset h)
  have hxs : ∀ c∈x,c ≠ ';' := fun c hc => hi c (mem_append_left _ hc)
  have hb : ∀ c ∈ '=' :: b,decide (c ≠ ';')=true :=
    fun c hc => decide_eq_true (hi c (mem_append_right x hc))
  have hvalue : cookieValue (x ++ '=' :: b) =
      if x.dropWhile (· = ' ')=sessionCookieName then some b else none := by
    unfold cookieValue
    rw [dropWhile_value (by decide),(span_value ha b).1,(span_value ha b).2]
    rfl
  have hr' : r.dropWhile (· ≠ ';')=r := by
    have hsplit := takeWhile_append_dropWhile (p := fun c => decide (c ≠ ';')) (l := r)
    rw [hr] at hsplit
    exact hsplit
  have hrest : ('=' :: (b++r)).takeWhile (· ≠ ';') = '=' :: b ∧
      ('=' :: (b++r)).dropWhile (· ≠ ';')=r := by
    rw [← cons_append,takeWhile_append_of_pos hb,dropWhile_append_of_pos hb]
    rw [hr,hr',append_nil]
    exact ⟨rfl,rfl⟩
  have hne : x ++ '=' :: b++r≠[] := by simp
  rw [hvalue,findCookie_succ,if_neg hne,append_assoc,cons_append]
  rw [dropWhile_value (by decide),dropWhile_blank hxs]
  dsimp only
  rw [(span_value ha (b++r)).1,(span_value ha (b++r)).2,hrest.1,hrest.2,if_neg (by simp)]
  by_cases hname : x.dropWhile (· = ' ')=sessionCookieName
  · rw [if_pos hname,if_pos hname]
    rfl
  · rw [if_neg hname,if_neg hname]
    rfl

theorem takeWhile_dropWhile (p : Char → Bool) (l : List Char) : (l.dropWhile p).takeWhile p=[] := by
  induction l with
  | nil => rfl
  | cons c l ih =>
    by_cases hc : p c=true
    · rw [dropWhile_cons_of_pos hc]
      exact ih
    · rw [dropWhile_cons_of_neg hc]
      exact takeWhile_cons_of_neg hc

theorem findCookie_eq {n m : Nat} {s : List Char} (hn : s.length<n) (hm : s.length < m)
    (h : HasValues (cookieItems n s)) : findCookie m s=((cookieItems n s).filterMap cookieValue).head? := by
  induction n generalizing m s with
  | zero => cases hn
  | succ n ih =>
    by_cases hs : s=[]
    · subst hs
      rw [findCookie_nil,cookieItems_nil]
      rfl
    have hsplit := takeWhile_append_dropWhile (p := fun c => decide (c ≠ ';')) (l := s)
    have hi : ∀ c∈s.takeWhile (· ≠ ';'),c ≠ ';' := by
      intro c hc
      simpa using mem_takeWhile_imp hc
    have hstop := takeWhile_dropWhile (· ≠ ';') s
    have hlen : ((s.dropWhile (· ≠ ';')).tail).length<s.length := by
      have hpos : 0<s.length := length_pos_iff.mpr hs
      have hle := (dropWhile_sublist (fun c => decide (c ≠ ';')) (l := s)).length_le
      rw [length_tail]
      omega
    have hrest : HasValues (cookieItems n (s.dropWhile (· ≠ ';')).tail) :=
      fun i hi => h i (mem_cons_of_mem _ hi)
    have hitems : (cookieItems (n+1) s).filterMap cookieValue=(cookieValue (s.takeWhile (· ≠ ';'))).toList ++
        (cookieItems n (s.dropWhile (· ≠ ';')).tail).filterMap cookieValue := by
      show List.filterMap cookieValue (s.takeWhile (· ≠ ';')::_)=_
      cases hc : cookieValue (s.takeWhile (· ≠ ';')) with
      | none => exact filterMap_cons_none hc
      | some v => exact filterMap_cons_some hc
    rw [hitems]
    rcases h _ mem_cons_self with hblank | hv
    · have hspaces : ∀ c∈s.takeWhile (· ≠ ';'),c = ' ' := by
        intro c hc
        simpa using dropWhile_eq_nil_iff.mp hblank c hc
      have hnone : cookieValue (s.takeWhile (· ≠ ';'))=none := by
        unfold cookieValue
        rw [hblank]
        exact if_neg (by decide)
      rw [hnone]
      show findCookie m s=_
      rw [Option.toList_none,nil_append,← ih (by omega) (Nat.lt_trans hlen hm) hrest]
      cases hd : s.dropWhile (· ≠ ';') with
      | nil =>
        rw [hd,append_nil] at hsplit
        rw [hsplit] at hspaces
        cases m with
        | zero => rfl
        | succ m =>
          have hall : s.dropWhile (fun c => c = ' ' || c = ';')=[] :=
            dropWhile_eq_nil_iff.mpr fun c hc => by simp [hspaces c hc]
          rw [findCookie_succ,if_neg hs,hall]
          exact (findCookie_nil (m+1)).symm
      | cons c t =>
        rw [hd] at hsplit hstop
        have hc : c = ';' := by
          by_contra hc
          rw [takeWhile_cons_of_pos (by simpa using hc)] at hstop
          cases hstop
        rw [← hsplit,hc]
        exact findCookie_blank m hspaces t
    · cases m with
      | zero => cases hm
      | succ m =>
        have hnext := ih (by omega) (Nat.lt_of_lt_of_le hlen (Nat.le_of_lt_succ hm)) hrest
        have hitem := findCookie_item m hi hv hstop
        rw [hsplit,hnext] at hitem
        rw [hitem]
        cases cookieValue (s.takeWhile (· ≠ ';')) <;> rfl

theorem find_session {s : List Char} (h : HasValues (cookieItems (s.length+1) s)) :
    findCookie (s.length+1) s=(sessionCookies s).head? :=
  findCookie_eq (Nat.lt_succ_self _) (Nat.lt_succ_self _) h

end QUniLator.Web
