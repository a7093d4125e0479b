import QUniLator.Web.Auth

namespace QUniLator.Web

open List Option

theorem decodeHex_length : ∀ s : List Char,(decodeHex s).1.length ≤ s.length/2
  | [] => Nat.zero_le _
  | [_] => Nat.zero_le _
  | c::d::s => by
    have ih := decodeHex_length s
    unfold decodeHex
    cases scanByte (c::d::s) with
    | none => exact Nat.zero_le _
    | some b =>
      simp only [length_cons]
      omega

theorem fromHex_length (s : List Char) (out : List UInt8) : (fromHex s out).1.length=out.length := by
  unfold fromHex
  by_cases h : s.length%2≠0 ∨ out.length<s.length/2
  · rw [if_pos h]
  · rw [if_neg h]
    have hle := decodeHex_length s
    rw [length_append,length_drop]
    omega

theorem decodeHex_all : ∀ s : List Char,(decodeHex s).2 → (decodeHex s).1.length=s.length/2
  | [],_ => rfl
  | [_],_ => by
    rw [decodeHex]
    · exact (Nat.div_eq_of_lt (by decide : 1<2)).symm
    · exact fun _ _ _ h => (by cases h)
  | c::d::s,h => by
    unfold decodeHex at h ⊢
    cases hb : scanByte (c::d::s) with
    | none =>
      rw [hb] at h
      cases h
    | some b =>
      rw [hb] at h
      have ih := decodeHex_all s h
      simp only [length_cons]
      omega

theorem fromHex_eq {s : List Char} {out : List UInt8} (hpos : 0<out.length) (h : (fromHex s out).2=out.length) :
    (fromHex s out).1=(decodeHex s).1 := by
  unfold fromHex at h ⊢
  by_cases hlen : s.length%2≠0 ∨ out.length<s.length/2
  · rw [if_pos hlen] at h
    exact absurd h (Nat.ne_of_lt hpos)
  · rw [if_neg hlen] at h ⊢
    dsimp only at h ⊢
    by_cases hall : (decodeHex s).2=true
    · rw [if_pos hall] at h
      rw [decodeHex_all s hall,h,drop_length,append_nil]
    · rw [if_neg hall] at h
      exact absurd h (Nat.ne_of_lt hpos)

theorem filled_length (random buffer : List UInt8) : (Auth.filled random buffer).length=buffer.length := by
  unfold Auth.filled
  rw [length_append,length_take,length_drop]
  omega

theorem digitChar_ne_dot : ∀ n<16,Nat.digitChar n ≠ '.' := by decide

theorem dot_not_mem_toHex (p : List UInt8) : '.' ∉ toHex p := by
  intro h
  obtain ⟨n,hn,he⟩ := toHex_digit p '.' h
  exact digitChar_ne_dot n hn he.symm

theorem dot_not_mem_toDigits (n : Nat) : '.' ∉ Nat.toDigits 10 n := by
  intro h
  have hd := Nat.isDigit_of_mem_toDigits (by decide) (by decide) h
  revert hd
  decide

theorem splitDot_append (head : List Char) {tail : List Char} (h : '.' ∉ tail) :
    Auth.splitDot (head ++ '.' :: tail)=some (head,tail) := by
  have hpos : ∀ c∈tail.reverse,decide (c ≠ '.')=true := by
    intro c hc
    exact decide_eq_true (ne_of_mem_of_not_mem (mem_reverse.mp hc) h)
  have htail : ((head ++ '.' :: tail).reverse.takeWhile (· ≠ '.')).reverse=tail := by
    rw [reverse_append,reverse_cons,append_assoc,takeWhile_append_of_pos hpos]
    rw [singleton_append,takeWhile_cons_of_neg (by simp),append_nil,reverse_reverse]
  have hlen : (head ++ '.' :: tail).length=head.length+(tail.length+1) := by
    rw [length_append,length_cons]
  unfold Auth.splitDot
  dsimp only
  rw [htail,hlen,if_neg (by omega)]
  have htake : head.length+(tail.length+1)-tail.length-1=head.length := by omega
  rw [htake,take_left]

theorem splitDot_some {text head tail : List Char} (h : Auth.splitDot text=some (head,tail)) :
    text=head ++ '.' :: tail := by
  have hsplit := takeWhile_append_dropWhile (p := fun c => decide (c ≠ '.')) (l := text.reverse)
  obtain ⟨d,hd⟩ : ∃ d,text.reverse.dropWhile (· ≠ '.')=d := ⟨_,rfl⟩
  have htext : text=d.reverse++(text.reverse.takeWhile (· ≠ '.')).reverse := by
    rw [← reverse_append,← hd,hsplit,reverse_reverse]
  unfold Auth.splitDot at h
  dsimp only at h
  obtain ⟨e,he⟩ : ∃ e,(text.reverse.takeWhile (· ≠ '.')).reverse=e := ⟨_,rfl⟩
  rw [he] at h htext
  cases d with
  | nil =>
    rw [reverse_nil,nil_append] at htext
    rw [if_pos (by rw [htext])] at h
    cases h
  | cons c d =>
    have hc : c = '.' := by
      have hstop := takeWhile_dropWhile (fun c => decide (c ≠ '.')) text.reverse
      by_contra hc
      rw [hd,takeWhile_cons_of_pos (by simpa using hc)] at hstop
      cases hstop
    rw [hc,reverse_cons,append_assoc,singleton_append] at htext
    have hlen : text.length=d.reverse.length+(e.length+1) := by
      conv_lhs => rw [htext]
      rw [length_append,length_cons]
    rw [if_neg (by omega)] at h
    obtain ⟨rfl,rfl⟩ := Prod.mk.inj (some.inj h)
    have htake : text.length-e.length-1=d.reverse.length := by omega
    rw [htake]
    conv_rhs => rw [htext]
    rw [take_left]
    exact htext

theorem digit_plain {c : Char} (h : c.isDigit) : isSpace c=false ∧ c ≠ '-' ∧ c ≠ '+' := by
  refine ⟨?_,?_,?_⟩
  · cases hs : isSpace c with
    | false => rfl
    | true =>
      unfold isSpace at hs
      simp only [Bool.or_eq_true,decide_eq_true_eq] at hs
      obtain ((((rfl | rfl) | rfl) | rfl) | rfl) | rfl := hs <;> exact absurd h (by decide)
  all_goals
    rintro rfl
    exact absurd h (by decide)

theorem strtoll_toDigits {n : Nat} (h : n≤0x7fffffffffffffff) : Auth.strtoll (Nat.toDigits 10 n)=n := by
  have hdigit : ∀ c∈Nat.toDigits 10 n,c.isDigit=true :=
    fun c hc => Nat.isDigit_of_mem_toDigits (by decide) (by decide) hc
  have hval : Auth.decimal (Nat.toDigits 10 n)=n := by
    unfold Auth.decimal
    rw [takeWhile_eq_self_iff.mpr hdigit,Nat.ofDigitChars_ten_toDigits]
  have hmin : (min (n : Int) 0x7fffffffffffffff)=n := by omega
  unfold Auth.strtoll
  cases ht : Nat.toDigits 10 n with
  | nil => exact absurd ht Nat.toDigits_ne_nil
  | cons c t =>
    obtain ⟨h1,h2,h3⟩ := digit_plain (hdigit c (by rw [ht]; exact mem_cons_self))
    rw [dropWhile_cons_of_neg (by rw [h1]; decide)]
    unfold Auth.strtollAfter
    split
    · cases ‹_::_=_›
      exact absurd rfl h2
    · cases ‹_::_=_›
      exact absurd rfl h3
    · rw [← ht,hval,hmin]

/-- What a change of the credentials says about the password -/
inductive Secret
  | password (password : List Char)
  | digest (salt : List UInt8) (iterations : Nat) (hash : List UInt8)
  deriving DecidableEq,Repr

/-- The user and the end of a session, with its token, the key it was signed with, and the number of changes
of the credentials before it -/
structure Issue where
  user : List Char
  expiry : Nat
  token : List Char
  key : List UInt8
  era : Nat
  deriving DecidableEq,Repr

/-- The credentials in force, the password whose digest is remembered, the number of changes of the credentials,
and the sessions -/
structure Operator where
  force : Option (List Char × Secret)
  cached : Option (List Char)
  changes : Nat
  issued : List Issue
  deriving DecidableEq,Repr

def Secret.Accepts (c : Crypto) : Secret → List Char → Prop
  | .password q,p => p=q
  | .digest salt iterations hash,p => c.pbkdf2 p salt iterations=hash

def Secret.Apart (c : Crypto) (s : Auth) (password : List Char) : Secret → Prop
  | .password q =>
    c.pbkdf2 password s.storedSalt s.storedIterations=c.pbkdf2 q s.storedSalt s.storedIterations → password=q
  | .digest _ _ _ => True

namespace Operator

variable (c : Crypto) (s : Auth) (a : Operator)

def empty : Operator := ⟨none,none,0,[]⟩

/-- Before there are credentials every user and password is accepted, and then the ones in force. -/
def Accepts (user password : List Char) : Prop :=
  ∀ f∈a.force,user=f.1 ∧ f.2.Accepts c password

def userInForce : Option (List Char) := a.force.map Prod.fst

def change (user : List Char) (secret : Secret) (cached : Option (List Char)) : Operator :=
  { a with force := some (user,secret),cached := cached,changes := a.changes+1 }

def issue (user : List Char) (expiry : Nat) (key : List UInt8) : Option (List Char) → Operator
  | none => a
  | some token => { a with issued := ⟨user,expiry,token,key,a.changes⟩::a.issued }

def step : AuthStep → Operator
  | .setCredentials user password foreign random =>
    if (s.setCredentials c user password foreign random).2 then a.change user (.password password) (some password)
    else a
  | .setDigest user saltHex hashHex iterations foreign =>
    if (s.setDigest user saltHex hashHex iterations foreign).2 then
      a.change user (.digest (decodeHex saltHex).1
        (if iterations≠0 then iterations else pbkdf2Iterations) (decodeHex hashHex).1) none else a
  | .verify user password =>
    if a.force.isSome && (s.verify c user password).2 then { a with cached := some password } else a
  | .sessionCookie now random =>
    a.issue (a.userInForce.getD []) (now+Auth.sessionSeconds) ((s.makeSecret random).sessionKey c)
      (s.sessionCookie c now random).2
  | .verifySession _ _ => a
  | .restart _ => { a with cached := none }

def Unused (hash : List UInt8) : Prop := ∀ i∈a.issued,i.key≠c.hmac s.sessionSecret hash

/-- The password collides neither with the one that is remembered nor with the one in force. -/
def Apart (password : List Char) : Prop :=
  (∀ q∈a.cached,c.sha256 s.cacheSalt password=c.sha256 s.cacheSalt q → password=q) ∧
  ∀ f∈a.force,f.2.Apart c s password

/-- Nobody else signs with the key, and what is signed comes back as it was written. -/
def Genuine (token : List Char) : Prop :=
  ∀ x∈Auth.splitDot token,(fromHex x.2 (replicate 32 0)).2=32 →
    c.hmac (s.sessionKey c) (bytesOf x.1)=(fromHex x.2 (replicate 32 0)).1 →
    x.2=toHex (fromHex x.2 (replicate 32 0)).1 ∧
    ∃ i∈a.issued,i.key=s.sessionKey c ∧ Auth.messageOf i.user i.expiry=x.1

end Operator

namespace Auth

/-- What is asked of a call: a refused change has written only what was there, a change makes a new key; passwords do
not collide; the time fits its type; the cookies have values, at most one is a session's, its token genuine. -/
def Careful (c : Crypto) (s : Auth) (a : Operator) : AuthStep → Prop
  | .setCredentials user password foreign random =>
    user≠[] → 8≤password.length → nameAcceptable user foreign=true →
    (random.length≠16 → filled random s.storedSalt=s.storedSalt) ∧
    (random.length=16 → a.Unused c s (c.pbkdf2 password random pbkdf2Iterations))
  | .setDigest user saltHex hashHex _ foreign =>
    user≠[] → nameAcceptable user foreign=true →
    ((fromHex saltHex s.storedSalt).2≠16 ∨ (fromHex hashHex s.storedHash).2≠32 →
      (fromHex saltHex s.storedSalt).1=s.storedSalt) ∧
    ((fromHex saltHex s.storedSalt).2=16 → (fromHex hashHex s.storedHash).2≠32 →
      (fromHex hashHex s.storedHash).1=s.storedHash) ∧
    ((fromHex saltHex s.storedSalt).2=16 → (fromHex hashHex s.storedHash).2=32 → a.Unused c s (decodeHex hashHex).1)
  | .verify _ password => a.Apart c s password
  | .sessionCookie now _ => now+sessionSeconds≤0x7fffffffffffffff
  | .verifySession _ cookies => HasValues (cookieItems (cookies.length+1) cookies) ∧
    (sessionCookies cookies).length≤1 ∧ ∀ token∈sessionCookies cookies,a.Genuine c s token
  | .restart _ => True

/-- What a call answers: a refused change has changed nothing; the password in force is the one accepted; a session
begun for the user in force, since the credentials last changed, is open until it expires. -/
def Delivers (c : Crypto) (s : Auth) (a : Operator) : AuthStep → Prop
  | .setCredentials user password foreign random =>
    (s.setCredentials c user password foreign random).2=false → (s.setCredentials c user password foreign random).1=s
  | .setDigest user saltHex hashHex iterations foreign =>
    (s.setDigest user saltHex hashHex iterations foreign).2=false →
      (s.setDigest user saltHex hashHex iterations foreign).1=s
  | .verify user password => (s.verify c user password).2=true ↔ a.Accepts c user password
  | .verifySession now cookies => s.verifySession c now cookies=true ↔
    ∃ i∈a.issued,i.token∈sessionCookies cookies ∧ a.userInForce=some i.user ∧ now < i.expiry ∧ i.era=a.changes
  | .sessionCookie _ _ | .restart _ => True

def stepBoth (c : Crypto) (y : Auth × Operator) (e : AuthStep) : Option (Auth × Operator) :=
  some (y.1.step c e,y.2.step c y.1 e)

variable {c : Crypto} {s t : Auth} {a b : Operator}

def Stores (c : Crypto) (s : Auth) : Secret → Prop
  | .password q => s.storedHash=c.pbkdf2 q s.storedSalt s.storedIterations
  | .digest salt iterations hash => s.storedSalt=salt ∧ s.storedIterations=iterations ∧ s.storedHash=hash

def Holds (c : Crypto) (s : Auth) (force : Option (List Char × Secret)) : Prop :=
  (force=none ∧ s.configured=false) ∨
  ∃ secret,force=some (s.storedUser,secret) ∧ s.configured=true ∧ s.storedUser≠[] ∧ s.Stores c secret

/-- The session was signed, and with the key in force when the credentials are still the same. -/
structure Signed (c : Crypto) (s : Auth) (a : Operator) (i : Issue) : Prop where
  token : i.token=messageOf i.user i.expiry ++ '.' :: toHex (c.hmac i.key (bytesOf (messageOf i.user i.expiry)))
  expiry : i.expiry≤0x7fffffffffffffff
  era : i.era≤a.changes
  key : i.key=s.sessionKey c ↔ i.era=a.changes
  user : i.era=a.changes → i.user=s.storedUser

structure Inv (c : Crypto) (s : Auth) (a : Operator) : Prop where
  salt : s.storedSalt.length=16
  hash : s.storedHash.length=32
  secret : s.sessionSecret.length=32
  iterations : s.storedIterations≠0
  force : s.Holds c a.force
  cache : s.cacheValid=true → ∃ q,a.cached=some q ∧ s.cacheDigest=c.sha256 s.cacheSalt q ∧
    c.pbkdf2 q s.storedSalt s.storedIterations=s.storedHash
  issued : a.issued≠[] → s.configured=true ∧ s.sessionSecretValid=true
  signed : ∀ i∈a.issued,s.Signed c a i

theorem fresh_inv (c : Crypto) (random : List UInt8) : (fresh random).Inv c .empty where
  salt := rfl
  hash := rfl
  secret := rfl
  iterations := fun h => (by cases h)
  force := .inl ⟨rfl,rfl⟩
  cache hv := by cases hv
  issued hn := absurd rfl hn
  signed _ hi := absurd hi not_mem_nil

variable {p : List Char}

theorem Inv.verifyPassword (hs : s.Inv c a) (hc : s.configured) (ha : a.Apart c s p) :
    ((s.verifyPassword c p).2 ↔ c.pbkdf2 p s.storedSalt s.storedIterations=s.storedHash) ∧
    ((s.verifyPassword c p).1=s ∨
      c.pbkdf2 p s.storedSalt s.storedIterations=s.storedHash ∧ (s.verifyPassword c p).1=s.cacheStore c p) ∧
    ((s.verifyPassword c p).2 → (s.verifyPassword c p).1=s → a.cached=some p) := by
  unfold Auth.verifyPassword
  rw [if_neg (by rw [hc]; decide)]
  by_cases hm : s.cacheMatches c p=true
  · rw [if_pos hm]
    unfold cacheMatches at hm
    obtain ⟨hv,hd⟩ := (Bool.and_eq_true _ _).mp hm
    obtain ⟨q,hq,hdigest,haccept⟩ := hs.cache hv
    have hpq : p=q := ha.1 q hq ((of_decide_eq_true hd).trans hdigest)
    rw [hpq]
    exact ⟨⟨fun _ => haccept,fun _ => rfl⟩,.inl rfl,fun _ _ => hq⟩
  · rw [if_neg hm]
    by_cases hp : c.pbkdf2 p s.storedSalt s.storedIterations=s.storedHash
    · rw [if_neg (not_not.mpr hp)]
      refine ⟨⟨fun _ => hp,fun _ => rfl⟩,.inr ⟨hp,rfl⟩,fun _ heq => ?_⟩
      -- the password was not remembered before
      refine absurd ?_ hm
      rw [← heq]
      exact (Bool.and_eq_true _ _).mpr ⟨rfl,decide_eq_true rfl⟩
    · rw [if_pos hp]
      exact ⟨⟨fun h => (by cases h),fun h => absurd h hp⟩,.inl rfl,fun h => (by cases h)⟩

theorem Stores.accepts {secret : Secret} (h : s.Stores c secret) (hp : secret.Apart c s p) :
    c.pbkdf2 p s.storedSalt s.storedIterations=s.storedHash ↔ secret.Accepts c p := by
  cases secret with
  | password q =>
    have hq : s.storedHash=c.pbkdf2 q s.storedSalt s.storedIterations := h
    rw [hq]
    constructor
    · exact hp
    · rintro rfl
      rfl
  | digest salt iterations hash =>
    obtain ⟨rfl,rfl,rfl⟩ := h
    exact Iff.rfl

theorem Inv.verify (hs : s.Inv c a) {user p : List Char} (ha : a.Apart c s p) :
    (s.verify c user p).2=true ↔ a.Accepts c user p := by
  unfold Auth.verify Operator.Accepts
  rcases hs.force with ⟨hf,hc⟩ | ⟨secret,hf,hc,-,hst⟩
  · rw [hc,hf]
    unfold Auth.verifyPassword
    rw [if_neg (by simp),if_pos hc]
    exact ⟨fun _ _ h => (by cases h),fun _ => rfl⟩
  · rw [hc,hf]
    have happ : secret.Apart c s p := ha.2 _ hf
    have hmem : (∀ f∈some (s.storedUser,secret),user=f.1 ∧ f.2.Accepts c p) ↔
        user=s.storedUser ∧ secret.Accepts c p := by simp
    rw [hmem]
    by_cases hu : user=s.storedUser
    · rw [if_neg (by simp [hu]),(hs.verifyPassword hc ha).1,hst.accepts happ]
      exact ⟨fun h => ⟨hu,h⟩,fun h => h.2⟩
    · rw [if_pos (by simp [hu])]
      exact ⟨fun h => (by cases h),fun h => absurd h.1 hu⟩

theorem Inv.cacheStore (hs : s.Inv c a) (hp : c.pbkdf2 p s.storedSalt s.storedIterations=s.storedHash) :
    (s.cacheStore c p).Inv c { a with cached := some p } where
  salt := hs.salt
  hash := hs.hash
  secret := hs.secret
  iterations := hs.iterations
  force := hs.force
  cache _ := ⟨p,rfl,rfl,hp⟩
  issued := hs.issued
  signed i hi := ⟨(hs.signed i hi).token,(hs.signed i hi).expiry,(hs.signed i hi).era,(hs.signed i hi).key,
    (hs.signed i hi).user⟩

theorem Inv.verify_inv (hs : s.Inv c a) (user : List Char) (ha : a.Apart c s p) :
    (s.verify c user p).1.Inv c (a.step c s (.verify user p)) := by
  show Auth.Inv c _ (if (a.force.isSome && (s.verify c user p).2)=true then _ else _)
  unfold Auth.verify
  rcases hs.force with ⟨hf,hc⟩ | ⟨secret,hf,hc,-,hst⟩
  · have hnone : a.force.isSome=false := by rw [hf]; rfl
    rw [hnone,hc]
    unfold Auth.verifyPassword
    rw [if_neg (by simp),if_pos hc]
    exact hs
  · have hsome : a.force.isSome=true := by rw [hf]; rfl
    rw [hsome,hc]
    by_cases hu : user=s.storedUser
    · rw [if_neg (by simp [hu])]
      obtain ⟨hans,hstate,hcached⟩ := hs.verifyPassword hc ha
      rcases hstate with heq | ⟨hp,heq⟩
      · rw [heq]
        by_cases hb : (s.verifyPassword c p).2=true
        · rw [if_pos (by simp [hb]),← hcached hb heq]
          exact hs
        · rw [if_neg (by simp [hb])]
          exact hs
      · rw [if_pos (by simp [hans.mpr hp]),heq]
        exact hs.cacheStore hp
    · rw [if_pos (by simp [hu]),if_neg (by simp)]
      exact hs

theorem Inv.change (hs : s.Inv c a) {user : List Char} (hu : user≠[]) {secret : Secret} {cached : Option (List Char)}
    (hst : t.Stores c secret) (huser : t.storedUser=user) (hc : t.configured)
    (hsalt : t.storedSalt.length=16) (hhash : t.storedHash.length=32) (hit : t.storedIterations≠0)
    (hsecret : t.sessionSecret=s.sessionSecret) (hvalid : t.sessionSecretValid=s.sessionSecretValid)
    (hcache : t.cacheValid → ∃ q,cached=some q ∧ t.cacheDigest=c.sha256 t.cacheSalt q ∧
      c.pbkdf2 q t.storedSalt t.storedIterations=t.storedHash)
    (hun : a.Unused c s t.storedHash) : t.Inv c (a.change user secret cached) where
  salt := hsalt
  hash := hhash
  secret := by rw [hsecret]; exact hs.secret
  iterations := hit
  force := .inr ⟨secret,by rw [huser]; rfl,hc,by rw [huser]; exact hu,hst⟩
  cache := hcache
  issued hi := ⟨hc,by rw [hvalid]; exact (hs.issued hi).2⟩
  signed i hi := by
    have hera : i.era≠a.changes+1 := Nat.ne_of_lt (Nat.lt_succ_of_le (hs.signed i hi).era)
    refine ⟨(hs.signed i hi).token,(hs.signed i hi).expiry,Nat.le_succ_of_le (hs.signed i hi).era,?_,?_⟩
    · refine ⟨fun hkey => absurd ?_ (hun i hi),fun he => absurd he hera⟩
      rw [hkey]
      unfold sessionKey
      rw [hsecret]
    · exact fun he => absurd he hera

theorem Inv.setCredentials (hs : s.Inv c a) {user password : List Char} {foreign : Bool} {random : List UInt8}
    (hc : s.Careful c a (.setCredentials user password foreign random)) :
    (s.step c (.setCredentials user password foreign random)).Inv c
      (a.step c s (.setCredentials user password foreign random)) ∧
    s.Delivers c a (.setCredentials user password foreign random) := by
  show Auth.Inv c (s.setCredentials c user password foreign random).1
    (if (s.setCredentials c user password foreign random).2=true then _ else _) ∧
    ((s.setCredentials c user password foreign random).2=false →
      (s.setCredentials c user password foreign random).1=s)
  unfold Auth.setCredentials
  by_cases hu : user=[]
  · rw [if_pos hu]
    exact ⟨hs,fun _ => rfl⟩
  by_cases hp : password.length<8
  · rw [if_neg hu,if_pos hp]
    exact ⟨hs,fun _ => rfl⟩
  by_cases hn : nameAcceptable user foreign=false
  · rw [if_neg hu,if_neg hp,if_pos hn]
    exact ⟨hs,fun _ => rfl⟩
  obtain ⟨hbad,hgood⟩ := hc hu (Nat.le_of_not_lt hp) (eq_true_of_ne_false hn)
  rw [if_neg hu,if_neg hp,if_neg hn]
  by_cases hr : random.length=16
  · rw [if_neg (not_not.mpr hr)]
    refine ⟨?_,fun h => (by cases h)⟩
    exact hs.change hu (t := Auth.cacheStore c _ password) rfl rfl rfl hr (c.pbkdf2_length ..) (fun h => (by cases h))
      rfl rfl (fun _ => ⟨password,rfl,rfl,rfl⟩) (hgood hr)
  · rw [if_pos hr,hbad hr]
    exact ⟨hs,fun _ => rfl⟩

theorem Inv.setDigest (hs : s.Inv c a) {user saltHex hashHex : List Char} {iterations : Nat} {foreign : Bool}
    (hc : s.Careful c a (.setDigest user saltHex hashHex iterations foreign)) :
    (s.step c (.setDigest user saltHex hashHex iterations foreign)).Inv c
      (a.step c s (.setDigest user saltHex hashHex iterations foreign)) ∧
    s.Delivers c a (.setDigest user saltHex hashHex iterations foreign) := by
  show Auth.Inv c (s.setDigest user saltHex hashHex iterations foreign).1
    (if (s.setDigest user saltHex hashHex iterations foreign).2=true then _ else _) ∧
    ((s.setDigest user saltHex hashHex iterations foreign).2=false →
      (s.setDigest user saltHex hashHex iterations foreign).1=s)
  unfold Auth.setDigest
  by_cases hu : user=[]
  · rw [if_pos hu]
    exact ⟨hs,fun _ => rfl⟩
  by_cases hn : nameAcceptable user foreign=false
  · rw [if_neg hu,if_pos hn]
    exact ⟨hs,fun _ => rfl⟩
  obtain ⟨hsalt,hhash,hgood⟩ := hc hu (eq_true_of_ne_false hn)
  rw [if_neg hu,if_neg hn]
  dsimp only
  by_cases h1 : (fromHex saltHex s.storedSalt).2=16
  · rw [if_neg (not_not.mpr h1)]
    by_cases h2 : (fromHex hashHex s.storedHash).2=32
    · rw [if_neg (not_not.mpr h2)]
      refine ⟨?_,fun h => (by cases h)⟩
      have e1 : (fromHex saltHex s.storedSalt).1=(decodeHex saltHex).1 :=
        fromHex_eq (by rw [hs.salt]; decide) (h1.trans hs.salt.symm)
      have e2 : (fromHex hashHex s.storedHash).1=(decodeHex hashHex).1 :=
        fromHex_eq (by rw [hs.hash]; decide) (h2.trans hs.hash.symm)
      have l1 : (decodeHex saltHex).1.length=16 := by rw [← e1,fromHex_length]; exact hs.salt
      have l2 : (decodeHex hashHex).1.length=32 := by rw [← e2,fromHex_length]; exact hs.hash
      have hit : (if iterations≠0 then iterations else pbkdf2Iterations)≠0 := by
        by_cases h : iterations=0
        · rw [if_neg (not_not.mpr h)]
          decide
        · rw [if_pos h]
          exact h
      rw [if_pos rfl,e1,e2]
      exact hs.change hu ⟨rfl,rfl,rfl⟩ rfl rfl l1 l2 hit rfl rfl (fun h => (by cases h)) (hgood h1 h2)
    · rw [if_pos h2,hsalt (.inr h2),hhash h1 h2]
      exact ⟨hs,fun _ => rfl⟩
  · rw [if_pos h1,hsalt (.inl h1)]
    exact ⟨hs,fun _ => rfl⟩

theorem makeSecret_spec (hs : s.Inv c a) (random : List UInt8) : ∃ secret valid,
    s.makeSecret random={ s with sessionSecret := secret,sessionSecretValid := valid } ∧ secret.length=32 ∧
    (s.sessionSecretValid → secret=s.sessionSecret ∧ valid) := by
  unfold makeSecret
  by_cases hv : s.sessionSecretValid=true
  · rw [if_pos hv]
    exact ⟨s.sessionSecret,s.sessionSecretValid,rfl,hs.secret,fun _ => ⟨rfl,hv⟩⟩
  · rw [if_neg hv]
    exact ⟨_,_,rfl,(filled_length ..).trans hs.secret,fun h => absurd h hv⟩

theorem Inv.withSecret (hs : s.Inv c a) {secret : List UInt8} {valid : Bool} (hlen : secret.length=32)
    (hsame : s.sessionSecretValid → secret=s.sessionSecret ∧ valid) :
    Auth.Inv c { s with sessionSecret := secret,sessionSecretValid := valid } a where
  salt := hs.salt
  hash := hs.hash
  secret := hlen
  iterations := hs.iterations
  force := hs.force
  cache := hs.cache
  issued hi := ⟨(hs.issued hi).1,(hsame (hs.issued hi).2).2⟩
  signed i hi := by
    obtain ⟨rfl,-⟩ := hsame (hs.issued (ne_nil_of_mem hi)).2
    exact ⟨(hs.signed i hi).token,(hs.signed i hi).expiry,(hs.signed i hi).era,(hs.signed i hi).key,
      (hs.signed i hi).user⟩

theorem Inv.sessionCookie (hs : s.Inv c a) {now : Nat} {random : List UInt8}
    (hc : s.Careful c a (.sessionCookie now random)) :
    (s.step c (.sessionCookie now random)).Inv c (a.step c s (.sessionCookie now random)) := by
  have hnow : now+sessionSeconds≤0x7fffffffffffffff := hc
  show Auth.Inv c (s.sessionCookie c now random).1 (a.issue _ _ _ (s.sessionCookie c now random).2)
  unfold Auth.sessionCookie
  rcases hs.force with ⟨-,hcf⟩ | ⟨secret,hf,hcf,-,-⟩
  · rw [if_pos hcf]
    exact hs
  rw [if_neg (by rw [hcf]; decide)]
  dsimp only
  obtain ⟨key,valid,he,hlen,hsame⟩ := makeSecret_spec hs random
  rw [he]
  have ht := hs.withSecret hlen hsame
  cases valid with
  | false => exact ht
  | true =>
    rw [if_pos rfl]
    have huser : a.userInForce.getD []=s.storedUser := by
      unfold Operator.userInForce
      rw [hf]
      rfl
    rw [huser]
    refine ⟨ht.salt,ht.hash,ht.secret,ht.iterations,ht.force,ht.cache,fun _ => ⟨hcf,rfl⟩,fun i hi => ?_⟩
    rcases mem_cons.mp hi with rfl | hi
    · exact ⟨rfl,hnow,Nat.le_refl _,⟨fun _ => rfl,fun _ => rfl⟩,fun _ => rfl⟩
    · exact ⟨(ht.signed i hi).token,(ht.signed i hi).expiry,(ht.signed i hi).era,(ht.signed i hi).key,
        (ht.signed i hi).user⟩

theorem fieldsValid_messageOf (now : Nat) (user : List Char) {expiry : Nat} (h : expiry≤0x7fffffffffffffff) :
    s.fieldsValid now (messageOf user expiry)=true ↔ user=s.storedUser ∧ now<expiry := by
  have hsplit : splitDot (messageOf user expiry)=some ('1' :: '.' :: user,Nat.toDigits 10 expiry) :=
    splitDot_append ('1' :: '.' :: user) (dot_not_mem_toDigits expiry)
  have htake : (messageOf user expiry).take 2=['1','.'] := rfl
  unfold fieldsValid
  rw [htake,if_neg (not_not.mpr rfl),hsplit]
  dsimp only
  rw [strtoll_toDigits h]
  simp

/-- A token is accepted when it was handed out for the user in force, since the credentials changed last. -/
theorem Inv.sessionTokenValid (hs : s.Inv c a) (now : Nat) {token : List Char} (hg : a.Genuine c s token) :
    s.sessionTokenValid c now token=true ↔
      ∃ i∈a.issued,i.token=token ∧ a.userInForce=some i.user ∧ now < i.expiry ∧ i.era=a.changes := by
  unfold Auth.sessionTokenValid
  constructor
  · intro h
    by_cases hcf : (s.configured=false || s.sessionSecretValid=false)=true
    · rw [if_pos hcf] at h
      cases h
    rw [if_neg hcf] at h
    simp only [Bool.or_eq_true,decide_eq_true_eq,not_or,Bool.not_eq_false] at hcf
    cases hsplit : splitDot token with
    | none =>
      rw [hsplit] at h
      cases h
    | some x =>
      rw [hsplit] at h
      dsimp only at h
      by_cases hlen : (fromHex x.2 (replicate 32 0)).2=32
      · rw [if_neg (not_not.mpr hlen)] at h
        by_cases hmac : c.hmac (s.sessionKey c) (bytesOf x.1)=(fromHex x.2 (replicate 32 0)).1
        · rw [if_neg (not_not.mpr hmac)] at h
          obtain ⟨htext,i,hi,hkey,hmessage⟩ := hg x hsplit hlen hmac
          have hsig := hs.signed i hi
          rw [← hmessage,fieldsValid_messageOf now i.user hsig.expiry] at h
          refine ⟨i,hi,?_,?_,h.2,hsig.key.mp hkey⟩
          · rw [hsig.token,hkey,hmessage,hmac,← htext]
            exact (splitDot_some hsplit).symm
          · rcases hs.force with ⟨-,hno⟩ | ⟨secret,hf,-,-,-⟩
            · exact absurd hno (by rw [hcf.1]; decide)
            · unfold Operator.userInForce
              rw [hf,h.1]
              rfl
        · rw [if_pos hmac] at h
          cases h
      · rw [if_pos hlen] at h
        cases h
  · rintro ⟨i,hi,rfl,huser,hnow,hera⟩
    obtain ⟨hcf,hv⟩ := hs.issued (ne_nil_of_mem hi)
    have hsig := hs.signed i hi
    have hmac := c.hmac_length i.key (bytesOf (messageOf i.user i.expiry))
    rw [if_neg (by rw [hcf,hv]; decide),hsig.token,splitDot_append _ (dot_not_mem_toHex _)]
    dsimp only
    rw [fromHex_toHex (by rw [hmac]; rfl),hmac,if_neg (not_not.mpr rfl),hsig.key.mpr hera]
    rw [if_neg (not_not.mpr rfl),fieldsValid_messageOf now i.user hsig.expiry]
    exact ⟨hsig.user hera,hnow⟩

theorem Inv.verifySession (hs : s.Inv c a) {now : Nat} {cookies : List Char}
    (hc : s.Careful c a (.verifySession now cookies)) : s.Delivers c a (.verifySession now cookies) := by
  obtain ⟨hval,hone,hg⟩ := hc
  show s.verifySession c now cookies=true ↔ _
  unfold Auth.verifySession
  rw [find_session hval]
  cases hx : sessionCookies cookies with
  | nil =>
    constructor
    · intro h
      cases h
    · rintro ⟨i,-,hi,-⟩
      cases hi
  | cons token tokens =>
    rw [hx] at hone hg
    obtain rfl : tokens=[] := length_eq_zero_iff.mp (Nat.le_zero.mp (Nat.le_of_succ_le_succ hone))
    show s.sessionTokenValid c now token=true ↔ _
    rw [hs.sessionTokenValid now (hg token mem_cons_self)]
    simp only [mem_singleton]

theorem Inv.restart (hs : s.Inv c a) (random : List UInt8) : (s.restart random).Inv c { a with cached := none } := by
  unfold Auth.restart json
  rcases hs.force with ⟨hf,hc⟩ | ⟨secret,hf,hc,hu,hst⟩
  · rw [if_pos hc]
    have hno : a.issued=[] := by
      by_contra hn
      rw [(hs.issued hn).1] at hc
      cases hc
    refine ⟨rfl,rfl,rfl,fun h => (by cases h),.inl ⟨hf,rfl⟩,fun h => (by cases h),fun hn => absurd hno hn,
      fun i hi => ?_⟩
    rw [hno] at hi
    cases hi
  · rw [if_neg (by rw [hc]; decide)]
    unfold load
    dsimp only
    rw [fromHex_toHex (hs.salt.trans rfl),fromHex_toHex (hs.hash.trans rfl),hs.salt,hs.hash]
    rw [if_neg (not_not.mpr rfl),if_neg (not_not.mpr rfl),if_neg hu,if_neg hs.iterations]
    cases hv : s.sessionSecretValid with
    | true =>
      rw [if_pos rfl]
      unfold loadSecret
      dsimp only
      rw [fromHex_toHex (hs.secret.trans rfl),hs.secret]
      refine ⟨hs.salt,hs.hash,hs.secret,hs.iterations,.inr ⟨secret,hf,rfl,hu,?_⟩,fun h => (by cases h),
        fun _ => ⟨rfl,rfl⟩,fun i hi => ?_⟩
      · cases secret <;> exact hst
      · exact ⟨(hs.signed i hi).token,(hs.signed i hi).expiry,(hs.signed i hi).era,(hs.signed i hi).key,
          (hs.signed i hi).user⟩
    | false =>
      have hno : a.issued=[] := by
        by_contra hn
        rw [(hs.issued hn).2] at hv
        cases hv
      rw [if_neg (by decide)]
      refine ⟨hs.salt,hs.hash,rfl,hs.iterations,.inr ⟨secret,hf,rfl,hu,?_⟩,fun h => (by cases h),
        fun hn => absurd hno hn,fun i hi => ?_⟩
      · cases secret <;> exact hst
      · rw [hno] at hi
        cases hi

theorem Inv.step (hs : s.Inv c a) {e : AuthStep} (hc : s.Careful c a e) :
    (s.step c e).Inv c (a.step c s e) ∧ s.Delivers c a e := by
  cases e with
  | setCredentials user password foreign random => exact hs.setCredentials hc
  | setDigest user saltHex hashHex iterations foreign => exact hs.setDigest hc
  | verify user password => exact ⟨hs.verify_inv user hc,hs.verify hc⟩
  | sessionCookie now random => exact ⟨hs.sessionCookie hc,trivial⟩
  | verifySession now cookies => exact ⟨hs,hs.verifySession hc⟩
  | restart random => exact ⟨hs.restart random,trivial⟩

theorem auth_right (c : Crypto) (random : List UInt8) {es : List AuthStep}
    (hr : Run (Guarded (fun y e => y.1.Careful c y.2 e) (stepBoth c)) (fresh random,.empty) es (s,a)) (e : AuthStep)
    (hc : s.Careful c a e) : s.Delivers c a e := by
  have hinv : s.Inv c a := hr.invariant (P := fun y => y.1.Inv c y.2)
    (fun y e z hy hz => by
      obtain rfl := some.inj hz.2
      exact (hy.step hz.1).1)
    (fresh_inv c random)
  exact (hinv.step hc).2

end Auth

instance (c : Crypto) (s : Auth) (password : List Char) : (secret : Secret) → Decidable (secret.Apart c s password)
  | .password q => inferInstanceAs (Decidable (c.pbkdf2 password s.storedSalt s.storedIterations =
      c.pbkdf2 q s.storedSalt s.storedIterations → password=q))
  | .digest _ _ _ => isTrue trivial

instance (c : Crypto) (s : Auth) (a : Operator) (hash : List UInt8) : Decidable (a.Unused c s hash) :=
  inferInstanceAs (Decidable (∀ i∈a.issued,i.key≠c.hmac s.sessionSecret hash))

instance (c : Crypto) (s : Auth) (a : Operator) (password : List Char) : Decidable (a.Apart c s password) :=
  inferInstanceAs (Decidable (
    (∀ q∈a.cached,c.sha256 s.cacheSalt password=c.sha256 s.cacheSalt q → password=q) ∧
    ∀ f∈a.force,f.2.Apart c s password))

instance (c : Crypto) (s : Auth) (a : Operator) (token : List Char) : Decidable (a.Genuine c s token) :=
  inferInstanceAs (Decidable (∀ x∈Auth.splitDot token,(fromHex x.2 (replicate 32 0)).2=32 →
    c.hmac (s.sessionKey c) (bytesOf x.1)=(fromHex x.2 (replicate 32 0)).1 →
    x.2=toHex (fromHex x.2 (replicate 32 0)).1 ∧
    ∃ i∈a.issued,i.key=s.sessionKey c ∧ Auth.messageOf i.user i.expiry=x.1))

instance (items : List (List Char)) : Decidable (HasValues items) :=
  inferInstanceAs (Decidable (∀ i∈items,i.dropWhile (· = ' ')=[] ∨ '=' ∈ i))

namespace Auth

instance (c : Crypto) (s : Auth) (a : Operator) : (e : AuthStep) → Decidable (s.Careful c a e)
  | .setCredentials user password foreign random => inferInstanceAs (Decidable (
    user≠[] → 8≤password.length → nameAcceptable user foreign=true →
    (random.length≠16 → filled random s.storedSalt=s.storedSalt) ∧
    (random.length=16 → a.Unused c s (c.pbkdf2 password random pbkdf2Iterations))))
  | .setDigest user saltHex hashHex _ foreign => inferInstanceAs (Decidable (
    user≠[] → nameAcceptable user foreign=true →
    ((fromHex saltHex s.storedSalt).2≠16 ∨ (fromHex hashHex s.storedHash).2≠32 →
      (fromHex saltHex s.storedSalt).1=s.storedSalt) ∧
    ((fromHex saltHex s.storedSalt).2=16 → (fromHex hashHex s.storedHash).2≠32 →
      (fromHex hashHex s.storedHash).1=s.storedHash) ∧
    ((fromHex saltHex s.storedSalt).2=16 → (fromHex hashHex s.storedHash).2=32 →
      a.Unused c s (decodeHex hashHex).1)))
  | .verify _ password => inferInstanceAs (Decidable (a.Apart c s password))
  | .sessionCookie now _ => inferInstanceAs (Decidable (now+sessionSeconds≤0x7fffffffffffffff))
  | .verifySession _ cookies => inferInstanceAs (Decidable (HasValues (cookieItems (cookies.length+1) cookies) ∧
    (sessionCookies cookies).length≤1 ∧ ∀ token∈sessionCookies cookies,a.Genuine c s token))
  | .restart _ => isTrue trivial

def runningHash (text : List UInt8) (start : UInt8) : UInt8 := text.foldl (fun h b => h*31+b) start

def sumCrypto : Crypto where
  sha256 salt password := salt++bytesOf password
  hmac key msg := replicate 32 (runningHash msg (runningHash key 7))
  pbkdf2 password salt _ := replicate 32 (runningHash salt (runningHash (bytesOf password) 5))
  hmac_length _ _ := length_replicate
  pbkdf2_length _ _ _ := length_replicate

def browserCookies (a : Operator) : List Char :=
  "theme=dark; qunilator_session=".toList++(a.issued.head?.map Issue.token).getD []

theorem auth_right_restart : ∃ (s : Auth) (a : Operator),
    (s.verify sumCrypto "vaxman".toList "microvax".toList).2=true ∧
    s.verifySession sumCrypto 2000 (browserCookies a)=true := by
  obtain ⟨⟨s,a⟩,hs,hp⟩ := run_of_foldlM (fun y e => y.1.Careful sumCrypto y.2 e) (stepBoth sumCrypto)
    (fun y => decide (y.1.Careful sumCrypto y.2 (.verify "vaxman".toList "microvax".toList) ∧
      y.2.force=some ("vaxman".toList,.password "microvax".toList) ∧
      y.1.Careful sumCrypto y.2 (.verifySession 2000 (browserCookies y.2)) ∧
      ∃ i∈y.2.issued,i.token∈sessionCookies (browserCookies y.2) ∧ y.2.userInForce=some i.user ∧
        2000 < i.expiry ∧ i.era=y.2.changes))
    [.setCredentials "vaxman".toList "microvax".toList false (replicate 16 3),
      .sessionCookie 1000 (replicate 32 8),.restart (replicate 16 4)]
    (fresh (replicate 16 9),.empty) (by decide +kernel)
  obtain ⟨h1,hf,h2,h3⟩ := of_decide_eq_true hp
  refine ⟨s,a,(auth_right sumCrypto _ hs _ h1).mpr ?_,(auth_right sumCrypto _ hs _ h2).mpr h3⟩
  intro f hmem
  rw [hf] at hmem
  cases hmem
  exact ⟨rfl,rfl⟩

/-- A digest that is refused has left its salt behind, and the password is refused after a restart. -/
theorem salt_left_behind : ∃ s t : Auth,
    Run (fun s e t => some (s.step sumCrypto e)=some t) (fresh (replicate 16 9))
      [.setCredentials "vaxman".toList "microvax".toList false (replicate 16 3)] s ∧
    s.setDigest "vaxman".toList "0102030405060708090a0b0c0d0e0f10".toList "none".toList 0 false=(t,false) ∧
    ((s.restart []).verify sumCrypto "vaxman".toList "microvax".toList).2=true ∧
    ((t.restart []).verify sumCrypto "vaxman".toList "microvax".toList).2=false ∧ s.json≠t.json :=
  ⟨_,_,run_of_foldlM_eq rfl,rfl,by decide +kernel,by decide +kernel,by decide +kernel⟩

end Auth

end QUniLator.Web
