import QUniLator.Web.AuthText
import QUniLator.Framework.Run

namespace QUniLator.Web

/-- The hash functions: of a salt and a password, of a key and a message, and of a password with salt and
iterations -/
structure Crypto where
  sha256 : List UInt8 → List Char → List UInt8
  hmac : List UInt8 → List UInt8 → List UInt8
  pbkdf2 : List Char → List UInt8 → Nat → List UInt8
  hmac_length : ∀ key msg,(hmac key msg).length=32
  pbkdf2_length : ∀ password salt iterations,(pbkdf2 password salt iterations).length=32

def bytesOf (text : List Char) : List UInt8 := text.map fun c => UInt8.ofNat c.toNat

/-- The digest in force with what signs sessions, and the password that has verified once -/
structure Auth where
  configured : Bool
  storedUser : List Char
  storedSalt : List UInt8
  storedHash : List UInt8
  storedIterations : Nat
  sessionSecret : List UInt8
  sessionSecretValid : Bool
  cacheSalt : List UInt8
  cacheDigest : List UInt8
  cacheValid : Bool

/-- What `webauth_json` writes -/
structure AuthJson where
  user : List Char
  iterations : Nat
  salt : List Char
  hash : List Char
  sessionSecret : Option (List Char)
  deriving DecidableEq,Repr

/-- `foreign` says that the name is an account which is not the operator's, `random` is what could be read of the
random bytes, and `now` is the time in seconds. -/
inductive AuthStep
  | setCredentials (user password : List Char) (foreign : Bool) (random : List UInt8)
  | setDigest (user saltHex hashHex : List Char) (iterations : Nat) (foreign : Bool)
  | verify (user password : List Char)
  | sessionCookie (now : Nat) (random : List UInt8)
  | verifySession (now : Nat) (cookies : List Char)
  | restart (random : List UInt8)
  deriving DecidableEq,Repr

def pbkdf2Iterations : Nat := 120000

def reservedNames : List (List Char) :=
  ["root".toList,"qunilator".toList,"admin".toList,"administrator".toList,"adm".toList,"daemon".toList,"bin".toList,
    "sys".toList,"sync".toList,"games".toList,"man".toList,"lp".toList,"mail".toList,"news".toList,"uucp".toList,
    "proxy".toList,"backup".toList,"list".toList,"irc".toList,"gnats".toList,"nobody".toList,"nogroup".toList,
    "sshd".toList,"ftp".toList,"ftpuser".toList,"anonymous".toList,"www-data".toList,"messagebus".toList,
    "avahi".toList,"sambashare".toList,"systemd-network".toList,"systemd-resolve".toList,
    "systemd-timesync".toList,"debian".toList,"operator".toList,"guest".toList]

def isLower (c : Char) : Bool := 'a' ≤ c && c ≤ 'z'

def portableUserName : List Char → Bool
  | [] => false
  | c::name => name.length<32 && (isLower c || c = '_') &&
    name.all fun c => isLower c || c.isDigit || c = '_' || c = '-'

/-- `webshares_name_acceptable` -/
def nameAcceptable (name : List Char) (foreign : Bool) : Bool :=
  portableUserName name && name∉reservedNames && !foreign

namespace Auth

variable (c : Crypto) (s : Auth)

def fresh (random : List UInt8) : Auth :=
  ⟨false,[],List.replicate 16 0,List.replicate 32 0,pbkdf2Iterations,List.replicate 32 0,false,
    if random.length=16 then random else List.replicate 16 0,List.replicate 32 0,false⟩

/-- A buffer into which `random_bytes` has read -/
def filled (random buffer : List UInt8) : List UInt8 := random.take buffer.length++buffer.drop random.length

def cacheStore (password : List Char) : Auth :=
  { s with cacheDigest := c.sha256 s.cacheSalt password,cacheValid := true }

def cacheMatches (password : List Char) : Bool := s.cacheValid && c.sha256 s.cacheSalt password=s.cacheDigest

def verifyPassword (password : List Char) : Auth × Bool :=
  if s.configured=false then (s,true)
  else if s.cacheMatches c password then (s,true)
  else if c.pbkdf2 password s.storedSalt s.storedIterations≠s.storedHash then (s,false)
  else (s.cacheStore c password,true)

def verify (user password : List Char) : Auth × Bool :=
  if s.configured && user≠s.storedUser then (s,false) else s.verifyPassword c password

def setCredentials (user password : List Char) (foreign : Bool) (random : List UInt8) : Auth × Bool :=
  if user=[] then (s,false)
  else if password.length<8 then (s,false)
  else if nameAcceptable user foreign=false then (s,false)
  else if random.length≠16 then ({ s with storedSalt := filled random s.storedSalt },false)
  else
    (cacheStore c { s with storedSalt := random
                           storedIterations := pbkdf2Iterations
                           storedHash := c.pbkdf2 password random pbkdf2Iterations
                           storedUser := user
                           configured := true } password,true)

def setDigest (user saltHex hashHex : List Char) (iterations : Nat) (foreign : Bool) : Auth × Bool :=
  if user=[] then (s,false)
  else if nameAcceptable user foreign=false then (s,false)
  else
    let salt := fromHex saltHex s.storedSalt
    if salt.2≠16 then ({ s with storedSalt := salt.1 },false)
    else
      let hash := fromHex hashHex s.storedHash
      if hash.2≠32 then ({ s with storedSalt := salt.1,storedHash := hash.1 },false)
      else
        ({ s with storedSalt := salt.1
                  storedHash := hash.1
                  storedIterations := if iterations≠0 then iterations else pbkdf2Iterations
                  cacheValid := false
                  storedUser := user
                  configured := true },true)

def sessionKey : List UInt8 := c.hmac s.sessionSecret s.storedHash

def makeSecret (random : List UInt8) : Auth :=
  if s.sessionSecretValid then s
  else { s with sessionSecret := filled random s.sessionSecret,sessionSecretValid := random.length=32 }

def messageOf (user : List Char) (expiry : Nat) : List Char :=
  '1' :: '.' :: user ++ '.' :: Nat.toDigits 10 expiry

def sign (message : List Char) : List Char :=
  message ++ '.' :: toHex (c.hmac (s.sessionKey c) (bytesOf message))

def sessionSeconds : Nat := 5*24*60*60

/-- `webauth_session_cookie`, with the token that it hands out -/
def sessionCookie (now : Nat) (random : List UInt8) : Auth × Option (List Char) :=
  if s.configured=false then (s,none)
  else
    let s := s.makeSecret random
    if s.sessionSecretValid then (s,some (s.sign c (messageOf s.storedUser (now+sessionSeconds)))) else (s,none)

def decimal (text : List Char) : Nat := Nat.ofDigitChars 10 (text.takeWhile Char.isDigit) 0

/-- `strtoll` after white space, to the base 10 -/
def strtollAfter : List Char → Int
  | '-' :: text => max (-decimal text) (-0x8000000000000000)
  | '+' :: text => min (decimal text) 0x7fffffffffffffff
  | text => min (decimal text) 0x7fffffffffffffff

def strtoll (text : List Char) : Int := strtollAfter (text.dropWhile isSpace)

def splitDot (text : List Char) : Option (List Char × List Char) :=
  let tail := (text.reverse.takeWhile (· ≠ '.')).reverse
  if tail.length=text.length then none else some (text.take (text.length-tail.length-1),tail)

def fieldsValid (now : Nat) (message : List Char) : Bool :=
  if message.take 2≠['1','.'] then false
  else match splitDot message with
    | none => false
    | some (head,expiry) => 2≤head.length && head.drop 2=s.storedUser && (now : Int)<strtoll expiry

def sessionTokenValid (now : Nat) (token : List Char) : Bool :=
  if s.configured=false || s.sessionSecretValid=false then false
  else match splitDot token with
    | none => false
    | some (message,mac) =>
      let given := fromHex mac (List.replicate 32 0)
      if given.2≠32 then false
      else if c.hmac (s.sessionKey c) (bytesOf message)≠given.1 then false
      else s.fieldsValid now message

def verifySession (now : Nat) (cookies : List Char) : Bool :=
  match findCookie (cookies.length+1) cookies with
  | none => false
  | some token => s.sessionTokenValid c now token

/-- `webauth_json` -/
def json : Option AuthJson :=
  if s.configured=false then none
  else some ⟨s.storedUser,s.storedIterations,toHex s.storedSalt,toHex s.storedHash,
    if s.sessionSecretValid then some (toHex s.sessionSecret) else none⟩

def loadSecret : Option (List Char) → Auth
  | none => { s with sessionSecretValid := false }
  | some secret =>
    { s with sessionSecret := (fromHex secret s.sessionSecret).1
             sessionSecretValid := (fromHex secret s.sessionSecret).2=32 }

/-- `webauth_load` of a record -/
def load (admin : AuthJson) : Auth :=
  let salt := fromHex admin.salt (List.replicate 16 0)
  let hash := fromHex admin.hash (List.replicate 32 0)
  if salt.2≠16 then s
  else if hash.2≠32 then s
  else if admin.user=[] then s
  else
    { s.loadSecret admin.sessionSecret with
        storedSalt := salt.1
        storedHash := hash.1
        storedUser := admin.user
        storedIterations := if admin.iterations=0 then pbkdf2Iterations else admin.iterations
        configured := true
        cacheValid := false }

def restart (random : List UInt8) : Auth :=
  match s.json with
  | none => fresh random
  | some admin => (fresh random).load admin

def step : AuthStep → Auth
  | .setCredentials user password foreign random => (s.setCredentials c user password foreign random).1
  | .setDigest user saltHex hashHex iterations foreign => (s.setDigest user saltHex hashHex iterations foreign).1
  | .verify user password => (s.verify c user password).1
  | .sessionCookie now random => (s.sessionCookie c now random).1
  | .verifySession _ _ => s
  | .restart random => s.restart random

end Auth

end QUniLator.Web
