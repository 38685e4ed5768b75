import Mathlib.Data.List.Sort
import E2Mail.Lib.Table

/-!
# The backend's world

The state behind the request handlers: the SQLite tables (`users`, `two_fa`,
`webauthn_credentials`, `accounts`), the in-memory stores (pending logins,
WebAuthn ceremonies, sessions, the failure limiter), the LDAP directory and the
clock.

`Params` holds the code outside the repository (the TOTP and WebAuthn
libraries, SHA-256, Unicode case mapping, the LDAP client's DN builder and the
random identifiers), taken as functions.

Encryption is ideal: a ciphertext is a `Box` that only its own key opens.
Randomness comes from a supply that never repeats.
-/

namespace E2Mail.Backend

open Lib

/-! ## Keys and ciphertexts -/

/-- AES keys: a user's data key, or the key Argon2id derives from a password and a salt. -/
inductive Key where
  /-- the `n`-th data key generated -/
  | dek (n : Nat)
  /-- `DeriveMasterKey(password, salt)` -/
  | master (password : String) (salt : Nat)
  deriving DecidableEq

/-- A ciphertext made by `Encrypt`. -/
structure Box (α : Type) where
  /-- the key it was sealed with -/
  key : Key
  /-- the random nonce -/
  nonce : Nat
  /-- the plaintext -/
  body : α
  deriving DecidableEq

/-- `Decrypt`: only the sealing key opens a box. -/
def Box.decrypt {α : Type} (k : Key) (b : Box α) : Option α :=
  if b.key = k then some b.body else none

@[simp] theorem Box.decrypt_mk {α : Type} (k : Key) (n : Nat) (a : α) :
    Box.decrypt k ⟨k, n, a⟩ = some a := by
  simp [Box.decrypt]

theorem Box.decrypt_eq_some {α : Type} {k : Key} {b : Box α} {a : α} :
    b.decrypt k = some a ↔ b.key = k ∧ b.body = a := by
  simp [Box.decrypt]

/-- A text column that holds either plaintext or a ciphertext. -/
inductive Secret where
  /-- text that is not a ciphertext -/
  | plain (s : String)
  /-- `base64(nonce || ciphertext)` -/
  | sealed (b : Box String)
  deriving DecidableEq

/-- `Decrypt` on a text column: plain text is not a valid ciphertext. -/
def Secret.decrypt (k : Key) : Secret → Option String
  | .plain _ => none
  | .sealed b => b.decrypt k

/-! ## Rows and records -/

/-- The error values the handlers look at or print. -/
structure Err where
  /-- `errors.Is(err, ldap.ErrInvalidCredentials)` -/
  invalidCredentials : Bool := false
  /-- `err.Error()` -/
  text : String
  deriving DecidableEq

/-- The result of a fallible call. -/
abbrev Res (α : Type) : Type := Except Err α

/-- Where and how to reach an IMAP account. -/
structure ConnectionConfig where
  host : String
  port : Int
  useTLS : Bool
  allowInsecureTLS : Bool
  username : String
  password : String
  deriving DecidableEq

/-- A row of `accounts`, in the plaintext view of the struct. -/
structure Account where
  id : String := ""
  userEmail : String
  label : String
  email : String
  imapHost : String
  imapPort : Int
  imapUseTLS : Bool
  imapAllowInsecureTLS : Bool
  smtpHost : String
  smtpPort : Int
  smtpUseTLS : Bool
  smtpAllowInsecureTLS : Bool
  sieveHost : String := ""
  sievePort : Int := 0
  sieveUseTLS : Bool := false
  sieveAllowInsecureTLS : Bool := false
  username : String
  encIMAPPassword : Secret
  encSMTPPassword : Secret
  isDefault : Bool
  sortOrder : Nat
  createdAt : Option Nat := none
  updatedAt : Nat := 0
  deriving DecidableEq

/-- The account with new stored passwords. -/
def Account.withPasswords (a : Account) (imap smtp : Box String) : Account :=
  { a with encIMAPPassword := .sealed imap, encSMTPPassword := .sealed smtp }

/-- A stored account row: its owner column, the data key its text columns are
wrapped with, and the struct it unwraps to. -/
structure AccountRow where
  ownerID : String
  wrappedWith : Nat
  acc : Account
  deriving DecidableEq

/-- The primary key of `accounts`. -/
def AccountRow.id (r : AccountRow) : String := r.acc.id

/-- A row of `users`: the owner's wrapped data key. -/
structure UserCredential where
  userEmail : String
  salt : Nat
  wrappedDEK : Box Nat
  deriving DecidableEq

/-- The data key a password unwraps from a credential. -/
def UserCredential.unwrap (c : UserCredential) (password : String) : Option Nat :=
  c.wrappedDEK.decrypt (.master password c.salt)

/-- A row of `two_fa`. -/
structure TwoFA where
  ownerEmail : String
  secret : Secret
  backupHashes : List String
  enabledAt : Option Nat
  deriving DecidableEq

/-- A row of `webauthn_credentials`. -/
structure WebAuthnCredential where
  ownerEmail : String
  credentialID : String
  credentialJSON : String
  deriving DecidableEq

/-- A WebAuthn credential record of the library. -/
structure Credential where
  id : String
  json : String
  deriving DecidableEq

/-- What `webauthn.User` exposes. -/
structure WebAuthnUser where
  id : String
  email : String
  credentials : List Credential
  deriving DecidableEq

/-- The library's per-ceremony session data. -/
structure SessionData where
  userID : String
  challenge : String
  expires : Option Nat
  deriving DecidableEq

/-- A pending WebAuthn ceremony with the payload stored beside it. -/
structure Ceremony where
  data : SessionData
  payload : String
  deriving DecidableEq

/-- A login that has passed the password check and waits for its second factor. -/
structure PendingLogin where
  email : String
  username : String
  password : String
  imapHost : String
  imapPort : Int
  imapUseTLS : Bool
  imapAllowInsecureTLS : Bool
  smtpHost : String
  smtpPort : Int
  smtpUseTLS : Bool
  smtpAllowInsecureTLS : Bool
  expiresAt : Nat := 0
  failedAttempts : Nat := 0
  deriving DecidableEq

/-- A session in the in-memory store; `dek` is the data key it keeps under the server key. -/
structure Session where
  id : String := ""
  email : String
  username : String
  accounts : List Account
  dek : Nat := 0
  deriving DecidableEq

/-! ## Code outside the repository -/

/-- The functions the handlers take from libraries and from configuration. -/
structure Params where
  /-- `unicode.ToLower` -/
  toLower : Char → Char
  /-- `unicode.ToUpper` -/
  toUpper : Char → Char
  /-- hex SHA-256 -/
  sha256Hex : String → String
  /-- the base64 text of a ciphertext -/
  cipherText : Box String → String
  /-- `base32` without padding accepts the text -/
  base32Decodes : String → Bool
  /-- `totp.Validate(code, secret)` at a time -/
  totpValidate : Nat → String → String → Bool
  /-- `ParseCredential` -/
  parseCredential : String → Option Credential
  /-- `webauthn.BeginLogin`: session data, with a fresh challenge -/
  waBeginLogin : WebAuthnUser → Nat → Res SessionData
  /-- `webauthn.FinishLogin`: the verified and updated credential -/
  waFinishLogin : WebAuthnUser → SessionData → String → Option Credential
  /-- the `n`-th random uuid -/
  uuid : Nat → String
  /-- `LDAPConfig.UserDNTemplate` -/
  dnTemplate : String
  /-- a password changer is set and `cfg.LDAP.Ready()` -/
  ldapReady : Bool
  /-- `webauthnReady()` -/
  webauthnReady : Bool

/-- `unicode.IsSpace`. -/
def isSpace (c : Char) : Bool :=
  (9 ≤ c.toNat && c.toNat ≤ 13) || c.toNat == 0x20 || c.toNat == 0x85 || c.toNat == 0xA0 ||
    c.toNat == 0x1680 || (0x2000 ≤ c.toNat && c.toNat ≤ 0x200A) || c.toNat == 0x2028 ||
    c.toNat == 0x2029 || c.toNat == 0x202F || c.toNat == 0x205F || c.toNat == 0x3000

/-- `strings.TrimSpace`. -/
def trimSpace (s : String) : String :=
  String.ofList ((s.toList.dropWhile isSpace).reverse.dropWhile isSpace).reverse

/-- `strings.ToLower`. -/
def Params.lower (P : Params) (s : String) : String := String.ofList (s.toList.map P.toLower)

/-- `strings.ToUpper`. -/
def Params.upper (P : Params) (s : String) : String := String.ofList (s.toList.map P.toUpper)

/-- `normalizeEmail`. -/
def Params.normalizeEmail (P : Params) (email : String) : String := P.lower (trimSpace email)

/-- `crypto.OwnerID`, before hashing: the tables are keyed by the hash of the normalised email. -/
def Params.ownerID (P : Params) (email : String) : String := P.lower (trimSpace email)

/-- `HashCode`. -/
def Params.hashCode (P : Params) (code : String) : String :=
  P.sha256Hex (P.upper (trimSpace code))

/-- `escapeDNValue`. -/
def escapeDNValue (s : String) : String :=
  String.ofList <| s.toList.zipIdx.flatMap fun (ch, i) =>
    if ch ∈ ",+\\-\"<>;=\\*~()#&|/?".toList then ['\\', ch]
    else if ch = ' ' ∧ (i = 0 ∨ i + 1 = s.toList.length) then ['\\', '2', '0']
    else if ch = '\t' ∧ (i = 0 ∨ i + 1 = s.toList.length) then ['\\', '0', '9']
    else [ch]

/-- The template's `%s` and `%u` replaced, in one pass over the template. -/
def expandTemplate (full localPart : List Char) : List Char → List Char
  | '%' :: 's' :: rest => full ++ expandTemplate full localPart rest
  | '%' :: 'u' :: rest => localPart ++ expandTemplate full localPart rest
  | c :: rest => c :: expandTemplate full localPart rest
  | [] => []

/-- `UserDN`. -/
def Params.userDN (P : Params) (email : String) : Res String :=
  if P.dnTemplate = "" then .error { text := "ldap user dn template not configured" }
  else
    let localPart := String.ofList (email.toList.takeWhile (· ≠ '@'))
    .ok (String.ofList (expandTemplate (escapeDNValue email).toList
      (escapeDNValue localPart).toList P.dnTemplate.toList))

/-- The text a `Secret` column holds. -/
def Params.text (P : Params) : Secret → String
  | .plain s => s
  | .sealed b => P.cipherText b

/-! ## The world -/

/-- The state behind the handlers. Tables keyed by owner are functions of the owner column. -/
structure World where
  /-- the clock, in seconds -/
  now : Nat
  /-- how much of the random supply is used up -/
  fresh : Nat
  /-- the store's write lock is held by a multi-statement call -/
  mu : Bool
  users : String → Option UserCredential
  twoFA : String → Option TwoFA
  passkeys : Table WebAuthnCredential.credentialID
  accounts : Table AccountRow.id
  pending : String → Option PendingLogin
  ceremonies : String → Option Ceremony
  sessions : String → Option Session
  /-- failure times per limiter key -/
  failures : String → List Nat
  /-- the LDAP password of each entry -/
  ldap : String → Option String
  /-- the IMAP servers' verdict on a login -/
  imapAccepts : ConnectionConfig → Bool

/-- The account rows of an owner column. -/
def World.rowsOf (w : World) (owner : String) : List AccountRow :=
  w.accounts.rows.filter fun r => r.ownerID = owner

/-- `ORDER BY sort_order ASC, created_at ASC`. -/
def AccountRow.before (a b : AccountRow) : Bool :=
  a.acc.sortOrder < b.acc.sortOrder ||
    (a.acc.sortOrder == b.acc.sortOrder && a.acc.createdAt.getD 0 ≤ b.acc.createdAt.getD 0)

/-- The passkeys of an owner. -/
def World.passkeysOf (P : Params) (w : World) (email : String) : List WebAuthnCredential :=
  w.passkeys.rows.filter fun c => P.ownerID c.ownerEmail = P.ownerID email

/-! ## A sample -/

/-- Outside functions simple enough to evaluate runs with. -/
def Params.sample : Params where
  toLower := id
  toUpper := id
  sha256Hex := id
  cipherText b := b.body
  base32Decodes _ := false
  totpValidate _ secret code := secret == code
  parseCredential json := some ⟨json, json⟩
  waBeginLogin user _ := .ok ⟨user.id, "challenge", none⟩
  waFinishLogin user _ assertion := user.credentials.find? (·.id = assertion)
  uuid n := String.ofList (List.replicate (n + 1) 'u')
  dnTemplate := "uid=%s"
  ldapReady := true
  webauthnReady := true

/-- A world with nothing in it, whose IMAP servers accept every login. -/
def World.empty : World where
  now := 0
  fresh := 0
  mu := false
  users _ := none
  twoFA _ := none
  passkeys := Table.empty
  accounts := Table.empty
  pending _ := none
  ceremonies _ := none
  sessions _ := none
  failures _ := []
  ldap _ := none
  imapAccepts _ := true

end E2Mail.Backend
