import E2Mail.Backend.Calls

/-!
# The login handlers

`Login`, `Verify2FA`, `WebAuthnLoginBegin`, `WebAuthnLoginVerify` and the
functions they share, as programs over the backend's calls. Starting IDLE
listeners, setting cookies and logging are left out: no handler reads anything
back from them.
-/

namespace E2Mail.Backend

open Lib

/-! ## Responses and requests -/

/-- The data of a successful response. -/
inductive Payload where
  /-- a second factor is needed -/
  | requires2FA (challenge : String) (methods : List String)
  /-- a session was created -/
  | loggedIn (sess : Session)
  /-- a WebAuthn ceremony was started -/
  | webAuthnBegin (challenge : String)
  | account (a : Account)
  | done (field : String)
  deriving DecidableEq

/-- A response: a payload with status 200, or a status and an error text. -/
inductive Resp where
  | success (data : Payload)
  | error (status : Nat) (message : String)
  deriving DecidableEq

def badRequest (message : String) : Resp := .error 400 message
def unauthorized (message : String) : Resp := .error 401 message
def forbidden (message : String) : Resp := .error 403 message
def notFound (message : String) : Resp := .error 404 message
def internalServerError (message : String) : Resp := .error 500 message

/-- Why a request body did not decode. -/
inductive BodyErr where
  /-- larger than the limit -/
  | tooLarge
  /-- not the expected JSON -/
  | malformed (text : String)
  deriving DecidableEq

/-- `err.Error()`. -/
def BodyErr.text : BodyErr → String
  | tooLarge => "http: request body too large"
  | malformed text => text

/-- `respondBodyParseError`. -/
def respondBodyParseError (e : BodyErr) (message : String) : Resp :=
  match e with
  | .tooLarge => .error 413 "request body too large"
  | .malformed _ => badRequest message

/-- `LoginRequest`. -/
structure LoginRequest where
  email : String
  username : String := ""
  password : String
  imapHost : String
  imapPort : Int := 0
  imapUseTLS : Option Bool := none
  imapAllowInsecureTLS : Bool := false
  smtpHost : String
  smtpPort : Int := 0
  smtpUseTLS : Option Bool := none
  smtpAllowInsecureTLS : Bool := false

/-- `Verify2FARequest`. -/
structure Verify2FARequest where
  challenge : String
  code : String

/-! ## The limiter's keys -/

def loginMaxIP : Nat := 20
def loginMaxEmail : Nat := 10
def loginFailureWindow : Nat := 15 * 60
def totpMaxFailures : Nat := 8
def totpFailureWindow : Nat := 10 * 60
def webauthnMaxFailures : Nat := 8
def webauthnFailWindow : Nat := 10 * 60

/-- A limiter key: purpose, then client address or normalised email. -/
def limiterKey (purpose kind who : String) : String := purpose ++ ":" ++ kind ++ ":" ++ who

def loginIPKey (ip : String) : String := limiterKey "login" "ip" ip
def loginEmailKey (P : Params) (email : String) : String :=
  limiterKey "login" "email" (P.normalizeEmail email)
def totpIPKey (ip : String) : String := limiterKey "totp" "ip" ip
def totpEmailKey (P : Params) (email : String) : String :=
  limiterKey "totp" "email" (P.normalizeEmail email)
def webauthnIPKey (ip : String) : String := limiterKey "webauthn" "ip" ip
def webauthnEmailKey (P : Params) (email : String) : String :=
  limiterKey "webauthn" "email" (P.normalizeEmail email)

/-- Two keys are looked up in order, the second only if the first does not
block; an empty email has no key of its own. -/
def anyBlocked (ipKey : String) (ipMax : Nat) (emailKey : Option String) (emailMax window : Nat) :
    Handler Bool := do
  if ← call (.blocked ipKey ipMax window) then return true
  match emailKey with
  | none => return false
  | some key => call (.blocked key emailMax window)

/-- Do something to the address key and, unless the email is empty, to the email key. -/
def onBothKeys (f : String → Handler Unit) (ipKey : String) (emailKey : Option String) :
    Handler Unit := do
  f ipKey
  match emailKey with
  | none => return ()
  | some key => f key

/-- The email key, present unless the email is empty. -/
def keyOf (email key : String) : Option String := if email = "" then none else some key

/-- `loginBlocked`; it looks up the email key also when the email is empty. -/
def loginBlocked (P : Params) (ip email : String) : Handler Bool :=
  anyBlocked (loginIPKey ip) loginMaxIP (some (loginEmailKey P email)) loginMaxEmail
    loginFailureWindow

/-- `totpBlocked`. -/
def totpBlocked (P : Params) (ip email : String) : Handler Bool :=
  anyBlocked (totpIPKey ip) totpMaxFailures (keyOf email (totpEmailKey P email)) totpMaxFailures
    totpFailureWindow

/-- `webauthnBlocked`. -/
def webauthnBlocked (P : Params) (ip email : String) : Handler Bool :=
  anyBlocked (webauthnIPKey ip) webauthnMaxFailures (keyOf email (webauthnEmailKey P email))
    webauthnMaxFailures webauthnFailWindow

def recordFailure (key : String) : Handler Unit := call (.recordFailure key)
def resetFailures (key : String) : Handler Unit := call (.resetFailures key)

def recordLoginFailure (P : Params) (ip email : String) : Handler Unit :=
  onBothKeys recordFailure (loginIPKey ip) (keyOf email (loginEmailKey P email))
def resetLoginFailures (P : Params) (ip email : String) : Handler Unit :=
  onBothKeys resetFailures (loginIPKey ip) (keyOf email (loginEmailKey P email))
def recordTOTPFailure (P : Params) (ip email : String) : Handler Unit :=
  onBothKeys recordFailure (totpIPKey ip) (keyOf email (totpEmailKey P email))
def resetTOTPFailures (P : Params) (ip email : String) : Handler Unit :=
  onBothKeys resetFailures (totpIPKey ip) (keyOf email (totpEmailKey P email))
def recordWebAuthnFailure (P : Params) (ip email : String) : Handler Unit :=
  onBothKeys recordFailure (webauthnIPKey ip) (keyOf email (webauthnEmailKey P email))
def resetWebAuthnFailures (P : Params) (ip email : String) : Handler Unit :=
  onBothKeys resetFailures (webauthnIPKey ip) (keyOf email (webauthnEmailKey P email))

/-! ## Shared steps -/

/-- `resolveCredential`: the owner's credential and data key, made on the first login. -/
def resolveCredential (ownerEmail masterPassword : String) :
    Handler (Res (UserCredential × Nat)) := do
  match ← call (.getUserCredential ownerEmail) with
  | .error e => return .error e
  | .ok none =>
    match ← call .generateSalt with
    | .error e => return .error e
    | .ok salt =>
      match ← call .generateDEK with
      | .error e => return .error e
      | .ok dek =>
        match ← call (.wrapDEK (.master masterPassword salt) dek) with
        | .error e => return .error e
        | .ok wrappedDEK =>
          let cred : UserCredential := ⟨ownerEmail, salt, wrappedDEK⟩
          match ← call (.createUserCredential cred) with
          | .error e => return .error e
          | .ok () => return .ok (cred, dek)
  | .ok (some cred) =>
    match cred.unwrap masterPassword with
    | none => return .error { text := "credentials unlock failed — 登入密碼不正確" }
    | some dek => return .ok (cred, dek)

/-- `encryptAccountPasswords`. -/
def encryptAccountPasswords (P : Params) (acc : Account) (dek : Nat) : Handler (Res Account) := do
  match ← call (.encrypt (.dek dek) (P.text acc.encIMAPPassword)) with
  | .error e => return .error e
  | .ok imapEnc =>
    match ← call (.encrypt (.dek dek) (P.text acc.encSMTPPassword)) with
    | .error e => return .error e
    | .ok smtpEnc => return .ok (acc.withPasswords imapEnc smtpEnc)

/-- The plaintext test of `maybeMigrateTwoFA`: the text, stripped, is a base32
secret of at least 16 characters. -/
def looksLikeSecret (P : Params) (text : String) : Bool :=
  let trimmed := (P.upper (trimSpace text)).toList.filter fun c => c ≠ ' ' ∧ c ≠ '-'
  let trimmed := (trimmed.reverse.dropWhile (· = '=')).reverse
  16 ≤ trimmed.length && P.base32Decodes (String.ofList trimmed)

/-- `maybeMigrateTwoFA`: a secret that is still plaintext is encrypted and written back. -/
def maybeMigrateTwoFA (P : Params) (ownerEmail : String) (dek : Nat) : Handler Unit := do
  match ← call (.getTwoFA ownerEmail) with
  | .error _ => return ()
  | .ok none => return ()
  | .ok (some twoFA) =>
    if (twoFA.secret.decrypt (.dek dek)).isSome then return ()
    if !looksLikeSecret P (P.text twoFA.secret) then return ()
    match ← call (.encrypt (.dek dek) (P.text twoFA.secret)) with
    | .error _ => return ()
    | .ok enc =>
      let _ ← call (.saveTwoFA { twoFA with secret := .sealed enc })
      return ()

/-- The account made from the login form on the first login. -/
def firstAccount (ownerEmail : String) (pl : PendingLogin) : Account where
  userEmail := ownerEmail
  label := pl.email
  email := pl.email
  imapHost := pl.imapHost
  imapPort := pl.imapPort
  imapUseTLS := pl.imapUseTLS
  imapAllowInsecureTLS := pl.imapAllowInsecureTLS
  smtpHost := pl.smtpHost
  smtpPort := pl.smtpPort
  smtpUseTLS := pl.smtpUseTLS
  smtpAllowInsecureTLS := pl.smtpAllowInsecureTLS
  username := pl.username
  encIMAPPassword := .plain pl.password
  encSMTPPassword := .plain pl.password
  isDefault := true
  sortOrder := 0

/-- The step both login paths share: load the owner's accounts, making the
first one if there is none. -/
def ensureFirstAccount (P : Params) (ownerEmail : String) (pl : PendingLogin) (dek : Nat) :
    Handler (Except Resp (List Account)) := do
  match ← call (.listAccounts ownerEmail dek) with
  | .error _ => return .error (internalServerError "failed to load accounts")
  | .ok accounts =>
    if accounts ≠ [] then return .ok accounts
    match ← encryptAccountPasswords P (firstAccount ownerEmail pl) dek with
    | .error _ => return .error (internalServerError "failed to encrypt account credentials")
    | .ok acc =>
      match ← call (.createAccount acc dek) with
      | .error _ => return .error (internalServerError "failed to create account")
      | .ok acc => return .ok (accounts ++ [acc])

/-! ## `Login` -/

/-- `secondFactorMethods`. -/
def secondFactorMethods (totp passkey : Bool) : List String :=
  (if totp then ["totp"] else []) ++ (if passkey then ["webauthn"] else [])

/-- The login parameters with their defaults filled in. -/
def LoginRequest.pending (req : LoginRequest) : PendingLogin where
  email := req.email
  username := if req.username = "" then req.email else req.username
  password := req.password
  imapHost := req.imapHost
  imapPort := if req.imapPort ≤ 0 then 993 else req.imapPort
  imapUseTLS := req.imapUseTLS.getD true
  imapAllowInsecureTLS := req.imapAllowInsecureTLS
  smtpHost := req.smtpHost
  smtpPort := if req.smtpPort ≤ 0 then 587 else req.smtpPort
  smtpUseTLS := req.smtpUseTLS.getD true
  smtpAllowInsecureTLS := req.smtpAllowInsecureTLS

/-- The IMAP connection a login tries. -/
def PendingLogin.connection (pl : PendingLogin) : ConnectionConfig where
  host := pl.imapHost
  port := pl.imapPort
  useTLS := pl.imapUseTLS
  allowInsecureTLS := pl.imapAllowInsecureTLS
  username := pl.username
  password := pl.password

/-- `twoFA, _ := GetTwoFA(..)`: an error reads as no row. -/
def ignoreErr {α : Type} (default : α) : Res α → α
  | .error _ => default
  | .ok a => a

/-- `Login` from the IMAP check on, for an owner without a second factor. -/
def loginWithPassword (P : Params) (ip ownerEmail : String) (pl : PendingLogin) :
    Handler Resp := do
  match ← resolveCredential ownerEmail pl.password with
  | .error e => return unauthorized e.text
  | .ok (_, dek) =>
    match ← ensureFirstAccount P ownerEmail pl dek with
    | .error resp => return resp
    | .ok accounts =>
      maybeMigrateTwoFA P ownerEmail dek
      let newSess : Session := { email := ownerEmail, username := pl.username, accounts := accounts }
      match ← call (.sessionCreate newSess dek) with
      | .error _ => return internalServerError "failed to create session"
      | .ok savedSess =>
        resetLoginFailures P ip pl.email
        return .success (.loggedIn savedSess)

/-- `Login`. -/
def login (P : Params) (ip : String) (body : Except BodyErr LoginRequest) : Handler Resp := do
  match body with
  | .error e => return respondBodyParseError e "invalid request body format"
  | .ok req =>
    if req.email = "" ∨ req.password = "" ∨ req.imapHost = "" ∨ req.smtpHost = "" then
      return badRequest "email, password, imapHost, and smtpHost are required"
    if ← loginBlocked P ip req.email then
      return .error 429 "too many failed login attempts, try again later"
    let pl := req.pending
    let ownerEmail := P.normalizeEmail req.email
    match ← call (.imapLogin pl.connection) with
    | .error e =>
      recordLoginFailure P ip req.email
      return unauthorized ("IMAP authentication failed: " ++ e.text)
    | .ok () =>
      -- both lookups discard their error
      let twoFA := ignoreErr none (← call (.getTwoFA ownerEmail))
      let passkeyCount := ignoreErr 0 (← call (.countWebAuthn ownerEmail))
      if twoFA.isSome ∨ passkeyCount > 0 then
        let challenge ← call (.pendingCreate pl)
        return .success (.requires2FA challenge
          (secondFactorMethods twoFA.isSome (decide (passkeyCount > 0))))
      loginWithPassword P ip ownerEmail pl

/-! ## The second factor -/

/-- `completeLogin`. -/
def completeLogin (P : Params) (ip : String) (pl : PendingLogin) (challenge : String) :
    Handler Resp := do
  let ownerEmail := P.normalizeEmail pl.email
  match ← resolveCredential ownerEmail pl.password with
  | .error e => return unauthorized e.text
  | .ok (_, dek) =>
    maybeMigrateTwoFA P ownerEmail dek
    match ← ensureFirstAccount P ownerEmail pl dek with
    | .error resp => return resp
    | .ok accounts =>
      let newSess : Session := { email := ownerEmail, username := pl.username, accounts := accounts }
      match ← call (.sessionCreate newSess dek) with
      | .error _ => return internalServerError "failed to create session"
      | .ok savedSess =>
        call (.pendingDelete challenge)
        resetLoginFailures P ip pl.email
        resetTOTPFailures P ip pl.email
        return .success (.loggedIn savedSess)

/-- `ValidateBackupCode`: the index of the code's hash. -/
def validateBackupCode (P : Params) (code : String) (hashes : List String) : Option Nat :=
  let target := P.hashCode (P.upper (trimSpace code))
  hashes.findIdx? fun h => h = target

/-- The TOTP secret `Verify2FA` checks against: decrypted if the pending
login's password unwraps a key that opens it, else as stored. -/
def totpSecret (P : Params) (ownerEmail : String) (pl : PendingLogin) (twoFA : TwoFA) :
    Handler String := do
  match ← resolveCredential ownerEmail pl.password with
  | .error _ => return P.text twoFA.secret
  | .ok (_, dek) =>
    match twoFA.secret.decrypt (.dek dek) with
    | some dec => return dec
    | none => return P.text twoFA.secret

/-- `Verify2FA` once the pending login and the two-factor row are loaded. -/
def verifyCode (P : Params) (ip : String) (req : Verify2FARequest) (pl : PendingLogin)
    (twoFA : TwoFA) : Handler Resp := do
  let code := trimSpace req.code
  let secret ← totpSecret P (P.normalizeEmail pl.email) pl twoFA
  if ← call (.validateCode secret code) then
    completeLogin P ip pl req.challenge
  else
    match validateBackupCode P code twoFA.backupHashes with
    | some idx =>
      -- a failing write is logged and the login completes all the same
      let _ ← call (.saveTwoFA { twoFA with backupHashes := twoFA.backupHashes.eraseIdx idx })
      completeLogin P ip pl req.challenge
    | none =>
      call (.pendingMarkFailed req.challenge)
      recordTOTPFailure P ip pl.email
      return unauthorized "驗證碼錯誤，請重試"

/-- `Verify2FA`. -/
def verify2FA (P : Params) (ip : String) (body : Except BodyErr Verify2FARequest) :
    Handler Resp := do
  match body with
  | .error e => return respondBodyParseError e "invalid request body format"
  | .ok req =>
    if req.challenge = "" ∨ req.code = "" then
      return badRequest "challenge and code are required"
    let pl? ← call (.pendingGet req.challenge)
    if ← totpBlocked P ip ((pl?.map PendingLogin.email).getD "") then
      return .error 429 "too many failed 2FA attempts, try again later"
    match pl? with
    | none =>
      recordTOTPFailure P ip ""
      return unauthorized "驗證已逾時或無效，請重新登入"
    | some pl =>
      match ← call (.getTwoFA (P.normalizeEmail pl.email)) with
      | .error _ => return internalServerError "failed to load 2FA settings"
      | .ok none =>
        call (.pendingDelete req.challenge)
        return unauthorized "此帳號未啟用兩步驟驗證"
      | .ok (some twoFA) => verifyCode P ip req pl twoFA

/-- `loadWebAuthnUser`: credentials that do not parse are skipped. -/
def loadWebAuthnUser (P : Params) (email : String) : Handler (Res WebAuthnUser) := do
  match ← call (.listWebAuthn email) with
  | .error e => return .error e
  | .ok stored =>
    return .ok ⟨P.ownerID email, email, stored.filterMap fun s => P.parseCredential s.credentialJSON⟩

/-- `WebAuthnLoginBegin`. -/
def webAuthnLoginBegin (P : Params) (ip : String) (body : Except BodyErr String) :
    Handler Resp := do
  if !P.webauthnReady then return forbidden "passkey support is not enabled on this server"
  match body with
  | .error e => return respondBodyParseError e "challenge is required"
  | .ok challenge =>
    if challenge = "" then return badRequest "challenge is required"
    match ← call (.pendingGet challenge) with
    | none => return unauthorized "驗證已逾時或無效，請重新登入"
    | some pl =>
      if ← webauthnBlocked P ip pl.email then
        return .error 429 "too many failed passkey attempts, try again later"
      match ← loadWebAuthnUser P (P.normalizeEmail pl.email) with
      | .error _ => return internalServerError "failed to load passkeys"
      | .ok user =>
        match ← call (.beginLogin user challenge) with
        | .error _ => return badRequest "passkey login failed"
        | .ok ceremonyID => return .success (.webAuthnBegin ceremonyID)

/-- `WebAuthnLoginVerify`. -/
def webAuthnLoginVerify (P : Params) (ip ceremonyID assertion : String) : Handler Resp := do
  if !P.webauthnReady then return forbidden "passkey support is not enabled on this server"
  if ceremonyID = "" then return badRequest "challenge is required"
  match ← call (.peekLoginPayload ceremonyID) with
  | none => return unauthorized "驗證已逾時或無效，請重新登入"
  | some pendingID =>
    if pendingID = "" then return unauthorized "驗證已逾時或無效，請重新登入"
    match ← call (.pendingGet pendingID) with
    | none => return unauthorized "驗證已逾時或無效，請重新登入"
    | some pl =>
      if ← webauthnBlocked P ip pl.email then
        return .error 429 "too many failed passkey attempts, try again later"
      match ← loadWebAuthnUser P (P.normalizeEmail pl.email) with
      | .error _ => return internalServerError "failed to load passkeys"
      | .ok user =>
        match ← call (.finishLogin user ceremonyID assertion) with
        | .error _ =>
          recordWebAuthnFailure P ip pl.email
          return unauthorized "passkey verification failed"
        | .ok credential =>
          let _ ← call (.updateWebAuthn (P.normalizeEmail pl.email) credential.id credential.json)
          resetWebAuthnFailures P ip pl.email
          completeLogin P ip pl pendingID

end E2Mail.Backend
