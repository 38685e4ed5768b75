import E2Mail.Backend.PasswordChange

/-!
# The account handlers

`CreateAccount`, `UpdateAccount`, `DeleteAccount`, `SetDefaultAccount` and
`refreshSessionAccounts`, and the type of all the requests this development runs
against each other.
-/

namespace E2Mail.Backend

open Lib

/-- `AccountRequest`. -/
structure AccountRequest where
  label : String := ""
  email : String := ""
  imapHost : String := ""
  imapPort : Int := 0
  imapUseTLS : Bool := false
  imapAllowInsecureTLS : Bool := false
  smtpHost : String := ""
  smtpPort : Int := 0
  smtpUseTLS : Bool := false
  smtpAllowInsecureTLS : Bool := false
  sieveHost : String := ""
  sievePort : Int := 0
  sieveUseTLS : Bool := false
  sieveAllowInsecureTLS : Bool := false
  username : String := ""
  password : String := ""

/-- `refreshSessionAccounts`. -/
def refreshSessionAccounts (ctx : AuthContext) : Handler Unit := do
  match ← call (.listAccounts ctx.email ctx.dek) with
  | .error _ => return ()
  | .ok accounts => call (.setSessionAccounts ctx.sessionID accounts)

/-- The account `CreateAccount` inserts, defaults filled in; `count` is how many there are. -/
def AccountRequest.newAccount (req : AccountRequest) (ownerEmail : String)
    (imapEnc smtpEnc : Box String) (count : Nat) : Account :=
  let sievePort := if req.sievePort < 0 then 0 else req.sievePort
  { userEmail := ownerEmail
    label := if req.label = "" then req.email else req.label
    email := req.email
    imapHost := req.imapHost
    imapPort := if req.imapPort ≤ 0 then 993 else req.imapPort
    imapUseTLS := req.imapUseTLS
    imapAllowInsecureTLS := req.imapAllowInsecureTLS
    smtpHost := req.smtpHost
    smtpPort := if req.smtpPort ≤ 0 then 587 else req.smtpPort
    smtpUseTLS := req.smtpUseTLS
    smtpAllowInsecureTLS := req.smtpAllowInsecureTLS
    sieveHost := req.sieveHost
    sievePort := sievePort
    sieveUseTLS :=
      if req.sieveHost = "" ∧ sievePort = 0 ∧ !req.sieveUseTLS ∧ !req.sieveAllowInsecureTLS
      then true else req.sieveUseTLS
    sieveAllowInsecureTLS := req.sieveAllowInsecureTLS
    username := if req.username = "" then req.email else req.username
    encIMAPPassword := .sealed imapEnc
    encSMTPPassword := .sealed smtpEnc
    isDefault := decide (count = 0)
    sortOrder := count }

/-- `CreateAccount`. -/
def createAccount (ctx? : Option AuthContext) (body : Except BodyErr AccountRequest) :
    Handler Resp := do
  let some ctx := ctx? | return unauthorized "unauthorized"
  match body with
  | .error e => return respondBodyParseError e ("invalid json payload: " ++ e.text)
  | .ok req =>
    if req.email = "" ∨ req.imapHost = "" ∨ req.smtpHost = "" ∨ req.password = "" then
      return badRequest "email, imapHost, smtpHost, and password are required"
    match ← call (.encrypt (.dek ctx.dek) req.password) with
    | .error _ => return internalServerError "failed to encrypt password"
    | .ok imapEnc =>
      match ← call (.encrypt (.dek ctx.dek) req.password) with
      | .error _ => return internalServerError "failed to encrypt password"
      | .ok smtpEnc =>
        match ← call (.countAccounts ctx.email) with
        | .error _ => return internalServerError "failed to count accounts"
        | .ok count =>
          match ← call (.createAccount (req.newAccount ctx.email imapEnc smtpEnc count) ctx.dek) with
          | .error e => return internalServerError ("failed to create account: " ++ e.text)
          | .ok acc =>
            refreshSessionAccounts ctx
            return .success (.account acc)

/-- The fields `UpdateAccount` takes over from the request. -/
def AccountRequest.applyTo (req : AccountRequest) (existing : Account) : Account :=
  { existing with
    label :=
      if req.email ≠ "" then req.label
      else if req.label = "" then existing.email else req.label
    email := if req.email ≠ "" then req.email else existing.email
    imapHost := if req.imapHost ≠ "" then req.imapHost else existing.imapHost
    imapPort := if req.imapPort > 0 then req.imapPort else existing.imapPort
    smtpHost := if req.smtpHost ≠ "" then req.smtpHost else existing.smtpHost
    smtpPort := if req.smtpPort > 0 then req.smtpPort else existing.smtpPort
    username := if req.username ≠ "" then req.username else existing.username
    imapUseTLS := req.imapUseTLS
    imapAllowInsecureTLS := req.imapAllowInsecureTLS
    smtpUseTLS := req.smtpUseTLS
    smtpAllowInsecureTLS := req.smtpAllowInsecureTLS
    sieveHost := req.sieveHost
    sievePort := if req.sievePort ≥ 0 then req.sievePort else existing.sievePort
    sieveUseTLS := req.sieveUseTLS
    sieveAllowInsecureTLS := req.sieveAllowInsecureTLS }

/-- The new stored passwords of an update; an empty password keeps the old ones. -/
def reencryptPasswords (ctx : AuthContext) (password : String) (acc : Account) :
    Handler (Res Account) := do
  if password = "" then return .ok acc
  match ← call (.encrypt (.dek ctx.dek) password) with
  | .error e => return .error e
  | .ok imapEnc =>
    match ← call (.encrypt (.dek ctx.dek) password) with
    | .error e => return .error e
    | .ok smtpEnc => return .ok (acc.withPasswords imapEnc smtpEnc)

/-- `UpdateAccount`. -/
def updateAccount (ctx? : Option AuthContext) (id : String)
    (body : Except BodyErr AccountRequest) : Handler Resp := do
  let some ctx := ctx? | return unauthorized "unauthorized"
  match ← call (.getAccount ctx.email id ctx.dek) with
  | .error _ => return internalServerError "failed to get account"
  | .ok none => return notFound "account not found"
  | .ok (some existing) =>
    match body with
    | .error e => return respondBodyParseError e ("invalid json payload: " ++ e.text)
    | .ok req =>
      match ← reencryptPasswords ctx req.password (req.applyTo existing) with
      | .error _ => return internalServerError "failed to encrypt password"
      | .ok acc =>
        match ← call (.updateAccount acc ctx.dek) with
        | .error e => return internalServerError ("failed to update account: " ++ e.text)
        | .ok _ =>
          refreshSessionAccounts ctx
          return .success (.done "updated")

/-- `DeleteAccount`: the guard counts the session's own list. -/
def deleteAccount (ctx? : Option AuthContext) (id : String) : Handler Resp := do
  let some ctx := ctx? | return unauthorized "unauthorized"
  let sessionAccounts ← call (.sessionAccounts ctx.sessionID)
  if sessionAccounts.length ≤ 1 then return badRequest "cannot delete the last account"
  match ← call (.deleteAccount ctx.email id) with
  | .error e => return internalServerError ("failed to delete account: " ++ e.text)
  | .ok () =>
    refreshSessionAccounts ctx
    return .success (.done "deleted")

/-- `storage.SetDefaultAccount`: two statements under the write lock. -/
def storageSetDefaultAccount (ownerEmail id : String) : Handler (Res Unit) := do
  match ← call (.clearDefaults ownerEmail) with
  | .error e => return .error { text := "failed to clear defaults: " ++ e.text }
  | .ok () =>
    match ← call (.markDefault ownerEmail id) with
    | .error e => return .error { text := "failed to set default: " ++ e.text }
    | .ok false => return .error { text := "account not found" }
    | .ok true => return .ok ()

/-- `SetDefaultAccount`. -/
def setDefaultAccount (ctx? : Option AuthContext) (id : String) : Handler Resp := do
  let some ctx := ctx? | return unauthorized "unauthorized"
  match ← storageSetDefaultAccount ctx.email id with
  | .error e => return internalServerError ("failed to set default account: " ++ e.text)
  | .ok () =>
    refreshSessionAccounts ctx
    return .success (.done "isDefault")

/-! ## Requests -/

/-- What else happens to the second factors and the clock while requests run. -/
inductive EnvStep where
  | tick (seconds : Nat)
  | saveTwoFA (t : TwoFA)
  | deleteTwoFA (owner : String)
  | createWebAuthn (c : WebAuthnCredential)
  | deleteWebAuthn (owner credID : String)

/-- The call of an environment step. -/
def EnvStep.op : EnvStep → Op
  | tick d => .tick d
  | saveTwoFA t => .saveTwoFA t
  | deleteTwoFA owner => .deleteTwoFA owner
  | createWebAuthn c => .createWebAuthn c
  | deleteWebAuthn owner credID => .deleteWebAuthn owner credID

/-- The requests. -/
inductive Request where
  | login (ip : String) (body : Except BodyErr LoginRequest)
  | verify2FA (ip : String) (body : Except BodyErr Verify2FARequest)
  | webAuthnLoginBegin (ip : String) (body : Except BodyErr String)
  | webAuthnLoginVerify (ip ceremonyID assertion : String)
  | changePassword (ctx : Option AuthContext) (body : Except BodyErr ChangePasswordRequest)
  | createAccount (ctx : Option AuthContext) (body : Except BodyErr AccountRequest)
  | updateAccount (ctx : Option AuthContext) (id : String) (body : Except BodyErr AccountRequest)
  | deleteAccount (ctx : Option AuthContext) (id : String)
  | setDefaultAccount (ctx : Option AuthContext) (id : String)
  | env (step : EnvStep)

/-- The program of a request. -/
def Request.prog (P : Params) : Request → Handler Resp
  | login ip body => Backend.login P ip body
  | verify2FA ip body => Backend.verify2FA P ip body
  | webAuthnLoginBegin ip body => Backend.webAuthnLoginBegin P ip body
  | webAuthnLoginVerify ip ceremonyID assertion =>
    Backend.webAuthnLoginVerify P ip ceremonyID assertion
  | changePassword ctx body => Backend.changePassword P ctx body
  | createAccount ctx body => Backend.createAccount ctx body
  | updateAccount ctx id body => Backend.updateAccount ctx id body
  | deleteAccount ctx id => Backend.deleteAccount ctx id
  | setDefaultAccount ctx id => Backend.setDefaultAccount ctx id
  | env step => do
    let _ ← call step.op
    return .success (.done "")

/-- All requests about to start in a world. -/
def start {ι : Type} (P : Params) (reqs : ι → Request) (w : World) :
    Conf ι World Op Ans Resp :=
  ⟨w, fun i => (reqs i).prog P⟩

/-- A run by a schedule and a fault pattern. -/
def runFaulty {ι : Type} [DecidableEq ι] (P : Params) (fails : Op → Bool) (order : List ι)
    (reqs : ι → Request) (w : World) : List (Entry ι World Op Ans) × Conf ι World Op Ans Resp :=
  schedule (execFaulty P fails) order [] (start P reqs w)

theorem run_runFaulty {ι : Type} [DecidableEq ι] (P : Params) (fails : Op → Bool) (order : List ι)
    (reqs : ι → Request) (w : World) :
    Run (sem P) (start P reqs w) (runFaulty P fails order reqs w).1
      (runFaulty P fails order reqs w).2 := by
  have hexec : ∀ o s r s', execFaulty P fails o s = some (r, s') → sem P o s r s' :=
    fun _ _ _ _ h => sem_of_execFaulty h
  exact Run.of_schedule hexec order Run.nil

end E2Mail.Backend
