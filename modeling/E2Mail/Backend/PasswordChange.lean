import E2Mail.Backend.Login

/-!
# The password change handler

`ChangePassword` writes three stores in turn: the LDAP entry, the account row
and the wrapped data key. A failure after the LDAP write undoes by hand what has
been written. Restarting connections, the request's own password map and
logging are left out.
-/

namespace E2Mail.Backend

open Lib

/-- The authenticated request's context: its session's id and owner, and the unlocked data key. -/
structure AuthContext where
  sessionID : String
  email : String
  dek : Nat

/-- `ChangePasswordRequest`. -/
structure ChangePasswordRequest where
  oldPassword : String
  newPassword : String
  confirmPassword : String
  /-- the target account's id; empty for the login identity -/
  account : String := ""

def minNewPasswordLen : Nat := 8
def pwChangeMaxFailures : Nat := 10
def pwChangeFailureWindow : Nat := 10 * 60

/-- The checks on the request body, in their order. -/
def ChangePasswordRequest.validate (req : ChangePasswordRequest) : Option Resp :=
  if req.oldPassword = "" ∨ req.newPassword = "" then
    some (badRequest "oldPassword and newPassword are required")
  else if req.newPassword ≠ req.confirmPassword then some (badRequest "新密碼與確認密碼不一致")
  else if req.newPassword.utf8ByteSize < minNewPasswordLen then
    some (badRequest "新密碼至少 8 個字元")
  else if req.newPassword = req.oldPassword then some (badRequest "新密碼與舊密碼相同")
  else none

/-- The target among the owner's accounts: the named one, or the first that is
the login identity. -/
def ChangePasswordRequest.target (P : Params) (req : ChangePasswordRequest) (ownerEmail : String)
    (accounts : List Account) : Option Account :=
  accounts.find? fun a =>
    if req.account ≠ "" then a.id = req.account else P.normalizeEmail a.email = ownerEmail

/-- `isLoginIdentity`. -/
def isLoginIdentity (P : Params) (ownerEmail : String) : Option Account → Bool
  | none => true
  | some a => P.normalizeEmail a.email = ownerEmail

/-- `pwEmail`. -/
def pwEmail (P : Params) (ownerEmail : String) (acc : Option Account) : String :=
  if isLoginIdentity P ownerEmail acc then ownerEmail else (acc.map Account.email).getD ownerEmail

/-- `rollbackLDAP`: best effort. -/
def rollbackLDAP (userDN oldPassword : String) : Handler Unit := do
  let _ ← call (.ldapChangePassword userDN oldPassword)
  return ()

/-- The answer when a local write failed. -/
def syncFailed : Resp := internalServerError "failed to sync password change（已回滾）"

/-- The last steps of a successful change. -/
def finishChange (ctx : AuthContext) (limiterKey : String) (accounts : List Account) :
    Handler Resp := do
  call (.setSessionAccounts ctx.sessionID accounts)
  call (.resetFailures limiterKey)
  return .success (.done "changed")

/-- Put an updated account back in its place; ids are unique. -/
def replaceAccount (acc : Account) (accounts : List Account) : List Account :=
  accounts.map fun a => if a.id = acc.id then acc else a

/-- Step 4 for the account row: write the new stored passwords, or undo the LDAP write. -/
def syncAccount (ctx : AuthContext) (userDN oldPassword : String) (acc : Option Account)
    (newEncIMAP newEncSMTP : Box String) : Handler (Option (Option Account)) := do
  match acc with
  | none => return some none
  | some orig =>
    match ← call (.updateAccount (orig.withPasswords newEncIMAP newEncSMTP) ctx.dek) with
    | .ok saved => return some (some saved)
    | .error _ =>
      rollbackLDAP userDN oldPassword
      return none

/-- The new credential replaces the row, or makes it. -/
def writeCredential (exists? : Bool) (c : UserCredential) : Handler (Res Unit) :=
  if exists? then call (.updateUserCredential c) else call (.createUserCredential c)

/-- Undo the account write, if there was one. -/
def restoreAccount (ctx : AuthContext) : Option Account → Handler Unit
  | none => return ()
  | some orig => do
    let _ ← call (.updateAccount orig ctx.dek)
    return ()

/-- Write the old credential back, if there was one. -/
def restoreCredential : Option UserCredential → Handler Unit
  | none => return ()
  | some oldCred => do
    let _ ← call (.updateUserCredential oldCred)
    return ()

/-- Step 4 for the credential: re-wrap the data key, or undo the account and LDAP writes. -/
def syncCredential (ctx : AuthContext) (userDN oldPassword : String) (orig : Option Account)
    (newSalt : Nat) (newWrappedDEK : Box Nat) : Handler Bool := do
  -- an error reads as no row: `oldCred` is nil
  let oldCred := ignoreErr none (← call (.getUserCredential ctx.email))
  let newCred : UserCredential := ⟨ctx.email, newSalt, newWrappedDEK⟩
  match ← writeCredential oldCred.isSome newCred with
  | .ok () => return true
  | .error _ =>
    restoreAccount ctx orig
    restoreCredential oldCred
    rollbackLDAP userDN oldPassword
    return false

/-- Step 2 for the login identity: the data key wrapped under the new password. -/
def rewrapDEK (ctx : AuthContext) (newPassword : String) (loginIdentity : Bool) :
    Handler (Res (Option (Nat × Box Nat))) := do
  if !loginIdentity then return .ok none
  match ← call .generateSalt with
  | .error e => return .error e
  | .ok newSalt =>
    match ← call (.wrapDEK (.master newPassword newSalt) ctx.dek) with
    | .error e => return .error e
    | .ok newWrappedDEK => return .ok (some (newSalt, newWrappedDEK))

/-- Steps 3 and 4: write LDAP, then the local stores. `rewrapped` is there for
the login identity only. -/
def applyChange (ctx : AuthContext) (req : ChangePasswordRequest)
    (accounts : List Account) (acc : Option Account) (limiterKey userDN : String)
    (rewrapped : Option (Nat × Box Nat)) (newEncIMAP newEncSMTP : Box String) :
    Handler Resp := do
  match ← call (.ldapChangePassword userDN req.newPassword) with
  | .error e =>
    if e.invalidCredentials then
      return .error 502 "LDAP 服務帳號認證失敗，請聯絡管理員"
    return .error 502 "LDAP 伺服器拒絕了密碼變更"
  | .ok () =>
    match ← syncAccount ctx userDN req.oldPassword acc newEncIMAP newEncSMTP with
    | none => return syncFailed
    | some saved =>
      let accounts' := match saved with
        | none => accounts
        | some a => replaceAccount a accounts
      match rewrapped with
      | none => finishChange ctx limiterKey accounts'
      | some (newSalt, newWrappedDEK) =>
        if ← syncCredential ctx userDN req.oldPassword acc newSalt newWrappedDEK then
          finishChange ctx limiterKey accounts'
        else
          return syncFailed

/-- Steps 1 and 2: check the old password against LDAP and prepare the new values. -/
def verifyAndApply (P : Params) (ctx : AuthContext) (req : ChangePasswordRequest)
    (accounts : List Account) (acc : Option Account) (limiterKey userDN : String) :
    Handler Resp := do
  match ← call (.verifyUserBind userDN req.oldPassword) with
  | .error e =>
    if e.invalidCredentials then
      call (.recordFailure limiterKey)
      return unauthorized "舊密碼不正確"
    return .error 502 "無法連線至 LDAP 伺服器"
  | .ok () =>
    match ← rewrapDEK ctx req.newPassword (isLoginIdentity P ctx.email acc) with
    | .error _ => return internalServerError "failed to derive credentials"
    | .ok rewrapped =>
      match ← call (.encrypt (.dek ctx.dek) req.newPassword) with
      | .error _ => return internalServerError "failed to encrypt credentials"
      | .ok newEncIMAP =>
        match ← call (.encrypt (.dek ctx.dek) req.newPassword) with
        | .error _ => return internalServerError "failed to encrypt credentials"
        | .ok newEncSMTP =>
          applyChange ctx req accounts acc limiterKey userDN rewrapped newEncIMAP newEncSMTP

/-- `ChangePassword`. -/
def changePassword (P : Params) (ctx? : Option AuthContext)
    (body : Except BodyErr ChangePasswordRequest) : Handler Resp := do
  let some ctx := ctx? | return unauthorized "unauthorized"
  if !P.ldapReady then return forbidden "LDAP password change is not enabled on this server"
  match body with
  | .error e => return respondBodyParseError e "invalid request body format"
  | .ok req =>
    if let some resp := req.validate then return resp
    match ← call (.listAccounts ctx.email ctx.dek) with
    | .error _ => return internalServerError "failed to load accounts"
    | .ok accounts =>
      let acc := req.target P ctx.email accounts
      if req.account ≠ "" ∧ acc = none then return badRequest "找不到指定的帳號"
      let target := pwEmail P ctx.email acc
      let limiterKey := ctx.sessionID ++ "|" ++ P.normalizeEmail target
      if ← call (.blocked limiterKey pwChangeMaxFailures pwChangeFailureWindow) then
        return .error 429 "失敗次數過多，請等待幾分鐘後再試"
      match ← call (.userDN target) with
      | .error _ => return internalServerError "failed to resolve LDAP user"
      | .ok userDN => verifyAndApply P ctx req accounts acc limiterKey userDN

end E2Mail.Backend
