import E2Mail.Backend.LoginPaths

/-!
# The two-factor handlers

`TwoFASetup`, `TwoFAEnable`, `TwoFADisable` and `TwoFARegenerateBackupCodes`, as
programs over the backend's calls, and the requests that run against them.

What a request draws at random (a new secret, new backup codes) is an argument
of its handler, so a statement about every request is one about every draw.

* `FactorRequest` — these requests, and the requests of `Request`.
* `FactorRule` — what a request has behind it when it writes or deletes a
  two-factor row; every request keeps it (`factorRule_prog`).
-/

namespace E2Mail.Backend

open Lib

/-! ## Requests and answers -/

/-- The authenticated request's session: its email, and the unlocked data key if there is one. -/
structure FactorContext where
  email : String
  dek : Option Nat
  deriving DecidableEq

/-- `TwoFAEnableRequest`; `TwoFADisable` decodes it, too. -/
structure TwoFAEnableRequest where
  secret : String
  code : String
  deriving DecidableEq

/-- The data of a successful two-factor response. -/
inductive TwoFAPayload where
  /-- `TwoFASetupResponse` -/
  | setup (secret otpauthUrl issuer account : String)
  | enabled (backupCodes : List String)
  | disabled
  /-- `TwoFARegenerateResponse` -/
  | backupCodes (codes : List String)
  deriving DecidableEq

/-- A response with two-factor data, or any other response. -/
abbrev TwoFAResp : Type := Except Resp TwoFAPayload

/-- The TOTP library behind `TwoFASetup`. -/
structure TOTPLibrary where
  /-- the error of a text that is not base32 -/
  base32Error : String → String
  /-- `totp.Generate`: the `otpauth://` URL of an account and a secret -/
  generate : String → String → Res String

/-! ## Secrets and codes -/

/-- `auth.Issuer`. -/
def issuer : String := "e2Mail"

/-- `normalizeSecret`. -/
def normalizeSecret (P : Params) (s : String) : String :=
  let stripped := (P.upper (trimSpace s)).toList.filter fun c => c ≠ ' ' ∧ c ≠ '-'
  String.ofList (stripped.reverse.dropWhile (· = '=')).reverse

/-- `validateSecret`: the text of the error, if there is one. -/
def validateSecret (P : Params) (L : TOTPLibrary) (s : String) : Option String :=
  if s.utf8ByteSize < 16 then some "secret 太短，至少 16 個 base32 字元（A-Z2-7）"
  else if s.utf8ByteSize > 64 then some "secret 太長，最多 64 個字元"
  else if s.toList.any fun c => (c < 'A' ∨ c > 'Z') ∧ (c < '2' ∨ c > '7') then
    some "secret 只能包含 A-Z2-7（base32）"
  else if !P.base32Decodes s then some ("無效的 base32 secret: " ++ L.base32Error s)
  else none

/-- `GenerateKey`: the URL for an authenticator. -/
def generateKey (P : Params) (L : TOTPLibrary) (accountName secret : String) : Res String :=
  if !P.base32Decodes secret then
    .error { text := "invalid base32 secret: " ++ L.base32Error secret }
  else L.generate accountName secret

/-- `BackupCodeCount`. -/
def backupCodeCount : Nat := 10

/-- `GenerateBackupCodes`: the codes drawn, and their hashes. -/
def generateBackupCodes (P : Params) (draw : Nat → String) : List String × List String :=
  let plain := (List.range backupCodeCount).map draw
  (plain, plain.map P.hashCode)

/-- `decryptTwoFASecret`: opened with the session's data key, else as stored. -/
def decryptTwoFASecret (P : Params) (dek : Option Nat) (t : TwoFA) : String :=
  match dek with
  | none => P.text t.secret
  | some d => (t.secret.decrypt (.dek d)).getD (P.text t.secret)

/-! ## The handlers -/

/-- What `TwoFASetup` answers an owner without a two-factor row: it writes nothing. -/
def setupAnswer (P : Params) (L : TOTPLibrary) (accountName : String) (body : Except BodyErr String)
    (random : String) : TwoFAResp :=
  if body = .error .tooLarge then
    .error (respondBodyParseError .tooLarge "request body too large")
  else
    -- any other body that does not decode reads as an empty one
    let s := normalizeSecret P (body.toOption.getD "")
    match if s = "" then none else validateSecret P L s with
    | some message => .error (badRequest message)
    | none =>
      let secret := if s = "" then random else s
      match generateKey P L accountName secret with
      | .error _ => .error (internalServerError "failed to generate TOTP key")
      | .ok url => .ok (.setup secret url issuer accountName)

/-- `TwoFASetup`; `random` is what `GenerateSecret` draws. -/
def twoFASetup (P : Params) (L : TOTPLibrary) (ctx? : Option FactorContext)
    (body : Except BodyErr String) (random : String) : Handler TwoFAResp := do
  let some ctx := ctx? | return .error (unauthorized "unauthorized")
  match ← call (.getTwoFA (P.normalizeEmail ctx.email)) with
  | .error _ => return .error (internalServerError "failed to load 2FA settings")
  | .ok (some _) => return .error (badRequest "兩步驟驗證已啟用，請先停用後再重新設定")
  | .ok none => return setupAnswer P L ctx.email body random

/-- The secret as `TwoFAEnable` stores it: encrypted if that works. -/
def encryptTwoFASecret (ctx : FactorContext) (secret : String) : Handler Secret :=
  match ctx.dek with
  | none => return .plain secret
  | some d => do
    match ← call (.encrypt (.dek d) secret) with
    | .error _ => return .plain secret
    | .ok enc => return .sealed enc

/-- `TwoFAEnable`: no lookup of the row it writes. -/
def twoFAEnable (P : Params) (ctx? : Option FactorContext)
    (body : Except BodyErr TwoFAEnableRequest) (draw : Nat → String) : Handler TwoFAResp := do
  let some ctx := ctx? | return .error (unauthorized "unauthorized")
  match body with
  | .error e => return .error (respondBodyParseError e "invalid request body format")
  | .ok req =>
    if req.secret = "" ∨ req.code = "" then
      return .error (badRequest "secret and code are required")
    if !(← call (.validateCode req.secret req.code)) then
      return .error (unauthorized "驗證碼錯誤，請確認 Authenticator App 顯示的 6 位數碼")
    let (plainCodes, hashedCodes) := generateBackupCodes P draw
    let encSecret ← encryptTwoFASecret ctx req.secret
    match ← call (.saveTwoFA ⟨P.normalizeEmail ctx.email, encSecret, hashedCodes, none⟩) with
    | .error _ => return .error (internalServerError "failed to save 2FA settings")
    | .ok () => return .ok (.enabled plainCodes)

/-- The checks `TwoFADisable` and `TwoFARegenerateBackupCodes` share: load the
row, validate the code, go on with the row. -/
def withVerifiedCode (P : Params) (ctx : FactorContext) (code : String)
    (next : TwoFA → Handler TwoFAResp) : Handler TwoFAResp := do
  match ← call (.getTwoFA (P.normalizeEmail ctx.email)) with
  | .error _ => return .error (internalServerError "failed to load 2FA settings")
  | .ok none => return .error (badRequest "兩步驟驗證未啟用")
  | .ok (some twoFA) =>
    if !(← call (.validateCode (decryptTwoFASecret P ctx.dek twoFA) code)) then
      return .error (unauthorized "驗證碼錯誤，請重試")
    next twoFA

/-- `TwoFADisable`. -/
def twoFADisable (P : Params) (ctx? : Option FactorContext)
    (body : Except BodyErr TwoFAEnableRequest) : Handler TwoFAResp := do
  let some ctx := ctx? | return .error (unauthorized "unauthorized")
  match body with
  | .error e => return .error (respondBodyParseError e "invalid request body format")
  | .ok req =>
    withVerifiedCode P ctx req.code fun _ => do
      match ← call (.deleteTwoFA (P.normalizeEmail ctx.email)) with
      | .error _ => return .error (internalServerError "failed to delete 2FA settings")
      | .ok () => return .ok .disabled

/-- `TwoFARegenerateBackupCodes`; the body is its code. -/
def twoFARegenerateBackupCodes (P : Params) (ctx? : Option FactorContext)
    (body : Except BodyErr String) (draw : Nat → String) : Handler TwoFAResp := do
  let some ctx := ctx? | return .error (unauthorized "unauthorized")
  match body with
  | .error e => return .error (respondBodyParseError e "invalid request body format")
  | .ok code =>
    withVerifiedCode P ctx code fun twoFA => do
      let (plainCodes, hashedCodes) := generateBackupCodes P draw
      match ← call (.saveTwoFA { twoFA with backupHashes := hashedCodes }) with
      | .error _ => return .error (internalServerError "failed to save backup codes")
      | .ok () => return .ok (.backupCodes plainCodes)

/-- The requests: the two-factor ones, and the others. -/
inductive FactorRequest where
  | setup (L : TOTPLibrary) (ctx : Option FactorContext) (body : Except BodyErr String)
      (random : String)
  | enable (ctx : Option FactorContext) (body : Except BodyErr TwoFAEnableRequest)
      (draw : Nat → String)
  | disable (ctx : Option FactorContext) (body : Except BodyErr TwoFAEnableRequest)
  | regenerate (ctx : Option FactorContext) (body : Except BodyErr String) (draw : Nat → String)
  | other (r : Request)

/-- The program of a request. -/
def FactorRequest.prog (P : Params) : FactorRequest → Handler TwoFAResp
  | setup L ctx body random => twoFASetup P L ctx body random
  | enable ctx body draw => twoFAEnable P ctx body draw
  | disable ctx body => twoFADisable P ctx body
  | regenerate ctx body draw => twoFARegenerateBackupCodes P ctx body draw
  | other r => do
    let resp ← r.prog P
    return .error resp

/-- All requests about to start in a world. -/
def startFactor {ι : Type} (P : Params) (reqs : ι → FactorRequest) (w : World) :
    Conf ι World Op Ans TwoFAResp :=
  ⟨w, fun i => (reqs i).prog P⟩

/-- A run by a schedule and a fault pattern. -/
def runFactor {ι : Type} [DecidableEq ι] (P : Params) (fails : Op → Bool) (order : List ι)
    (reqs : ι → FactorRequest) (w : World) :
    List (Entry ι World Op Ans) × Conf ι World Op Ans TwoFAResp :=
  schedule (execFaulty P fails) order [] (startFactor P reqs w)

theorem run_runFactor {ι : Type} [DecidableEq ι] (P : Params) (fails : Op → Bool)
    (order : List ι) (reqs : ι → FactorRequest) (w : World) :
    Run (sem P) (startFactor P reqs w) (runFactor P fails order reqs w).1
      (runFactor P fails order reqs w).2 := by
  have hexec : ∀ o s r s', execFaulty P fails o s = some (r, s') → sem P o s r s' :=
    fun _ _ _ _ h => sem_of_execFaulty h
  exact Run.of_schedule hexec order Run.nil

/-! ## What a write has behind it -/

/-- The history `withVerifiedCode` hands on: the row, loaded, and a code found valid for it. -/
def Checked (P : Params) (ctx : FactorContext) (code : String) (t : TwoFA)
    (h : List (Event Op Ans)) : Prop :=
  h = [⟨.getTwoFA (P.normalizeEmail ctx.email), .ok (some t)⟩,
    ⟨.validateCode (decryptTwoFASecret P ctx.dek t) code, true⟩]

/-- The history of a login request that writes a row back: it has looked the
row up, not again since, and has taken out at most the hash of its own code. -/
def CodeGrounds (P : Params) (r : Request) (t : TwoFA) (h : List (Event Op Ans)) : Prop :=
  ∃ owner t₀, Loaded owner t₀ h ∧ t.ownerEmail = t₀.ownerEmail ∧
    (t.backupHashes = t₀.backupHashes ∨ ∃ ip req idx, r = .verify2FA ip (.ok req) ∧
      validateBackupCode P (trimSpace req.code) t₀.backupHashes = some idx ∧ t = t₀.without idx)

/-- The history a request needs to write the row `t`. -/
def SaveAllowed (P : Params) (t : TwoFA) (h : List (Event Op Ans)) : FactorRequest → Prop
  | .enable (some ctx) (.ok r) draw =>
    t.ownerEmail = P.normalizeEmail ctx.email ∧ t.backupHashes = (generateBackupCodes P draw).2 ∧
      ⟨.validateCode r.secret r.code, true⟩ ∈ h
  | .regenerate (some ctx) (.ok code) draw =>
    ∃ t₀, Checked P ctx code t₀ h ∧ t = { t₀ with backupHashes := (generateBackupCodes P draw).2 }
  | .other r => r = .env (.saveTwoFA t) ∨ CodeGrounds P r t h
  | _ => False

/-- The history a request needs to delete the row of `owner`. -/
def DeleteAllowed (P : Params) (owner : String) (h : List (Event Op Ans)) : FactorRequest → Prop
  | .disable (some ctx) (.ok r) =>
    owner = P.normalizeEmail ctx.email ∧ ∃ t₀, Checked P ctx r.code t₀ h
  | .other r => r = .env (.deleteTwoFA owner)
  | _ => False

/-- Two-factor rows are written and deleted on these grounds only. -/
structure FactorRule (P : Params) (req : FactorRequest) (h : List (Event Op Ans)) (o : Op) :
    Prop where
  save : ∀ t, o = .saveTwoFA t → SaveAllowed P t h req
  delete : ∀ owner, o = .deleteTwoFA owner → DeleteAllowed P owner h req

section Rule

variable {P : Params} {req : FactorRequest} {h : List (Event Op Ans)}

/-- The calls that change a two-factor row. -/
def Op.writesFactor : Op → Bool
  | saveTwoFA _ | deleteTwoFA _ => true
  | _ => false

theorem factorRule_of_not_writes {o : Op} (ho : o.writesFactor = false) : FactorRule P req h o := by
  constructor
  · rintro t rfl
    cases ho
  · rintro owner rfl
    cases ho

theorem not_writesFactor_of_part {o : Op} (ho : o.part ≠ .twoFA) : o.writesFactor = false := by
  cases o with
  | saveTwoFA t => exact absurd rfl ho
  | deleteTwoFA owner => exact absurd rfl ho
  | _ => rfl

/-- A program on other parts keeps the rule, and every fact its calls cannot break. -/
theorem along_elsewhere {α : Type} {ps : List Part} {p : Handler α}
    {I : List (Event Op Ans) → Prop} (hp : Uses ps p) (ht : Part.twoFA ∉ ps)
    (hl : ∀ h o (r : Ans o), o.part ≠ .twoFA → I h → I (h ++ [⟨o, r⟩])) (hI : I h) :
    Along (FactorRule P req) (fun h _ => I h) p h := by
  have hpart : ∀ o : Op, ps.contains o.part = true → o.part ≠ .twoFA := fun o ho heq =>
    ht (heq ▸ List.contains_iff_mem.mp ho)
  exact Along.of_only hp hI (fun h o r ho hI => hl h o r (hpart o ho) hI)
    fun h o ho _ => factorRule_of_not_writes (not_writesFactor_of_part (hpart o ho))

theorem along_elsewhere_true {α : Type} {ps : List Part} {p : Handler α} (hp : Uses ps p)
    (ht : Part.twoFA ∉ ps) : Along (FactorRule P req) (fun _ _ => True) p h :=
  along_elsewhere (I := fun _ => True) hp ht (fun _ _ _ _ _ => trivial) trivial

theorem Loaded.of_elsewhere {owner : String} {t : TwoFA} {o : Op} {r : Ans o}
    (ho : o.part ≠ .twoFA) (hl : Loaded owner t h) : Loaded owner t (h ++ [⟨o, r⟩]) :=
  hl.snoc (beq_eq_false_iff_ne.mpr ho)

theorem loaded_now (owner : String) (t : TwoFA) (h : List (Event Op Ans)) :
    Loaded owner t (h ++ [⟨.getTwoFA owner, .ok (some t)⟩]) :=
  ⟨h, [], rfl, fun _ hv => absurd hv List.not_mem_nil⟩

end Rule

/-! ## The login requests -/

section Logins

variable {P : Params} {r : Request} {h : List (Event Op Ans)}

/-- The migration writes back the hashes it has just looked up. -/
theorem factor_maybeMigrateTwoFA (owner : String) (dek : Nat) :
    Along (FactorRule P (.other r)) (fun _ _ => True) (maybeMigrateTwoFA P owner dek) h := by
  refine Along.step (factorRule_of_not_writes rfl) fun row => ?_
  rcases row with e | _ | t
  · trivial
  · trivial
  · dsimp only
    split
    · trivial
    · generalize looksLikeSecret P (P.text t.secret) = plain
      cases plain with
      | false => trivial
      | true =>
        refine Along.step (factorRule_of_not_writes rfl) fun enc => ?_
        rcases enc with e | enc
        · trivial
        · refine Along.step ⟨?_, ?_⟩ fun _ => trivial
          · intro t' ht'
            cases ht'
            have hload := (loaded_now owner t h).snoc (o := .encrypt (.dek dek) (P.text t.secret))
              (r := .ok enc) rfl
            exact .inr ⟨owner, t, hload, rfl, .inl rfl⟩
          · rintro owner' ⟨⟩

theorem factor_completeLogin (ip : String) (pl : PendingLogin) (challenge : String) :
    Along (FactorRule P (.other r)) (fun _ _ => True) (completeLogin P ip pl challenge) h := by
  refine along_bind (along_elsewhere_true (uses_resolveCredential _ _) (by decide)) fun h res _ => ?_
  rcases res with e | ⟨cred, dek⟩
  · trivial
  refine along_bind (factor_maybeMigrateTwoFA _ dek) fun h _ _ => ?_
  refine along_bind (along_elsewhere_true (uses_ensureFirstAccount P _ pl dek) (by decide))
    fun h res _ => ?_
  rcases res with resp | accounts
  · trivial
  refine Along.step (factorRule_of_not_writes rfl) fun res => ?_
  rcases res with e | sess
  · trivial
  refine Along.step (factorRule_of_not_writes rfl) fun _ => ?_
  -- only the failure counts are left to reset
  have hreset : Uses [.limiter] (do
      resetLoginFailures P ip pl.email
      resetTOTPFailures P ip pl.email
      return .success (.loggedIn sess) : Handler Resp) := by
    refine Uses.bind (uses_onBothKeys uses_resetFailures _ _) (by decide) fun _ => ?_
    exact Uses.bind (uses_onBothKeys uses_resetFailures _ _) (by decide) fun _ => Uses.pure _
  exact along_elsewhere_true hreset (by decide)

theorem factor_loginWithPassword (ip ownerEmail : String) (pl : PendingLogin) :
    Along (FactorRule P (.other r)) (fun _ _ => True) (loginWithPassword P ip ownerEmail pl) h := by
  refine along_bind (along_elsewhere_true (uses_resolveCredential _ _) (by decide)) fun h res _ => ?_
  rcases res with e | ⟨cred, dek⟩
  · trivial
  refine along_bind (along_elsewhere_true (uses_ensureFirstAccount P _ pl dek) (by decide))
    fun h res _ => ?_
  rcases res with resp | accounts
  · trivial
  refine along_bind (factor_maybeMigrateTwoFA _ dek) fun h _ _ => ?_
  refine Along.step (factorRule_of_not_writes rfl) fun res => ?_
  rcases res with e | sess
  · trivial
  exact along_elsewhere_true
    (Uses.bind (uses_onBothKeys uses_resetFailures _ _) (List.Subset.refl _) fun _ => Uses.pure _)
    (by decide)

/-- Recording a failure and answering ends a request. -/
theorem factor_recordFailures {ipKey : String} {emailKey : Option String} {resp : Resp} :
    Along (FactorRule P (.other r)) (fun _ _ => True)
      (onBothKeys recordFailure ipKey emailKey >>= fun _ => pure resp) h :=
  along_elsewhere_true
    (Uses.bind (uses_onBothKeys uses_recordFailure _ _) (List.Subset.refl _) fun _ => Uses.pure _)
    (by decide)

theorem factor_login (ip : String) (body : Except BodyErr LoginRequest) :
    Along (FactorRule P (.other r)) (fun _ _ => True) (login P ip body) h := by
  rcases body with e | req
  · trivial
  unfold login
  dsimp only
  split
  · trivial
  refine along_bind (along_elsewhere_true (uses_anyBlocked _ _ _ _ _) (by decide)) fun h b _ => ?_
  cases b with
  | true => trivial
  | false =>
    refine Along.step (factorRule_of_not_writes rfl) fun res => ?_
    rcases res with e | _
    · exact factor_recordFailures
    refine Along.step (factorRule_of_not_writes rfl) fun _ => ?_
    refine Along.step (factorRule_of_not_writes rfl) fun _ => ?_
    split
    · exact ⟨factorRule_of_not_writes rfl, fun _ => trivial⟩
    · exact factor_loginWithPassword ip _ _

/-- `Verify2FA` takes out the hash of its own code. -/
theorem factor_verifyCode {ip : String} {req : Verify2FARequest} {pl : PendingLogin} {t : TwoFA}
    (hload : Loaded (P.normalizeEmail pl.email) t h) :
    Along (FactorRule P (.other (.verify2FA ip (.ok req)))) (fun _ _ => True)
      (verifyCode P ip req pl t) h := by
  refine along_bind (along_elsewhere (uses_totpSecret P _ pl t) (by decide)
    (fun _ _ _ ho hl => hl.of_elsewhere ho) hload) fun h secret hload => ?_
  refine Along.step (factorRule_of_not_writes rfl) fun valid => ?_
  cases valid with
  | true => exact factor_completeLogin ip pl req.challenge
  | false =>
    rw [if_neg Bool.false_ne_true]
    split
    · rename_i idx hidx
      refine Along.step ⟨?_, ?_⟩ fun _ => factor_completeLogin ip pl req.challenge
      · intro t' ht'
        cases ht'
        exact .inr ⟨_, t, hload.snoc rfl, rfl, .inr ⟨ip, req, idx, rfl, hidx, rfl⟩⟩
      · rintro owner ⟨⟩
    · exact Along.step (factorRule_of_not_writes rfl) fun _ => factor_recordFailures

theorem factor_verify2FA (ip : String) (body : Except BodyErr Verify2FARequest) :
    Along (FactorRule P (.other (.verify2FA ip body))) (fun _ _ => True) (verify2FA P ip body) h := by
  rcases body with e | req
  · trivial
  unfold verify2FA
  dsimp only
  split
  · trivial
  refine Along.step (factorRule_of_not_writes rfl) fun pl? => ?_
  refine along_bind (along_elsewhere_true (uses_anyBlocked _ _ _ _ _) (by decide)) fun h b _ => ?_
  cases b with
  | true => trivial
  | false =>
    rcases pl? with _ | pl
    · exact factor_recordFailures
    refine Along.step (factorRule_of_not_writes rfl) fun row => ?_
    rcases row with e | _ | t
    · trivial
    · exact ⟨factorRule_of_not_writes rfl, fun _ => trivial⟩
    · exact factor_verifyCode (loaded_now _ t h)

theorem factor_webAuthnLoginVerify (ip ceremonyID assertion : String) :
    Along (FactorRule P (.other r)) (fun _ _ => True)
      (webAuthnLoginVerify P ip ceremonyID assertion) h := by
  unfold webAuthnLoginVerify
  split
  · trivial
  split
  · trivial
  refine Along.step (factorRule_of_not_writes rfl) fun pid? => ?_
  rcases pid? with _ | pendingID
  · trivial
  dsimp only
  split
  · trivial
  refine Along.step (factorRule_of_not_writes rfl) fun pl? => ?_
  rcases pl? with _ | pl
  · trivial
  refine along_bind (along_elsewhere_true (uses_anyBlocked _ _ _ _ _) (by decide)) fun h b _ => ?_
  cases b with
  | true => trivial
  | false =>
    refine Along.step (factorRule_of_not_writes rfl) fun res => ?_
    rcases res with e | stored
    · trivial
    refine Along.step (factorRule_of_not_writes rfl) fun res => ?_
    rcases res with e | cred
    · exact factor_recordFailures
    refine Along.step (factorRule_of_not_writes rfl) fun _ => ?_
    exact along_bind (along_elsewhere_true (uses_onBothKeys uses_resetFailures _ _) (by decide))
      fun h _ _ => factor_completeLogin ip pl pendingID

/-- The requests of `Request` keep the rule. -/
theorem factor_request (r : Request) :
    Along (FactorRule P (.other r)) (fun _ _ => True) (r.prog P) h := by
  cases r with
  | login ip body => exact factor_login ip body
  | verify2FA ip body => exact factor_verify2FA ip body
  | webAuthnLoginBegin ip body =>
    exact along_elsewhere_true (uses_webAuthnLoginBegin P ip body) (by decide)
  | webAuthnLoginVerify ip ceremonyID assertion =>
    exact factor_webAuthnLoginVerify ip ceremonyID assertion
  | changePassword ctx body => exact along_elsewhere_true (uses_changePassword P ctx body) (by decide)
  | createAccount ctx body => exact along_elsewhere_true (uses_createAccount ctx body) (by decide)
  | updateAccount ctx id body =>
    exact along_elsewhere_true (uses_updateAccount ctx id body) (by decide)
  | deleteAccount ctx id => exact along_elsewhere_true (uses_deleteAccount ctx id) (by decide)
  | setDefaultAccount ctx id => exact along_elsewhere_true (uses_setDefaultAccount ctx id) (by decide)
  | env step =>
    refine Along.step ⟨?_, ?_⟩ fun _ => trivial
    · intro t ht
      cases step with
      | saveTwoFA t' =>
        cases ht
        exact .inl rfl
      | _ => cases ht
    · intro owner ho
      cases step with
      | deleteTwoFA owner' =>
        cases ho
        exact rfl
      | _ => cases ho

end Logins

/-! ## The two-factor requests -/

section Handlers

variable {P : Params} {req : FactorRequest}

theorem factor_setup (L : TOTPLibrary) (ctx : Option FactorContext) (body : Except BodyErr String)
    (random : String) :
    Along (FactorRule P req) (fun _ _ => True) (twoFASetup P L ctx body random) [] := by
  rcases ctx with _ | ctx
  · trivial
  refine Along.step (factorRule_of_not_writes rfl) fun row => ?_
  rcases row with e | _ | t <;> trivial

theorem factor_enable (ctx : Option FactorContext) (body : Except BodyErr TwoFAEnableRequest)
    (draw : Nat → String) :
    Along (FactorRule P (.enable ctx body draw)) (fun _ _ => True)
      (twoFAEnable P ctx body draw) [] := by
  rcases ctx with _ | ctx
  · trivial
  rcases body with e | r
  · trivial
  unfold twoFAEnable
  dsimp only
  split
  · trivial
  refine Along.step (factorRule_of_not_writes rfl) fun valid => ?_
  cases valid with
  | false => trivial
  | true =>
    have henc : Along (FactorRule P (.enable (some ctx) (.ok r) draw))
        (fun h _ => ⟨.validateCode r.secret r.code, true⟩ ∈ h) (encryptTwoFASecret ctx r.secret)
        [⟨.validateCode r.secret r.code, true⟩] := by
      unfold encryptTwoFASecret
      split
      · exact List.mem_singleton_self _
      · refine Along.step (factorRule_of_not_writes rfl) fun enc => ?_
        rcases enc with e | enc <;> exact List.mem_append_left _ (List.mem_singleton_self _)
    refine along_bind henc fun h secret hvalid => ?_
    refine Along.step ⟨?_, ?_⟩ fun res => ?_
    · intro t ht
      obtain rfl := Op.saveTwoFA.inj ht
      exact ⟨rfl, rfl, hvalid⟩
    · rintro owner ⟨⟩
    · rcases res with e | _ <;> trivial

/-- What follows the shared checks starts with their history. -/
theorem factor_withVerifiedCode {ctx : FactorContext} {code : String}
    {next : TwoFA → Handler TwoFAResp}
    (hnext : ∀ t h, Checked P ctx code t h → Along (FactorRule P req) (fun _ _ => True) (next t) h) :
    Along (FactorRule P req) (fun _ _ => True) (withVerifiedCode P ctx code next) [] := by
  refine Along.step (factorRule_of_not_writes rfl) fun row => ?_
  rcases row with e | _ | t
  · trivial
  · trivial
  refine Along.step (factorRule_of_not_writes rfl) fun valid => ?_
  cases valid with
  | false => trivial
  | true => exact hnext t _ rfl

theorem factor_disable (ctx : Option FactorContext) (body : Except BodyErr TwoFAEnableRequest) :
    Along (FactorRule P (.disable ctx body)) (fun _ _ => True) (twoFADisable P ctx body) [] := by
  rcases ctx with _ | ctx
  · trivial
  rcases body with e | r
  · trivial
  refine factor_withVerifiedCode fun t h hchecked => ?_
  refine Along.step ⟨?_, ?_⟩ fun res => ?_
  · rintro t' ⟨⟩
  · intro owner ho
    obtain rfl := Op.deleteTwoFA.inj ho
    exact ⟨rfl, t, hchecked⟩
  · rcases res with e | _ <;> trivial

theorem factor_regenerate (ctx : Option FactorContext) (body : Except BodyErr String)
    (draw : Nat → String) :
    Along (FactorRule P (.regenerate ctx body draw)) (fun _ _ => True)
      (twoFARegenerateBackupCodes P ctx body draw) [] := by
  rcases ctx with _ | ctx
  · trivial
  rcases body with e | code
  · trivial
  refine factor_withVerifiedCode fun t h hchecked => ?_
  refine Along.step ⟨?_, ?_⟩ fun res => ?_
  · intro t' ht'
    obtain rfl := Op.saveTwoFA.inj ht'
    exact ⟨t, hchecked, rfl⟩
  · rintro owner ⟨⟩
  · rcases res with e | _ <;> trivial

/-- **Every request keeps the rule**, whatever its calls answer. -/
theorem factorRule_prog (P : Params) (req : FactorRequest) :
    Along (FactorRule P req) (fun _ _ => True) (req.prog P) [] := by
  cases req with
  | setup L ctx body random => exact factor_setup L ctx body random
  | enable ctx body draw => exact factor_enable ctx body draw
  | disable ctx body => exact factor_disable ctx body
  | regenerate ctx body draw => exact factor_regenerate ctx body draw
  | other r => exact along_bind (factor_request r) fun _ _ _ => trivial

end Handlers

end E2Mail.Backend
