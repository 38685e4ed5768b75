import E2Mail.Lib.Interleave
import E2Mail.Backend.World

/-!
# The calls of the backend

The atomic calls the handlers make: each is one SQL statement, one operation of
a mutex-protected in-memory store, or one request to a service. Their
fault-free behaviour is a function on `World` under the source's name; `Op`
collects them into a signature, `exec` dispatches, and `sem` adds the faults: a
fallible call may answer any error, and then the world is unchanged.

`SetDefaultAccount` is the one storage function that runs two statements. They
are two calls here, with the write lock held in between: other writers wait
(`enabled`), readers do not.
-/

namespace E2Mail.Backend

open Lib

/-! ## `AttemptLimiter` -/

/-- `recent`: the failures of a key that are younger than the window. -/
def World.recent (w : World) (key : String) (window : Nat) : List Nat :=
  (w.failures key).filter fun t => w.now < t + window

/-- `Blocked`; it also prunes the key's list to the window. -/
def World.blocked (key : String) (maxFailures window : Nat) (w : World) : Bool × World :=
  (decide (maxFailures ≤ (w.recent key window).length),
    { w with failures := Function.update w.failures key (w.recent key window) })

/-- `RecordFailure`. -/
def World.recordFailure (key : String) (w : World) : World :=
  { w with failures := Function.update w.failures key (w.recent key 3600 ++ [w.now]) }

/-- `Reset`. -/
def World.reset (key : String) (w : World) : World :=
  { w with failures := Function.update w.failures key [] }

/-! ## `users` -/

/-- The check both writers of `users` make. -/
def userCredentialRequired : Err := { text := "user_email, salt, and wrapped_dek are required" }

/-- `CreateUserCredential`: an `INSERT`, refused when the owner has a row. -/
def World.createUserCredential (P : Params) (c : UserCredential) (w : World) : Res Unit × World :=
  if c.userEmail = "" then (.error userCredentialRequired, w)
  else if (w.users (P.ownerID c.userEmail)).isSome then
    (.error { text := "failed to create user credential: UNIQUE constraint failed" }, w)
  else (.ok (), { w with users := Function.update w.users (P.ownerID c.userEmail) (some c) })

/-- `UpdateUserCredential`: an `UPDATE`, which succeeds also when no row matches. -/
def World.updateUserCredential (P : Params) (c : UserCredential) (w : World) : Res Unit × World :=
  if c.userEmail = "" then (.error userCredentialRequired, w)
  else
    (.ok (), { w with
      users := Function.update w.users (P.ownerID c.userEmail)
        ((w.users (P.ownerID c.userEmail)).map fun old =>
          { old with salt := c.salt, wrappedDEK := c.wrappedDEK }) })

/-! ## `two_fa` -/

/-- `GetTwoFA`. -/
def World.getTwoFA (P : Params) (owner : String) (w : World) : Option TwoFA :=
  (w.twoFA (P.ownerID owner)).map fun t => { t with ownerEmail := owner }

/-- `SaveTwoFA`: insert or overwrite the whole row. -/
def World.saveTwoFA (P : Params) (t : TwoFA) (w : World) : Res Unit × World :=
  if t.ownerEmail = "" ∨ t.secret = .plain "" then
    (.error { text := "owner_email and secret are required" }, w)
  else
    (.ok (), { w with
      twoFA := Function.update w.twoFA (P.ownerID t.ownerEmail)
        (some { t with enabledAt := some (t.enabledAt.getD w.now) }) })

/-- `DeleteTwoFA`. -/
def World.deleteTwoFA (P : Params) (owner : String) (w : World) : World :=
  { w with twoFA := Function.update w.twoFA (P.ownerID owner) none }

/-! ## `webauthn_credentials` -/

/-- `CreateWebAuthnCredential`: the credential id is the primary key. -/
def World.createWebAuthnCredential (c : WebAuthnCredential) (w : World) : Res Unit × World :=
  if c.ownerEmail = "" ∨ c.credentialID = "" ∨ c.credentialJSON = "" then
    (.error { text := "owner_email, credential_id and credential_json are required" }, w)
  else
    match w.passkeys.insert? c with
    | none => (.error { text := "failed to create webauthn credential: UNIQUE constraint failed" }, w)
    | some t => (.ok (), { w with passkeys := t })

/-- The condition `owner_email = ? AND credential_id = ?`. -/
def WebAuthnCredential.isOf (P : Params) (owner credID : String) (c : WebAuthnCredential) : Bool :=
  P.ownerID c.ownerEmail = P.ownerID owner ∧ c.credentialID = credID

/-- `UpdateWebAuthnCredential`. -/
def World.updateWebAuthnCredential (P : Params) (owner credID credJSON : String) (w : World) :
    World :=
  { w with
    passkeys := w.passkeys.update (·.isOf P owner credID)
      (fun c => { c with credentialJSON := credJSON }) fun _ => rfl }

/-- `DeleteWebAuthnCredential`. -/
def World.deleteWebAuthnCredential (P : Params) (owner credID : String) (w : World) : World :=
  { w with passkeys := w.passkeys.delete (·.isOf P owner credID) }

/-! ## `accounts` -/

/-- `scanAccount` of a row: the text columns unwrap under the key they were wrapped with. -/
def scanAccount (owner : String) (dek : Nat) (r : AccountRow) : Res Account :=
  if r.wrappedWith = dek then .ok { r.acc with userEmail := owner }
  else .error { text := "failed to unwrap account " ++ r.acc.id }

/-- `ListAccounts`. -/
def World.listAccounts (P : Params) (owner : String) (dek : Nat) (w : World) : Res (List Account) :=
  ((w.rowsOf (P.ownerID owner)).insertionSort fun a b => a.before b).mapM (scanAccount owner dek)

/-- `GetAccount`. -/
def World.getAccount (P : Params) (owner id : String) (dek : Nat) (w : World) :
    Res (Option Account) :=
  match (w.rowsOf (P.ownerID owner)).find? fun r => r.acc.id = id with
  | none => .ok none
  | some r => (scanAccount owner dek r).map some

/-- `CountAccounts`. -/
def World.countAccounts (P : Params) (owner : String) (w : World) : Nat :=
  (w.rowsOf (P.ownerID owner)).length

/-- `CreateAccount`: fill in the id and the times, then an `INSERT` with the id as primary key. -/
def World.createAccount (P : Params) (a : Account) (dek : Nat) (w : World) : Res Account × World :=
  let w' := if a.id = "" then { w with fresh := w.fresh + 1 } else w
  let a' := { a with
    id := if a.id = "" then P.uuid w.fresh else a.id
    createdAt := some (a.createdAt.getD w.now)
    updatedAt := w.now }
  if a.encIMAPPassword = .plain "" ∨ a.encSMTPPassword = .plain "" then
    (.error { text := "enc_imap_password and enc_smtp_password are required" }, w')
  else
    match w.accounts.insert? ⟨P.ownerID a.userEmail, dek, a'⟩ with
    | none => (.error { text := "failed to create account: UNIQUE constraint failed" }, w')
    | some t => (.ok a', { w' with accounts := t })

/-- The condition `owner_id = ?`. -/
def AccountRow.ownedBy (P : Params) (owner : String) (r : AccountRow) : Bool :=
  r.ownerID = P.ownerID owner

/-- The condition `owner_id = ? AND id = ?`. -/
def AccountRow.isOf (P : Params) (owner id : String) (r : AccountRow) : Bool :=
  r.ownerID = P.ownerID owner ∧ r.id = id

/-- The columns `UpdateAccount` sets: all but `id`, `owner_id` and `created_at`. -/
def AccountRow.overwrite (a : Account) (dek now : Nat) (r : AccountRow) : AccountRow :=
  ⟨r.ownerID, dek, { a with id := r.acc.id, createdAt := r.acc.createdAt, updatedAt := now }⟩

/-- `UpdateAccount`; the struct it was given gets the time of the update. -/
def World.updateAccount (P : Params) (a : Account) (dek : Nat) (w : World) : Res Account × World :=
  if a.id = "" then (.error { text := "account id is required" }, w)
  else
    (.ok { a with updatedAt := w.now }, { w with
      accounts := w.accounts.update (·.isOf P a.userEmail a.id) (·.overwrite a dek w.now)
        fun _ => rfl })

/-- `DeleteAccount`. -/
def World.deleteAccount (P : Params) (owner id : String) (w : World) : World :=
  { w with accounts := w.accounts.delete (·.isOf P owner id) }

/-- `SET is_default = 0`. -/
def AccountRow.clearDefault (r : AccountRow) : AccountRow :=
  { r with acc := { r.acc with isDefault := false } }

/-- `SET is_default = 1, updated_at = ?`. -/
def AccountRow.setDefault (now : Nat) (r : AccountRow) : AccountRow :=
  { r with acc := { r.acc with isDefault := true, updatedAt := now } }

/-- The first statement of `SetDefaultAccount`: clear the owner's flags. -/
def World.clearDefaults (P : Params) (owner : String) (w : World) : World :=
  { w with
    mu := true
    accounts := w.accounts.update (·.ownedBy P owner) AccountRow.clearDefault fun _ => rfl }

/-- The second statement of `SetDefaultAccount`: set the flag of the target. It
answers whether a row was affected, and the function returns, so the lock is
free again. -/
def World.markDefault (P : Params) (owner id : String) (w : World) : Bool × World :=
  (w.accounts.rows.any (·.isOf P owner id),
    { w with
      mu := false
      accounts := w.accounts.update (·.isOf P owner id) (·.setDefault w.now) fun _ => rfl })

/-! ## Pending logins and ceremonies -/

/-- The time to live of a pending login, in seconds. -/
def pendingTTL : Nat := 180

/-- `NewPendingLoginStore`'s `maxAttempts`. -/
def pendingMaxAttempts : Nat := 5

/-- `PendingLoginStore.Create`. -/
def World.pendingCreate (P : Params) (pl : PendingLogin) (w : World) : String × World :=
  (P.uuid w.fresh, { w with
    fresh := w.fresh + 1
    pending := Function.update w.pending (P.uuid w.fresh)
      (some { pl with expiresAt := w.now + pendingTTL, failedAttempts := 0 }) })

/-- `PendingLoginStore.Get`: an expired entry is deleted. -/
def World.pendingGet (id : String) (w : World) : Option PendingLogin × World :=
  match w.pending id with
  | none => (none, w)
  | some pl =>
    if pl.expiresAt < w.now then (none, { w with pending := Function.update w.pending id none })
    else (some pl, w)

/-- `PendingLoginStore.MarkFailed`. -/
def World.pendingMarkFailed (id : String) (w : World) : World :=
  match w.pending id with
  | none => w
  | some pl =>
    { w with
      pending := Function.update w.pending id
        (if pendingMaxAttempts ≤ pl.failedAttempts + 1 then none
         else some { pl with failedAttempts := pl.failedAttempts + 1 }) }

/-- `PendingLoginStore.Delete`. -/
def World.pendingDelete (id : String) (w : World) : World :=
  { w with pending := Function.update w.pending id none }

/-- A ceremony has expired. -/
def Ceremony.expired (now : Nat) (c : Ceremony) : Bool :=
  match c.data.expires with
  | none => false
  | some t => t < now

/-- `WebAuthnService.BeginLogin`: start a ceremony and keep the payload beside it. -/
def World.beginLogin (P : Params) (user : WebAuthnUser) (payload : String) (w : World) :
    Res String × World :=
  match P.waBeginLogin user w.fresh with
  | .error e => (.error { text := "begin login: " ++ e.text }, { w with fresh := w.fresh + 1 })
  | .ok data =>
    (.ok (P.uuid (w.fresh + 1)), { w with
      fresh := w.fresh + 2
      ceremonies := Function.update w.ceremonies (P.uuid (w.fresh + 1)) (some ⟨data, payload⟩) })

/-- `WebAuthnService.PeekLoginPayload`. -/
def World.peekLoginPayload (id : String) (w : World) : Option String :=
  match w.ceremonies id with
  | none => none
  | some c => if c.expired w.now then none else some c.payload

/-- `WebAuthnService.FinishLogin`: take the ceremony, then verify the assertion. -/
def World.finishLogin (P : Params) (user : WebAuthnUser) (id assertion : String) (w : World) :
    Res Credential × World :=
  match w.ceremonies id with
  | none => (.error { text := "webauthn ceremony not found or expired" }, w)
  | some c =>
    let w' := { w with ceremonies := Function.update w.ceremonies id none }
    if c.expired w.now then (.error { text := "webauthn ceremony not found or expired" }, w')
    else match P.waFinishLogin user c.data assertion with
      | none => (.error { text := "finish login" }, w')
      | some cred => (.ok cred, w')

/-! ## Sessions -/

/-- `MemoryStore.Create`. -/
def World.sessionCreate (P : Params) (s : Session) (dek : Nat) (w : World) : Session × World :=
  let w' := if s.id = "" then { w with fresh := w.fresh + 1 } else w
  let s' := { s with id := if s.id = "" then P.uuid w.fresh else s.id, dek := dek }
  (s', { w' with sessions := Function.update w.sessions s'.id (some s') })

/-- `sess.Accounts`, as every request of the session sees it. -/
def World.sessionAccounts (id : String) (w : World) : List Account :=
  match w.sessions id with
  | none => []
  | some s => s.accounts

/-- `sess.Accounts = accounts`. -/
def World.setSessionAccounts (id : String) (accounts : List Account) (w : World) : World :=
  { w with
    sessions := Function.update w.sessions id
      ((w.sessions id).map fun s => { s with accounts := accounts }) }

/-! ## The signature -/

/-- The calls. -/
inductive Op where
  | tick (seconds : Nat)
  | blocked (key : String) (maxFailures window : Nat)
  | recordFailure (key : String)
  | resetFailures (key : String)
  | imapLogin (cfg : ConnectionConfig)
  | generateSalt
  | generateDEK
  | encrypt (key : Key) (plaintext : String)
  | wrapDEK (key : Key) (dek : Nat)
  | getUserCredential (owner : String)
  | createUserCredential (c : UserCredential)
  | updateUserCredential (c : UserCredential)
  | getTwoFA (owner : String)
  | saveTwoFA (t : TwoFA)
  | deleteTwoFA (owner : String)
  | countWebAuthn (owner : String)
  | listWebAuthn (owner : String)
  | createWebAuthn (c : WebAuthnCredential)
  | updateWebAuthn (owner credID credJSON : String)
  | deleteWebAuthn (owner credID : String)
  | listAccounts (owner : String) (dek : Nat)
  | getAccount (owner id : String) (dek : Nat)
  | countAccounts (owner : String)
  | createAccount (a : Account) (dek : Nat)
  | updateAccount (a : Account) (dek : Nat)
  | deleteAccount (owner id : String)
  | clearDefaults (owner : String)
  | markDefault (owner id : String)
  | pendingCreate (pl : PendingLogin)
  | pendingGet (id : String)
  | pendingMarkFailed (id : String)
  | pendingDelete (id : String)
  | beginLogin (user : WebAuthnUser) (payload : String)
  | peekLoginPayload (id : String)
  | finishLogin (user : WebAuthnUser) (id assertion : String)
  | validateCode (secret code : String)
  | sessionCreate (s : Session) (dek : Nat)
  | sessionAccounts (id : String)
  | setSessionAccounts (id : String) (accounts : List Account)
  | userDN (email : String)
  | verifyUserBind (dn password : String)
  | ldapChangePassword (dn password : String)
  deriving DecidableEq

/-- The type of a call's answer. -/
@[reducible] def Ans : Op → Type
  | .tick _ | .recordFailure _ | .resetFailures _ | .pendingMarkFailed _ | .pendingDelete _
  | .setSessionAccounts _ _ => Unit
  | .blocked _ _ _ | .validateCode _ _ => Bool
  | .imapLogin _ | .createUserCredential _ | .updateUserCredential _ | .saveTwoFA _
  | .deleteTwoFA _ | .createWebAuthn _ | .updateWebAuthn _ _ _ | .deleteWebAuthn _ _
  | .deleteAccount _ _ | .clearDefaults _ | .verifyUserBind _ _
  | .ldapChangePassword _ _ => Res Unit
  | .generateSalt | .generateDEK | .countWebAuthn _ | .countAccounts _ => Res Nat
  | .encrypt _ _ => Res (Box String)
  | .wrapDEK _ _ => Res (Box Nat)
  | .getUserCredential _ => Res (Option UserCredential)
  | .getTwoFA _ => Res (Option TwoFA)
  | .listWebAuthn _ => Res (List WebAuthnCredential)
  | .listAccounts _ _ => Res (List Account)
  | .getAccount _ _ _ => Res (Option Account)
  | .createAccount _ _ | .updateAccount _ _ => Res Account
  | .markDefault _ _ => Res Bool
  | .pendingCreate _ => String
  | .pendingGet _ => Option PendingLogin
  | .beginLogin _ _ | .userDN _ => Res String
  | .peekLoginPayload _ => Option String
  | .finishLogin _ _ _ => Res Credential
  | .sessionCreate _ _ => Res Session
  | .sessionAccounts _ => List Account

/-- Draw from the random supply. -/
def World.draw (w : World) : Nat × World := (w.fresh, { w with fresh := w.fresh + 1 })

/-- What a call does when nothing fails. -/
def exec (P : Params) : (o : Op) → World → Ans o × World
  | .tick d, w => ((), { w with now := w.now + d })
  | .blocked key n window, w => w.blocked key n window
  | .recordFailure key, w => ((), w.recordFailure key)
  | .resetFailures key, w => ((), w.reset key)
  | .imapLogin cfg, w => (if w.imapAccepts cfg then .ok () else .error { text := "login failed" }, w)
  | .generateSalt, w => (.ok w.draw.1, w.draw.2)
  | .generateDEK, w => (.ok w.draw.1, w.draw.2)
  | .encrypt key s, w => (.ok ⟨key, w.draw.1, s⟩, w.draw.2)
  | .wrapDEK key dek, w => (.ok ⟨key, w.draw.1, dek⟩, w.draw.2)
  | .getUserCredential owner, w =>
    (.ok ((w.users (P.ownerID owner)).map fun c => { c with userEmail := owner }), w)
  | .createUserCredential c, w => w.createUserCredential P c
  | .updateUserCredential c, w => w.updateUserCredential P c
  | .getTwoFA owner, w => (.ok (w.getTwoFA P owner), w)
  | .saveTwoFA t, w => w.saveTwoFA P t
  | .deleteTwoFA owner, w => (.ok (), w.deleteTwoFA P owner)
  | .countWebAuthn owner, w => (.ok (w.passkeysOf P owner).length, w)
  | .listWebAuthn owner, w => (.ok (w.passkeysOf P owner), w)
  | .createWebAuthn c, w => w.createWebAuthnCredential c
  | .updateWebAuthn owner i j, w => (.ok (), w.updateWebAuthnCredential P owner i j)
  | .deleteWebAuthn owner i, w => (.ok (), w.deleteWebAuthnCredential P owner i)
  | .listAccounts owner dek, w => (w.listAccounts P owner dek, w)
  | .getAccount owner i dek, w => (w.getAccount P owner i dek, w)
  | .countAccounts owner, w => (.ok (w.countAccounts P owner), w)
  | .createAccount a dek, w => w.createAccount P a dek
  | .updateAccount a dek, w => w.updateAccount P a dek
  | .deleteAccount owner i, w => (.ok (), w.deleteAccount P owner i)
  | .clearDefaults owner, w => (.ok (), w.clearDefaults P owner)
  | .markDefault owner i, w => (.ok (w.markDefault P owner i).1, (w.markDefault P owner i).2)
  | .pendingCreate pl, w => w.pendingCreate P pl
  | .pendingGet i, w => w.pendingGet i
  | .pendingMarkFailed i, w => ((), w.pendingMarkFailed i)
  | .pendingDelete i, w => ((), w.pendingDelete i)
  | .beginLogin u payload, w => w.beginLogin P u payload
  | .peekLoginPayload i, w => (w.peekLoginPayload i, w)
  | .finishLogin u i a, w => w.finishLogin P u i a
  | .validateCode secret code, w =>
    (!(secret == "") && !(code == "") && P.totpValidate w.now secret (trimSpace code), w)
  | .sessionCreate s dek, w => (.ok (w.sessionCreate P s dek).1, (w.sessionCreate P s dek).2)
  | .sessionAccounts i, w => (w.sessionAccounts i, w)
  | .setSessionAccounts i accs, w => ((), w.setSessionAccounts i accs)
  | .userDN email, w => (P.userDN email, w)
  | .verifyUserBind dn pw, w =>
    (if w.ldap dn = some pw then .ok ()
     else .error { invalidCredentials := true, text := "ldap: invalid credentials" }, w)
  | .ldapChangePassword dn pw, w =>
    (.ok (), { w with ldap := Function.update w.ldap dn (some pw) })

/-- What a fallible call answers when it fails with `e`; `none` for the calls that cannot fail. -/
def failWith (e : Err) : (o : Op) → Option (Ans o)
  | .tick _ | .recordFailure _ | .resetFailures _ | .pendingMarkFailed _ | .pendingDelete _
  | .setSessionAccounts _ _ | .blocked _ _ _ | .validateCode _ _ | .pendingCreate _
  | .pendingGet _ | .peekLoginPayload _ | .sessionAccounts _ => none
  | .imapLogin _ | .createUserCredential _ | .updateUserCredential _ | .saveTwoFA _
  | .deleteTwoFA _ | .createWebAuthn _ | .updateWebAuthn _ _ _ | .deleteWebAuthn _ _
  | .updateAccount _ _ | .deleteAccount _ _ | .clearDefaults _ | .verifyUserBind _ _
  | .ldapChangePassword _ _ | .generateSalt | .generateDEK | .countWebAuthn _ | .countAccounts _
  | .encrypt _ _ | .wrapDEK _ _ | .getUserCredential _ | .getTwoFA _ | .listWebAuthn _
  | .listAccounts _ _ | .getAccount _ _ _ | .createAccount _ _ | .markDefault _ _
  | .beginLogin _ _ | .userDN _ | .finishLogin _ _ _ | .sessionCreate _ _ => some (.error e)

/-- Writers of the SQLite store take its lock. -/
def takesLock : Op → Bool
  | .createUserCredential _ | .updateUserCredential _ | .saveTwoFA _ | .deleteTwoFA _
  | .createWebAuthn _ | .updateWebAuthn _ _ _ | .deleteWebAuthn _ _ | .createAccount _ _
  | .updateAccount _ _ | .deleteAccount _ _ | .clearDefaults _ => true
  | _ => false

/-- A call can go ahead: a writer waits while the lock is held. -/
def enabled (o : Op) (w : World) : Prop := takesLock o = true → w.mu = false

instance (o : Op) (w : World) : Decidable (enabled o w) := by unfold enabled; infer_instance

/-- What is left of the world when a call fails: nothing changes, but a failing
second statement of `SetDefaultAccount` also returns from it. -/
def afterFailure : Op → World → World
  | .markDefault _ _, w => { w with mu := false }
  | _, w => w

/-- A call does what `exec` says, or fails and changes nothing. -/
def sem (P : Params) : Sem World Op Ans := fun o w r w' =>
  enabled o w ∧ ((r, w') = exec P o w ∨ ∃ e, failWith e o = some r ∧ w' = afterFailure o w)

/-- A call under a fault pattern: the calls `fails` names fail, the others do not. -/
def execFaulty (P : Params) (fails : Op → Bool) (o : Op) (w : World) : Option (Ans o × World) :=
  if enabled o w then
    if fails o then (failWith { text := "fault" } o).map fun r => (r, afterFailure o w)
    else some (exec P o w)
  else none

theorem sem_of_execFaulty {P : Params} {fails : Op → Bool} {o : Op} {w w' : World} {r : Ans o}
    (h : execFaulty P fails o w = some (r, w')) : sem P o w r w' := by
  unfold execFaulty at h
  split at h
  · rename_i hen
    refine ⟨hen, ?_⟩
    split at h
    · obtain ⟨r', hr, heq⟩ := Option.map_eq_some_iff.mp h
      cases heq
      exact .inr ⟨_, hr, rfl⟩
    · exact .inl (Option.some.inj h).symm
  · cases h

/-- A request handler: a program over the calls. -/
abbrev Handler (α : Type) : Type := Prog Op Ans α

/-- A handler that makes one call. -/
abbrev call (o : Op) : Handler (Ans o) := Prog.perform o

end E2Mail.Backend
