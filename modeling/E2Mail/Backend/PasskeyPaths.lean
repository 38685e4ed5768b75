import E2Mail.Backend.Ceremonies

/-!
# The paths through the passkey handlers

What a request has behind it when it begins a ceremony or stores a passkey.
Each is a statement about the request's own calls and their answers, so it holds
however the request is interleaved with others.

* `BeginGrounds` — a ceremony is begun for the owner of the session, or for the
  owner of a pending login;
* `StoreGrounds` — a passkey is stored for the owner of the session, after its
  attestation was verified, and it is the first the request stores;
* `RenewGrounds` — a record is written back for the owner of a pending login,
  after an assertion was verified with it;
* `PasskeyRule` — these together; every request keeps it (`passkeyRule_prog`).
-/

namespace E2Mail.Backend

open Lib

/-! ## Grounds -/

/-- The request that begins a ceremony for the owner column `key`. -/
def BeginGrounds (P : Params) (req : SiteRequest) (key : String)
    (h : List (Event SiteOp SiteAns)) : SiteOp → Prop
  | .inr (.beginRegistration _) =>
    ∃ ctx, req = .registerBegin (some ctx) ∧ key = P.ownerID (P.normalizeEmail ctx.email)
  | .inl (.beginLogin _ payload) =>
    ∃ ip pl, req = .backend (.webAuthnLoginBegin ip (.ok payload)) ∧ payload ≠ "" ∧
      ⟨.inl (.pendingGet payload), some pl⟩ ∈ h ∧ key = P.ownerID (P.normalizeEmail pl.email)
  | _ => True

/-- The user a call begins a ceremony for. -/
def beginningUser : SiteOp → Option WebAuthnUser
  | .inr (.beginRegistration user) => some user
  | .inl (.beginLogin user _) => some user
  | _ => none

/-- Calls that change the table behind the handlers' back. -/
def SiteOp.byHand : SiteOp → Bool
  | .inl (.createWebAuthn _) | .inl (.deleteWebAuthn _ _) => true
  | _ => false

/-- The call stores a passkey. -/
def storesPasskey : SiteOp → Bool
  | .inr (.createPasskey _ _) => true
  | _ => false

/-- What a request has behind it when it stores the passkey `c` under `name`. -/
def StoreGrounds (P : Params) (R : Registration) (req : SiteRequest) (c : WebAuthnCredential)
    (name : List UInt8) (h : List (Event SiteOp SiteAns)) : Prop :=
  ∃ ctx id given response user cred, req = .registerFinish (some ctx) id given response ∧
    user.id = P.ownerID (P.normalizeEmail ctx.email) ∧
    ⟨.inr (.finishRegistration user id response), .ok cred⟩ ∈ h ∧
    c = ⟨P.normalizeEmail ctx.email, cred.id, cred.json⟩ ∧ name = newPasskeyName R given cred ∧
    ∀ v ∈ h, storesPasskey v.1 = false

/-- The user `loadWebAuthnUser` makes of the rows it has read. -/
def Params.userOf (P : Params) (owner : String) (stored : List WebAuthnCredential) : WebAuthnUser :=
  ⟨P.ownerID owner, owner, stored.filterMap fun s => P.parseCredential s.credentialJSON⟩

/-- What `WebAuthnLoginVerify` has behind it when it writes a record back. -/
def RenewGrounds (P : Params) (req : Request) (owner credID credJSON : String)
    (h : List (Event Op Ans)) : Prop :=
  ∃ ip ceremonyID assertion pendingID pl stored,
    req = .webAuthnLoginVerify ip ceremonyID assertion ∧ pendingID ≠ "" ∧
    ⟨.peekLoginPayload ceremonyID, some pendingID⟩ ∈ h ∧ ⟨.pendingGet pendingID, some pl⟩ ∈ h ∧
    owner = P.normalizeEmail pl.email ∧ ⟨.listWebAuthn owner, .ok stored⟩ ∈ h ∧
    ⟨.finishLogin (P.userOf owner stored) ceremonyID assertion, .ok ⟨credID, credJSON⟩⟩ ∈ h

/-- What holds at each call of a request. -/
structure PasskeyRule (P : Params) (R : Registration) (req : SiteRequest)
    (h : List (Event SiteOp SiteAns)) (o : SiteOp) : Prop where
  begins : ∀ user, beginningUser o = some user → BeginGrounds P req user.id h o
  stores : ∀ c name, o = .inr (.createPasskey c name) → StoreGrounds P R req c name h
  finishes : ∀ user ceremonyID assertion, o = .inl (.finishLogin user ceremonyID assertion) →
    ∃ owner stored, ⟨.inl (.listWebAuthn owner), .ok stored⟩ ∈ h ∧ user = P.userOf owner stored
  renews : ∀ owner credID credJSON, o = .inl (.updateWebAuthn owner credID credJSON) →
    ∃ breq, req = .backend breq ∧ RenewGrounds P breq owner credID credJSON (lefts h)
  renames : ∀ owner credID name, o = .inr (.renamePasskey owner credID name) →
    ∃ ctx given, req = .rename (some ctx) credID (.ok given) ∧ owner = P.normalizeEmail ctx.email ∧
      name = trimPasskeyName given ∧ name ≠ []
  drops : ∀ owner credID, o = .inr (.deletePasskey owner credID) →
    ∃ ctx, req = .delete (some ctx) credID ∧ owner = P.normalizeEmail ctx.email
  notByHand : SiteOp.byHand o = false

variable {P : Params} {R : Registration}

/-! ## The backend's handlers -/

/-- Calls of the backend that neither begin nor finish a ceremony, nor write passkeys. -/
def Op.sparesKeys : Op → Bool
  | beginLogin _ _ | finishLogin _ _ _ | createWebAuthn _ | updateWebAuthn _ _ _ | deleteWebAuthn _ _ => false
  | _ => true

/-- The program makes such calls only. -/
def Plain {α : Type} (p : Handler α) : Prop := p.Only fun o => o.sparesKeys = true

section Plain

variable {α β : Type}

theorem Plain.pure (a : α) : Plain (pure a : Handler α) := trivial

theorem Plain.step {o : Op} {f : Ans o → Handler α} (ho : o.sparesKeys = true) (hf : ∀ r, Plain (f r)) :
    Plain (call o >>= f) := ⟨ho, hf⟩

theorem Plain.bind {p : Handler α} {f : α → Handler β} (hp : Plain p) (hf : ∀ a, Plain (f a)) :
    Plain (p >>= f) := Prog.Only.bind hp hf

/-- A program without passkeys and ceremonies is plain. -/
theorem Plain.of_uses {ps : List Part} {p : Handler α} (hp : Uses ps p) (hkeys : Part.passkeys ∉ ps)
    (hcer : Part.ceremonies ∉ ps) : Plain p := by
  refine Prog.Only.mono hp fun o ho => ?_
  have hmem := List.contains_iff_mem.mp ho
  cases o with
  | beginLogin user payload => exact absurd hmem hcer
  | finishLogin user ceremonyID assertion => exact absurd hmem hcer
  | createWebAuthn c => exact absurd hmem hkeys
  | updateWebAuthn owner credID credJSON => exact absurd hmem hkeys
  | deleteWebAuthn owner credID => exact absurd hmem hkeys
  | _ => rfl

theorem plain_anyBlocked (ipKey : String) (ipMax : Nat) (emailKey : Option String)
    (emailMax window : Nat) : Plain (anyBlocked ipKey ipMax emailKey emailMax window) :=
  .of_uses (uses_anyBlocked _ _ _ _ _) (by simp) (by simp)

theorem plain_recordFailures (ipKey : String) (emailKey : Option String) (resp : Resp) :
    Plain (onBothKeys recordFailure ipKey emailKey >>= fun _ => pure resp) :=
  .bind (.of_uses (uses_onBothKeys uses_recordFailure _ _) (by simp) (by simp)) fun _ => .pure _

theorem plain_resetFailures (ipKey : String) (emailKey : Option String) :
    Plain (onBothKeys resetFailures ipKey emailKey) :=
  .of_uses (uses_onBothKeys uses_resetFailures _ _) (by simp) (by simp)

theorem plain_resolveCredential (ownerEmail masterPassword : String) :
    Plain (resolveCredential ownerEmail masterPassword) :=
  .of_uses (uses_resolveCredential _ _) (by simp) (by simp)

theorem plain_maybeMigrateTwoFA (P : Params) (ownerEmail : String) (dek : Nat) :
    Plain (maybeMigrateTwoFA P ownerEmail dek) :=
  .of_uses (uses_maybeMigrateTwoFA P _ _) (by simp) (by simp)

theorem plain_ensureFirstAccount (P : Params) (ownerEmail : String) (pl : PendingLogin) (dek : Nat) :
    Plain (ensureFirstAccount P ownerEmail pl dek) :=
  .of_uses (uses_ensureFirstAccount P _ _ _) (by simp) (by simp)

theorem plain_completeLogin (P : Params) (ip : String) (pl : PendingLogin) (challenge : String) :
    Plain (completeLogin P ip pl challenge) := by
  refine .bind (plain_resolveCredential _ _) fun r => ?_
  rcases r with e | ⟨cred, dek⟩
  · exact .pure _
  refine .bind (plain_maybeMigrateTwoFA P _ dek) fun _ => ?_
  refine .bind (plain_ensureFirstAccount P _ pl dek) fun r => ?_
  rcases r with resp | accounts
  · exact .pure _
  refine .step rfl fun r => ?_
  rcases r with e | sess
  · exact .pure _
  refine .step rfl fun _ => ?_
  exact .bind (plain_resetFailures _ _) fun _ => .bind (plain_resetFailures _ _) fun _ => .pure _

theorem plain_loginWithPassword (P : Params) (ip ownerEmail : String) (pl : PendingLogin) :
    Plain (loginWithPassword P ip ownerEmail pl) := by
  refine .bind (plain_resolveCredential _ _) fun r => ?_
  rcases r with e | ⟨cred, dek⟩
  · exact .pure _
  refine .bind (plain_ensureFirstAccount P _ pl dek) fun r => ?_
  rcases r with resp | accounts
  · exact .pure _
  refine .bind (plain_maybeMigrateTwoFA P _ dek) fun _ => ?_
  refine .step rfl fun r => ?_
  rcases r with e | sess
  · exact .pure _
  exact .bind (plain_resetFailures _ _) fun _ => .pure _

theorem plain_login (P : Params) (ip : String) (body : Except BodyErr LoginRequest) :
    Plain (login P ip body) := by
  rcases body with e | req
  · exact .pure _
  simp only [login]
  split
  · exact .pure _
  refine .bind (plain_anyBlocked _ _ _ _ _) fun b => ?_
  cases b with
  | true => exact .pure _
  | false =>
    refine .step rfl fun r => ?_
    rcases r with e | ⟨⟩
    · exact plain_recordFailures _ _ _
    refine .step rfl fun r => .step rfl fun r' => ?_
    split
    · exact .step rfl fun _ => .pure _
    · exact plain_loginWithPassword P ip _ _

theorem plain_verifyCode (P : Params) (ip : String) (req : Verify2FARequest) (pl : PendingLogin)
    (t : TwoFA) : Plain (verifyCode P ip req pl t) := by
  refine .bind (.of_uses (uses_totpSecret P _ pl t) (by simp) (by simp)) fun secret => ?_
  refine .step rfl fun ok => ?_
  split
  · exact plain_completeLogin P ip pl _
  · split
    · exact .step rfl fun _ => plain_completeLogin P ip pl _
    · exact .step rfl fun _ => plain_recordFailures _ _ _

theorem plain_verify2FA (P : Params) (ip : String) (body : Except BodyErr Verify2FARequest) :
    Plain (verify2FA P ip body) := by
  rcases body with e | req
  · exact .pure _
  simp only [verify2FA]
  split
  · exact .pure _
  refine .step rfl fun pl? => ?_
  refine .bind (plain_anyBlocked _ _ _ _ _) fun b => ?_
  cases b with
  | true => exact .pure _
  | false =>
    rcases pl? with _ | pl
    · exact plain_recordFailures _ _ _
    refine .step rfl fun r => ?_
    rcases r with e | _ | t
    · exact .pure _
    · exact .step rfl fun _ => .pure _
    · exact plain_verifyCode P ip req pl t

end Plain

/-- The rule for the backend's calls, before they are calls of the whole system. -/
structure GateRule (P : Params) (req : Request) (h : List (Event Op Ans)) (o : Op) : Prop where
  begins : ∀ user payload, o = .beginLogin user payload →
    ∃ ip pl, req = .webAuthnLoginBegin ip (.ok payload) ∧ payload ≠ "" ∧
      ⟨.pendingGet payload, some pl⟩ ∈ h ∧ user.id = P.ownerID (P.normalizeEmail pl.email)
  finishes : ∀ user ceremonyID assertion, o = .finishLogin user ceremonyID assertion →
    ∃ owner stored, ⟨.listWebAuthn owner, .ok stored⟩ ∈ h ∧ user = P.userOf owner stored
  renews : ∀ owner credID credJSON, o = .updateWebAuthn owner credID credJSON →
    RenewGrounds P req owner credID credJSON h
  notByHand : SiteOp.byHand (.inl o) = false

theorem GateRule.of_plain {req : Request} {h : List (Event Op Ans)} {o : Op} (ho : o.sparesKeys = true) :
    GateRule P req h o where
  begins user payload heq := by
    rw [heq] at ho
    cases ho
  finishes user ceremonyID assertion heq := by
    rw [heq] at ho
    cases ho
  renews owner credID credJSON heq := by
    rw [heq] at ho
    cases ho
  notByHand := by
    cases o with
    | createWebAuthn c => cases ho
    | deleteWebAuthn owner credID => cases ho
    | _ => rfl

theorem Plain.along {α : Type} {req : Request} {p : Handler α} {h : List (Event Op Ans)}
    (hp : Plain p) : Along (GateRule P req) (fun _ _ => True) p h :=
  Along.of_only (I := fun _ => True) hp trivial (fun _ _ _ _ _ => trivial)
    fun _ _ ho _ => .of_plain ho

/-- `WebAuthnLoginBegin` begins a ceremony for the owner of the pending login it has read. -/
theorem along_webAuthnLoginBegin (P : Params) (ip : String) (body : Except BodyErr String) :
    Along (GateRule P (.webAuthnLoginBegin ip body)) (fun _ _ => True)
      (webAuthnLoginBegin P ip body) [] := by
  unfold webAuthnLoginBegin
  split
  · trivial
  rcases body with e | challenge
  · trivial
  dsimp only
  split
  · trivial
  rename_i hempty
  refine Along.step (.of_plain rfl) fun pl? => ?_
  rcases pl? with _ | pl
  · trivial
  have hread : Along (GateRule P (.webAuthnLoginBegin ip (.ok challenge)))
      (fun h _ => ⟨.pendingGet challenge, some pl⟩ ∈ h) (webauthnBlocked P ip pl.email)
      ([] ++ [⟨.pendingGet challenge, some pl⟩]) :=
    Along.of_only (plain_anyBlocked _ _ _ _ _) (by simp)
      (fun _ _ _ _ hmem => List.mem_append_left _ hmem) fun _ _ ho _ => .of_plain ho
  refine along_bind hread fun h b hmem => ?_
  cases b with
  | true => trivial
  | false =>
    refine Along.step (.of_plain rfl) fun r => ?_
    rcases r with e | stored
    · trivial
    refine Along.step ⟨?_, nofun, nofun, rfl⟩ fun r => ?_
    · intro user payload heq
      obtain ⟨rfl, rfl⟩ := Op.beginLogin.inj heq
      exact ⟨ip, pl, rfl, hempty, List.mem_append_left _ hmem, rfl⟩
    · rcases r with e | ceremonyID <;> trivial

/-- `WebAuthnLoginVerify` writes back the record that its assertion was verified with. -/
theorem along_renewal (P : Params) (ip ceremonyID assertion : String) :
    Along (GateRule P (.webAuthnLoginVerify ip ceremonyID assertion)) (fun _ _ => True)
      (webAuthnLoginVerify P ip ceremonyID assertion) [] := by
  unfold webAuthnLoginVerify
  split
  · trivial
  split
  · trivial
  refine Along.step (.of_plain rfl) fun pid? => ?_
  rcases pid? with _ | pendingID
  · trivial
  dsimp only
  split
  · trivial
  rename_i hempty
  refine Along.step (.of_plain rfl) fun pl? => ?_
  rcases pl? with _ | pl
  · trivial
  have hread : Along (GateRule P (.webAuthnLoginVerify ip ceremonyID assertion))
      (fun h _ => ⟨.peekLoginPayload ceremonyID, some pendingID⟩ ∈ h ∧
        ⟨.pendingGet pendingID, some pl⟩ ∈ h) (webauthnBlocked P ip pl.email)
      ([] ++ [⟨.peekLoginPayload ceremonyID, some pendingID⟩] ++ [⟨.pendingGet pendingID, some pl⟩]) :=
    Along.of_only (plain_anyBlocked _ _ _ _ _) (by simp)
      (fun _ _ _ _ hmem => ⟨List.mem_append_left _ hmem.1, List.mem_append_left _ hmem.2⟩)
      fun _ _ ho _ => .of_plain ho
  refine along_bind hread fun h b hmem => ?_
  cases b with
  | true => trivial
  | false =>
    obtain ⟨hpeek, hget⟩ := hmem
    refine Along.step (.of_plain rfl) fun r => ?_
    rcases r with e | stored
    · trivial
    refine Along.step ⟨nofun, ?_, nofun, rfl⟩ fun r => ?_
    · intro user ceremonyID' assertion' heq
      obtain ⟨rfl, rfl, rfl⟩ := Op.finishLogin.inj heq
      exact ⟨_, stored, by simp, rfl⟩
    rcases r with e | cred
    · exact (plain_recordFailures _ _ _).along
    refine Along.step ⟨nofun, nofun, ?_, rfl⟩ fun r => ?_
    · intro owner credID credJSON heq
      obtain ⟨rfl, rfl, rfl⟩ := Op.updateWebAuthn.inj heq
      exact ⟨ip, ceremonyID, assertion, pendingID, pl, stored, rfl, hempty, by simp [hpeek],
        by simp [hget], rfl, by simp, by simp [Params.userOf]⟩
    · refine Plain.along (.bind (plain_resetFailures _ _) fun _ => ?_)
      exact plain_completeLogin P ip pl _

/-- Every request of the backend keeps the rule, unless it changes the table by hand. -/
theorem gateRule_prog (P : Params) (req : Request)
    (hreq : (SiteRequest.backend req).handled = true) :
    Along (GateRule P req) (fun _ _ => True) (req.prog P) [] := by
  cases req with
  | login ip body => exact (plain_login P ip body).along
  | verify2FA ip body => exact (plain_verify2FA P ip body).along
  | webAuthnLoginBegin ip body => exact along_webAuthnLoginBegin P ip body
  | webAuthnLoginVerify ip ceremonyID assertion =>
    exact along_renewal P ip ceremonyID assertion
  | changePassword ctx body =>
    exact (Plain.of_uses (uses_changePassword P ctx body) (by decide) (by decide)).along
  | createAccount ctx body =>
    exact (Plain.of_uses (uses_createAccount ctx body) (by decide) (by decide)).along
  | updateAccount ctx id body =>
    exact (Plain.of_uses (uses_updateAccount ctx id body) (by decide) (by decide)).along
  | deleteAccount ctx id =>
    exact (Plain.of_uses (uses_deleteAccount ctx id) (by decide) (by decide)).along
  | setDefaultAccount ctx id =>
    exact (Plain.of_uses (uses_setDefaultAccount ctx id) (by decide) (by decide)).along
  | env step =>
    refine Along.step (.of_plain ?_) fun _ => trivial
    cases step with
    | createWebAuthn c => cases hreq
    | deleteWebAuthn owner credID => cases hreq
    | _ => rfl

/-! ## The passkey handlers -/

section PasskeyRule

variable {req : SiteRequest} {h : List (Event SiteOp SiteAns)}

/-- The calls of these handlers that the rule says nothing about. -/
def KeyOp.idle : KeyOp → Bool
  | finishRegistration _ _ _ | listPasskeys _ | sweepCeremonies => true
  | _ => false

theorem PasskeyRule.idle {o : KeyOp} (ho : o.idle = true) : PasskeyRule P R req h (.inr o) where
  begins user huser := by
    cases o with
    | beginRegistration user' => cases ho
    | _ => cases huser
  stores c name heq := by
    cases heq
    cases ho
  finishes user ceremonyID assertion heq := nomatch heq
  renews owner credID credJSON heq := nomatch heq
  renames owner credID name heq := by
    cases heq
    cases ho
  drops owner credID heq := by
    cases heq
    cases ho
  notByHand := rfl

/-- A call of the backend that the rule says nothing about. -/
theorem PasskeyRule.plain {o : Op} (ho : o.sparesKeys = true) : PasskeyRule P R req h (.inl o) where
  begins user huser := by
    cases o with
    | beginLogin user' payload => cases ho
    | _ => cases huser
  stores c name heq := nomatch heq
  finishes user ceremonyID assertion heq := by
    cases heq
    cases ho
  renews owner credID credJSON heq := by
    cases heq
    cases ho
  renames owner credID name heq := nomatch heq
  drops owner credID heq := nomatch heq
  notByHand := by
    cases o with
    | createWebAuthn c => cases ho
    | deleteWebAuthn owner credID => cases ho
    | _ => rfl

/-- A handler of the backend keeps the rule in the whole system. -/
theorem along_backend {breq : Request} (hreq : (SiteRequest.backend breq).handled = true) :
    Along (PasskeyRule P R (.backend breq)) (fun _ _ => True)
      ((SiteRequest.backend breq).prog P R) [] := by
  refine along_bind (R := fun _ _ => True) ?_ fun _ _ _ => trivial
  refine Along.mono (fun h o ho => ?_) (fun _ _ hq => hq)
    (Along.left (h := []) (gateRule_prog P breq hreq))
  obtain ⟨o₁, rfl, hgate⟩ := ho
  refine ⟨fun user huser => ?_, nofun, fun user ceremonyID assertion heq => ?_,
    fun owner credID credJSON heq =>
      ⟨breq, rfl, hgate.renews owner credID credJSON (Sum.inl.inj heq)⟩,
    nofun, nofun, hgate.notByHand⟩
  swap
  · obtain ⟨owner, stored, hlist, huser⟩ := hgate.finishes user ceremonyID assertion (Sum.inl.inj heq)
    exact ⟨owner, stored, mem_lefts.mp hlist, huser⟩
  cases o₁ with
  | beginLogin user' payload =>
    obtain rfl := Option.some.inj huser
    obtain ⟨ip, pl, rfl, hne, hmem, hid⟩ := hgate.begins user' payload rfl
    exact ⟨ip, pl, rfl, hne, mem_lefts.mp hmem, hid⟩
  | _ => cases huser

/-- Reading the session owner's passkeys. -/
theorem along_loadWebAuthnUser {email : String} {f : Res WebAuthnUser → SiteHandler SiteResp}
    (herror : ∀ e h, Along (PasskeyRule P R req) (fun _ _ => True) (f (.error e)) h)
    (hok : ∀ user stored, user.id = P.ownerID email →
      Along (PasskeyRule P R req) (fun _ _ => True) (f (.ok user))
        (h ++ [⟨.inl (.listWebAuthn email), .ok stored⟩])) :
    Along (PasskeyRule P R req) (fun _ _ => True) ((loadWebAuthnUser P email).left >>= f) h := by
  refine ⟨.plain rfl, fun r => ?_⟩
  rcases r with e | stored
  · exact herror e _
  · exact hok _ stored rfl

theorem along_webAuthnRegisterBegin (sess : Option AuthContext) :
    Along (PasskeyRule P R (.registerBegin sess)) (fun _ _ => True) (webAuthnRegisterBegin P sess) [] := by
  rcases sess with _ | ctx
  · trivial
  simp only [webAuthnRegisterBegin]
  split
  · trivial
  refine along_loadWebAuthnUser (fun _ _ => trivial) fun user stored hid => ?_
  refine Along.step ⟨?_, nofun, nofun, nofun, nofun, nofun, rfl⟩ fun r => ?_
  · intro user' heq
    obtain rfl := Option.some.inj heq
    exact ⟨ctx, rfl, hid⟩
  · rcases r with e | challengeID <;> trivial

theorem along_webAuthnRegisterFinish (sess : Option AuthContext) (id : String) (name : List UInt8)
    (response : String) :
    Along (PasskeyRule P R (.registerFinish sess id name response)) (fun _ _ => True)
      (webAuthnRegisterFinish P R sess id name response) [] := by
  rcases sess with _ | ctx
  · trivial
  simp only [webAuthnRegisterFinish]
  split
  · trivial
  split
  · trivial
  refine along_loadWebAuthnUser (fun _ _ => trivial) fun user stored hid => ?_
  refine Along.step (.idle rfl) fun r => ?_
  rcases r with e | cred
  · trivial
  refine Along.step ⟨nofun, ?_, nofun, nofun, nofun, nofun, rfl⟩ fun r => ?_
  · intro c name' heq
    obtain ⟨rfl, rfl⟩ := KeyOp.createPasskey.inj (Sum.inr.inj heq)
    refine ⟨ctx, id, name, response, user, cred, rfl, hid, by simp, rfl, rfl, ?_⟩
    simp [storesPasskey]
  · rcases r with e | stored <;> trivial

/-- **Every request keeps the rule**, whatever its calls answer. -/
theorem passkeyRule_prog (P : Params) (R : Registration) (req : SiteRequest) (hreq : req.handled = true) :
    Along (PasskeyRule P R req) (fun _ _ => True) (req.prog P R) [] := by
  cases req with
  | backend breq => exact along_backend hreq
  | list sess =>
    rcases sess with _ | ctx
    · trivial
    refine Along.step (.idle rfl) fun r => ?_
    rcases r with e | stored <;> trivial
  | registerBegin sess => exact along_webAuthnRegisterBegin sess
  | registerFinish sess id name response => exact along_webAuthnRegisterFinish sess id name response
  | rename sess id body =>
    rcases sess with _ | ctx
    · trivial
    rcases body with e | name
    · simp only [SiteRequest.prog, webAuthnRename]
      split <;> trivial
    simp only [SiteRequest.prog, webAuthnRename]
    split
    · trivial
    split
    · trivial
    rename_i hname
    refine Along.step ⟨nofun, nofun, nofun, nofun, ?_, nofun, rfl⟩ fun r => ?_
    · intro owner credID name' heq
      obtain ⟨rfl, rfl, rfl⟩ := KeyOp.renamePasskey.inj (Sum.inr.inj heq)
      exact ⟨ctx, name, rfl, rfl, rfl, hname⟩
    · rcases r with e | _ | _ <;> trivial
  | delete sess id =>
    rcases sess with _ | ctx
    · trivial
    simp only [SiteRequest.prog, webAuthnDelete]
    split
    · trivial
    refine Along.step ⟨nofun, nofun, nofun, nofun, nofun, ?_, rfl⟩ fun r => ?_
    · intro owner credID heq
      obtain ⟨rfl, rfl⟩ := KeyOp.deletePasskey.inj (Sum.inr.inj heq)
      exact ⟨ctx, rfl, rfl⟩
    · rcases r with e | _ | n <;> trivial
  | sweep => exact Along.step (.idle rfl) fun _ => trivial

end PasskeyRule

/-! ## The session of a passkey login -/

/-- What `WebAuthnLoginVerify` has behind it when it creates a session. -/
def SessionRule (P : Params) (req : Request) (h : List (Event Op Ans)) (o : Op) : Prop :=
  ∀ sess dek, o = .sessionCreate sess dek →
    ∃ credID credJSON, RenewGrounds P req sess.email credID credJSON h

section SessionRule

variable {req : Request} {owner credID credJSON : String} {h : List (Event Op Ans)}

theorem RenewGrounds.snoc (hg : RenewGrounds P req owner credID credJSON h) (v : Event Op Ans) :
    RenewGrounds P req owner credID credJSON (h ++ [v]) := by
  obtain ⟨ip, ceremonyID, assertion, pendingID, pl, stored, hreq, hne, h₁, h₂, ho, h₃, h₄⟩ := hg
  exact ⟨ip, ceremonyID, assertion, pendingID, pl, stored, hreq, hne, List.mem_append_left _ h₁,
    List.mem_append_left _ h₂, ho, List.mem_append_left _ h₃, List.mem_append_left _ h₄⟩

/-- A program that creates no session keeps the grounds. -/
theorem along_grounds {α : Type} {ps : List Part} {p : Handler α} (hp : Uses ps p)
    (hps : Part.sessions ∉ ps) (hg : RenewGrounds P req owner credID credJSON h) :
    Along (SessionRule P req) (fun h _ => RenewGrounds P req owner credID credJSON h) p h := by
  refine Along.of_only hp hg (fun h o r _ hg => hg.snoc _) fun h o ho _ sess dek heq => ?_
  rw [heq] at ho
  exact absurd (List.contains_iff_mem.mp ho) hps

/-- A program that creates no session, whatever is behind it. -/
theorem along_noSession {α : Type} {ps : List Part} {p : Handler α} (hp : Uses ps p)
    (hps : Part.sessions ∉ ps) : Along (SessionRule P req) (fun _ _ => True) p h := by
  refine Along.of_only (I := fun _ => True) hp trivial (fun _ _ _ _ _ => trivial)
    fun h o ho _ sess dek heq => ?_
  rw [heq] at ho
  exact absurd (List.contains_iff_mem.mp ho) hps

theorem along_completed {ip challenge : String} {pl : PendingLogin}
    (hg : RenewGrounds P req (P.normalizeEmail pl.email) credID credJSON h) :
    Along (SessionRule P req) (fun _ _ => True) (completeLogin P ip pl challenge) h := by
  refine along_bind (along_grounds (uses_resolveCredential _ _) (by simp) hg) fun h r hg => ?_
  rcases r with e | ⟨cred, dek⟩
  · trivial
  refine along_bind (along_grounds (uses_maybeMigrateTwoFA P _ dek) (by simp) hg) fun h _ hg => ?_
  refine along_bind (along_grounds (uses_ensureFirstAccount P _ pl dek) (by simp) hg) fun h r hg => ?_
  rcases r with resp | accounts
  · trivial
  refine Along.step ?_ fun r => ?_
  · rintro sess dek' ⟨⟩
    exact ⟨credID, credJSON, hg⟩
  rcases r with e | sess
  · trivial
  refine Along.step (fun _ _ heq => nomatch heq) fun _ => ?_
  refine along_bind (along_noSession (uses_onBothKeys uses_resetFailures _ _) (by simp))
    fun h _ _ => ?_
  exact along_bind (along_noSession (uses_onBothKeys uses_resetFailures _ _) (by simp))
    fun _ _ _ => trivial

/-- A passkey login creates its session for the owner of the pending login,
after an assertion was verified with a passkey of that owner. -/
theorem along_passkeySession (P : Params) (ip ceremonyID assertion : String) :
    Along (SessionRule P (.webAuthnLoginVerify ip ceremonyID assertion)) (fun _ _ => True)
      (webAuthnLoginVerify P ip ceremonyID assertion) [] := by
  have hother : ∀ h : List (Event Op Ans), ∀ o : Op, o.part ≠ .sessions →
      SessionRule P (.webAuthnLoginVerify ip ceremonyID assertion) h o := by
    rintro h o ho sess dek rfl
    exact absurd rfl ho
  unfold webAuthnLoginVerify
  split
  · trivial
  split
  · trivial
  refine Along.step (hother _ _ nofun) fun pid? => ?_
  rcases pid? with _ | pendingID
  · trivial
  dsimp only
  split
  · trivial
  rename_i hempty
  refine Along.step (hother _ _ nofun) fun pl? => ?_
  rcases pl? with _ | pl
  · trivial
  have hread : Along (SessionRule P (.webAuthnLoginVerify ip ceremonyID assertion))
      (fun h _ => ⟨.peekLoginPayload ceremonyID, some pendingID⟩ ∈ h ∧
        ⟨.pendingGet pendingID, some pl⟩ ∈ h) (webauthnBlocked P ip pl.email)
      ([] ++ [⟨.peekLoginPayload ceremonyID, some pendingID⟩] ++ [⟨.pendingGet pendingID, some pl⟩]) :=
    Along.of_only (uses_anyBlocked _ _ _ _ _) (by simp)
      (fun _ _ _ _ hmem => ⟨List.mem_append_left _ hmem.1, List.mem_append_left _ hmem.2⟩)
      fun h o ho _ => hother h o fun hpart => by
        rw [hpart] at ho
        cases ho
  refine along_bind hread fun h b hmem => ?_
  cases b with
  | true => trivial
  | false =>
    obtain ⟨hpeek, hget⟩ := hmem
    refine Along.step (hother _ _ nofun) fun r => ?_
    rcases r with e | stored
    · trivial
    refine Along.step (hother _ _ nofun) fun r => ?_
    rcases r with e | cred
    · refine along_bind (along_noSession (uses_onBothKeys uses_recordFailure _ _) (by simp))
        fun _ _ _ => trivial
    refine Along.step (hother _ _ nofun) fun r => ?_
    have hg : RenewGrounds P (.webAuthnLoginVerify ip ceremonyID assertion)
        (P.normalizeEmail pl.email) cred.id cred.json
        (h ++ [⟨.listWebAuthn (P.normalizeEmail pl.email), .ok stored⟩] ++
          [⟨.finishLogin (P.userOf (P.normalizeEmail pl.email) stored) ceremonyID assertion,
            .ok cred⟩]) :=
      ⟨ip, ceremonyID, assertion, pendingID, pl, stored, rfl, hempty, by simp [hpeek],
        by simp [hget], rfl, by simp, by simp⟩
    refine along_bind (along_grounds (uses_onBothKeys uses_resetFailures _ _) (by simp)
      (hg.snoc _)) fun h _ hg => ?_
    exact along_completed hg

end SessionRule

end E2Mail.Backend
