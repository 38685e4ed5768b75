import E2Mail.Lib.SideBySide
import E2Mail.Backend.Footprint

/-!
# Passkeys

The handlers that register, list, rename and delete passkeys, and the cleaner of
the ceremony store, beside all the handlers of the login system. Their calls are
a second signature next to the backend's: the store of ceremonies and the table
of passkeys are the same, so a registration and a login may meet in both.

A row of `webauthn_credentials` has three columns the login system never reads,
the name and the two times. They are kept as a `Label` beside the rest of the
row, under its primary key.

Names are bytes: they are cut at a number of bytes.
-/

namespace E2Mail.Backend

open Lib

/-! ## Rows -/

/-- The columns of `webauthn_credentials` that only these handlers read. -/
structure Label where
  name : List UInt8
  createdAt : Nat
  lastUsedAt : Nat
  deriving DecidableEq

/-- `storage.WebAuthnCredential`: a whole row. -/
structure Passkey where
  ownerEmail : String
  credentialID : String
  name : List UInt8
  credentialJSON : String
  createdAt : Nat
  lastUsedAt : Nat
  deriving DecidableEq

/-- The state: the world of the login system and the labels of its passkeys. -/
structure Site where
  world : World
  labels : String → Label

/-- A stored row as `owner` reads it. -/
def Site.row (s : Site) (owner : String) (c : WebAuthnCredential) : Passkey where
  ownerEmail := owner
  credentialID := c.credentialID
  name := (s.labels c.credentialID).name
  credentialJSON := c.credentialJSON
  createdAt := (s.labels c.credentialID).createdAt
  lastUsedAt := (s.labels c.credentialID).lastUsedAt

/-! ## Names -/

/-- The UTF-8 encodings of the runes of `unicode.IsSpace`. -/
def spaceEncodings : List (List UInt8) :=
  [[0x09], [0x0A], [0x0B], [0x0C], [0x0D], [0x20], [0xC2, 0x85], [0xC2, 0xA0],
    [0xE1, 0x9A, 0x80], [0xE2, 0x80, 0x80], [0xE2, 0x80, 0x81], [0xE2, 0x80, 0x82],
    [0xE2, 0x80, 0x83], [0xE2, 0x80, 0x84], [0xE2, 0x80, 0x85], [0xE2, 0x80, 0x86],
    [0xE2, 0x80, 0x87], [0xE2, 0x80, 0x88], [0xE2, 0x80, 0x89], [0xE2, 0x80, 0x8A],
    [0xE2, 0x80, 0xA8], [0xE2, 0x80, 0xA9], [0xE2, 0x80, 0xAF], [0xE2, 0x81, 0x9F],
    [0xE3, 0x80, 0x80]]

/-- Drop leading spaces of the given encodings, as many as there is fuel for. -/
def dropSpaces (spaces : List (List UInt8)) : Nat → List UInt8 → List UInt8
  | 0, s => s
  | n + 1, s =>
    match spaces.find? fun sp => sp.isPrefixOf s with
    | some sp => dropSpaces spaces n (s.drop sp.length)
    | none => s

/-- `strings.TrimSpace`, on bytes. -/
def trimSpaceBytes (s : List UInt8) : List UInt8 :=
  let left := dropSpaces spaceEncodings s.length s
  (dropSpaces (spaceEncodings.map List.reverse) left.length left.reverse).reverse

/-- `maxPasskeyNameLen`. -/
def maxPasskeyNameLen : Nat := 64

/-- `trimPasskeyName`: the cut counts bytes. -/
def trimPasskeyName (name : List UInt8) : List UInt8 := (trimSpaceBytes name).take maxPasskeyNameLen

/-- The bytes of an ASCII literal. -/
def asciiBytes (s : String) : List UInt8 := s.toList.map fun c => c.toNat.toUInt8

/-! ## Code outside the repository -/

/-- What the handlers take from the WebAuthn library beside `Params`. -/
structure Registration where
  /-- `webauthn.BeginRegistration`: session data, with a fresh challenge -/
  waBeginRegistration : WebAuthnUser → Nat → Res SessionData
  /-- `webauthn.FinishRegistration`: the verified new credential -/
  waFinishRegistration : WebAuthnUser → SessionData → String → Option Credential
  /-- `cred.Authenticator.Attachment` -/
  attachment : Credential → String
  /-- `cred.Transport` -/
  transports : Credential → List String
  /-- the base64 text of `cred.Authenticator.AAGUID` -/
  aaguid : Credential → String

variable (P : Params) (R : Registration)

/-- `defaultPasskeyName`. -/
def defaultPasskeyName (cred : Credential) : List UInt8 :=
  match R.attachment cred with
  | "platform" => asciiBytes "This device"
  | "cross-platform" => asciiBytes "Security key"
  | _ => asciiBytes "Passkey"

/-! ## Calls -/

/-- `WebAuthnService.BeginRegistration`: the ceremony has no payload. -/
def World.beginRegistration (user : WebAuthnUser) (w : World) : Res String × World :=
  match R.waBeginRegistration user w.fresh with
  | .error e => (.error { text := "begin registration: " ++ e.text }, { w with fresh := w.fresh + 1 })
  | .ok data =>
    (.ok (P.uuid (w.fresh + 1)), { w with
      fresh := w.fresh + 2
      ceremonies := Function.update w.ceremonies (P.uuid (w.fresh + 1)) (some ⟨data, ""⟩) })

/-- `WebAuthnService.FinishRegistration`: take the ceremony, then verify the attestation. -/
def World.finishRegistration (user : WebAuthnUser) (id response : String) (w : World) :
    Res Credential × World :=
  match w.ceremonies id with
  | none => (.error { text := "webauthn ceremony not found or expired" }, w)
  | some c =>
    let w' := { w with ceremonies := Function.update w.ceremonies id none }
    if c.expired w.now then (.error { text := "webauthn ceremony not found or expired" }, w')
    else match R.waFinishRegistration user c.data response with
      | none => (.error { text := "finish registration" }, w')
      | some cred => (.ok cred, w')

/-- One round of `startCleaner`. -/
def World.sweepCeremonies (w : World) : World :=
  { w with ceremonies := fun id => (w.ceremonies id).filter fun c => !c.expired w.now }

/-- `CreateWebAuthnCredential` of a new row; it answers the row with its times filled in. -/
def Site.createPasskey (c : WebAuthnCredential) (name : List UInt8) (s : Site) : Res Passkey × Site :=
  match s.world.createWebAuthnCredential c with
  | (.error e, _) => (.error e, s)
  | (.ok (), w) =>
    let labels := Function.update s.labels c.credentialID ⟨name, s.world.now, s.world.now⟩
    (.ok (Site.row ⟨w, labels⟩ c.ownerEmail c), ⟨w, labels⟩)

/-- `RenameWebAuthnCredential`; `false` stands for `ErrWebAuthnNotFound`. -/
def Site.renamePasskey (owner credID : String) (name : List UInt8) (s : Site) : Bool × Site :=
  if s.world.passkeys.rows.any (·.isOf P owner credID) then
    (true, { s with
      labels := Function.update s.labels credID { s.labels credID with name := name } })
  else (false, s)

/-- `DeleteWebAuthnCredential`; it answers the number of rows. -/
def Site.deletePasskey (owner credID : String) (s : Site) : Nat × Site :=
  (s.world.passkeys.count (·.isOf P owner credID),
    { s with world := s.world.deleteWebAuthnCredential P owner credID })

/-- `ListWebAuthnCredentials`: `ORDER BY created_at ASC`. -/
def Site.listPasskeys (owner : String) (s : Site) : List Passkey :=
  ((s.world.passkeysOf P owner).map (s.row owner)).insertionSort fun a b => a.createdAt ≤ b.createdAt

/-- The calls beside the backend's. -/
inductive KeyOp where
  | beginRegistration (user : WebAuthnUser)
  | finishRegistration (user : WebAuthnUser) (id response : String)
  | createPasskey (c : WebAuthnCredential) (name : List UInt8)
  | renamePasskey (owner credID : String) (name : List UInt8)
  | deletePasskey (owner credID : String)
  | listPasskeys (owner : String)
  | sweepCeremonies
  deriving DecidableEq

/-- The type of a call's answer. -/
@[reducible] def KeyAns : KeyOp → Type
  | .beginRegistration _ => Res String
  | .finishRegistration _ _ _ => Res Credential
  | .createPasskey _ _ => Res Passkey
  | .renamePasskey _ _ _ => Res Bool
  | .deletePasskey _ _ => Res Nat
  | .listPasskeys _ => Res (List Passkey)
  | .sweepCeremonies => Unit

/-- What a call does when nothing fails. -/
def keyExec : (o : KeyOp) → Site → KeyAns o × Site
  | .beginRegistration user, s =>
    ((s.world.beginRegistration P R user).1, { s with world := (s.world.beginRegistration P R user).2 })
  | .finishRegistration user id response, s =>
    ((s.world.finishRegistration R user id response).1,
      { s with world := (s.world.finishRegistration R user id response).2 })
  | .createPasskey c name, s => s.createPasskey c name
  | .renamePasskey owner credID name, s =>
    (.ok (s.renamePasskey P owner credID name).1, (s.renamePasskey P owner credID name).2)
  | .deletePasskey owner credID, s =>
    (.ok (s.deletePasskey P owner credID).1, (s.deletePasskey P owner credID).2)
  | .listPasskeys owner, s => (.ok (s.listPasskeys P owner), s)
  | .sweepCeremonies, s => ((), { s with world := s.world.sweepCeremonies })

/-- What a statement answers when the database fails with `e`; `none` for the other calls. -/
def keyFailWith (e : Err) : (o : KeyOp) → Option (KeyAns o)
  | .createPasskey _ _ | .renamePasskey _ _ _ | .deletePasskey _ _ | .listPasskeys _ =>
    some (.error e)
  | .beginRegistration _ | .finishRegistration _ _ _ | .sweepCeremonies => none

/-- Writers of the SQLite store take its lock. -/
def KeyOp.takesLock : KeyOp → Bool
  | createPasskey _ _ | renamePasskey _ _ _ | deletePasskey _ _ => true
  | _ => false

/-! ## The system -/

/-- The calls of the whole system. -/
abbrev SiteOp : Type := Op ⊕ KeyOp

/-- Their answers. -/
abbrev SiteAns : SiteOp → Type := Both Ans KeyAns

/-- The labels after a call of the backend: `UpdateWebAuthnCredential` sets `last_used_at`. -/
def Site.touched (s : Site) : (o : Op) → Ans o → String → Label
  | .updateWebAuthn owner credID _, .ok () =>
    if s.world.passkeys.rows.any (·.isOf P owner credID) then
      Function.update s.labels credID { s.labels credID with lastUsedAt := s.world.now }
    else s.labels
  | _, _ => s.labels

/-- What one call may do. -/
def siteSem : Sem Site SiteOp SiteAns
  | .inl o, s, r, s' => sem P o s.world r s'.world ∧ s'.labels = s.touched P o r
  | .inr o, s, r, s' => (o.takesLock = true → s.world.mu = false) ∧
      ((r, s') = keyExec P R o s ∨ ∃ e, keyFailWith e o = some r ∧ s' = s)

/-- A call without faults. -/
def siteExec : (o : SiteOp) → Site → Option (SiteAns o × Site)
  | .inl o, s => (execFaulty P (fun _ => false) o s.world).map fun x => (x.1, ⟨x.2, s.touched P o x.1⟩)
  | .inr o, s => if o.takesLock && s.world.mu then none else some (keyExec P R o s)

theorem siteSem_of_siteExec {o : SiteOp} {s s' : Site} {r : SiteAns o}
    (h : siteExec P R o s = some (r, s')) : siteSem P R o s r s' := by
  cases o with
  | inl o =>
    obtain ⟨x, hx, heq⟩ := Option.map_eq_some_iff.mp h
    cases heq
    exact ⟨sem_of_execFaulty hx, rfl⟩
  | inr o =>
    rw [siteExec] at h
    split at h
    · cases h
    · rename_i hlock
      refine ⟨fun ho => ?_, .inl (Option.some.inj h).symm⟩
      rw [ho, Bool.true_and] at hlock
      exact Bool.eq_false_of_not_eq_true hlock

/-- A handler of the whole system. -/
abbrev SiteHandler (α : Type) : Type := Prog SiteOp SiteAns α

/-- A call of these handlers. -/
abbrev keyCall (o : KeyOp) : SiteHandler (KeyAns o) :=
  (Prog.perform (Sum.inr o : SiteOp) : SiteHandler (SiteAns (Sum.inr o)))

/-! ## Responses -/

/-- `webAuthnCredentialDTO`. -/
structure WebAuthnCredentialDTO where
  id : String
  name : List UInt8
  createdAt : Nat
  lastUsedAt : Nat
  transports : List String
  aaguid : String
  deriving DecidableEq

/-- `toWebAuthnDTO`: a record that does not parse shows no transports and no AAGUID. -/
def toWebAuthnDTO (s : Passkey) : WebAuthnCredentialDTO where
  id := s.credentialID
  name := s.name
  createdAt := s.createdAt
  lastUsedAt := s.lastUsedAt
  transports := ((P.parseCredential s.credentialJSON).map R.transports).getD []
  aaguid := ((P.parseCredential s.credentialJSON).map R.aaguid).getD ""

/-- A response of the system. -/
inductive SiteResp where
  | backend (resp : Resp)
  | credentials (list : List WebAuthnCredentialDTO)
  | registered (dto : WebAuthnCredentialDTO)
  deriving DecidableEq

/-! ## The handlers -/

/-- `WebAuthnList`. -/
def webAuthnList (sess : Option AuthContext) : SiteHandler SiteResp := do
  let some ctx := sess | return .backend (unauthorized "unauthorized")
  match ← keyCall (.listPasskeys (P.normalizeEmail ctx.email)) with
  | .error _ => return .backend (internalServerError "failed to load passkeys")
  | .ok stored => return .credentials (stored.map (toWebAuthnDTO P R))

/-- `WebAuthnRegisterBegin`. -/
def webAuthnRegisterBegin (sess : Option AuthContext) : SiteHandler SiteResp := do
  let some ctx := sess | return .backend (unauthorized "unauthorized")
  if !P.webauthnReady then
    return .backend (forbidden "passkey support is not enabled on this server")
  match ← (loadWebAuthnUser P (P.normalizeEmail ctx.email)).left with
  | .error _ => return .backend (internalServerError "failed to load passkeys")
  | .ok user =>
    match ← keyCall (.beginRegistration user) with
    | .error _ => return .backend (internalServerError "failed to start passkey registration")
    | .ok challengeID => return .backend (.success (.webAuthnBegin challengeID))

/-- The name a new passkey is stored under. -/
def newPasskeyName (name : List UInt8) (cred : Credential) : List UInt8 :=
  if trimPasskeyName name = [] then defaultPasskeyName R cred else trimPasskeyName name

/-- `WebAuthnRegisterFinish`. -/
def webAuthnRegisterFinish (sess : Option AuthContext) (challengeID : String) (name : List UInt8)
    (response : String) : SiteHandler SiteResp := do
  let some ctx := sess | return .backend (unauthorized "unauthorized")
  if !P.webauthnReady then
    return .backend (forbidden "passkey support is not enabled on this server")
  if challengeID = "" then return .backend (badRequest "challenge is required")
  match ← (loadWebAuthnUser P (P.normalizeEmail ctx.email)).left with
  | .error _ => return .backend (internalServerError "failed to load passkeys")
  | .ok user =>
    match ← keyCall (.finishRegistration user challengeID response) with
    | .error _ => return .backend (badRequest "passkey registration failed")
    | .ok credential =>
      let record : WebAuthnCredential :=
        ⟨P.normalizeEmail ctx.email, credential.id, credential.json⟩
      match ← keyCall (.createPasskey record (newPasskeyName R name credential)) with
      | .error _ => return .backend (internalServerError "failed to store passkey")
      | .ok stored => return .registered (toWebAuthnDTO P R stored)

/-- `WebAuthnRename`. -/
def webAuthnRename (sess : Option AuthContext) (credID : String)
    (body : Except BodyErr (List UInt8)) : SiteHandler SiteResp := do
  let some ctx := sess | return .backend (unauthorized "unauthorized")
  if credID = "" then return .backend (badRequest "credential id is required")
  match body with
  | .error e => return .backend (respondBodyParseError e "invalid request body format")
  | .ok name =>
    if trimPasskeyName name = [] then return .backend (badRequest "name is required")
    match ← keyCall (.renamePasskey (P.normalizeEmail ctx.email) credID (trimPasskeyName name)) with
    | .error _ => return .backend (internalServerError "failed to rename passkey")
    | .ok false => return .backend (notFound "passkey not found")
    | .ok true => return .backend (.success (.done "renamed"))

/-- `WebAuthnDelete`. -/
def webAuthnDelete (sess : Option AuthContext) (credID : String) : SiteHandler SiteResp := do
  let some ctx := sess | return .backend (unauthorized "unauthorized")
  if credID = "" then return .backend (badRequest "credential id is required")
  match ← keyCall (.deletePasskey (P.normalizeEmail ctx.email) credID) with
  | .error _ => return .backend (internalServerError "failed to delete passkey")
  | .ok 0 => return .backend (notFound "passkey not found")
  | .ok _ => return .backend (.success (.done "deleted"))

/-! ## Requests -/

/-- The requests, and the rounds of the cleaner. -/
inductive SiteRequest where
  | backend (req : Request)
  | list (sess : Option AuthContext)
  | registerBegin (sess : Option AuthContext)
  | registerFinish (sess : Option AuthContext) (challengeID : String) (name : List UInt8)
      (response : String)
  | rename (sess : Option AuthContext) (credID : String) (body : Except BodyErr (List UInt8))
  | delete (sess : Option AuthContext) (credID : String)
  | sweep

/-- The program of a request. -/
def SiteRequest.prog : SiteRequest → SiteHandler SiteResp
  | backend req => do
    let resp ← (req.prog P).left
    return .backend resp
  | list sess => webAuthnList P R sess
  | registerBegin sess => webAuthnRegisterBegin P sess
  | registerFinish sess challengeID name response =>
    webAuthnRegisterFinish P R sess challengeID name response
  | rename sess credID body => webAuthnRename P sess credID body
  | delete sess credID => webAuthnDelete P sess credID
  | sweep => do
    keyCall .sweepCeremonies
    return .backend (.success (.done ""))

/-- Not a change of the passkey table behind the handlers' back. -/
def SiteRequest.handled : SiteRequest → Bool
  | backend (.env (.createWebAuthn _)) | backend (.env (.deleteWebAuthn _ _)) => false
  | _ => true

/-- All requests about to start. -/
def Site.open {ι : Type} (s : Site) (reqs : ι → SiteRequest) : Conf ι Site SiteOp SiteAns SiteResp :=
  ⟨s, fun i => (reqs i).prog P R⟩

/-- A run by a schedule. -/
def Site.runOrder {ι : Type} [DecidableEq ι] (order : List ι) (reqs : ι → SiteRequest) (s : Site) :
    List (Entry ι Site SiteOp SiteAns) × Conf ι Site SiteOp SiteAns SiteResp :=
  schedule (siteExec P R) order [] (s.open P R reqs)

theorem run_runOrder {ι : Type} [DecidableEq ι] (order : List ι) (reqs : ι → SiteRequest) (s : Site) :
    Run (siteSem P R) (s.open P R reqs) (s.runOrder P R order reqs).1
      (s.runOrder P R order reqs).2 := by
  have hexec : ∀ o s r s', siteExec P R o s = some (r, s') → siteSem P R o s r s' :=
    fun _ _ _ _ h => siteSem_of_siteExec P R h
  exact Run.of_schedule hexec order Run.nil

/-! ## A sample -/

/-- Outside functions for runs with passkeys: an assertion is the id of its credential. -/
def Params.keyed : Params :=
  { Params.sample with
    waFinishLogin := fun user data assertion =>
      if data.userID = user.id then
        (user.credentials.find? fun c => c.id = assertion).map fun c => ⟨c.id, c.id⟩
      else none }

/-- And so is an attestation. -/
def Registration.sample : Registration where
  waBeginRegistration user _ := .ok ⟨user.id, "challenge", none⟩
  waFinishRegistration user data response :=
    if data.userID = user.id then some ⟨response, response⟩ else none
  attachment _ := "platform"
  transports _ := ["internal"]
  aaguid _ := ""

theorem injective_keyed : Function.Injective Params.keyed.uuid := by
  intro m n h
  have hlist : List.replicate (m + 1) 'u' = List.replicate (n + 1) 'u' := String.ofList_injective h
  have hlength := congrArg List.length hlist
  rw [List.length_replicate, List.length_replicate] at hlength
  exact Nat.succ.inj hlength

/-- A site with nothing in it. -/
def Site.empty : Site := ⟨World.empty, fun _ => ⟨[], 0, 0⟩⟩

/-- A session of the owner. -/
def visitor : AuthContext := ⟨"s", "a@x", 0⟩

/-- Two registrations, a list, a delete, and a login with the passkey that is left. -/
def visits : Nat → SiteRequest
  | 0 => .registerBegin (some visitor)
  | 1 => .registerFinish (some visitor) "uu" (asciiBytes " laptop ") "key"
  | 2 => .registerBegin (some visitor)
  | 3 => .registerFinish (some visitor) "uuuu" [] "spare"
  | 4 => .list (some visitor)
  | 5 => .delete (some visitor) "key"
  | 6 => .backend (.login "ip"
      (.ok { email := "a@x", password := "pw", imapHost := "imap", smtpHost := "smtp" }))
  | 7 => .backend (.webAuthnLoginBegin "ip" (.ok "uuuuu"))
  | 8 => .backend (.webAuthnLoginVerify "ip" "uuuuuuu" "spare")
  | _ => .sweep

/-- Their run: the registrations run interleaved, the rest one after the other. -/
def visit : List (Entry Nat Site SiteOp SiteAns) × Conf Nat Site SiteOp SiteAns SiteResp :=
  Site.empty.runOrder .keyed .sample
    ([0, 2, 2, 0, 1, 3, 1, 3, 1, 3, 4, 5] ++ List.replicate 8 6 ++ List.replicate 8 7 ++
      List.replicate 30 8) visits

theorem run_visit : Run (siteSem .keyed .sample) (Site.empty.open .keyed .sample visits) visit.1 visit.2 :=
  run_runOrder .keyed .sample _ visits .empty

theorem handled_visits (i : Nat) : (visits i).handled = true := by
  unfold visits
  split <;> rfl

end E2Mail.Backend
