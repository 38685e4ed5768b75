import E2Mail.Lib.Text
import E2Mail.Backend.Login
import Mathlib.Algebra.Order.Ring.Int

/-!
# The address book

The `contacts` table, the store's operations on it, and the handlers that write it: create,
update, delete, from-email, import and the two avatar handlers.

Encryption and hashing are symbolic: a text column holds a `Secret`, a hash column the text
that was hashed. The handlers' files under `avatars/` are not part of the database.
-/

namespace E2Mail.Backend.AddressBook

open Lib

/-! ## Rows -/

/-- A hex SHA-256, equal exactly for equal texts. -/
structure Digest where
  /-- what was hashed -/
  text : String
  deriving DecidableEq

/-- `crypto.OwnerID`. -/
def cryptoOwnerID (P : Params) (email : String) : Digest := ⟨P.ownerID email⟩

/-- `emailIndex`. -/
def emailIndex (P : Params) (email : String) : Digest := cryptoOwnerID P email

/-- The text columns of a contact, in the order `wrapFields` is given them. -/
structure Columns (α : Type) where
  email : α
  displayName : α
  givenName : α
  familyName : α
  note : α
  source : α
  deriving DecidableEq

/-- A row of `contacts`. -/
structure ContactRow where
  id : String
  ownerID : Digest
  emailHash : Digest
  columns : Columns Secret
  avatarPath : String
  createdAt : Nat
  updatedAt : Nat
  deriving DecidableEq

/-- `UNIQUE(owner_id, email_hash)`. -/
def ContactRow.key (r : ContactRow) : Digest × Digest := (r.ownerID, r.emailHash)

/-- `storage.Contact`. -/
structure Contact where
  id : String
  ownerEmail : String
  columns : Columns String
  avatarPath : String := ""
  hasAvatar : Bool := false
  /-- the zero time is `none` -/
  createdAt : Option Nat := none
  updatedAt : Nat := 0
  deriving DecidableEq

/-! ## Text columns -/

/-- `crypto.WrapField`, with the nonce that `Encrypt` draws. -/
def wrapField (dek : Option Nat) (nonce : Nat) (plain : String) : Res Secret :=
  if plain = "" then .ok (.plain "")
  else
    match dek with
    | none => .error { text := "dek required" }
    | some dek => .ok (.sealed ⟨.dek dek, nonce, plain⟩)

/-- `crypto.UnwrapField`. -/
def unwrapField (dek : Option Nat) (stored : Secret) : Res String :=
  match stored with
  | .plain s => if s = "" then .ok "" else .error { text := "crypto: unknown field encoding" }
  | .sealed b =>
    match dek.bind fun k => b.decrypt (.dek k) with
    | some s => .ok s
    | none => .error { text := "cipher: message authentication failed" }

/-- `wrapFields`. -/
def wrapFields (dek : Option Nat) (nonce : Nat) (vals : Columns String) : Res (Columns Secret) := do
  let email ← wrapField dek nonce vals.email
  let displayName ← wrapField dek (nonce + 1) vals.displayName
  let givenName ← wrapField dek (nonce + 2) vals.givenName
  let familyName ← wrapField dek (nonce + 3) vals.familyName
  let note ← wrapField dek (nonce + 4) vals.note
  let source ← wrapField dek (nonce + 5) vals.source
  return ⟨email, displayName, givenName, familyName, note, source⟩

/-- `unwrapFields`. -/
def unwrapFields (dek : Option Nat) (vals : Columns Secret) : Res (Columns String) := do
  let email ← unwrapField dek vals.email
  let displayName ← unwrapField dek vals.displayName
  let givenName ← unwrapField dek vals.givenName
  let familyName ← unwrapField dek vals.familyName
  let note ← unwrapField dek vals.note
  let source ← unwrapField dek vals.source
  return ⟨email, displayName, givenName, familyName, note, source⟩

/-! ## The table -/

/-- The `contacts` table. -/
structure ContactTable where
  /-- the rows, in the order of insertion -/
  rows : List ContactRow
  /-- the primary key -/
  ids : (rows.map ContactRow.id).Nodup
  /-- the unique index -/
  keys : (rows.map ContactRow.key).Nodup

namespace ContactTable

def empty : ContactTable := ⟨[], List.nodup_nil, List.nodup_nil⟩

/-- `INSERT`. -/
def insert (r : ContactRow) (t : ContactTable) : Except String ContactTable :=
  if hid : r.id ∈ t.rows.map ContactRow.id then .error "UNIQUE constraint failed: contacts.id"
  else if hkey : r.key ∈ t.rows.map ContactRow.key then
    .error "UNIQUE constraint failed: contacts.owner_id, contacts.email_hash"
  else .ok ⟨t.rows ++ [r], by
    rw [List.map_append, List.map_singleton, ← List.concat_eq_append]
    exact t.ids.concat hid, by
    rw [List.map_append, List.map_singleton, ← List.concat_eq_append]
    exact t.keys.concat hkey⟩

/-- The rows after an `UPDATE … WHERE owner_id = ? AND id = ?` of all other columns. -/
def written (owner : Digest) (id : String) (emailHash : Digest) (columns : Columns Secret)
    (avatarPath : String) (updatedAt : Nat) (rows : List ContactRow) : List ContactRow :=
  rows.map fun r =>
    if r.ownerID = owner ∧ r.id = id then
      { r with
        emailHash := emailHash
        columns := columns
        avatarPath := avatarPath
        updatedAt := updatedAt }
    else r

theorem written_ids {owner : Digest} {id : String} {emailHash : Digest} {columns : Columns Secret}
    {avatarPath : String} {updatedAt : Nat} {rows : List ContactRow} :
    (written owner id emailHash columns avatarPath updatedAt rows).map ContactRow.id =
      rows.map ContactRow.id := by
  rw [written, List.map_map]
  refine List.map_congr_left fun r _ => ?_
  rw [Function.comp_apply]
  split <;> rfl

/-- `UPDATE … WHERE owner_id = ? AND id = ?`, with the number of rows it wrote. -/
def update (owner : Digest) (id : String) (emailHash : Digest) (columns : Columns Secret)
    (avatarPath : String) (updatedAt : Nat) (t : ContactTable) :
    Except String (Nat × ContactTable) :=
  if hkeys : ((written owner id emailHash columns avatarPath updatedAt t.rows).map
      ContactRow.key).Nodup then
    .ok (t.rows.countP fun r => r.ownerID = owner ∧ r.id = id,
      ⟨_, by rw [written_ids]; exact t.ids, hkeys⟩)
  else .error "UNIQUE constraint failed: contacts.owner_id, contacts.email_hash"

/-- `DELETE … WHERE owner_id = ? AND id = ?`. -/
def delete (owner : Digest) (id : String) (t : ContactTable) : ContactTable :=
  ⟨t.rows.filter fun r => !(r.ownerID = owner ∧ r.id = id : Bool),
    t.ids.sublist (List.filter_sublist.map _), t.keys.sublist (List.filter_sublist.map _)⟩

end ContactTable

/-! ## The store -/

/-- The database, and how much of the random supply is used up. -/
structure BookState where
  contacts : ContactTable
  /-- uuids drawn -/
  uuids : Nat
  /-- nonces drawn -/
  nonces : Nat

/-- What happens around one request: the clock and what fails. An import numbers its items; the
other handlers use the first number. -/
structure Around where
  /-- `time.Now()` -/
  now : Nat → Nat := fun _ => 0
  /-- `CountAddressContacts` fails -/
  countFails : Bool := false
  /-- the error of the query in `GetAddressContact` -/
  getErr : Option String := none
  /-- the query in `GetAddressContactByEmail` fails -/
  lookupFails : Nat → Bool := fun _ => false
  /-- the error of the statement that writes -/
  execErr : Nat → Option String := fun _ => none
  /-- the error of `os.MkdirAll` -/
  mkdirErr : Option String := none
  /-- the error of `os.WriteFile` -/
  writeErr : Option String := none

section Store

variable (P : Params) (A : Around)

/-- `scanAddressContact`. -/
def scanAddressContact (ownerEmail : String) (dek : Option Nat) (r : ContactRow) : Res Contact :=
  match unwrapFields dek r.columns with
  | .error e => .error { text := "failed to unwrap contact " ++ r.id ++ ": " ++ e.text }
  | .ok plain => .ok
    { id := r.id
      ownerEmail := ownerEmail
      columns := plain
      avatarPath := r.avatarPath
      hasAvatar := r.avatarPath != ""
      createdAt := some r.createdAt
      updatedAt := r.updatedAt }

/-- `Store.GetAddressContact`. -/
def Store.getAddressContact (ownerEmail id : String) (dek : Option Nat) (w : BookState) :
    Res (Option Contact) :=
  match A.getErr with
  | some e => .error { text := "failed to get contact: " ++ e }
  | none =>
    match w.contacts.rows.find? fun r => r.ownerID = cryptoOwnerID P ownerEmail ∧ r.id = id with
    | none => .ok none
    | some r =>
      match scanAddressContact ownerEmail dek r with
      | .error e => .error { text := "failed to get contact: " ++ e.text }
      | .ok c => .ok (some c)

/-- `Store.GetAddressContactByEmail`; its callers discard the error. -/
def Store.getAddressContactByEmail (k : Nat) (ownerEmail email : String) (dek : Option Nat) (w : BookState) :
    Option Contact :=
  if A.lookupFails k then none
  else
    match w.contacts.rows.find? fun r => r.ownerID = cryptoOwnerID P ownerEmail ∧
        r.emailHash = emailIndex P (P.normalizeEmail email) with
    | none => none
    | some r => (scanAddressContact ownerEmail dek r).toOption

/-- `Store.CountAddressContacts`; its callers discard the error. -/
def Store.countAddressContacts (ownerEmail : String) (w : BookState) : Nat :=
  if A.countFails then 0
  else w.contacts.rows.countP fun r => r.ownerID = cryptoOwnerID P ownerEmail

/-- `Store.CreateAddressContact`, of a contact that has its id. -/
def Store.createAddressContact (k : Nat) (c : Contact) (dek : Option Nat) (w : BookState) :
    Res Contact × BookState :=
  if c.ownerEmail = "" ∨ c.columns.email = "" then
    (.error { text := "owner_email and email are required" }, w)
  else
    let c := { c with
      columns := { c.columns with
        email := P.normalizeEmail c.columns.email
        source := if c.columns.source = "" then "manual" else c.columns.source }
      createdAt := some (c.createdAt.getD (A.now k))
      updatedAt := A.now k }
    match wrapFields dek w.nonces c.columns with
    | .error e => (.error e, w)
    | .ok wrapped =>
      let w := { w with nonces := w.nonces + 6 }
      match A.execErr k with
      | some e => (.error { text := "failed to create contact: " ++ e }, w)
      | none =>
        match w.contacts.insert
          { id := c.id
            ownerID := cryptoOwnerID P c.ownerEmail
            emailHash := emailIndex P c.columns.email
            columns := wrapped
            avatarPath := c.avatarPath
            createdAt := c.createdAt.getD (A.now k)
            updatedAt := c.updatedAt } with
        | .error e => (.error { text := "failed to create contact: " ++ e }, w)
        | .ok t => (.ok { c with hasAvatar := c.avatarPath != "" }, { w with contacts := t })

/-- `Store.UpdateAddressContact`. -/
def Store.updateAddressContact (k : Nat) (c : Contact) (dek : Option Nat) (w : BookState) :
    Res Contact × BookState :=
  if c.id = "" ∨ c.ownerEmail = "" then (.error { text := "id and owner_email are required" }, w)
  else
    let c := { c with
      columns := { c.columns with email := P.normalizeEmail c.columns.email }
      updatedAt := A.now k }
    match wrapFields dek w.nonces c.columns with
    | .error e => (.error e, w)
    | .ok wrapped =>
      let w := { w with nonces := w.nonces + 6 }
      match A.execErr k with
      | some e => (.error { text := "failed to update contact: " ++ e }, w)
      | none =>
        match w.contacts.update (cryptoOwnerID P c.ownerEmail) c.id
          (emailIndex P c.columns.email) wrapped c.avatarPath c.updatedAt with
        | .error e => (.error { text := "failed to update contact: " ++ e }, w)
        | .ok (0, t) => (.error { text := "contact not found" }, { w with contacts := t })
        | .ok (_, t) => (.ok { c with hasAvatar := c.avatarPath != "" }, { w with contacts := t })

/-- `Store.DeleteAddressContact`. -/
def Store.deleteAddressContact (ownerEmail id : String) (w : BookState) : Res Nat × BookState :=
  match A.execErr 0 with
  | some e => (.error { text := "failed to delete contact: " ++ e }, w)
  | none =>
    (.ok (w.contacts.rows.countP fun r => r.ownerID = cryptoOwnerID P ownerEmail ∧ r.id = id),
      { w with contacts := w.contacts.delete (cryptoOwnerID P ownerEmail) id })

end Store

/-! ## Requests -/

/-- `mail.Address`. -/
structure MailAddress where
  name : String
  address : String
  deriving DecidableEq

/-- The standard library's part. -/
structure Outside where
  /-- `mail.ParseAddress` -/
  parseAddress : String → Except String MailAddress
  /-- `http.DetectContentType` -/
  detectContentType : List UInt8 → String

/-- A session as the middleware hands it on, with its data key. -/
structure BookSession where
  email : String
  dek : Option Nat
  deriving DecidableEq

/-- The body of `CreateAddressContact`. -/
structure CreateContactRequest where
  email : String
  displayName : String := ""
  givenName : String := ""
  familyName : String := ""
  note : String := ""
  source : String := ""

/-- The body of `UpdateAddressContact`. -/
structure UpdateContactRequest where
  email : String := ""
  displayName : String := ""
  givenName : String := ""
  familyName : String := ""
  note : String := ""

/-- The body of `CreateFromEmail`. -/
structure FromEmailRequest where
  email : String
  displayName : String := ""
  note : String := ""

/-- One contact of an import file. -/
structure ImpItem where
  email : String
  displayName : String := ""
  givenName : String := ""
  familyName : String := ""
  note : String := ""

/-- The file of an import, read as CSV or vCard. -/
inductive ImportFile where
  | unparsed (e : BodyErr)
  | missing
  | unreadable (text : String)
  | empty
  | badCSV (text : String)
  | items (l : List ImpItem)

/-- The multipart form of an avatar. -/
inductive AvatarForm where
  | unparsed (e : BodyErr)
  | missing
  /-- the size in the header, and the bytes or the error of reading them -/
  | file (size : Nat) (data : Except String (List UInt8))

/-- What a handler answers with. -/
inductive BookPayload where
  | contact (c : Contact)
  | message (text : String)
  | imported (saved : Nat) (skipped : List String) (invalid : Nat)
  /-- nothing to import, with a message -/
  | notImported (text : String)

/-- An answer, or an error answer. -/
abbrev BookResp : Type := Except Resp BookPayload

/-! ## Handlers -/

/-- `filepath.Clean`, one component after the other; the stack is what is kept, the last first. -/
def cleanStep (rooted : Bool) (stack : List (List Char)) (comp : List Char) : List (List Char) :=
  if comp = [] ∨ comp = ['.'] then stack
  else if comp = ['.', '.'] then
    match stack with
    | [] => if rooted then [] else [comp]
    | top :: rest => if top = ['.', '.'] then comp :: stack else rest
  else comp :: stack

/-- `filepath.Clean`. -/
def filepathClean (path : List Char) : List Char :=
  let rooted := path.head? == some '/'
  let stack := (path.splitOn '/').foldl (cleanStep rooted) []
  match rooted, stack with
  | false, [] => ['.']
  | false, _ => ['/'].intercalate stack.reverse
  | true, _ => '/' :: ['/'].intercalate stack.reverse

/-- `filepath.Join`. -/
def filepathJoin (elems : List (List Char)) : List Char :=
  match elems.filter (· ≠ []) with
  | [] => []
  | elems => filepathClean (['/'].intercalate elems)

/-- The path that `PutAvatar` stores. -/
def avatarPath (P : Params) (owner id ext : String) : String :=
  String.ofList (filepathJoin ["avatars".toList,
    Text.replaceAll "@".toList "_at_".toList (P.lower owner).toList, (id ++ ext).toList])

section Handlers

variable (P : Params) (M : Outside) (A : Around)

/-- `ownerFromCtx`, with `ctxDEK`. -/
def ownerFromCtx (sess? : Option BookSession) : Option (String × Option Nat) :=
  match sess? with
  | none => none
  | some sess => if sess.email = "" then none else some (P.normalizeEmail sess.email, sess.dek)

/-- The handlers' reaction to the store's answer. -/
def respondContact (what : String) : Res Contact × BookState → BookResp × BookState
  | (.error e, w) => (.error (internalServerError (what ++ e.text)), w)
  | (.ok c, w) => (.ok (.contact c), w)

/-- `uuid.New()`. -/
def newID (w : BookState) : String × BookState := (P.uuid w.uuids, { w with uuids := w.uuids + 1 })

/-- `CreateAddressContact` once the address is accepted. -/
def createUnlessKnown (owner : String) (dek : Option Nat) (email : String)
    (req : CreateContactRequest) (w : BookState) : BookResp × BookState :=
  if Store.countAddressContacts P A owner w ≥ 2000 then
    (.error (badRequest "contact limit reached (2000)"), w)
  else if (Store.getAddressContactByEmail P A 0 owner email dek w).isSome then
    (.error (badRequest "contact already exists for this email"), w)
  else
    let (id, w) := newID P w
    respondContact "failed to create contact: " (Store.createAddressContact P A 0
      { id := id
        ownerEmail := owner
        columns :=
          { email := email
            displayName :=
              if trimSpace req.displayName = "" then email else trimSpace req.displayName
            givenName := trimSpace req.givenName
            familyName := trimSpace req.familyName
            note := trimSpace req.note
            source := trimSpace req.source } } dek w)

/-- `CreateAddressContact`. -/
def createAddressContact (sess? : Option BookSession) (body : Except BodyErr CreateContactRequest)
    (w : BookState) : BookResp × BookState :=
  match ownerFromCtx P sess? with
  | none => (.error (unauthorized "unauthorized session"), w)
  | some (owner, dek) =>
    match body with
    | .error e => (.error (respondBodyParseError e ("invalid json body: " ++ e.text)), w)
    | .ok req =>
      let email := P.normalizeEmail req.email
      if email = "" then (.error (badRequest "email is required"), w)
      else
        match M.parseAddress email, M.parseAddress req.email with
        | .error e, .error _ => (.error (badRequest ("invalid email: " ++ e)), w)
        | _, _ => createUnlessKnown P A owner dek email req w

/-- `existing.Email = email`. -/
def Contact.setEmail (c : Contact) (email : String) : Contact :=
  { c with columns := { c.columns with email := email } }

/-- The contact with what an update request changes in it, apart from the e-mail. -/
def UpdateContactRequest.apply (req : UpdateContactRequest) (clearNote : Bool) (c : Contact) :
    Contact :=
  { c with columns :=
    { c.columns with
      displayName :=
        if req.displayName ≠ "" then trimSpace req.displayName else c.columns.displayName
      givenName := if req.givenName ≠ "" then trimSpace req.givenName else c.columns.givenName
      familyName := if req.familyName ≠ "" then trimSpace req.familyName else c.columns.familyName
      note := if req.note ≠ "" ∨ clearNote then trimSpace req.note else c.columns.note } }

/-- `UpdateAddressContact`. -/
def updateAddressContact (sess? : Option BookSession) (id : String) (clearNote : Bool)
    (body : Except BodyErr UpdateContactRequest) (w : BookState) : BookResp × BookState :=
  match ownerFromCtx P sess? with
  | none => (.error (unauthorized "unauthorized session"), w)
  | some (owner, dek) =>
    if id = "" then (.error (badRequest "id is required"), w)
    else
      match Store.getAddressContact P A owner id dek w with
      | .error e => (.error (internalServerError ("failed to get contact: " ++ e.text)), w)
      | .ok none => (.error (notFound "contact not found"), w)
      | .ok (some existing) =>
        match body with
        | .error e => (.error (respondBodyParseError e ("invalid json body: " ++ e.text)), w)
        | .ok req =>
          if req.email = "" then
            respondContact "failed to update contact: "
              (Store.updateAddressContact P A 0 (req.apply clearNote existing) dek w)
          else
            let email := P.normalizeEmail req.email
            match M.parseAddress email with
            | .error _ => (.error (badRequest "invalid email"), w)
            | .ok _ =>
              if email ≠ existing.columns.email ∧
                  (Store.getAddressContactByEmail P A 0 owner email dek w).isSome then
                (.error (badRequest "another contact already uses this email"), w)
              else
                respondContact "failed to update contact: " (Store.updateAddressContact P A 0
                  (req.apply clearNote (existing.setEmail email)) dek w)

/-- The reaction to the number of rows deleted. -/
def respondDeleted : Res Nat × BookState → BookResp × BookState
  | (.error e, w) => (.error (internalServerError ("failed to delete contact: " ++ e.text)), w)
  | (.ok 0, w) => (.error (notFound "contact not found"), w)
  | (.ok _, w) => (.ok (.message "contact deleted"), w)

/-- `DeleteAddressContact`. -/
def deleteAddressContact (sess? : Option BookSession) (id : String) (w : BookState) :
    BookResp × BookState :=
  match ownerFromCtx P sess? with
  | none => (.error (unauthorized "unauthorized session"), w)
  | some (owner, _) =>
    if id = "" then (.error (badRequest "id is required"), w)
    else respondDeleted (Store.deleteAddressContact P A owner id w)

/-- The address, its name, and the display name asked for, as `CreateFromEmail` reads them. -/
def FromEmailRequest.read (req : FromEmailRequest) : String × String × String :=
  match M.parseAddress req.email with
  | .error _ => (P.normalizeEmail req.email, trimSpace req.displayName, req.displayName)
  | .ok addr =>
    (P.normalizeEmail addr.address, addr.name,
      if addr.name ≠ "" ∧ trimSpace req.displayName = "" then addr.name else req.displayName)

/-- `CreateFromEmail` once the address is read. -/
def addFromEmail (owner : String) (dek : Option Nat) (email name displayName note : String)
    (w : BookState) : BookResp × BookState :=
  match Store.getAddressContactByEmail P A 0 owner email dek w with
  | some exist => (.ok (.contact exist), w)
  | none =>
    if Store.countAddressContacts P A owner w ≥ 2000 then
      (.error (badRequest "contact limit reached (2000)"), w)
    else
      let (id, w) := newID P w
      respondContact "failed to create contact: " (Store.createAddressContact P A 0
        { id := id
          ownerEmail := owner
          columns :=
            { email := email
              displayName :=
                if trimSpace displayName ≠ "" then trimSpace displayName
                else if name ≠ "" then name
                else email
              givenName := ""
              familyName := ""
              note := trimSpace note
              source := "manual" } } dek w)

/-- `CreateFromEmail`. -/
def createFromEmail (sess? : Option BookSession) (body : Except BodyErr FromEmailRequest)
    (w : BookState) : BookResp × BookState :=
  match ownerFromCtx P sess? with
  | none => (.error (unauthorized "unauthorized session"), w)
  | some (owner, dek) =>
    match body with
    | .error e => (.error (respondBodyParseError e ("invalid json body: " ++ e.text)), w)
    | .ok req =>
      if P.normalizeEmail req.email = "" then (.error (badRequest "email is required"), w)
      else
        let (email, name, displayName) := req.read P M
        addFromEmail P A owner dek email name displayName req.note w

/-- The counters of `Import`. -/
structure Tally where
  saved : Nat := 0
  skipped : List String := []
  invalid : Nat := 0

/-- The contact with what an import item overwrites in it. -/
def ImpItem.overwrite (it : ImpItem) (exist : Contact) : Contact :=
  { exist with columns :=
    { exist.columns with
      displayName := it.displayName
      givenName := if it.givenName ≠ "" then it.givenName else exist.columns.givenName
      familyName := if it.familyName ≠ "" then it.familyName else exist.columns.familyName
      note := if it.note ≠ "" then it.note else exist.columns.note } }

/-- How `Import` counts a contact it has tried to create. -/
def Tally.created (tally : Tally) (email : String) : Res Contact × BookState → Tally × BookState
  | (.ok _, w) => ({ tally with saved := tally.saved + 1 }, w)
  | (.error e, w) =>
    if (Text.after "UNIQUE".toList e.text.toList).isSome then
      ({ tally with skipped := tally.skipped ++ [email] }, w)
    else ({ tally with invalid := tally.invalid + 1 }, w)

/-- How `Import` counts a contact it has tried to overwrite. -/
def Tally.updated (tally : Tally) (email : String) : Res Contact × BookState → Tally × BookState
  | (.ok _, w) => ({ tally with saved := tally.saved + 1 }, w)
  | (.error _, w) => ({ tally with skipped := tally.skipped ++ [email] }, w)

/-- `Import` at a new contact. -/
def importNew (owner : String) (dek : Option Nat) (k : Nat) (email : String) (it : ImpItem)
    (tally : Tally) (w : BookState) : Tally × BookState :=
  let (id, w) := newID P w
  tally.created email (Store.createAddressContact P A k
    { id := id
      ownerEmail := owner
      columns :=
        { email := email
          displayName := if trimSpace it.displayName = "" then email else trimSpace it.displayName
          givenName := trimSpace it.givenName
          familyName := trimSpace it.familyName
          note := trimSpace it.note
          source := "import" } } dek w)

/-- One turn of the loop of `Import`, for item number `k`. -/
def importItem (owner : String) (dek : Option Nat) (overwrite : Bool) (remaining : Nat) (k : Nat)
    (it : ImpItem) (tally : Tally) (w : BookState) : Tally × BookState :=
  let email := P.normalizeEmail it.email
  if email = "" then ({ tally with invalid := tally.invalid + 1 }, w)
  else
    match M.parseAddress email with
    | .error _ => ({ tally with invalid := tally.invalid + 1 }, w)
    | .ok _ =>
      match Store.getAddressContactByEmail P A k owner email dek w with
      | some exist =>
        if overwrite then
          tally.updated email (Store.updateAddressContact P A k (it.overwrite exist) dek w)
        else ({ tally with skipped := tally.skipped ++ [email] }, w)
      | none =>
        if remaining ≠ 0 ∧ tally.saved ≥ remaining then
          ({ tally with skipped := tally.skipped ++ [email] }, w)
        else importNew P A owner dek k email it tally w

/-- The loop of `Import`, from item number `k` on. -/
def importItems (owner : String) (dek : Option Nat) (overwrite : Bool) (remaining : Nat) :
    Nat → List ImpItem → Tally → BookState → Tally × BookState
  | _, [], tally, w => (tally, w)
  | k, it :: rest, tally, w =>
    let next := importItem P M A owner dek overwrite remaining k it tally w
    importItems owner dek overwrite remaining (k + 1) rest next.1 next.2

/-- `Import`. -/
def importContacts (sess? : Option BookSession) (mode : String) (file : ImportFile) (w : BookState) :
    BookResp × BookState :=
  match ownerFromCtx P sess? with
  | none => (.error (unauthorized "unauthorized session"), w)
  | some (owner, dek) =>
    match file with
    | .unparsed e => (.error (respondBodyParseError e
        ("file too large (max 5MB) or invalid multipart: " ++ e.text)), w)
    | .missing => (.error (badRequest "file field 'file' is required"), w)
    | .unreadable text => (.error (badRequest ("failed to read file: " ++ text)), w)
    | .empty => (.error (badRequest "empty file"), w)
    | .badCSV text => (.error (badRequest ("failed to parse csv: " ++ text)), w)
    | .items l =>
      if l.isEmpty then (.ok (.notImported "no valid contacts found"), w)
      else
        let cnt := Store.countAddressContacts P A owner w
        if 2000 ≤ cnt then (.error (badRequest "contact limit reached (2000)"), w)
        else
          let overwrite := P.normalizeEmail mode = "overwrite"
          let done := importItems P M A owner dek overwrite (2000 - cnt) 0 l {} w
          (.ok (.imported done.1.saved done.1.skipped done.1.invalid), done.2)

/-- The extension for the detected content type, if it is one of the allowed. -/
def avatarExt (contentType : String) : Option String :=
  if "image/jpeg".toList.isPrefixOf contentType.toList then some ".jpg"
  else if "image/png".toList.isPrefixOf contentType.toList then some ".png"
  else if "image/webp".toList.isPrefixOf contentType.toList then some ".webp"
  else if "image/gif".toList.isPrefixOf contentType.toList then some ".gif"
  else none

/-- What `PutAvatar` makes of its form: the file's extension, or an error answer. -/
def AvatarForm.ext : AvatarForm → Except Resp String
  | .unparsed e => .error (respondBodyParseError e "avatar too large (max 2MB) or invalid multipart")
  | .missing => .error (badRequest "file field 'file' is required")
  | .file size data =>
    if size > 2 * 2 ^ 20 then .error (badRequest "file too large (max 2MB)")
    else
      match data with
      | .error e => .error (badRequest ("failed to read file: " ++ e))
      | .ok [] => .error (badRequest "empty file")
      | .ok data =>
        match avatarExt (M.detectContentType data) with
        | none => .error (badRequest
            ("only jpg/png/webp/gif allowed, got " ++ M.detectContentType data))
        | some ext => .ok ext

/-- `PutAvatar`. -/
def putAvatar (sess? : Option BookSession) (id : String) (form : AvatarForm) (w : BookState) :
    BookResp × BookState :=
  match ownerFromCtx P sess? with
  | none => (.error (unauthorized "unauthorized session"), w)
  | some (owner, dek) =>
    match Store.getAddressContact P A owner id dek w with
    | .error e => (.error (internalServerError ("failed to get contact: " ++ e.text)), w)
    | .ok none => (.error (notFound "contact not found"), w)
    | .ok (some c) =>
      match form.ext M with
      | .error resp => (.error resp, w)
      | .ok ext =>
        match A.mkdirErr, A.writeErr with
        | some e, _ => (.error (internalServerError ("failed to create avatar dir: " ++ e)), w)
        | none, some e => (.error (internalServerError ("failed to save avatar: " ++ e)), w)
        | none, none =>
          respondContact "failed to update contact avatar: "
            (Store.updateAddressContact P A 0
              { c with avatarPath := avatarPath P owner c.id ext } dek w)

/-- `DeleteAvatar`. -/
def deleteAvatar (sess? : Option BookSession) (id : String) (w : BookState) :
    BookResp × BookState :=
  match ownerFromCtx P sess? with
  | none => (.error (unauthorized "unauthorized session"), w)
  | some (owner, dek) =>
    match Store.getAddressContact P A owner id dek w with
    | .error e => (.error (internalServerError ("failed to get contact: " ++ e.text)), w)
    | .ok none => (.error (notFound "contact not found"), w)
    | .ok (some c) =>
      if c.avatarPath ≠ "" then
        (.ok (.message "avatar deleted"),
          (Store.updateAddressContact P A 0 { c with avatarPath := "" } dek w).2)
      else (.ok (.message "avatar deleted"), w)

end Handlers

/-- The requests that write the address book. -/
inductive BookRequest where
  | create (body : Except BodyErr CreateContactRequest)
  | update (id : String) (clearNote : Bool) (body : Except BodyErr UpdateContactRequest)
  | delete (id : String)
  | fromEmail (body : Except BodyErr FromEmailRequest)
  | importFile (mode : String) (file : ImportFile)
  | putAvatar (id : String) (form : AvatarForm)
  | deleteAvatar (id : String)

/-- A request with its session and what happens around it. -/
structure BookCall where
  around : Around
  sess? : Option BookSession
  req : BookRequest

/-- One request. -/
def BookCall.step (P : Params) (M : Outside) (c : BookCall) (w : BookState) :
    BookResp × BookState :=
  match c.req with
  | .create body => createAddressContact P M c.around c.sess? body w
  | .update id clearNote body => updateAddressContact P M c.around c.sess? id clearNote body w
  | .delete id => deleteAddressContact P c.around c.sess? id w
  | .fromEmail body => createFromEmail P M c.around c.sess? body w
  | .importFile mode file => importContacts P M c.around c.sess? mode file w
  | .putAvatar id form => putAvatar P M c.around c.sess? id form w
  | .deleteAvatar id => deleteAvatar P c.around c.sess? id w

end E2Mail.Backend.AddressBook
